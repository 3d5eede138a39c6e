/-
Typed values and their types. A `Datum` is a value together with what its
encoding depends on: the width of its integers, whether it is a list or a
record, which case of a choice it is. A `Schema` is the type that a reader
asks for.
-/
import CacheLayer.Json.Basic

namespace CacheLayer

inductive Width where
  | w8 | w16 | w32 | w64
  deriving DecidableEq, Repr

def Width.bits : Width → Nat
  | .w8 => 8
  | .w16 => 16
  | .w32 => 32
  | .w64 => 64

/-- The number fits an unsigned integer of this width. -/
def Width.holdsNat (w : Width) (n : Nat) : Bool := n < Nat.pow 2 w.bits

/-- The number fits a signed integer of this width. -/
def Width.holdsInt (w : Width) (i : Int) : Bool :=
  decide (-Int.pow 2 (w.bits - 1) ≤ i) && decide (i < Int.pow 2 (w.bits - 1))

inductive Datum where
  | unit
  | bool (b : Bool)
  | unsigned (w : Width) (n : Nat)
  | signed (w : Width) (i : Int)
  | char (c : Char)
  | text (s : String)
  | absent
  | present (d : Datum)
  | list (ds : List Datum)
  | pair (a b : Datum)
  /-- A map, its entries in the order of their keys. -/
  | table (entries : List (Datum × Datum))
  | record (fields : List (String × Datum))
  /-- A case of a choice, by its place among the cases, without a payload. -/
  | bare (index : Nat) (name : String)
  /-- A case of a choice with its payload. -/
  | carrying (index : Nat) (name : String) (payload : Datum)
  | any (j : Json)
  deriving Inhabited

mutual

inductive Schema where
  | unit
  | bool
  | unsigned (w : Width)
  | signed (w : Width)
  | char
  | text
  | optional (s : Schema)
  | list (s : Schema)
  | pair (a b : Schema)
  /-- A map from texts. -/
  | table (s : Schema)
  | record (fields : Fields)
  | choice (cases : Fields)
  /-- As the type of a case: the case has no payload. -/
  | bare
  | any

/-- The named parts of a record, or the cases of a choice, in order. -/
inductive Fields where
  | none
  | field (name : String) (s : Schema) (rest : Fields)

end

instance : Inhabited Schema := ⟨.unit⟩

namespace Datum

/-- Puts an entry of a map at the place of its key, in the stead of one with that key. -/
def tableOf (entries : List (String × Datum)) : Datum :=
  .table ((entries.foldl (fun acc (k, d) => KeyMap.put k d acc) []).map
    fun (k, d) => (.text k, d))

end Datum

def Fields.names : Fields → List String
  | .none => []
  | .field name _ rest => name :: rest.names

end CacheLayer
