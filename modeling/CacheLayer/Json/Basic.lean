/-
JSON values. A number is kept as the kind of number its text shows: a natural
number of at most 64 bits, a negative integer of at most 64 bits, or else a
real number, which is held by the bits of its double. Members of an object
stand in the order of their names, each name once.
-/
import CacheLayer.KeyMap

namespace CacheLayer

/-- A number as JSON texts write it. -/
inductive Number where
  /-- A natural number below 2 to the 64th. -/
  | natural (n : Nat)
  /-- An integer below zero, at least minus 2 to the 63rd. -/
  | negative (i : Int)
  /-- A double, by its bits. -/
  | real (bits : UInt64)
  deriving DecidableEq, Repr

inductive Json where
  | null
  | bool (b : Bool)
  | number (n : Number)
  | text (s : String)
  | array (items : List Json)
  | object (members : List (String × Json))
  deriving Inhabited

namespace Json

/-- Puts a member at the place of its name, in the stead of an earlier one of that name. -/
def addMember (members : List (String × Json)) (name : String) (value : Json) :
    List (String × Json) :=
  KeyMap.put name value members

end Json
end CacheLayer
