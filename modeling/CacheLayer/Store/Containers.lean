/-
Lists, sets and hashes. A container is created when the first item comes and
is gone with its last one; no key ever holds an empty one. Changing it keeps
the deadline. On a key of another type every command fails and changes nothing.

Ranges of a list are inclusive at both ends, and an index below zero counts
from the end.
-/
import CacheLayer.Store.Basic

namespace CacheLayer.Store

/-! ## Containers in general -/

/-- One kind of container: how it is seen in a value and kept in one. -/
structure Shape (C : Type) where
  see? : Value → Option C
  keep : C → Value
  none : C
  isNone : C → Bool

/-- Lists of bytes. -/
def listShape : Shape (List Bytes) where
  see?
    | .list items => some items
    | _ => Option.none
  keep := .list
  none := []
  isNone := List.isEmpty

/-- Sets of texts. -/
def setShape : Shape KeySet where
  see?
    | .set members => some members
    | _ => Option.none
  keep := .set
  none := KeyMap.empty
  isNone := KeyMap.isEmpty

/-- Bytes under the names of fields. -/
def hashShape : Shape (KeyMap Bytes) where
  see?
    | .hash fields => some fields
    | _ => Option.none
  keep := .hash
  none := KeyMap.empty
  isNone := KeyMap.isEmpty

/-- Lets `f` work on the container at a key. If there is none, `f` works on a new one when
`create` is set, and is not called otherwise. -/
def onContainer {C α : Type} (shape : Shape C) (create : Bool) (f : C → α × C)
    (s : Store) (now : Nat) (key : String) : Outcome (Option α) :=
  let s := s.purge now key
  match s.entries.get? key with
  | .none =>
    if create then
      let (a, c) := f shape.none
      (.ok (some a), if shape.isNone c then s else s.put key (.born (shape.keep c) .none now))
    else (.ok .none, s)
  | some e =>
    match shape.see? e.value with
    | .none => (.error (.wrongType key), s)
    | some c =>
      let (a, c) := f c
      (.ok (some a),
        if shape.isNone c then s.drop key else s.put key { e with value := shape.keep c })

/-- The answer when there was no container. -/
def orElse {α : Type} (absent : α) (o : Outcome (Option α)) : Outcome α :=
  (o.1.map (·.getD absent), o.2)

/-! ## Lists -/

/-- Pushes values to the front, one after the other, and tells the new length. -/
def pushFront (s : Store) (now : Nat) (key : String) (values : List Bytes) : Outcome Nat :=
  orElse 0 (onContainer listShape true (fun items =>
    let items := values.reverse ++ items
    (items.length, items)) s now key)

/-- Appends values and tells the new length. -/
def pushBack (s : Store) (now : Nat) (key : String) (values : List Bytes) : Outcome Nat :=
  orElse 0 (onContainer listShape true (fun items =>
    let items := items ++ values
    (items.length, items)) s now key)

/-- The first and the last index of a range within a list of `len` items. -/
def rangeBounds? (len : Nat) (start stop : Int) : Option (Nat × Nat) :=
  let start := if start < 0 then max (len + start) 0 else start
  let stop := if stop < 0 then len + stop else min stop (len - 1)
  if start > stop ∨ start ≥ len ∨ stop < 0 then .none else some (start.toNat, stop.toNat)

/-- The items of a range. -/
def slice (items : List Bytes) (start stop : Int) : List Bytes :=
  match rangeBounds? items.length start stop with
  | some (lo, hi) => (items.take (hi + 1)).drop lo
  | .none => []

def range (s : Store) (now : Nat) (key : String) (start stop : Int) : Outcome (List Bytes) :=
  orElse [] (onContainer listShape false (fun items => (slice items start stop, items)) s now key)

/-- Keeps only the items of a range. -/
def trim (s : Store) (now : Nat) (key : String) (start stop : Int) : Outcome Unit :=
  orElse () (onContainer listShape false (fun items => ((), slice items start stop)) s now key)

def length (s : Store) (now : Nat) (key : String) : Outcome Nat :=
  orElse 0 (onContainer listShape false (fun items => (items.length, items)) s now key)

def popFront (s : Store) (now : Nat) (key : String) : Outcome (Option Bytes) :=
  orElse .none (onContainer listShape false (fun items => (items.head?, items.tail)) s now key)

/-! ## Sets -/

/-- Adds members and counts those that are new. -/
def addMembers (s : Store) (now : Nat) (key : String) (members : List String) : Outcome Nat :=
  if members.isEmpty then (.ok 0, s)
  else
    orElse 0 (onContainer setShape true (fun set =>
      members.foldl (fun (count, set) m =>
        if set.contains m then (count, set) else (count + 1, set.add m)) (0, set)) s now key)

/-- Removes members and counts those that were there. -/
def removeMembers (s : Store) (now : Nat) (key : String) (members : List String) : Outcome Nat :=
  orElse 0 (onContainer setShape false (fun set =>
    members.foldl (fun (count, set) m =>
      if set.contains m then (count + 1, set.erase m) else (count, set)) (0, set)) s now key)

/-- The members of the set at a key, in increasing order. -/
def members (s : Store) (now : Nat) (key : String) : Outcome (List String) :=
  orElse [] (onContainer setShape false (fun set => (set.keys, set)) s now key)

def hasMember (s : Store) (now : Nat) (key member : String) : Outcome Bool :=
  orElse false (onContainer setShape false (fun set => (set.contains member, set)) s now key)

/-- Adds the sets at the keys to what has been gathered; the first key of another type fails. -/
def gather (s : Store) (now : Nat) (got : KeySet) : List String → Outcome KeySet
  | [] => (.ok got, s)
  | key :: keys =>
    match onContainer setShape false (fun set => (set, set)) s now key with
    | (.error e, s) => (.error e, s)
    | (.ok .none, s) => gather s now got keys
    | (.ok (some set), s) => gather s now (got.union set) keys

/-- The members of any of the sets at the keys, in increasing order. -/
def union (s : Store) (now : Nat) (keys : List String) : Outcome (List String) :=
  let (r, s) := gather s now KeyMap.empty keys
  (r.map KeyMap.keys, s)

/-! ## Hashes -/

/-- Sets a field and tells whether it is new. -/
def setField (s : Store) (now : Nat) (key field : String) (b : Bytes) : Outcome Bool :=
  orElse false (onContainer hashShape true (fun hash =>
    (!hash.contains field, hash.insert field b)) s now key)

def field (s : Store) (now : Nat) (key field : String) : Outcome (Option Bytes) :=
  orElse .none (onContainer hashShape false (fun hash => (hash.get? field, hash)) s now key)

def fields (s : Store) (now : Nat) (key : String) : Outcome (KeyMap Bytes) :=
  orElse KeyMap.empty (onContainer hashShape false (fun hash => (hash, hash)) s now key)

/-- Removes fields and counts those that were there. -/
def removeFields (s : Store) (now : Nat) (key : String) (names : List String) : Outcome Nat :=
  orElse 0 (onContainer hashShape false (fun hash =>
    names.foldl (fun (count, hash) f =>
      if hash.contains f then (count + 1, hash.erase f) else (count, hash)) (0, hash)) s now key)

end CacheLayer.Store
