/-
Commands on whole values: reading, setting under conditions, deleting,
deadlines, and counters.

A counter is a decimal numeral in the bytes of its key. Adding to it keeps the
deadline, while every way of setting a value replaces it.
-/
import CacheLayer.Store.Basic
import CacheLayer.Text.Blank
import CacheLayer.Text.Numeral

namespace CacheLayer.Store

def get (s : Store) (now : Nat) (key : String) : Outcome (Option Bytes) :=
  let s := s.purge now key
  match s.entries.get? key with
  | none => (.ok none, s)
  | some e =>
    match e.value with
    | .bytes b => (.ok (some b), s)
    | _ => (.error (.wrongType key), s)

/-- Sets the bytes at a key, whatever it held. -/
def set (s : Store) (now : Nat) (key : String) (b : Bytes) (life : Option Nat) : Store :=
  s.put key (.born (.bytes b) life now)

/-- Deletes a key and tells whether it was live. -/
def delete (s : Store) (now : Nat) (key : String) : Bool × Store :=
  let s := s.purge now key
  (s.entries.contains key, s.drop key)

/-- Deletes keys and counts those that were live. -/
def deleteMany (s : Store) (now : Nat) : List String → Nat × Store
  | [] => (0, s)
  | key :: keys =>
    let (found, s) := s.delete now key
    let (count, s) := s.deleteMany now keys
    ((if found then 1 else 0) + count, s)

def has (s : Store) (now : Nat) (key : String) : Bool × Store :=
  let s := s.purge now key
  (s.entries.contains key, s)

/-- Gives a live key a new deadline. -/
def expire (s : Store) (now : Nat) (key : String) (life : Nat) : Bool × Store :=
  let s := s.purge now key
  match s.entries.get? key with
  | some e => (true, s.put key { e with deadline := some (now + life) })
  | none => (false, s)

def remaining (s : Store) (now : Nat) (key : String) : Remaining × Store :=
  let s := s.purge now key
  match s.entries.get? key with
  | some e =>
    match e.deadline with
    | some t => (.expires (t - now), s)
    | none => (.persistent, s)
  | none => (.missing, s)

/-- The number that the bytes of a counter spell, blanks around it allowed. -/
def counter? (b : Bytes) : Option Int := do
  let s ← Text.ofUtf8? b
  (Text.readInt64 (Text.trim s)).toOption

/-- The bytes of a counter. -/
def counterBytes (i : Int) : Bytes := Text.utf8 (Text.ofInt i)

/-- Adds to a counter; an absent one counts as zero. -/
def add (s : Store) (now : Nat) (key : String) (delta : Int) : Outcome Int :=
  let s := s.purge now key
  match s.entries.get? key with
  | none => (.ok delta, s.put key (.born (.bytes (counterBytes delta)) none now))
  | some e =>
    match e.value with
    | .bytes b =>
      match counter? b with
      | none => (.error (.backend ("Value at " ++ key ++ " is not an integer")), s)
      | some current =>
        let next := current + delta
        if Text.fitsInt64 next then
          (.ok next, s.put key { e with value := .bytes (counterBytes next) })
        else (.error (.backend ("Increment would overflow for " ++ key)), s)
    | _ => (.error (.wrongType key), s)

/-- Sets the bytes at a key if the key is live (`present`), or if it is not. -/
def setWhen (s : Store) (now : Nat) (present : Bool) (key : String) (b : Bytes)
    (life : Option Nat) : Bool × Store :=
  let s := s.purge now key
  if s.entries.contains key = present then (true, s.set now key b life) else (false, s)

/-- Sets the bytes at a key if it holds exactly the expected bytes. -/
def swap (s : Store) (now : Nat) (key : String) (expected b : Bytes) (life : Option Nat) :
    Bool × Store :=
  let s := s.purge now key
  match s.entries.get? key with
  | some e =>
    match e.value with
    | .bytes current => if current = expected then (true, s.set now key b life) else (false, s)
    | _ => (false, s)
  | none => (false, s)

/-- Drops every entry. Open cursors stay open. -/
def flush (s : Store) : Store := { s with entries := KeyMap.empty }

end CacheLayer.Store
