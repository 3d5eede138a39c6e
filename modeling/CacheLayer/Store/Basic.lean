/-
The store: entries with optional deadlines, and the open cursors of walks
through its keys. Times are milliseconds on a clock that the caller reads.

An entry whose deadline has been reached is dead. It may still lie in the store
until a command meets its key and purges it; `live?` is the view in which
a dead entry is simply not there, and every command answers by that view.
-/
import CacheLayer.Error
import CacheLayer.KeyMap
import CacheLayer.Text.Utf8

namespace CacheLayer

/-- What a key holds. -/
inductive Value where
  | bytes (b : Bytes)
  | list (items : List Bytes)
  | set (members : KeySet)
  | hash (fields : KeyMap Bytes)

/-- A value and the time at which it dies. -/
structure Entry where
  value : Value
  deadline : Option Nat

/-- The entry has reached its deadline. -/
def Entry.isDead (e : Entry) (now : Nat) : Bool :=
  match e.deadline with
  | none => false
  | some t => t ≤ now

/-- What is dead stays dead. -/
theorem Entry.isDead_of_le {e : Entry} {now later : Nat} (h : now ≤ later)
    (hd : e.isDead now = true) : e.isDead later = true := by
  cases ht : e.deadline with
  | none => simp [isDead, ht] at hd
  | some t =>
    simp only [isDead, ht, decide_eq_true_eq] at hd ⊢
    exact Nat.le_trans hd h

/-- An entry that lives for `life` from now on, or for good. -/
def Entry.born (value : Value) (life : Option Nat) (now : Nat) : Entry :=
  ⟨value, life.map (now + ·)⟩

/-- How long a key still lives. -/
inductive Remaining where
  | missing
  | persistent
  | expires (ms : Nat)
  deriving DecidableEq, Repr

/-- Entries, and the cursors of open walks, each with the last key it has passed. -/
structure Store where
  entries : KeyMap Entry
  cursors : List (Nat × String)
  /-- How many cursors have been opened. -/
  opened : Nat

namespace Store

def empty : Store := ⟨KeyMap.empty, [], 0⟩

instance : Inhabited Store := ⟨empty⟩

/-- What a command answers, and the store after it. -/
abbrev Outcome (α : Type) := Except Error α × Store

/-- The entry of a key, unless it is dead. -/
def live? (s : Store) (now : Nat) (key : String) : Option Entry :=
  (s.entries.get? key).filter fun e => !e.isDead now

/-- The keys of entries that are not dead, in increasing order. -/
def liveKeys (s : Store) (now : Nat) : List String :=
  (s.entries.filter fun _ e => !e.isDead now).keys

def size (s : Store) (now : Nat) : Nat := (s.liveKeys now).length

def put (s : Store) (key : String) (e : Entry) : Store :=
  { s with entries := s.entries.insert key e }

def drop (s : Store) (key : String) : Store :=
  { s with entries := s.entries.erase key }

/-- Drops the entry of a key if it is dead. -/
def purge (s : Store) (now : Nat) (key : String) : Store :=
  match s.entries.get? key with
  | some e => if e.isDead now then s.drop key else s
  | none => s

theorem live?_put_self (s : Store) (now : Nat) (key : String) (e : Entry) :
    (s.put key e).live? now key = if e.isDead now then none else some e := by
  cases h : e.isDead now <;> simp [live?, put, Option.filter, h]

theorem live?_put_other (s : Store) (now : Nat) {key other : String} (e : Entry)
    (hne : other ≠ key) : (s.put key e).live? now other = s.live? now other := by
  simp [live?, put, KeyMap.get?_insert_other _ _ hne]

theorem live?_drop_self (s : Store) (now : Nat) (key : String) :
    (s.drop key).live? now key = none := by
  simp [live?, drop]

theorem live?_drop_other (s : Store) (now : Nat) {key other : String} (hne : other ≠ key) :
    (s.drop key).live? now other = s.live? now other := by
  simp [live?, drop, KeyMap.get?_erase_other _ hne]

theorem get?_purge_self (s : Store) (now : Nat) (key : String) :
    (s.purge now key).entries.get? key = s.live? now key := by
  unfold purge live?
  cases h : s.entries.get? key with
  | none => simp [h]
  | some e =>
    by_cases hd : e.isDead now = true
    · simp [hd, drop, Option.filter]
    · simp [hd, h, Option.filter]

theorem get?_purge_other (s : Store) (now : Nat) {key other : String} (hne : other ≠ key) :
    (s.purge now key).entries.get? other = s.entries.get? other := by
  unfold purge
  split
  · split
    · exact KeyMap.get?_erase_other _ hne
    · rfl
  · rfl

/-- Purging shows in no live view. -/
theorem live?_purge (s : Store) (now later : Nat) (h : now ≤ later) (key other : String) :
    (s.purge now key).live? later other = s.live? later other := by
  by_cases hne : other = key
  · subst hne
    unfold live?
    rw [get?_purge_self]
    unfold live?
    cases s.entries.get? other with
    | none => rfl
    | some e =>
      by_cases hd : e.isDead now = true
      · simp [Option.filter, hd, Entry.isDead_of_le h hd]
      · simp [Option.filter, hd]
  · simp [live?, get?_purge_other s now hne]

end Store
end CacheLayer
