/-
The lane on which changes travel to the source behind the caller's back. A
change gets the next number when it is issued. It then waits in a bounded queue
for the worker, or is applied by the caller if the queue is full or the lane
is closed. Whoever applies a change first stands in line for the source; the
head of the line has the source for itself.

A slot remembers of each key with unfinished changes how many there are and
which was issued last. A change that is not the last of its key is skipped.
-/
import CacheLayer.KeyMap

namespace CacheLayer

/-- A change of the source. -/
structure Change (V : Type) where
  key : String
  /-- The new value; `none` removes the key. -/
  value : Option V
  deriving DecidableEq

/-- What is known of a key with unfinished changes. -/
structure Slot where
  /-- The number of the change issued last. -/
  latest : Nat
  /-- How many changes are unfinished. -/
  outstanding : Nat
  deriving DecidableEq, Repr

/-- A lane of changes. -/
structure Lane (V : Type) where
  /-- How many changes may wait. -/
  capacity : Nat
  /-- The waiting changes with their numbers, the oldest first. -/
  queue : List (Nat × Change V)
  /-- Changes may still enter the queue. -/
  isOpen : Bool
  /-- The worker is to leave without taking another change. -/
  stopping : Bool
  /-- The worker has left. -/
  ended : Bool
  /-- How many changes wait, or are in the hands of the worker. -/
  pending : Nat
  slots : KeyMap Slot
  /-- How many changes were issued. -/
  issued : Nat
  /-- The numbers of those changes that want the source, first come first served. -/
  line : List Nat

namespace Lane

variable {V : Type}

/-- A lane with an empty queue for at least one change. -/
def fresh (capacity : Nat) : Lane V where
  capacity := max capacity 1
  queue := []
  isOpen := true
  stopping := false
  ended := false
  pending := 0
  slots := KeyMap.empty
  issued := 0
  line := []

instance : Inhabited (Lane V) := ⟨fresh 1⟩

/-- Issues a change of a key; its number is `issued` afterwards. -/
def issue (l : Lane V) (key : String) : Lane V :=
  let number := l.issued + 1
  let outstanding := ((l.slots.get? key).map Slot.outstanding).getD 0
  { l with issued := number, slots := l.slots.insert key ⟨number, outstanding + 1⟩ }

/-- The queue takes another change. -/
def hasRoom (l : Lane V) : Bool := l.isOpen && l.queue.length < l.capacity

def push (l : Lane V) (number : Nat) (c : Change V) : Lane V :=
  { l with queue := l.queue ++ [(number, c)], pending := l.pending + 1 }

def pop (l : Lane V) : Lane V := { l with queue := l.queue.tail }

/-- Gets in line for the source. -/
def enterLine (l : Lane V) (number : Nat) : Lane V := { l with line := l.line ++ [number] }

/-- The change has the source for itself. -/
def isServing (l : Lane V) (number : Nat) : Bool := l.line.head? == some number

/-- The head of the line leaves it. -/
def leaveLine (l : Lane V) : Lane V := { l with line := l.line.tail }

/-- No newer change of the key was issued. -/
def isLatest (l : Lane V) (key : String) (number : Nat) : Bool :=
  match l.slots.get? key with
  | some slot => slot.latest == number
  | none => true

/-- A change of a key is finished. -/
def finish (l : Lane V) (key : String) : Lane V :=
  match l.slots.get? key with
  | none => l
  | some slot =>
    if slot.outstanding ≤ 1 then { l with slots := l.slots.erase key }
    else { l with slots := l.slots.insert key { slot with outstanding := slot.outstanding - 1 } }

/-- The worker is through with a change. -/
def release (l : Lane V) : Lane V := { l with pending := l.pending - 1 }

/-- No change enters any more; the worker goes on to the end of the queue. -/
def close (l : Lane V) : Lane V := { l with isOpen := false }

/-- No change enters any more, and the worker leaves at once. -/
def halt (l : Lane V) : Lane V := { l with isOpen := false, stopping := true }

/-- The worker leaves. -/
def leave (l : Lane V) : Lane V := { l with ended := true }

/-- The worker has something to do: to take a change or to leave. -/
def calls (l : Lane V) : Bool :=
  !l.ended && (l.stopping || !l.queue.isEmpty || !l.isOpen)

/-- Throws the waiting changes away. -/
def discard (l : Lane V) : Lane V :=
  let swept := l.queue.foldl (fun l (_, c) => l.finish c.key) l
  { swept with queue := [], pending := l.pending - l.queue.length }

end Lane
end CacheLayer
