/-
What happens on a lane, as a list of events with the latest first. All that is
claimed of the lane is said about this list: which changes were issued and in
which order, which of them were sent to the source and how that ended, which
request the caller was at. A sending counts as that of the change its side has
in hand (`hand?`): the caller the one that it has issued since it made its
request, the worker the one that it has taken last.
-/
import Mathlib.Control.Monad.Basic
import CacheLayer.Proofs.Strategy.Call
import CacheLayer.Service

namespace CacheLayer.WriteBehind

/-- What a caller wants of an engine whose changes travel on a lane. -/
inductive Request (V : Type) where
  | call (c : Strategy.Call V)
  /-- Ends the strategy. Without `flush` the waiting changes are thrown away. -/
  | shutdown (flush : Bool)
  /-- Puts another strategy in force. -/
  | switch (policy : Policy)
  /-- Closes the engine. -/
  | close
  deriving DecidableEq

/-- One of the two who work on a lane. -/
inductive Side where
  | caller
  | worker
  deriving DecidableEq

/-- A change as it was sent to the source, with the answer. -/
structure Sending (V : Type) where
  number : Nat
  change : Change V
  answer : Except Error Unit
  deriving DecidableEq

/-- Something that happens on a lane. -/
inductive Event (V : Type) where
  | asked (r : Request V)
  | issued (number : Nat) (c : Change V)
  /-- The worker has taken a change out of the queue. -/
  | taken (number : Nat) (c : Change V)
  | sent (s : Sending V)
  /-- The row of a key was read. -/
  | loaded (key : String)
  | replied (r : Request V) (reply : Strategy.Reply V)
  deriving DecidableEq

/-- Events, the latest first. -/
abbrev History (V : Type) := List (Event V)

variable {V : Type}

namespace Request

/-- What the request does. -/
def program : Request V → Program V (Strategy.Reply V)
  | call c => c.program
  | shutdown flush => do
    let m ← Program.memory
    return .count (← Strategy.shutdown m.strategy flush)
  | switch policy => do
    Strategy.switch policy
    return .done
  | close => do
    Service.close
    return .done

/-- The change of the source that the request asks for. -/
def change? : Request V → Option (Change V)
  | call c => c.change?
  | _ => none

/-- When the request is over, the lane is closed. -/
def closes : Request V → Bool
  | call _ => false
  | _ => true

/-- The waiting changes are to be sent before the lane is closed. -/
def flushes : Request V → Bool
  | shutdown flush => flush
  | _ => true

theorem eq_of_flushes {r : Request V} (h : r.flushes = false) : r = .shutdown false := by
  cases r with
  | shutdown flush =>
    cases flush with
    | true => cases h
    | false => rfl
  | _ => cases h

theorem closes_of_change? {r : Request V} {c : Change V} (h : r.change? = some c) :
    r.closes = false := by
  cases r <;> first | rfl | cases h

end Request

/-- The change went through. -/
def Sending.succeeded (s : Sending V) : Bool := s.answer.toBool

namespace Event

/-- The change that was issued. -/
@[simp] def issue? : Event V → Option (Nat × Change V)
  | issued number c => some (number, c)
  | _ => none

/-- The change that was sent. -/
@[simp] def sending? : Event V → Option (Sending V)
  | sent s => some s
  | _ => none

end Event

/-- The change of a key that was issued last, if the latest comes first. -/
def newest? (key : String) (issues : List (Nat × Change V)) : Option (Nat × Change V) :=
  issues.find? fun x => x.2.key == key

/-- What a key holds if each change is made when it is issued. -/
def intended (original : KeyMap V) (key : String) (issues : List (Nat × Change V)) : Option V :=
  match newest? key issues with
  | some (_, c) => c.value
  | none => original.get? key

/-- What a key holds if each change is made when it is sent, and only if it goes through. -/
def written (original : KeyMap V) (key : String) (sendings : List (Sending V)) : Option V :=
  match sendings.find? fun s => s.change.key == key && s.succeeded with
  | some s => s.change.value
  | none => original.get? key

namespace History

/-- The changes that were issued, with their numbers. -/
def issues (h : History V) : List (Nat × Change V) := h.filterMap Event.issue?

/-- The changes that were sent. -/
def sendings (h : History V) : List (Sending V) := h.filterMap Event.sending?

/-- The change that the caller asks for in the request it has made last. -/
def wish? : History V → Option (Change V)
  | [] => none
  | .asked r :: _ => r.change?
  | _ :: h => wish? h

/-- The change that a side has in hand, or had last. -/
def hand? : Side → History V → Option (Nat × Change V)
  | _, [] => none
  | .caller, .asked _ :: _ => none
  | .caller, .issued number c :: _ => some (number, c)
  | .worker, .taken number c :: _ => some (number, c)
  | side, _ :: h => hand? side h

@[simp] theorem issues_cons (e : Event V) (h : History V) :
    issues (e :: h) = e.issue?.toList ++ issues h := by
  cases e <;> rfl

@[simp] theorem sendings_cons (e : Event V) (h : History V) :
    sendings (e :: h) = e.sending?.toList ++ sendings h := by
  cases e <;> rfl

theorem mem_issues_of_hand? {h : History V} {x : Nat × Change V}
    (hhand : hand? .caller h = some x) : x ∈ h.issues := by
  induction h with
  | nil => cases hhand
  | cons e h ih =>
    cases e with
    | asked r => cases hhand
    | issued number c =>
      cases hhand
      simp
    | _ => simpa using ih hhand

end History
end CacheLayer.WriteBehind
