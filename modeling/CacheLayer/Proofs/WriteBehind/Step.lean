/-
All that the two sides can do, as steps from one phase to another. A step says what becomes of the
lane and which event is added; it does not say what the other side does meanwhile, since that leaves
the phase alone. Whatever holds after each step holds of every run (`Sound.step`).
-/
import CacheLayer.Proofs.WriteBehind.Sound

namespace CacheLayer.WriteBehind

variable {V : Type}

namespace Phase

/-- Where a side stands when it is done with a change. -/
def finished (side : Side) (number : Nat) (c : Change V) : Phase V :=
  match side with
  | .caller => .settled number c
  | .worker => .releasing number c

/-- A side may do something here that does not matter to the lane. -/
def mayPause : Phase V → Bool
  | begun _ | settled _ _ => true
  | holding hd => hd.stage != .left
  | _ => false

end Phase

/-- A step of a side, from a phase and what is seen of a record to another. -/
inductive Step : Side → Phase V → Sight V → Phase V → Sight V → Prop where
  | quiet {side : Side} {φ : Phase V} {x : Sight V} (hφ : φ.mayPause = true) : Step side φ x φ x
  | loaded {side : Side} {φ : Phase V} {x : Sight V} (hφ : φ.mayPause = true) (key : String) :
      Step side φ x φ { x with history := .loaded key :: x.history }
  -- a change is applied
  | enterLine {side : Side} {x : Sight V} {number : Nat} {c : Change V} :
      Step side (.holding ⟨number, c, .taken⟩) x
        (.holding ⟨number, c, .waiting⟩) { x with lane := x.lane.enterLine number }
  | serve {side : Side} {x : Sight V} {number : Nat} {c : Change V}
      (hserving : x.lane.isServing number = true) :
      Step side (.holding ⟨number, c, .waiting⟩) x (.holding ⟨number, c, .serving⟩) x
  | clear {side : Side} {x : Sight V} {number : Nat} {c : Change V}
      (hlatest : x.lane.isLatest c.key number = true) :
      Step side (.holding ⟨number, c, .serving⟩) x (.holding ⟨number, c, .cleared⟩) x
  | skip {side : Side} {x : Sight V} {number : Nat} {c : Change V}
      (hlatest : x.lane.isLatest c.key number = false) :
      Step side (.holding ⟨number, c, .serving⟩) x (.holding ⟨number, c, .through⟩) x
  | send {side : Side} {x : Sight V} {number : Nat} {c : Change V} (answer : Except Error Unit)
      {rows : KeyMap V} (hrows : ∀ key, rows.get? key =
        if c.key = key ∧ answer.toBool = true then c.value else x.rows.get? key) :
      Step side (.holding ⟨number, c, .cleared⟩) x (.holding ⟨number, c, .through⟩)
        { x with history := .sent ⟨number, c, answer⟩ :: x.history, rows := rows }
  | leaveLine {side : Side} {x : Sight V} {number : Nat} {c : Change V} :
      Step side (.holding ⟨number, c, .through⟩) x
        (.holding ⟨number, c, .left⟩) { x with lane := x.lane.leaveLine }
  | finish {side : Side} {x : Sight V} {number : Nat} {c : Change V} :
      Step side (.holding ⟨number, c, .left⟩) x
        (.finished side number c) { x with lane := x.lane.finish c.key }
  -- the worker
  | called {x : Sight V} (hcalls : x.lane.calls = true) : Step .worker .resting x .called x
  | choose {x : Sight V} {number : Nat} {c : Change V}
      (hqueue : x.lane.queue.head? = some (number, c)) :
      Step .worker .called x (.chosen number c) x
  | turnAway {x : Sight V} (hleave : x.lane.stopping = true ∨ x.lane.queue = []) :
      Step .worker .called x .leaving x
  | pop {x : Sight V} {number : Nat} {c : Change V} :
      Step .worker (.chosen number c) x (.holding ⟨number, c, .taken⟩)
        { x with lane := x.lane.pop, history := .taken number c :: x.history }
  | release {x : Sight V} {number : Nat} {c : Change V} :
      Step .worker (.releasing number c) x .resting { x with lane := x.lane.release }
  | leave {x : Sight V} : Step .worker .leaving x .gone { x with lane := x.lane.leave }
  -- the caller
  | asked {x : Sight V} (hforce : x.inForce = true) (r : Request V) :
      Step .caller .idle x (.begun r) { x with history := .asked r :: x.history }
  | issue {x : Sight V} {r : Request V} {c : Change V} (hr : r.change? = some c) :
      Step .caller (.begun r) x (.holding ⟨x.lane.issued + 1, c, .taken⟩)
        { x with lane := x.lane.issue c.key, history := .issued (x.lane.issued + 1) c :: x.history }
  | findRoom {x : Sight V} {number : Nat} {c : Change V} (hroom : x.lane.hasRoom = true) :
      Step .caller (.holding ⟨number, c, .taken⟩) x (.admitted number c) x
  | push {x : Sight V} {number : Nat} {c : Change V} :
      Step .caller (.admitted number c) x
        (.settled number c) { x with lane := x.lane.push number c }
  | toEnding {x : Sight V} {r : Request V} (inForce : Bool) :
      Step .caller (.begun r) x (.ending r) { x with inForce := inForce }
  | toShutting {x : Sight V} {r : Request V} (ho : x.lane.isOpen = true) :
      Step .caller (.ending r) x (.shutting r x.lane.pending) x
  | shut {x : Sight V} {r : Request V} {count : Nat} :
      Step .caller (.shutting r count) x (.closing r count)
        { x with lane := if r.flushes then x.lane.close else x.lane.halt }
  | already {x : Sight V} {r : Request V} (ho : x.lane.isOpen = false) :
      Step .caller (.ending r) x (.closed r 0) x
  | flushed {x : Sight V} {r : Request V} {count : Nat} (hflush : r.flushes = true)
      (he : x.lane.ended = true) : Step .caller (.closing r count) x (.closed r count) x
  | halted {x : Sight V} {r : Request V} {count : Nat} (hflush : r.flushes = false)
      (he : x.lane.ended = true) : Step .caller (.closing r count) x (.deserted r) x
  | discard {x : Sight V} {r : Request V} :
      Step .caller (.deserted r) x
        (.closed r x.lane.queue.length) { x with lane := x.lane.discard }
  | replied {x : Sight V} {φ : Phase V} {r : Request V} {reply : Strategy.Reply V}
      (hφ : φ.Concludes r reply) :
      Step .caller φ x .idle { x with history := .replied r reply :: x.history }

/-- **Every step keeps the record sound**, whatever phase the other side is in. -/
theorem Sound.step {original : KeyMap V} {ph : Phases V} {side : Side} {φ φ' : Phase V}
    {x x' : Sight V} (h : Sound original ph x) (hs : Step side φ x φ' x') (hφ : ph side = φ) :
    Sound original (Function.update ph side φ') x' := by
  cases hs with
  | quiet =>
    rw [← hφ, Function.update_eq_self]
    exact h
  | loaded _ key =>
    rw [← hφ, Function.update_eq_self]
    exact h.loaded key
  | enterLine => exact h.enterLine hφ
  | serve hserving => exact h.serve hφ hserving
  | clear hlatest => exact h.clear hφ hlatest
  | skip hlatest => exact h.skip hφ hlatest
  | send answer hrows => exact h.send hφ answer hrows
  | leaveLine => exact h.leaveLine hφ
  | finish =>
    cases side with
    | caller => exact h.finishCaller hφ
    | worker => exact h.finishWorker hφ
  | called hcalls => exact h.called hφ hcalls
  | choose hqueue => exact h.choose hφ hqueue
  | turnAway hleave => exact h.turnAway hφ hleave
  | pop => exact h.pop hφ
  | release => exact h.release hφ
  | leave => exact h.leave hφ
  | asked hforce r => exact h.asked hφ hforce r
  | issue hr => exact h.issue hφ hr
  | findRoom hroom => exact h.findRoom hφ hroom
  | push => exact h.push hφ
  | toEnding inForce => exact h.toEnding hφ inForce
  | toShutting ho => exact h.toShutting hφ ho _
  | shut => exact h.shut hφ
  | already ho => exact h.already hφ ho
  | flushed hflush he => exact h.flushed hφ hflush he
  | halted hflush he => exact h.halted hφ hflush he
  | discard => exact h.discard hφ _
  | replied hconcludes => exact h.replied (hφ ▸ hconcludes)

end CacheLayer.WriteBehind
