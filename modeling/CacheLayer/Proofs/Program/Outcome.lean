/-
Actions opened up into programs, and what the smallest ones do when they run
alone: `run_pause` and `run_request` say that waiting moves the clock by exactly
the time asked for, and that a request is served after the latency of its source.
-/
import CacheLayer.Program.Run

namespace CacheLayer

variable {V α β : Type}

/-- The world some time later. -/
def World.later (w : World V) (ms : Nat) : World V := { w with now := w.now + ms }

namespace Action

@[simp] theorem outcome_pure (a : α) : (pure a : Action V α).outcome = pure (.ok a) := rfl

@[simp] theorem outcome_throw (e : Error) : (throw e : Action V α).outcome = pure (.error e) := rfl

@[simp] theorem outcome_ofExcept (r : Except Error α) :
    (ofExcept r : Action V α).outcome = pure r := rfl

@[simp] theorem outcome_mk (p : Program V (Except Error α)) :
    Action.outcome (ExceptT.mk p) = p := rfl

@[simp] theorem outcome_always (p : Program V α) :
    (always p).outcome = p >>= fun a => pure (.ok a) := by
  simp only [outcome, always, ExceptT.run_lift, bind_pure_comp]

/-- How an action goes on after an outcome: an error ends it. -/
def andThen (f : α → Action V β) : Except Error α → Program V (Except Error β)
  | .ok a => (f a).outcome
  | .error e => pure (.error e)

@[simp] theorem andThen_ok (f : α → Action V β) (a : α) : andThen f (.ok a) = (f a).outcome := rfl

@[simp] theorem andThen_error (f : α → Action V β) (e : Error) :
    andThen f (.error e) = pure (.error e) := rfl

theorem outcome_bind (a : Action V α) (f : α → Action V β) :
    (a >>= f).outcome = a.outcome >>= andThen f := by
  refine (ExceptT.run_bind a f).trans (bind_congr fun r => ?_)
  cases r <;> rfl

@[simp] theorem outcome_always_bind (p : Program V α) (f : α → Action V β) :
    (always p >>= f).outcome = p >>= fun a => (f a).outcome :=
  ExceptT.run_bind_lift p f

@[simp] theorem outcome_command (c : Store.Call) :
    (command c : Action V c.Reply).outcome = Program.lift (.command c) := rfl

end Action

namespace Program

@[simp] theorem run_pure (a : α) (s : Scene V) : (pure a : Program V α).run s = (a, s) := rfl

@[simp] theorem run_map (f : α → β) (p : Program V α) (s : Scene V) :
    (f <$> p).run s = (f (p.run s).1, (p.run s).2) := by
  rw [← bind_pure_comp, run_bind, run_pure]

@[simp] theorem run_memory (s : Scene V) : (memory : Program V (Memory V)).run s = (s.memory, s) :=
  rfl

@[simp] theorem run_now (s : Scene V) : (now : Program V Nat).run s = (s.world.now, s) := rfl

@[simp] theorem run_change (f : Memory V → Memory V) (s : Scene V) :
    (change f).run s = ((), { s with memory := f s.memory }) := rfl

@[simp] theorem run_note (n : Note V) (s : Scene V) :
    (note n).run s = ((), { s with world := { s.world with notes := n :: s.world.notes } }) := rfl

@[simp] theorem run_draw (count : Nat) (s : Scene V) :
    Program.run (α := Nat) (lift (.draw count)) s =
      (s.world.drawn, { s with world := { s.world with drawn := s.world.drawn + count } }) := rfl

@[simp] theorem run_command (c : Store.Call) (s : Scene V) :
    Program.run (α := Except Error c.Reply) (lift (.command c)) s =
      ((s.world.command c).1, { s with world := (s.world.command c).2 }) := rfl

/-- Without checks an overflow leaves what the word holds. -/
@[simp] theorem run_word [DecidableEq α] (o : Overflow) (result kept : α) (s : Scene V) :
    (word o result kept).run s = (kept, s) := by
  unfold word
  split
  · next h => exact Prod.ext h rfl
  · rfl

@[simp] theorem run_pause (ms : Nat) (s : Scene V) :
    (pause ms).run s = ((), { s with world := s.world.later ms }) := by
  by_cases h : ms = 0
  · subst h; rfl
  · have hover : ¬ s.world.now + ms ≤ s.world.now := by omega
    have hwait : Program.run (α := Unit)
        (lift (.wait ⟨some (s.world.now + ms), fun _ => false⟩)) s =
        ((), { s with world := s.world.later ms }) := by
      simp [lift, run, Ask.sleep, Ask.perform, Wait.isOver, World.later, hover]
    simpa [pause, h, run_bind] using hwait

end Program

namespace Action

attribute [simp] Program.run_bind

@[simp] theorem run_bind (a : Action V α) (f : α → Action V β) (s : Scene V) :
    (a >>= f).outcome.run s = (andThen f (a.outcome.run s).1).run (a.outcome.run s).2 := by
  rw [outcome_bind, Program.run_bind]

/-- An action goes on with what it has got. -/
theorem run_bind_ok {a : Action V α} {f : α → Action V β} {s t : Scene V} {x : α}
    (h : a.outcome.run s = (.ok x, t)) : (a >>= f).outcome.run s = (f x).outcome.run t := by
  rw [run_bind, h, andThen_ok]

theorem run_bind_error {a : Action V α} {f : α → Action V β} {s t : Scene V} {e : Error}
    (h : a.outcome.run s = (.error e, t)) : (a >>= f).outcome.run s = (.error e, t) := by
  rw [run_bind, h, andThen_error, Program.run_pure]

/-- What has not failed has not failed in any part. -/
theorem of_run_bind_ok {a : Action V α} {f : α → Action V β} {s t : Scene V} {y : β}
    (h : (a >>= f).outcome.run s = (.ok y, t)) :
    ∃ x u, a.outcome.run s = (.ok x, u) ∧ (f x).outcome.run u = (.ok y, t) := by
  rcases ha : a.outcome.run s with ⟨r, u⟩
  cases r with
  | ok x => exact ⟨x, u, rfl, (run_bind_ok ha).symm.trans h⟩
  | error e =>
    rw [run_bind_error ha] at h
    cases h

theorem run_always_bind (p : Program V α) (f : α → Action V β) (s : Scene V) :
    (always p >>= f).outcome.run s = (f (p.run s).1).outcome.run (p.run s).2 := by
  rw [outcome_always_bind, Program.run_bind]

@[simp] theorem run_map (f : α → β) (a : Action V α) (s : Scene V) :
    (f <$> a).outcome.run s = ((a.outcome.run s).1.map f, (a.outcome.run s).2) := by
  rw [outcome, ExceptT.run_map, Program.run_map]
  rfl

@[simp] theorem run_always (p : Program V α) (s : Scene V) :
    (always p).outcome.run s = (.ok (p.run s).1, (p.run s).2) := by
  rw [outcome_always, Program.run_bind, Program.run_pure]

@[simp] theorem run_ofExcept (r : Except Error α) (s : Scene V) :
    (ofExcept r : Action V α).outcome.run s = (r, s) := rfl

@[simp] theorem run_ignore (a : Action V α) (s : Scene V) :
    a.ignore.run s = ((), (a.outcome.run s).2) := by
  rw [ignore, Program.run_bind, Program.run_pure]

/-- A request is served when the latency of its kind is over. -/
theorem run_request (id : SourceId) (c : Source.Call V) (s : Scene V) :
    (request id c).outcome.run s =
      (((s.world.later ((s.world.sites id).latency c.method)).request id c).1,
        { s with
          world := ((s.world.later ((s.world.sites id).latency c.method)).request id c).2 }) := by
  change (Program.pause ((s.world.sites id).latency c.method) >>= fun _ =>
    Program.lift (Ask.request id c)).run s = _
  rw [Program.run_bind, Program.run_pause]
  rfl

end Action
end CacheLayer
