/-
Checked arithmetic. A checked run ends at its first overflow. One that comes to none is the run that
does without the checks, and no other has a result (`runChecked_eq_ok_iff`), so what is known of runs
and courses is known of checked runs as far as nothing overflows. A machine goes on with a program as
a checked run does (`runChecked_advance`, `runChecked_of_ending`).
-/
import CacheLayer.Proofs.Program.Course

namespace CacheLayer

variable {V α β : Type} {s t : Scene V}

/-- The program is not asked to go on after an overflow. -/
def Ask.Fits (q : Ask V) : Prop := q.overflow? = none

theorem Ask.sleep_of_not_hasToWait {q : Ask V} (h : q.hasToWait s = false) : q.sleep s = s := by
  cases q with
  | wait w =>
    have hover : w.isOver s.world.now s.memory = true := by simpa [hasToWait] using h
    rw [sleep, if_pos hover]
  | _ => rfl

theorem Ask.fits_of_not_hasToWait {q : Ask V} (h : q.hasToWait s = false) : q.Fits := by
  cases q with
  | overflow o => cases h
  | _ => rfl

namespace Program

/-! ## Words -/

theorem word_self [DecidableEq α] (o : Overflow) (a : α) : (word o a a : Program V α) = pure a :=
  if_pos rfl

theorem word_of_ne [DecidableEq α] (o : Overflow) {result kept : α} (h : result ≠ kept) :
    (word o result kept : Program V α) = ask (.overflow o) fun _ => pure kept :=
  if_neg h

/-! ## Checked runs -/

variable {p : Program V α} {f : α → Program V β}

theorem runChecked_ask {q : Ask V} {next : Answer q → Program V α} (hq : q.Fits) (s : Scene V) :
    (ask q next).runChecked s =
      (next (q.perform (q.sleep s)).1).runChecked (q.perform (q.sleep s)).2 := by
  rw [runChecked, hq]

theorem runChecked_overflow {q : Ask V} {next : Answer q → Program V α} {o : Overflow}
    (hq : q.overflow? = some o) (s : Scene V) : (ask q next).runChecked s = (.error o, s) := by
  rw [runChecked, hq]

/-- What overflows does not go on. -/
theorem runChecked_bind_error {o : Overflow} (h : p.runChecked s = (.error o, t)) :
    (p >>= f).runChecked s = (.error o, t) := by
  induction p generalizing s with
  | done b => cases h
  | ask q next ih =>
    cases hq : q.overflow? with
    | some o' =>
      rw [runChecked_overflow hq] at h
      obtain ⟨⟨⟩, rfl⟩ := Prod.mk.inj h
      rw [bind_ask, runChecked_overflow hq]
    | none =>
      rw [runChecked_ask hq] at h
      rw [bind_ask, runChecked_ask hq]
      exact ih _ h

theorem runChecked_word_of_ne [DecidableEq α] {o : Overflow} {result kept : α}
    (h : result ≠ kept) (s : Scene V) : (word o result kept).runChecked s = (.error o, s) := by
  rw [word_of_ne o h]
  exact runChecked_overflow rfl s

/-- **A checked run has a result if nothing overflows in it, and then it is the run without the
checks.** -/
theorem runChecked_eq_ok_iff {a : α} :
    p.runChecked s = (.ok a, t) ↔ p.run s = (a, t) ∧ ∀ e ∈ p.trace s, e.ask.Fits := by
  induction p generalizing s with
  | done b => simp [runChecked, run, trace]
  | ask q next ih =>
    rw [trace, List.forall_mem_cons]
    cases hq : q.overflow? with
    | some o =>
      have hleaves : ¬ q.Fits := by simp [Ask.Fits, hq]
      simp [runChecked_overflow hq, hleaves]
    | none =>
      have hfits : q.Fits := hq
      rw [runChecked_ask hfits, run_ask, ih]
      simp [hfits]

theorem runChecked_of_trace (h : ∀ e ∈ p.trace s, e.ask.Fits) :
    p.runChecked s = (.ok (p.run s).1, (p.run s).2) :=
  runChecked_eq_ok_iff.2 ⟨rfl, h⟩

theorem runChecked_of_each (h : p.Each Ask.Fits) :
    p.runChecked s = (.ok (p.run s).1, (p.run s).2) :=
  runChecked_of_trace ((p.course_run s).forall_ask h)

/-! ## Machines -/

/-- A checked run goes by what a machine goes on to. -/
theorem runChecked_advance (p : Program V α) (s : Scene V) :
    (p.advance s).1.runChecked (p.advance s).2 = p.runChecked s := by
  induction p generalizing s with
  | done a => rfl
  | ask q next ih =>
    rw [advance]
    split
    · rfl
    · next hwait =>
      have hgoes : q.hasToWait s = false := by simpa using hwait
      rw [runChecked_ask (Ask.fits_of_not_hasToWait hgoes), Ask.sleep_of_not_hasToWait hgoes]
      exact ih _ _

/-- Where a machine sees a program end, its checked run ends. -/
theorem runChecked_of_ending {r : Except Overflow α} (h : p.ending? = some r) (s : Scene V) :
    p.runChecked s = (r, s) := by
  cases p with
  | done a =>
    obtain rfl := Option.some.inj h
    rfl
  | ask q next =>
    obtain ⟨o, hq, rfl⟩ := Option.map_eq_some_iff.1 h
    exact runChecked_overflow hq s

end Program
end CacheLayer
