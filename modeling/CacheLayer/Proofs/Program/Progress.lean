/-
How programs get on that take turns. Nothing makes a program take its steps; but if some moves lead
from wherever a run has come to where something has happened, no run is stuck before it (`MayReach`).
What a program waits for may be for others to do. A wait for a time is over when so much time has
passed (`Ask.IsTimed.over`), and an overflow keeps a program where it is for good.
-/
import CacheLayer.Proofs.Program.Along

namespace CacheLayer

variable {V α S M : Type}

/-! ## Reaching -/

/-- Some moves of a kind lead to where `P` holds. -/
def MayReach (move : S → M → S) (kind : M → Prop) (s : S) (P : S → Prop) : Prop :=
  ∃ moves : List M, (∀ m ∈ moves, kind m) ∧ P (moves.foldl move s)

namespace MayReach

variable {move : S → M → S} {kind : M → Prop} {s : S} {P Q : S → Prop}

theorem here (h : P s) : MayReach move kind s P := ⟨[], by rintro m ⟨⟩, h⟩

theorem step {m : M} (hm : kind m) (h : MayReach move kind (move s m) P) :
    MayReach move kind s P := by
  obtain ⟨moves, hmoves, hP⟩ := h
  exact ⟨m :: moves, List.forall_mem_cons.2 ⟨hm, hmoves⟩, hP⟩

theorem trans (h : MayReach move kind s P) (hPQ : ∀ t, P t → MayReach move kind t Q) :
    MayReach move kind s Q := by
  obtain ⟨moves, hmoves, hP⟩ := h
  obtain ⟨more, hmore, hQ⟩ := hPQ _ hP
  refine ⟨moves ++ more, fun m hm => ?_, by rwa [List.foldl_append]⟩
  rcases List.mem_append.1 hm with hm | hm
  · exact hmoves m hm
  · exact hmore m hm

theorem mono (h : MayReach move kind s P) (hPQ : ∀ t, P t → Q t) : MayReach move kind s Q :=
  h.trans fun t ht => here (hPQ t ht)

end MayReach

/-! ## Waits for a time -/

/-- If the request is a wait, time alone ends it. -/
def Ask.IsTimed : Ask V → Prop
  | .wait w => w.alarm.isSome = true
  | _ => True

/-- A request that has to wait for a time does not have to wait later. -/
theorem Ask.IsTimed.over {q : Ask V} (hq : q.IsTimed) (hfits : q.overflow? = none) (s : Scene V) :
    ∃ ms, q.hasToWait { s with world := s.world.later ms } = false := by
  cases q with
  | wait w =>
    obtain ⟨t, ht⟩ := Option.isSome_iff_exists.1 hq
    refine ⟨t, ?_⟩
    have hover : w.isOver (s.world.now + t) s.memory = true := by
      simp [Wait.isOver, ht, Nat.le_add_left t]
    simp [Ask.hasToWait, World.later, hover]
  | overflow o => cases hfits
  | _ => exact ⟨0, rfl⟩

namespace Program

/-- All waits of the program are for a time. -/
abbrev Timed (p : Program V α) : Prop := p.Each Ask.IsTimed

/-- A step leaves requests of the same kind to make. -/
theorem each_step {Q : Ask V → Prop} {p : Program V α} (h : p.Each Q) (s : Scene V) :
    (p.step s).1.Each Q := by
  cases p with
  | done a => exact h
  | ask q next =>
    cases hwait : q.hasToWait s with
    | true =>
      rw [step_waiting hwait]
      exact h
    | false =>
      rw [step_ready hwait]
      exact h.2 _

end Program
end CacheLayer
