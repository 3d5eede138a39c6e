/-
What programs say that run at the same time. However the turns fall, each of them goes its own way,
as it might if it ran by itself with others in between (`Program.Dialogue`); all that is said is said
by one of them; and each result is there once, in whatever order they end (`Program.Gathers`).

Main statement: `Program.gathers_gather`.
-/
import CacheLayer.Program.Gather
import CacheLayer.Proofs.Program.Dialogue
import Mathlib.Data.List.Forall2
import Mathlib.Data.List.Perm.Basic

namespace CacheLayer.Program

variable {V α : Type} {P : Exchange V → Prop} {log log₁ log₂ : List (Exchange V)}
  {p p' : Program V α} {ps ps' : List (Program V α)} {a : α} {rs : List α}

/-! ## Turns -/

/-- What is to be run after a turn of a program. -/
def resumed : α ⊕ Program V α → Program V α := Sum.elim done id

/-- A turn and what is run after it are one way through the program. -/
theorem Dialogue.resume (hwait : ∀ time w, P ⟨time, .wait w, ()⟩) {q : α ⊕ Program V α}
    (hturn : p.untilWait.Dialogue P log₁ q) (hrest : (resumed q).Dialogue P log₂ a) :
    ∃ log, p.Dialogue P log a ∧ said log = said log₁ ++ said log₂ := by
  induction p generalizing log₁ with
  | done b =>
    obtain ⟨rfl, rfl⟩ := hturn.of_pure
    exact ⟨log₂, hrest, rfl⟩
  | ask q next ih =>
    cases q with
    | wait w =>
      obtain ⟨log₃, now, log₄, hnow, hlook, rfl⟩ := hturn.of_bind
      obtain ⟨log₅, m, log₆, hmemory, hgo, rfl⟩ := hlook.of_bind
      obtain ⟨_, -, rfl⟩ := hnow.of_lift
      obtain ⟨_, -, rfl⟩ := hmemory.of_lift
      rw [said_append, said_append, said_silent rfl, said_silent rfl]
      split at hgo
      · obtain ⟨log, hlog, hsaid⟩ := ih () hgo
        exact ⟨_, .ask (hwait 0 w) hlog, by rw [said_cons, hsaid, said_silent rfl]; rfl⟩
      · obtain ⟨rfl, rfl⟩ := hgo.of_pure
        exact ⟨log₂, hrest, rfl⟩
    | _ =>
      cases hturn with
      | @ask _ _ time b log₁ _ hP hturn =>
        obtain ⟨log, hlog, hsaid⟩ := ih _ hturn
        refine ⟨_, .ask hP hlog, ?_⟩
        rw [said_cons _ log, said_cons _ log₁, hsaid, List.append_assoc]

/-! ## Parts -/

/-- Each of the programs may go its own way, so that together they say this and end with these
results in some order. -/
def Gathers (P : Exchange V → Prop) (ps : List (Program V α)) (log : List (Exchange V))
    (rs : List α) : Prop :=
  ∃ parts : List (List (Exchange V) × α),
    List.Forall₂ (fun p part => p.Dialogue P part.1 part.2) ps parts ∧
      rs.Perm (parts.map Prod.snd) ∧ ∀ e, e ∈ said log ↔ ∃ part ∈ parts, e ∈ said part.1

namespace Gathers

theorem nil (h : said log = []) : Gathers P ([] : List (Program V α)) log [] := by
  refine ⟨[], .nil, .nil, fun e => ?_⟩
  rw [h]
  simp

theorem cons (hp : p.Dialogue P log₁ a) (h : Gathers P ps log₂ rs)
    (hsaid : said log = said log₁ ++ said log₂) : Gathers P (p :: ps) log (a :: rs) := by
  obtain ⟨parts, hparts, hresults, hevents⟩ := h
  refine ⟨(log₁, a) :: parts, .cons hp hparts, hresults.cons a, fun e => ?_⟩
  rw [hsaid, List.mem_append, hevents]
  simp

/-- It does not matter in which order the programs stand. -/
theorem perm (h : Gathers P ps log rs) (hps : ps.Perm ps') : Gathers P ps' log rs := by
  obtain ⟨parts, hparts, hresults, hevents⟩ := h
  obtain ⟨parts', hparts', hperm⟩ := List.perm_comp_forall₂ hps.symm hparts
  refine ⟨parts', hparts', hresults.trans (hperm.symm.map Prod.snd), fun e => ?_⟩
  rw [hevents]
  exact exists_congr fun part => and_congr_left' hperm.symm.mem_iff

/-- Only what is said matters. -/
theorem of_said (h : Gathers P ps log₁ rs) (hsaid : said log = said log₁) :
    Gathers P ps log rs := by
  obtain ⟨parts, hparts, hresults, hevents⟩ := h
  exact ⟨parts, hparts, hresults, hsaid ▸ hevents⟩

/-- A program that has to wait goes on with what is left of it. -/
theorem resume (hwait : ∀ time w, P ⟨time, .wait w, ()⟩)
    (hturn : p.untilWait.Dialogue P log₁ (.inr p')) (h : Gathers P (p' :: ps) log₂ rs)
    (hsaid : said log = said log₁ ++ said log₂) : Gathers P (p :: ps) log rs := by
  obtain ⟨parts, hparts, hresults, hevents⟩ := h
  cases hparts with
  | @cons _ part _ parts hfirst hrest =>
    obtain ⟨whole, hwhole, hsaid'⟩ := hturn.resume hwait hfirst
    refine ⟨(whole, part.2) :: parts, .cons hwhole hrest, hresults, fun e => ?_⟩
    rw [hsaid, List.mem_append, hevents]
    simp [hsaid', or_assoc]

end Gathers

/-! ## Loops -/

theorem gathers_inTurn (h : (inTurn ps).Dialogue P log rs) : Gathers P ps log rs := by
  induction ps generalizing log rs with
  | nil =>
    obtain ⟨rfl, rfl⟩ := h.of_pure
    exact .nil rfl
  | cons p ps ih =>
    obtain ⟨log₁, a, log₂, hp, hrest, rfl⟩ := h.of_bind
    obtain ⟨log₃, rest, log₄, hps, hreturn, rfl⟩ := hrest.of_bind
    obtain ⟨rfl, rfl⟩ := hreturn.of_pure
    refine .cons hp (ih hps) ?_
    rw [List.append_nil, said_append]

/-- Some of the queued programs begin. -/
theorem perm_begun (running waiting queued : List (Program V α)) (free : Nat) :
    (running ++ queued.take free ++ waiting ++ queued.drop free).Perm
      (running ++ waiting ++ queued) := by
  have hbegun : (queued.take free ++ waiting).Perm (waiting ++ queued.take free) :=
    List.perm_append_comm
  have hqueued := (hbegun.append_left running).append_right (queued.drop free)
  simpa only [List.append_assoc, List.take_append_drop] using hqueued

/-- Whoever has the turn, those that run, wait and are queued are the same programs. -/
theorem gathers_gatherFrom (hwait : ∀ time w, P ⟨time, .wait w, ()⟩) {width steps : Nat}
    {running waiting queued : List (Program V α)}
    (h : (gatherFrom width steps running waiting queued).Dialogue P log rs) :
    Gathers P (running ++ waiting ++ queued) log rs := by
  induction steps generalizing running waiting queued log rs with
  | zero => exact gathers_inTurn h
  | succ steps ih =>
    cases running with
    | cons p running =>
      obtain ⟨log₁, q, log₂, hturn, hrest, rfl⟩ := h.of_bind
      cases q with
      | inr p' =>
        refine Gathers.resume hwait hturn ((ih hrest).perm ?_) (said_append _ _)
        have hback : running ++ (waiting ++ [p']) ++ queued = running ++ waiting ++ p' :: queued := by
          simp
        rw [hback]
        exact List.perm_middle
      | inl a =>
        obtain ⟨log₃, rest, log₄, hothers, hreturn, rfl⟩ := hrest.of_bind
        obtain ⟨rfl, rfl⟩ := hreturn.of_pure
        obtain ⟨whole, hwhole, hsaid⟩ := hturn.resume hwait (.done a)
        refine .cons hwhole ((ih hothers).perm ?_) ?_
        · exact perm_begun running waiting queued _
        · rw [said_append, said_append, hsaid]
          simp [said]
    | nil =>
      rw [gatherFrom] at h
      split at h
      · next hnone =>
        rw [List.isEmpty_iff.1 hnone]
        exact gathers_inTurn h
      · obtain ⟨log₁, now, log₂, hnow, hrest, rfl⟩ := h.of_bind
        obtain ⟨log₃, ⟨⟩, log₄, hsleep, hawake, rfl⟩ := hrest.of_bind
        obtain ⟨log₅, time, log₆, htime, hlook, rfl⟩ := hawake.of_bind
        obtain ⟨log₇, m, log₈, hmemory, hgo, rfl⟩ := hlook.of_bind
        have hsaid : said (log₁ ++ (log₃ ++ (log₅ ++ (log₇ ++ log₈)))) = said log₈ := by
          obtain ⟨_, -, rfl⟩ := hnow.of_lift
          obtain ⟨_, -, rfl⟩ := hsleep.of_lift
          obtain ⟨_, -, rfl⟩ := htime.of_lift
          obtain ⟨_, -, rfl⟩ := hmemory.of_lift
          rfl
        rw [List.partition_eq_filter_filter] at hgo
        refine ((ih hgo).perm ?_).of_said hsaid
        exact (List.filter_append_perm _ waiting).append_right queued

/-- **Programs that run at the same time each go their own way.** Whatever the others do meanwhile,
and in whatever order they end, each result is there once, and nothing is said but by one of them. -/
theorem gathers_gather (hwait : ∀ time w, P ⟨time, .wait w, ()⟩) {width waits : Nat}
    (h : (gather width waits ps).Dialogue P log rs) : Gathers P ps log rs := by
  have hparts := gathers_gatherFrom hwait h
  rwa [List.append_nil, List.take_append_drop] at hparts

end CacheLayer.Program
