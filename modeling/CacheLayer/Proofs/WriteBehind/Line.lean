/-
Who stands in line for the source. A step lets a side into the line, out of it at its head, or leaves
the line alone (`Step.queues`). So the numbers in line are those of the sides that have come into it and
have not left it, each of them once (`Lined`).
-/
import CacheLayer.Proofs.WriteBehind.Play

namespace CacheLayer.WriteBehind

variable {V : Type} {original : KeyMap V} {ph : Phases V} {side : Side} {φ φ' : Phase V}
  {x x' : Sight V} {line : List Nat} {number : Nat} {c : Change V}

/-- The change stands in line. -/
def Stage.inLine : Stage → Bool
  | waiting | serving | cleared | through => true
  | _ => false

/-- The number under which a side stands in line. -/
def Phase.ticket? : Phase V → Option Nat
  | holding hd => if hd.stage.inLine then some hd.number else none
  | _ => none

theorem Phase.hand?_of_ticket? (h : φ.ticket? = some number) :
    ∃ hd, φ.hand? = some hd ∧ hd.number = number := by
  cases φ with
  | holding hd =>
    simp only [ticket?, Option.ite_none_right_eq_some, Option.some.injEq] at h
    exact ⟨hd, rfl, h.2⟩
  | _ => cases h

/-! ## Steps -/

/-- What a step does to the line. -/
inductive Queues (φ φ' : Phase V) (line : List Nat) : List Nat → Prop where
  | stays (h : φ'.ticket? = φ.ticket?) : Queues φ φ' line line
  | enters {number : Nat} {c : Change V} (hφ : φ = .holding ⟨number, c, .taken⟩)
      (hφ' : φ' = .holding ⟨number, c, .waiting⟩) : Queues φ φ' line (line ++ [number])
  | leaves {number : Nat} {c : Change V} (hφ : φ = .holding ⟨number, c, .through⟩)
      (hφ' : φ' = .holding ⟨number, c, .left⟩) : Queues φ φ' line line.tail

theorem Step.queues (hs : Step side φ x φ' x') : Queues φ φ' x.lane.line x'.lane.line := by
  cases hs with
  | enterLine => exact .enters rfl rfl
  | leaveLine => exact .leaves rfl rfl
  | finish =>
    rw [finish_eq]
    cases side <;> exact .stays rfl
  | @shut x r count => cases r.flushes <;> exact .stays rfl
  | discard =>
    rw [Lane.discard, sweep_eq]
    exact .stays rfl
  | @replied φ x r reply hconcludes =>
    cases φ <;> first | exact .stays rfl | cases hconcludes
  | _ => exact .stays rfl

/-- A side other than this one stands in line under the number. -/
def OtherIn (ph : Phases V) (side : Side) (n : Nat) : Prop := ∃ t ≠ side, (ph t).ticket? = some n

theorem exists_ticket {n : Nat} :
    (∃ t, (Function.update ph side φ' t).ticket? = some n) ↔
      φ'.ticket? = some n ∨ OtherIn ph side n := by
  constructor
  · rintro ⟨t, ht⟩
    by_cases hts : t = side
    · subst hts
      rw [Function.update_self] at ht
      exact .inl ht
    · rw [Function.update_of_ne hts] at ht
      exact .inr ⟨t, hts, ht⟩
  · rintro (hside | ⟨t, hts, ht⟩)
    · exact ⟨side, by rwa [Function.update_self]⟩
    · exact ⟨t, by rwa [Function.update_of_ne hts]⟩

/-- No other side has the number of the change in hand. -/
theorem Sound.not_otherIn (h : Sound original ph x) (hφ : ph side = .holding ⟨number, c, stage⟩) :
    ¬ OtherIn ph side number := by
  rintro ⟨t, hts, ht⟩
  obtain ⟨hd, hhd, hnumber⟩ := Phase.hand?_of_ticket? ht
  have hother : Function.update ph.hands side none t = some hd := by
    rw [Function.update_of_ne hts]
    exact hhd
  exact h.books.apart (Sound.hands_of_holding hφ) hd.entry (mem_owed hother _) hnumber

/-! ## The line -/

/-- Those stand in line who have come into it and have not left it, each of them once. -/
structure Lined (ph : Phases V) (line : List Nat) : Prop where
  once : line.Nodup
  mem : ∀ n, n ∈ line ↔ ∃ side, (ph side).ticket? = some n

theorem lined_start : Lined (Phases.start : Phases V) [] where
  once := .nil
  mem n := by
    refine ⟨fun hn => (List.not_mem_nil hn).elim, fun ⟨side, hside⟩ => ?_⟩
    cases side <;> cases hside

theorem Lined.mem_iff (hl : Lined ph line) (side : Side) (n : Nat) :
    n ∈ line ↔ (ph side).ticket? = some n ∨ OtherIn ph side n := by
  rw [hl.mem, ← exists_ticket, Function.update_eq_self]

theorem Lined.step (hl : Lined ph x.lane.line) (h : Sound original ph x)
    (hs : Step side (ph side) x φ' x') : Lined (Function.update ph side φ') x'.lane.line := by
  have hmem := hl.mem_iff side
  suffices hnew : x'.lane.line.Nodup ∧
      ∀ n, n ∈ x'.lane.line ↔ φ'.ticket? = some n ∨ OtherIn ph side n from
    ⟨hnew.1, fun n => (hnew.2 n).trans exists_ticket.symm⟩
  have hqueues := hs.queues
  generalize x'.lane.line = line' at hqueues
  cases hqueues with
  | stays hsame =>
    rw [hsame]
    exact ⟨hl.once, hmem⟩
  | @enters number c hφ hφ' =>
    have hout : (ph side).ticket? = none := by rw [hφ]; rfl
    have hin : φ'.ticket? = some number := by rw [hφ']; rfl
    have hfresh : number ∉ x.lane.line := fun hn =>
      h.not_otherIn hφ (((hmem number).1 hn).resolve_left (by rw [hout]; rintro ⟨⟩))
    refine ⟨List.nodup_append.2 ⟨hl.once, List.pairwise_singleton _ _, ?_⟩, fun n => ?_⟩
    · rintro a ha b hb rfl
      exact hfresh (List.mem_singleton.1 hb ▸ ha)
    rw [List.mem_append, List.mem_singleton, hmem, hout, hin, Option.some_inj]
    simp only [reduceCtorEq, false_or]
    rw [or_comm, eq_comm]
  | @leaves number c hφ hφ' =>
    have hin : (ph side).ticket? = some number := by rw [hφ]; rfl
    have hout : φ'.ticket? = none := by rw [hφ']; rfl
    obtain ⟨rest, hrest⟩ := List.head?_eq_some_iff.1
      (h.books.front side _ (Sound.hands_of_holding hφ) rfl)
    have honce := List.nodup_cons.1 (hrest ▸ hl.once)
    refine ⟨by rw [hrest]; exact honce.2, fun n => ?_⟩
    have hn := hmem n
    rw [hrest, List.mem_cons, hin, Option.some_inj] at hn
    rw [hrest, List.tail_cons, hout]
    simp only [reduceCtorEq, false_or]
    by_cases heq : number = n
    · subst heq
      exact ⟨fun hmem => absurd hmem honce.1, fun hother => absurd hother (h.not_otherIn hφ)⟩
    · rwa [or_iff_right (Ne.symm heq), or_iff_right heq] at hn

/-! ## Who is next -/

/-- If someone stands in line and the caller is not the first, the worker is. -/
theorem Lined.worker_first (hl : Lined ph line) (hin : (ph side).ticket? = some number)
    (hcaller : ∀ n, (ph .caller).ticket? = some n → line.head? ≠ some n) :
    ∃ n, (ph .worker).ticket? = some n ∧ line.head? = some n := by
  have hmem := hl.mem
  cases line with
  | nil => exact absurd ((hmem number).2 ⟨side, hin⟩) List.not_mem_nil
  | cons n rest =>
    obtain ⟨t, ht⟩ := (hmem n).1 List.mem_cons_self
    cases t with
    | worker => exact ⟨n, ht, rfl⟩
    | caller => exact absurd rfl (hcaller n ht)

end CacheLayer.WriteBehind
