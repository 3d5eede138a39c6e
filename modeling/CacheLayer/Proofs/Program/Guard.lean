/-
Guards. A guard says which requests may be made in view of what the sources have answered before,
and what is known of memory all the while. That a program passes a guard is shown along its
requests, each for every answer that it may get; then no course of the program makes a request that
the guard forbids (`Guard.Passes.course`). What a guard allows once it allows for good, so several
programs at once pass it if each of them does (`Guard.safe_gather`).
-/
import CacheLayer.Program.Gather
import CacheLayer.Proofs.Program.Course

namespace CacheLayer

variable {V α β : Type}

namespace Ask

/-- What is known of memory is not changed by the request. -/
def Respects (knows : Memory V → Prop) : Ask V → Prop
  | update f => ∀ m, knows m → knows (f m)
  | _ => True

/-- The answer is no other than is known of memory. -/
def Tells (knows : Memory V → Prop) : (q : Ask V) → Answer q → Prop
  | update _, m => knows m
  | _, _ => True

/-- The log with an answer of a source; others are not kept. -/
def noted (q : Ask V) (time : Nat) (a : Answer q) (log : List (Exchange V)) : List (Exchange V) :=
  if q.toSource then log ++ [⟨time, q, a⟩] else log

theorem subset_noted (q : Ask V) (time : Nat) (a : Answer q) (log : List (Exchange V)) :
    log ⊆ q.noted time a log := by
  unfold noted
  split
  · exact List.subset_append_left _ _
  · exact List.Subset.refl _

theorem noted_subset {log log' : List (Exchange V)} (h : log ⊆ log') (q : Ask V) (time : Nat)
    (a : Answer q) : q.noted time a log ⊆ q.noted time a log' := by
  unfold noted
  split
  · exact List.append_subset.2 ⟨List.Subset.trans h (List.subset_append_left _ _),
      List.subset_append_right _ _⟩
  · exact h

theorem tells_of_mayGet {knows : Memory V → Prop} {q : Ask V} {s t : Scene V} {a : Answer q}
    (hq : q.Respects knows) (hs : knows s.memory) (h : q.MayGet s a t) :
    q.Tells knows a ∧ knows t.memory := by
  cases q with
  | update f =>
    obtain ⟨rfl, rfl⟩ := Prod.mk.inj h
    exact ⟨hs, hq _ hs⟩
  | latency | request | judge =>
    obtain ⟨sites, rfl⟩ := h
    exact ⟨trivial, hs⟩
  | wait w =>
    obtain ⟨-, rfl⟩ := Prod.mk.inj h
    refine ⟨trivial, ?_⟩
    simp only [sleep]
    split <;> exact hs
  | _ =>
    obtain ⟨-, rfl⟩ := Prod.mk.inj h
    exact ⟨trivial, hs⟩

end Ask

/-- Which requests may be made, and what is known of memory. -/
structure Guard (V : Type) where
  knows : Memory V → Prop
  /-- After such answers of the sources the request may be made. -/
  may : List (Exchange V) → Ask V → Prop
  mono : ∀ {log log' : List (Exchange V)} {q : Ask V}, log ⊆ log' → may log q → may log' q

namespace Guard

variable {g : Guard V} {p : Program V α} {log log' : List (Exchange V)}
  {P : α → List (Exchange V) → Prop}

/-- A request is allowed, and so is all that follows on any of its answers. -/
def rule (g : Guard V) (q : Ask V) (log : List (Exchange V))
    (K : Answer q → List (Exchange V) → Prop) : Prop :=
  q.Respects g.knows ∧ g.may log q ∧ ∀ time a, q.Tells g.knows a → K a (q.noted time a log)

/-- All requests of the program are allowed, and at its end `P` holds. -/
abbrev Passes (g : Guard V) (p : Program V α) (P : α → List (Exchange V) → Prop)
    (log : List (Exchange V)) : Prop :=
  p.Along g.rule P log

/-- The request is allowed at any time. -/
def Lets (g : Guard V) (q : Ask V) : Prop := q.Respects g.knows ∧ ∀ log, g.may log q

theorem Passes.mono (h : g.Passes p P log) {P' : α → List (Exchange V) → Prop}
    (hP : ∀ a log', P a log' → P' a log') : g.Passes p P' log :=
  Program.along_mono (fun _ _ _ _ hK hrule => ⟨hrule.1, hrule.2.1, fun time a ha =>
    hK _ _ (hrule.2.2 time a ha)⟩) h hP

/-- What has been passed after some answers is passed after more of them. -/
theorem Passes.weaken (h : g.Passes p P log) (hlog : log ⊆ log')
    (hP : ∀ a log log', log ⊆ log' → P a log → P a log') : g.Passes p P log' := by
  induction p generalizing log log' with
  | done a => exact hP a log log' hlog h
  | ask q next ih =>
    exact ⟨h.1, g.mono hlog h.2.1, fun time a ha =>
      ih a (h.2.2 time a ha) (Ask.noted_subset hlog q time a)⟩

/-- No answer is lost. -/
theorem Passes.grows (h : g.Passes p P log) :
    g.Passes p (fun a log' => log ⊆ log' ∧ P a log') log := by
  induction p generalizing log with
  | done a => exact ⟨List.Subset.refl log, h⟩
  | ask q next ih =>
    refine ⟨h.1, h.2.1, fun time a ha => (ih a (h.2.2 time a ha)).mono fun _ _ hP => ?_⟩
    exact ⟨List.Subset.trans (q.subset_noted time a log) hP.1, hP.2⟩

theorem passes_each (hp : p.Each g.Lets) (hP : ∀ a log', log ⊆ log' → P a log') :
    g.Passes p P log := by
  induction p generalizing log with
  | done a => exact hP a log (List.Subset.refl log)
  | ask q next ih =>
    refine ⟨hp.1.1, hp.1.2 log, fun time a _ => ih a (hp.2 a) fun a' log' hlog' => ?_⟩
    exact hP a' log' (List.Subset.trans (q.subset_noted time a log) hlog')

/-- **No course makes a request that the guard forbids.** -/
theorem Passes.course {s t : Scene V} {r : α} {course : List (Exchange V)}
    (h : g.Passes p P log) (hcourse : p.Course s course r t) (hs : g.knows s.memory) :
    P r (log ++ course.filter (·.ask.toSource)) ∧ g.knows t.memory ∧
      ∀ before e after, course = before ++ e :: after → g.may (log ++ before) e.ask := by
  induction hcourse generalizing log with
  | done a s =>
    refine ⟨?_, hs, fun before e after heq => ?_⟩
    · rw [List.filter_nil, List.append_nil]
      exact h
    · simp at heq
  | @ask q next s t u a course r hget rest ih =>
    obtain ⟨ha, ht⟩ := Ask.tells_of_mayGet h.1 hs hget
    obtain ⟨hP, hu, hmay⟩ := ih (h.2.2 s.world.now a ha) ht
    -- The guard has noted no more than the course holds so far, and less if it was no source.
    have hnoted (course : List (Exchange V)) : q.noted s.world.now a log ++ course ⊆
        log ++ (⟨s.world.now, q, a⟩ :: course) := by
      unfold Ask.noted
      split
      · rw [List.append_assoc]
        exact List.Subset.refl _
      · exact List.append_subset.2 ⟨List.subset_append_left _ _,
          List.Subset.trans (List.subset_cons_self _ _) (List.subset_append_right _ _)⟩
    refine ⟨?_, hu, fun before e after heq => ?_⟩
    · have hlog : q.noted s.world.now a log ++ course.filter (·.ask.toSource) =
          log ++ (⟨s.world.now, q, a⟩ :: course : List (Exchange V)).filter (·.ask.toSource) := by
        by_cases hq : q.toSource = true <;> simp [Ask.noted, hq]
      rwa [hlog] at hP
    · cases before with
      | nil =>
        obtain ⟨rfl, rfl⟩ := List.cons.inj heq
        exact (List.append_nil log).symm ▸ h.2.1
      | cons first before =>
        obtain ⟨rfl, rfl⟩ := List.cons.inj heq
        exact g.mono (hnoted before) (hmay before e after rfl)

/-! ## Parts of programs -/

theorem passes_then {a : Action V α} {f : α → Action V β}
    {P : Except Error β → List (Exchange V) → Prop}
    (h : g.Passes a.outcome (fun r log' => (∀ x, r = .ok x → g.Passes (f x).outcome P log') ∧
      ∀ e, r = .error e → P (.error e) log') log) : g.Passes (a >>= f).outcome P log := by
  rw [Action.outcome_bind]
  refine Program.along_then (h.mono fun r log' hr => ?_)
  cases r with
  | ok x => exact hr.1 x rfl
  | error e => exact hr.2 e rfl

theorem passes_always_then {p : Program V α} {f : α → Action V β}
    {P : Except Error β → List (Exchange V) → Prop}
    (h : g.Passes p (fun x log' => g.Passes (f x).outcome P log') log) :
    g.Passes (Action.always p >>= f).outcome P log := by
  rw [Action.outcome_always_bind]
  exact Program.along_then h

/-! ## Safety -/

/-- Every request of the program is allowed. -/
abbrev Safe (g : Guard V) (log : List (Exchange V)) (p : Program V α) : Prop :=
  g.Passes p (fun _ _ => True) log

theorem Safe.weaken (h : g.Safe log p) (hlog : log ⊆ log') : g.Safe log' p :=
  Passes.weaken h hlog fun _ _ _ _ _ => trivial

theorem safe_each (hp : p.Each g.Lets) (log : List (Exchange V)) : g.Safe log p :=
  passes_each hp fun _ _ _ => trivial

theorem safe_pure (a : α) : g.Safe log (pure a) := trivial

theorem safe_bind {f : α → Program V β} (hp : g.Safe log p)
    (hf : ∀ a log', log ⊆ log' → g.Safe log' (f a)) : g.Safe log (p >>= f) :=
  Program.along_then (hp.grows.mono fun a log' hlog => hf a log' hlog.1)

theorem safe_ask {q : Ask V} {f : Answer q → Program V β} (hq : g.Lets q)
    (hf : ∀ a log', log ⊆ log' → g.Safe log' (f a)) : g.Safe log (Program.lift q >>= f) :=
  ⟨hq.1, hq.2 log, fun time a _ => hf a _ (q.subset_noted time a log)⟩

theorem safe_then {a : Action V α} {f : α → Action V β} (ha : g.Safe log a.outcome)
    (hf : ∀ x log', log ⊆ log' → g.Safe log' (f x).outcome) : g.Safe log (a >>= f).outcome :=
  passes_then (ha.grows.mono fun _ log' hlog => ⟨fun x _ => hf x log' hlog.1, fun _ _ => trivial⟩)

theorem safe_always_then {p : Program V α} {f : α → Action V β} (hp : g.Safe log p)
    (hf : ∀ a log', log ⊆ log' → g.Safe log' (f a).outcome) :
    g.Safe log (Action.always p >>= f).outcome :=
  passes_always_then (hp.grows.mono fun a log' hlog => hf a log' hlog.1)

/-- Memory may have changed, but not what is known of it. -/
theorem passes_memory {f : Memory V → Action V α} {P : Except Error α → List (Exchange V) → Prop}
    (hmemory : g.Lets (.update id)) (h : ∀ m, g.knows m → g.Passes (f m).outcome P log) :
    g.Passes (Action.always Program.memory >>= f).outcome P log :=
  passes_always_then ⟨hmemory.1, hmemory.2 log, fun _ m hm => h m hm⟩

/-! ## Several programs at once -/

/-- Waiting, and looking at the clock and at memory, is always allowed. -/
structure LetsWait (g : Guard V) : Prop where
  now : g.Lets .now
  memory : g.Lets (.update id)
  wait : ∀ w, g.Lets (.wait w)

/-- What is left of a safe program when it is stopped at a wait is safe. -/
theorem passes_untilWait (hg : g.LetsWait) (h : g.Safe log p) :
    g.Passes p.untilWait (fun r log' => ∀ p', r = .inr p' → g.Safe log' p') log := by
  induction p generalizing log with
  | done a => exact fun p' hp' => by cases hp'
  | ask q next ih =>
    cases q with
    | wait w =>
      refine ⟨hg.now.1, hg.now.2 log, fun time now _ => ?_⟩
      refine ⟨hg.memory.1, hg.memory.2 log, fun time' m _ => ?_⟩
      change g.Passes (if w.isOver now m then (next ()).untilWait
        else pure (.inr (.ask (.wait w) next))) _ log
      split
      · exact ih () (h.2.2 time () trivial)
      · intro p' hp'
        cases hp'
        exact h
    | _ => exact ⟨h.1, h.2.1, fun time a ha => ih a (h.2.2 time a ha)⟩

theorem safe_inTurn {ps : List (Program V α)} (h : ∀ p ∈ ps, g.Safe log p) :
    g.Safe log (Program.inTurn ps) := by
  induction ps generalizing log with
  | nil => trivial
  | cons p ps ih =>
    obtain ⟨hp, hps⟩ := List.forall_mem_cons.1 h
    refine safe_bind hp fun a log' hlog => ?_
    exact safe_bind (ih fun p' hp' => (hps p' hp').weaken hlog) fun _ _ _ => trivial

theorem safe_gatherFrom (hg : g.LetsWait) (width steps : Nat)
    {running waiting queued : List (Program V α)}
    (h : ∀ p ∈ running ++ waiting ++ queued, g.Safe log p) :
    g.Safe log (Program.gatherFrom width steps running waiting queued) := by
  induction steps generalizing log running waiting queued with
  | zero =>
    rw [Program.gatherFrom]
    exact safe_inTurn h
  | succ steps ih =>
    simp only [List.mem_append] at h ih
    cases running with
    | cons p running =>
      rw [Program.gatherFrom]
      have hp := h p (.inl (.inl List.mem_cons_self))
      refine Program.along_then ((passes_untilWait hg hp).grows.mono fun r log' hr => ?_)
      obtain ⟨hlog, hrest⟩ := hr
      cases r with
      | inr p' =>
        -- What is left of the program waits from now on, and the others find more answers noted.
        refine ih fun p hp => ?_
        rcases hp with (hp | hp) | hp
        · exact (h p (.inl (.inl (List.mem_cons_of_mem _ hp)))).weaken hlog
        · rcases List.mem_append.1 hp with hp | hp
          · exact (h p (.inl (.inr hp))).weaken hlog
          · obtain rfl := List.mem_singleton.1 hp
            exact hrest _ rfl
        · exact (h p (.inr hp)).weaken hlog
      | inl a =>
        refine safe_bind (ih fun p hp => ?_) fun _ _ _ => trivial
        rcases hp with (hp | hp) | hp
        · rcases List.mem_append.1 hp with hp | hp
          · exact (h p (.inl (.inl (List.mem_cons_of_mem _ hp)))).weaken hlog
          · exact (h p (.inr (List.mem_of_mem_take hp))).weaken hlog
        · exact (h p (.inl (.inr hp))).weaken hlog
        · exact (h p (.inr (List.mem_of_mem_drop hp))).weaken hlog
    | nil =>
      rw [Program.gatherFrom]
      split
      · exact safe_inTurn fun p hp => h p (.inr hp)
      · refine safe_ask hg.now fun _ _ h₁ => safe_ask (hg.wait _) fun _ _ h₂ =>
          safe_ask hg.now fun _ _ h₃ => safe_ask hg.memory fun _ _ h₄ => ?_
        have hlog := List.Subset.trans h₁ (List.Subset.trans h₂ (List.Subset.trans h₃ h₄))
        simp only [List.partition_eq_filter_filter]
        refine ih fun p hp => (h p ?_).weaken hlog
        simp only [List.mem_filter] at hp
        rcases hp with (hp | hp) | hp
        · exact .inl (.inr hp.1)
        · exact .inl (.inr hp.1)
        · exact .inr hp

/-- Programs that are safe each by itself are so at the same time. -/
theorem safe_gather (hg : g.LetsWait) (width waits : Nat) {ps : List (Program V α)}
    (h : ∀ p ∈ ps, g.Safe log p) : g.Safe log (Program.gather width waits ps) := by
  refine safe_gatherFrom hg _ _ fun p hp => h p ?_
  rw [List.append_nil, List.take_append_drop] at hp
  exact hp

/-- The guard that lets requests of one kind pass. -/
def ofKind (Q : Ask V → Prop) : Guard V where
  knows _ := True
  may _ q := Q q
  mono _ hq := hq

theorem safe_ofKind {Q : Ask V → Prop} (h : p.Each Q) : (ofKind Q).Safe log p := by
  refine passes_each (Program.each_mono (fun q hq => ⟨?_, fun _ => hq⟩) h) fun _ _ _ => trivial
  cases q <;> first | exact trivial | exact fun _ _ => trivial

theorem each_of_safe {Q : Ask V → Prop} (h : (ofKind Q).Safe log p) : p.Each Q := by
  induction p generalizing log with
  | done a => trivial
  | ask q next ih =>
    refine ⟨h.2.1, fun a => ih a (h.2.2 0 a ?_)⟩
    cases q <;> trivial

/-- Programs whose requests are of one kind make no others at the same time, except to wait. -/
theorem each_gather {Q : Ask V → Prop} (hnow : Q .now) (hmemory : Q (.update id))
    (hwait : ∀ w, Q (.wait w)) (width waits : Nat) {ps : List (Program V α)}
    (h : ∀ p ∈ ps, p.Each Q) : (Program.gather width waits ps).Each Q := by
  have hlets : (ofKind Q).LetsWait :=
    ⟨⟨trivial, fun _ => hnow⟩, ⟨fun _ _ => trivial, fun _ => hmemory⟩,
      fun w => ⟨trivial, fun _ => hwait w⟩⟩
  have hsafe : (ofKind Q).Safe [] (Program.gather width waits ps) :=
    safe_gather hlets width waits fun p hp => safe_ofKind (h p hp)
  exact each_of_safe hsafe

end Guard
end CacheLayer
