/-
What a program may do before sources of which nothing is known. A source may give any answer at any
time, whatever it has said before; all other requests are answered as the scene has it. A course is
one way in which this may go, with all requests and their answers in order. Like a run, it goes on
after an overflow with what the word holds.

What a program does by itself is one of its courses (`course_run`), and where no source is asked
there is no other (`Course.eq_run`). However the sources make up their answers, there is a course in
which they give them (`exists_course`), and it can be computed (`runBefore`). A course of a program in
parts falls into courses of the parts (`Course.of_bind`, `Action.course_then`). A key that all requests
spare has its entry until that dies (`Course.spared`).
-/
import CacheLayer.Proofs.Program.Serving
import CacheLayer.Proofs.Store.Lifetime

namespace CacheLayer

variable {V α β : Type}

/-- A request at a time, with its answer. -/
structure Exchange (V : Type) where
  time : Nat
  ask : Ask V
  answer : Answer ask

namespace Ask

/-- The request is put to a source. -/
def toSource : Ask V → Bool
  | latency _ _ | request _ _ | judge _ _ => true
  | _ => false

/-- The answer that a request may get, and the scene after it. -/
def MayGet (q : Ask V) (s : Scene V) (a : Answer q) (t : Scene V) : Prop :=
  if q.toSource then ∃ sites, t = { s with world := { s.world with sites := sites } }
  else q.perform (q.sleep s) = (a, t)

theorem mayGet_perform (q : Ask V) (s : Scene V) :
    q.MayGet s (q.perform (q.sleep s)).1 (q.perform (q.sleep s)).2 := by
  unfold MayGet
  cases q with
  | latency id m => exact ⟨s.world.sites, rfl⟩
  | request id c => exact ⟨_, rfl⟩
  | judge id v => exact ⟨s.world.sites, rfl⟩
  | _ => rfl

theorem keeps_of_mayGet {β : Type} {g : Memory V → β} {q : Ask V} {s t : Scene V} {a : Answer q}
    (hq : q.Keeps g) (h : q.MayGet s a t) : g t.memory = g s.memory := by
  unfold MayGet at h
  split at h
  · obtain ⟨sites, rfl⟩ := h
    rfl
  · have hkept := Ask.perform_keeps hq s
    rw [h] at hkept
    exact hkept

theorem steady_of_mayGet {q : Ask V} {s t : Scene V} {a : Answer q} (hs : s.world.Steady)
    (h : q.MayGet s a t) : t.world.Steady := by
  cases q with
  | latency | request | judge =>
    obtain ⟨sites, rfl⟩ := h
    exact hs
  | command c =>
    obtain ⟨-, rfl⟩ := Prod.mk.inj h
    change (s.world.command c).2.Steady
    rw [hs.command]
    exact hs
  | health =>
    obtain ⟨-, rfl⟩ := Prod.mk.inj h
    change s.world.checkHealth.2.Steady
    unfold World.checkHealth
    split <;> exact hs
  | wait w =>
    obtain ⟨-, rfl⟩ := Prod.mk.inj h
    simp only [sleep]
    split <;> exact hs
  | _ =>
    obtain ⟨-, rfl⟩ := Prod.mk.inj h
    exact hs

theorem now_le_of_mayGet {q : Ask V} {s t : Scene V} {a : Answer q} (h : q.MayGet s a t) :
    s.world.now ≤ t.world.now := by
  cases q with
  | latency | request | judge =>
    obtain ⟨sites, rfl⟩ := h
    exact Nat.le_refl _
  | command c =>
    obtain ⟨-, rfl⟩ := Prod.mk.inj h
    change s.world.now ≤ (s.world.command c).2.now
    unfold World.command
    split <;> exact Nat.le_refl _
  | health =>
    obtain ⟨-, rfl⟩ := Prod.mk.inj h
    change s.world.now ≤ s.world.checkHealth.2.now
    unfold World.checkHealth
    split <;> exact Nat.le_refl _
  | wait w =>
    obtain ⟨-, rfl⟩ := Prod.mk.inj h
    simp only [sleep]
    split
    · exact Nat.le_refl _
    · exact Nat.le_max_left _ _
  | _ =>
    obtain ⟨-, rfl⟩ := Prod.mk.inj h
    exact Nat.le_refl _

/-- Only commands change the store. -/
theorem store_of_mayGet {q : Ask V} {s t : Scene V} {a : Answer q} (hq : ∀ c, q ≠ .command c)
    (h : q.MayGet s a t) : t.world.store = s.world.store := by
  cases q with
  | latency | request | judge =>
    obtain ⟨sites, rfl⟩ := h
    rfl
  | command c => exact absurd rfl (hq c)
  | health =>
    obtain ⟨-, rfl⟩ := Prod.mk.inj h
    change s.world.checkHealth.2.store = s.world.store
    unfold World.checkHealth
    split <;> rfl
  | wait w =>
    obtain ⟨-, rfl⟩ := Prod.mk.inj h
    simp only [sleep]
    split <;> rfl
  | _ =>
    obtain ⟨-, rfl⟩ := Prod.mk.inj h
    rfl

theorem serving_of_mayGet {q : Ask V} {s t : Scene V} {a : Answer q} (hs : s.Serving)
    (h : q.MayGet s a t) : t.Serving := by
  unfold MayGet at h
  split at h
  · obtain ⟨sites, rfl⟩ := h
    exact ⟨hs.steady, hs.filled⟩
  · have hserving := serving_perform (serving_sleep hs q) q
    rwa [h] at hserving

/-- While no command is sent, entries only grow old. -/
theorem live?_of_mayGet {q : Ask V} {s t : Scene V} {a : Answer q} (hq : ∀ c, q ≠ .command c)
    (h : q.MayGet s a t) (key : String) :
    t.live? key = (s.live? key).filter fun e => !e.isDead t.world.now := by
  rw [Scene.live?, store_of_mayGet hq h]
  exact Store.live?_later _ (now_le_of_mayGet h) _

/-- The request does not touch what the key holds, but it may take time. -/
def Spares (key : String) : Ask V → Prop
  | .command c => c.asks = true ∨ c.spares key = true
  | _ => True

theorem Spares.live? {q : Ask V} {s t : Scene V} {a : Answer q} {key : String}
    (hq : q.Spares key) (hs : s.Serving) (h : q.MayGet s a t) :
    t.live? key = (s.live? key).filter fun e => !e.isDead t.world.now := by
  cases q with
  | command c =>
    obtain ⟨-, rfl⟩ := Prod.mk.inj h
    change (s.world.command c).2.store.live? (s.world.command c).2.now key =
      (s.live? key).filter fun e => !e.isDead (s.world.command c).2.now
    rw [hs.steady.command]
    refine Eq.trans ?_ (Store.live?_later s.world.store (Nat.le_refl _) key)
    rcases hq with hasks | hspares
    · exact Store.live?_asked hs.filled hasks key
    · exact Store.live?_spared _ _ hspares
  | _ => exact live?_of_mayGet (by rintro c ⟨⟩) h key

end Ask

namespace Program

/-- The program may go this way: it makes these requests and gets these answers, and it ends with
this result in this scene. -/
inductive Course : Program V α → Scene V → List (Exchange V) → α → Scene V → Prop where
  | done (a : α) (s : Scene V) : Course (.done a) s [] a s
  | ask {q : Ask V} {next : Answer q → Program V α} {s t u : Scene V} {a : Answer q}
      {log : List (Exchange V)} {r : α} (hget : q.MayGet s a t) (rest : Course (next a) t log r u) :
      Course (.ask q next) s (⟨s.world.now, q, a⟩ :: log) r u

/-- The requests of the program with the answers that it gets from the scene. -/
def trace : Program V α → Scene V → List (Exchange V)
  | .done _, _ => []
  | .ask q next, s =>
    ⟨s.world.now, q, (q.perform (q.sleep s)).1⟩ ::
      trace (next (q.perform (q.sleep s)).1) (q.perform (q.sleep s)).2

/-- What the program does by itself is one of its courses. -/
theorem course_run (p : Program V α) (s : Scene V) :
    p.Course s (p.trace s) (p.run s).1 (p.run s).2 := by
  induction p generalizing s with
  | done a => exact .done a s
  | ask q next ih => exact .ask (q.mayGet_perform s) (ih _ _)

/-- The sources give the answers that are said, in view of all that has been asked until then. -/
def Heeds (answer : List (Exchange V) → (q : Ask V) → Answer q) :
    List (Exchange V) → List (Exchange V) → Prop
  | _, [] => True
  | before, e :: log =>
    (e.ask.toSource = true → e.answer = answer before e.ask) ∧ Heeds answer (before ++ [e]) log

/-- The answer to a request when the sources give the answers that are said, and the scene after. -/
def answered (answer : List (Exchange V) → (q : Ask V) → Answer q) (before : List (Exchange V))
    (s : Scene V) (q : Ask V) : Answer q × Scene V :=
  if q.toSource then (answer before q, s) else q.perform (q.sleep s)

/-- What the program does when the sources give the answers that are said. -/
def runBefore (answer : List (Exchange V) → (q : Ask V) → Answer q) :
    Program V α → Scene V → List (Exchange V) → List (Exchange V) × α × Scene V
  | .done a, s, _ => ([], a, s)
  | .ask q next, s, before =>
    let x := answered answer before s q
    let rest := runBefore answer (next x.1) x.2 (before ++ [⟨s.world.now, q, x.1⟩])
    (⟨s.world.now, q, x.1⟩ :: rest.1, rest.2)

/-- This is one of its courses. -/
theorem course_runBefore (answer : List (Exchange V) → (q : Ask V) → Answer q) (p : Program V α)
    (s : Scene V) (before : List (Exchange V)) :
    p.Course s (p.runBefore answer s before).1 (p.runBefore answer s before).2.1
        (p.runBefore answer s before).2.2 ∧
      Heeds answer before (p.runBefore answer s before).1 := by
  induction p generalizing s before with
  | done a => exact ⟨.done a s, trivial⟩
  | ask q next ih =>
    have hget : q.MayGet s (answered answer before s q).1 (answered answer before s q).2 ∧
        (q.toSource = true → (answered answer before s q).1 = answer before q) := by
      unfold Ask.MayGet answered
      split
      · exact ⟨⟨s.world.sites, rfl⟩, fun _ => rfl⟩
      · exact ⟨rfl, fun hq => absurd hq ‹_›⟩
    obtain ⟨hrest, hheeds⟩ := ih (answered answer before s q).1 (answered answer before s q).2
      (before ++ [⟨s.world.now, q, (answered answer before s q).1⟩])
    exact ⟨.ask hget.1 hrest, hget.2, hheeds⟩

/-- Whatever the sources make up their answers from, they can give them. -/
theorem exists_course (answer : List (Exchange V) → (q : Ask V) → Answer q) (p : Program V α)
    (s : Scene V) (before : List (Exchange V)) :
    ∃ log r t, p.Course s log r t ∧ Heeds answer before log :=
  ⟨_, _, _, p.course_runBefore answer s before⟩

/-- Every source has given the answer that is said, in view of something. -/
theorem exists_of_heeds {answer : List (Exchange V) → (q : Ask V) → Answer q}
    {before log : List (Exchange V)} (h : Heeds answer before log) :
    ∀ e ∈ log, e.ask.toSource = true → ∃ before, e.answer = answer before e.ask := by
  induction log generalizing before with
  | nil => exact List.forall_mem_nil _
  | cons e log ih => exact List.forall_mem_cons.2 ⟨fun hq => ⟨before, h.1 hq⟩, ih h.2⟩

/-- Sources that answer regardless of what has been asked before. -/
theorem heeds_const {answer : (q : Ask V) → Answer q} {before log : List (Exchange V)}
    (h : Heeds (fun _ => answer) before log) :
    ∀ e ∈ log, e.ask.toSource = true → e.answer = answer e.ask := by
  intro e he hq
  obtain ⟨-, hanswer⟩ := exists_of_heeds h e he hq
  exact hanswer

namespace Course

variable {p : Program V α} {s t u : Scene V} {log : List (Exchange V)} {r : α}

/-- Where no source is asked there is only one course. -/
theorem eq_run (h : p.Course s log r t) (hp : p.Each fun q => q.toSource = false) :
    p.run s = (r, t) := by
  induction h with
  | done a s => rfl
  | @ask q next s t u a log r hget rest ih =>
    unfold Ask.MayGet at hget
    rw [hp.1, if_neg Bool.false_ne_true] at hget
    rw [run_ask, hget]
    exact ih (hp.2 a)

/-- What is asked in a course is of the kind of which all requests are. -/
theorem forall_ask {Q : Ask V → Prop} (h : p.Course s log r t) (hp : p.Each Q) :
    ∀ e ∈ log, Q e.ask := by
  induction h with
  | done a s => exact List.forall_mem_nil _
  | ask hget rest ih => exact List.forall_mem_cons.2 ⟨hp.1, ih (hp.2 _)⟩

/-- What nothing spoils that is asked is not spoiled. -/
theorem unspoiled {Q : Ask V → Prop} {P : Scene V → Prop}
    (hstep : ∀ {q : Ask V} {s t : Scene V} {a : Answer q}, Q q → q.MayGet s a t → P s → P t)
    (h : p.Course s log r t) (hlog : ∀ e ∈ log, Q e.ask) (hP : P s) : P t := by
  induction h with
  | done a s => exact hP
  | ask hget rest ih =>
    obtain ⟨hq, hlog⟩ := List.forall_mem_cons.1 hlog
    exact ih hlog (hstep hq hget hP)

/-- What none of its requests spoils, a program does not spoil. -/
theorem preserves {Q : Ask V → Prop} {P : Scene V → Prop}
    (hstep : ∀ {q : Ask V} {s t : Scene V} {a : Answer q}, Q q → q.MayGet s a t → P s → P t)
    (h : p.Course s log r t) (hp : p.Each Q) (hP : P s) : P t :=
  h.unspoiled hstep (h.forall_ask hp) hP

theorem steady (h : p.Course s log r t) (hs : s.world.Steady) : t.world.Steady :=
  h.preserves (P := fun s => s.world.Steady) (fun _ hget hs => Ask.steady_of_mayGet hs hget)
    (each_true p) hs

/-- What no request changes is the same afterwards. -/
theorem keeps {β : Type} {g : Memory V → β} (h : p.Course s log r t) (hp : p.Keeps g) :
    g t.memory = g s.memory :=
  h.preserves (P := fun u => g u.memory = g s.memory)
    (fun hq hget hu => (Ask.keeps_of_mayGet hq hget).trans hu) hp rfl

/-- While a key is spared it has its entry, unless that has died meanwhile. -/
theorem spared {key : String} (h : p.Course s log r t) (hs : s.Serving)
    (hlog : ∀ e ∈ log, e.ask.Spares key) :
    t.Serving ∧ t.live? key = (s.live? key).filter fun e => !e.isDead t.world.now := by
  have hspared : t.Serving ∧ s.world.now ≤ t.world.now ∧
      t.live? key = (s.live? key).filter fun e => !e.isDead t.world.now := by
    refine h.unspoiled (P := fun u => u.Serving ∧ s.world.now ≤ u.world.now ∧
      u.live? key = (s.live? key).filter fun e => !e.isDead u.world.now) ?_ hlog
      ⟨hs, Nat.le_refl _, Store.live?_later _ (Nat.le_refl _) _⟩
    rintro q u v a hq hget ⟨hu, hle, hlive⟩
    refine ⟨Ask.serving_of_mayGet hu hget, Nat.le_trans hle (Ask.now_le_of_mayGet hget), ?_⟩
    rw [hq.live? hu hget, hlive]
    exact Store.filter_later (Ask.now_le_of_mayGet hget) _
  exact ⟨hspared.1, hspared.2.2⟩

theorem of_pure {a : α} (h : Course (pure a : Program V α) s log r t) :
    log = [] ∧ r = a ∧ t = s := by
  cases h
  exact ⟨rfl, rfl, rfl⟩

theorem of_lift {q : Ask V} {a : Answer q} (h : Course (lift q) s log a t) :
    q.MayGet s a t ∧ log = [⟨s.world.now, q, a⟩] := by
  cases h with
  | ask hget rest =>
    cases rest
    exact ⟨hget, rfl⟩

theorem of_change {f : Memory V → Memory V} (h : (change f).Course s log () t) :
    t = { s with memory := f s.memory } :=
  (congrArg Prod.snd (h.eq_run ⟨rfl, fun _ => trivial⟩)).symm

theorem of_bind {f : α → Program V β} {r : β} (h : Course (p >>= f) s log r u) :
    ∃ log₁ a t log₂, p.Course s log₁ a t ∧ (f a).Course t log₂ r u ∧ log = log₁ ++ log₂ := by
  induction p generalizing s log with
  | done a => exact ⟨[], a, s, log, .done a s, h, rfl⟩
  | ask q next ih =>
    rw [bind_ask] at h
    cases h with
    | ask hget rest =>
      obtain ⟨log₁, a, t, log₂, hp, hf, rfl⟩ := ih _ rest
      exact ⟨_, a, t, log₂, .ask hget hp, hf, rfl⟩

end Course
end Program

namespace Action

open Program

variable {a : Action V α} {f : α → Action V β} {s t u : Scene V} {log : List (Exchange V)}

theorem course_then {r : Except Error β} (h : Course (a >>= f).outcome s log r u) :
    (∃ log₁ x t log₂, Course a.outcome s log₁ (.ok x) t ∧ Course (f x).outcome t log₂ r u ∧
      log = log₁ ++ log₂) ∨
    ∃ e, r = .error e ∧ Course a.outcome s log (.error e) u := by
  rw [outcome_bind] at h
  obtain ⟨log₁, result, t, log₂, ha, hf, rfl⟩ := h.of_bind
  cases result with
  | ok x => exact .inl ⟨log₁, x, t, log₂, ha, hf, rfl⟩
  | error e =>
    obtain ⟨rfl, rfl, rfl⟩ := hf.of_pure
    exact .inr ⟨e, rfl, by rwa [List.append_nil]⟩

theorem course_always_then {p : Program V α} {r : Except Error β}
    (h : Course (always p >>= f).outcome s log r u) :
    ∃ log₁ x t log₂, p.Course s log₁ x t ∧ Course (f x).outcome t log₂ r u ∧
      log = log₁ ++ log₂ := by
  rw [outcome_always_bind] at h
  exact h.of_bind

theorem course_memory_then {f : Memory V → Action V β} {r : Except Error β}
    (h : Course (always memory >>= f).outcome s log r u) :
    ∃ log', Course (f s.memory).outcome s log' r u ∧
      log = ⟨s.world.now, .update id, s.memory⟩ :: log' := by
  obtain ⟨log₁, m, t, log₂, hmemory, hf, rfl⟩ := course_always_then h
  obtain ⟨hget, rfl⟩ := hmemory.of_lift
  obtain ⟨rfl, rfl⟩ := Prod.mk.inj hget
  exact ⟨log₂, hf, rfl⟩

theorem course_now_then {f : Nat → Action V β} {r : Except Error β}
    (h : Course (always now >>= f).outcome s log r u) :
    ∃ log', Course (f s.world.now).outcome s log' r u ∧
      log = ⟨s.world.now, .now, s.world.now⟩ :: log' := by
  obtain ⟨log₁, time, t, log₂, hnow, hf, rfl⟩ := course_always_then h
  obtain ⟨hget, rfl⟩ := hnow.of_lift
  obtain ⟨rfl, rfl⟩ := Prod.mk.inj hget
  exact ⟨log₂, hf, rfl⟩

end Action
end CacheLayer
