/-
Actions that are tried again after a failure. Attempts follow one another, with a wait after each
that has failed, until one succeeds or the budget is used up (`Attempts`). The answers decide how
many are made: up to the first success, or as many as the budget allows (`Attempts.within`). A loop
that tries an action makes attempts and no requests besides, but those of the clock
(`course_tries`), and it makes them whatever the answers are (`exists_course_tries`).
-/
import CacheLayer.Proofs.Program.Course

namespace CacheLayer

variable {V α β : Type}

/-! ## Attempts -/

/-- An attempt at an action: the scenes before and after it, what it has asked, and its answer. -/
structure Attempt (V α : Type) where
  before : Scene V
  log : List (Exchange V)
  answer : Except Error α
  after : Scene V

/-- The scene some time later. -/
def Scene.later (s : Scene V) (ms : Nat) : Scene V := { s with world := s.world.later ms }

/-- Attempts at an action from the `i`-th on, with so many more at most after the first one of them.
All but the last have failed, and after the `i`-th it waits for `wait i` before the next. -/
inductive Attempts (wait : Nat → Nat) (a : Action V α) :
    (i more : Nat) → Scene V → List (Attempt V α) → Except Error α → Scene V → Prop where
  | succeeded {i more : Nat} {s t : Scene V} {log : List (Exchange V)} {x : α}
    (h : a.outcome.Course s log (.ok x) t) :
    Attempts wait a i more s [⟨s, log, .ok x, t⟩] (.ok x) t
  | exhausted {i : Nat} {s t : Scene V} {log : List (Exchange V)} {e : Error}
    (h : a.outcome.Course s log (.error e) t) :
    Attempts wait a i 0 s [⟨s, log, .error e, t⟩] (.error e) t
  | again {i more : Nat} {s t u : Scene V} {log : List (Exchange V)} {e : Error}
    {xs : List (Attempt V α)} {r : Except Error α} (h : a.outcome.Course s log (.error e) t)
    (rest : Attempts wait a (i + 1) more (t.later (wait i)) xs r u) :
    Attempts wait a i (more + 1) s (⟨s, log, .error e, t⟩ :: xs) r u

/-- So many attempts are made under a budget if their answers are these, one after the other. -/
structure Within (budget : Nat) (answers : Nat → Except Error α) (made : Nat)
    (r : Except Error α) : Prop where
  /-- The first success is the last attempt, unless the budget ends before. -/
  found : ∀ k, (answers k).toBool = true → (∀ j < k, (answers j).toBool = false) →
    made = min (k + 1) budget
  spent : (∀ k, (answers k).toBool = false) → made = budget
  /-- The last answer is the one that counts. -/
  last : r = answers (made - 1)

namespace Attempts

variable {wait : Nat → Nat} {a : Action V α} {i more : Nat} {s t : Scene V}
  {xs : List (Attempt V α)} {r : Except Error α}

/-- The last attempt that the budget allows may come out as it likes. -/
theorem single {log : List (Exchange V)} (h : a.outcome.Course s log r t) :
    Attempts wait a i 0 s [⟨s, log, r, t⟩] r t := by
  cases r with
  | ok x => exact .succeeded h
  | error e => exact .exhausted h

theorem length_pos (h : Attempts wait a i more s xs r t) : 0 < xs.length := by
  cases h <;> exact Nat.succ_pos _

/-- The attempts come to a failure only if the budget is used up. -/
theorem length_of_error {e : Error} (h : Attempts wait a i more s xs (.error e) t) :
    xs.length = more + 1 := by
  generalize hr : Except.error e = r at h
  induction h with
  | succeeded h => cases hr
  | exhausted h => rfl
  | again h rest ih => exact congrArg Nat.succ (ih hr)

/-- Each attempt is one at the action. -/
theorem course (h : Attempts wait a i more s xs r t) :
    ∀ x ∈ xs, a.outcome.Course x.before x.log x.answer x.after := by
  induction h with
  | succeeded h | exhausted h => exact List.forall_mem_singleton.2 h
  | again h rest ih => exact List.forall_mem_cons.2 ⟨h, ih⟩

/-- The attempts come to a success if one of them does. -/
theorem toBool_iff (h : Attempts wait a i more s xs r t) :
    r.toBool = true ↔ ∃ x ∈ xs, x.answer.toBool = true := by
  induction h with
  | succeeded h => exact iff_of_true rfl ⟨_, List.mem_singleton_self _, rfl⟩
  | exhausted h =>
    refine iff_of_false Bool.false_ne_true ?_
    rintro ⟨x, hx, hsuccess⟩
    obtain rfl := List.mem_singleton.1 hx
    cases hsuccess
  | again h rest ih => simpa [Except.toBool] using ih

/-- The attempts that are made are as many as their answers call for. -/
theorem within (h : Attempts wait a i more s xs r t) {answers : Nat → Except Error α}
    (hanswers : ∀ j x, xs[j]? = some x → x.answer = answers j) :
    Within (more + 1) answers xs.length r := by
  induction h generalizing answers with
  | @succeeded i more s t log x h =>
    have hfirst : .ok x = answers 0 := hanswers 0 _ rfl
    refine ⟨fun k hk hbefore => ?_, fun hfailed => ?_, hfirst⟩
    · cases k with
      | zero => simp
      | succ k =>
        have hnot := hbefore 0 (Nat.succ_pos k)
        rw [← hfirst] at hnot
        cases hnot
    · have hnot := hfailed 0
      rw [← hfirst] at hnot
      cases hnot
  | @exhausted i s t log e h =>
    have hfirst : .error e = answers 0 := hanswers 0 _ rfl
    exact ⟨fun k _ _ => by simp, fun _ => rfl, hfirst⟩
  | @again i more s t u log e xs r h rest ih =>
    have hfirst : .error e = answers 0 := hanswers 0 _ rfl
    obtain ⟨hfound, hspent, hlast⟩ :=
      @ih (fun j => answers (j + 1)) fun j x hx => hanswers (j + 1) x hx
    have hpos := rest.length_pos
    rw [List.length_cons]
    refine ⟨fun k hk hbefore => ?_, fun hfailed => ?_, ?_⟩
    · cases k with
      | zero =>
        rw [← hfirst] at hk
        cases hk
      | succ k =>
        have hrest := hfound k hk fun j hj => hbefore (j + 1) (Nat.succ_lt_succ hj)
        omega
    · rw [hspent fun k => hfailed (k + 1)]
    · rw [hlast]
      congr 1
      omega

/-- The next attempt begins when the wait after the last one is over. -/
theorem before_succ (h : Attempts wait a i more s xs r t) {j : Nat} {x y : Attempt V α}
    (hx : xs[j]? = some x) (hy : xs[j + 1]? = some y) :
    y.before = x.after.later (wait (i + j)) := by
  induction h generalizing j with
  | succeeded h | exhausted h => cases hy
  | again h rest ih =>
    cases j with
    | zero =>
      obtain rfl := Option.some.inj hx
      cases rest <;> exact (Option.some.inj hy ▸ rfl)
    | succ j =>
      rw [ih hx hy, Nat.add_right_comm, Nat.add_assoc]

end Attempts

/-! ## Loops of attempts -/

namespace Ask

/-- The request is about the time. -/
def isClock : Ask V → Bool
  | .now | .wait _ => true
  | _ => false

end Ask

/-- What is asked besides the time. -/
def deeds (log : List (Exchange V)) : List (Exchange V) := log.filter fun e => !e.ask.isClock

theorem deeds_append (log log' : List (Exchange V)) :
    deeds (log ++ log') = deeds log ++ deeds log' := List.filter_append ..

/-- What has nothing to do with the time is found among the deeds. -/
theorem filterMap_deeds {f : Exchange V → Option β} (hf : ∀ e, e.ask.isClock = true → f e = none)
    (log : List (Exchange V)) : (deeds log).filterMap f = log.filterMap f := by
  induction log with
  | nil => rfl
  | cons e log ih =>
    rw [deeds] at ih ⊢
    by_cases he : e.ask.isClock = true
    · rw [List.filter_cons_of_neg (by simp [he]), List.filterMap_cons_none (hf e he), ih]
    · rw [List.filter_cons_of_pos (by simp [he]), List.filterMap_cons, List.filterMap_cons, ih]

/-- What each attempt says once, the attempts say one after the other. -/
theorem filterMap_of_deeds {f : Exchange V → Option β} (hf : ∀ e, e.ask.isClock = true → f e = none)
    {log : List (Exchange V)} {xs : List (Attempt V α)} {g : Attempt V α → β}
    (h : deeds log = xs.flatMap fun x => deeds x.log)
    (hg : ∀ x ∈ xs, x.log.filterMap f = [g x]) : log.filterMap f = xs.map g := by
  rw [← filterMap_deeds hf, h, List.filterMap_flatMap, List.map_eq_flatMap, List.flatMap_def,
    List.flatMap_def]
  exact congrArg List.flatten
    (List.map_congr_left fun x hx => (filterMap_deeds hf x.log).trans (hg x hx))

namespace Program.Course

variable {p : Program V α} {s t u : Scene V} {log log' : List (Exchange V)} {x : α}

/-- Courses of the parts make up a course of the whole. -/
theorem bind {f : α → Program V β} {r : β} (hp : p.Course s log x t)
    (hf : (f x).Course t log' r u) : (p >>= f).Course s (log ++ log') r u := by
  induction hp with
  | done a s => exact hf
  | ask hget rest ih => exact .ask hget (ih hf)

theorem of_pause {ms : Nat} (h : (pause ms : Program V Unit).Course s log () t) :
    t = s.later ms ∧ deeds log = [] := by
  have hclock : (pause ms : Program V Unit).Each fun q => q.isClock = true :=
    each_pause (Q := fun q => q.isClock = true) rfl (fun _ => rfl) ms
  have hrun := h.eq_run (each_mono (fun q hq => by cases q <;> first | rfl | cases hq) hclock)
  rw [run_pause] at hrun
  refine ⟨(congrArg Prod.snd hrun).symm, List.filter_eq_nil_iff.2 fun e he => ?_⟩
  simp [h.forall_ask hclock e he]

end Program.Course

theorem Program.exists_course_pause (ms : Nat) (s : Scene V) :
    ∃ log, (pause ms : Program V Unit).Course s log () (s.later ms) := by
  have hcourse := (pause ms : Program V Unit).course_run s
  rw [run_pause] at hcourse
  exact ⟨_, hcourse⟩

namespace Action

variable {wait : Nat → Nat} {a : Action V α} {i more : Nat} {s t : Scene V}
  {log : List (Exchange V)} {r : Except Error α}

/-- Tries an action for the `i`-th time, and after a failure again, so many times at most. -/
def tries (wait : Nat → Nat) (a : Action V α) (i : Nat) : Nat → Action V α
  | 0 => a
  | more + 1 => do
    match ← always a.outcome with
    | .ok x => return x
    | .error _ =>
      always (Program.pause (wait i))
      tries wait a (i + 1) more

/-- To try again, an action waits, and makes no other requests than before. -/
theorem each_tries {Q : Ask V → Prop} (hnow : Q .now)
    (hpause : ∀ t, Q (.wait ⟨some t, fun _ => false⟩)) (ha : a.outcome.Each Q)
    (wait : Nat → Nat) (i more : Nat) :
    (tries wait a i more).outcome.Each Q := by
  induction more generalizing i with
  | zero => exact ha
  | succ more ih =>
    refine Program.each_then (Program.each_always ha) fun r => ?_
    cases r with
    | ok x => exact Program.each_pure _
    | error e =>
      exact Program.each_then (Program.each_always (Program.each_pause hnow hpause _)) fun _ =>
        ih (i + 1)

/-- What such a loop does are attempts at the action. -/
theorem course_tries (h : (tries wait a i more).outcome.Course s log r t) :
    ∃ xs, Attempts wait a i more s xs r t ∧ deeds log = xs.flatMap fun x => deeds x.log := by
  induction more generalizing i s log with
  | zero => exact ⟨_, .single h, (List.flatMap_singleton ..).symm⟩
  | succ more ih =>
    obtain ⟨log₁, first, u, log₂, hfirst, hrest, rfl⟩ := course_always_then h
    cases first with
    | ok x =>
      obtain ⟨rfl, rfl, rfl⟩ := hrest.of_pure
      refine ⟨_, .succeeded hfirst, ?_⟩
      rw [List.append_nil, List.flatMap_singleton]
    | error e =>
      obtain ⟨log₃, ⟨⟩, v, log₄, hpause, hmore, rfl⟩ := course_always_then hrest
      obtain ⟨rfl, hquiet⟩ := hpause.of_pause
      obtain ⟨xs, hxs, hdeeds⟩ := ih hmore
      refine ⟨_, .again hfirst hxs, ?_⟩
      rw [deeds_append, deeds_append, hquiet, List.nil_append, hdeeds, List.flatMap_cons]

theorem course_always_bind {p : Program V β} {f : β → Action V α} {x : β} {t u : Scene V}
    {log' : List (Exchange V)} (hp : p.Course s log x t) (hf : (f x).outcome.Course t log' r u) :
    (always p >>= f).outcome.Course s (log ++ log') r u := by
  rw [outcome_always_bind]
  exact hp.bind hf

/-- If a single attempt can have any answer, the attempts can have any answers. -/
theorem exists_course_tries (ha : ∀ u x, ∃ log v, a.outcome.Course u log x v)
    (wait : Nat → Nat) (i more : Nat) (s : Scene V) (answers : Nat → Except Error α) :
    ∃ log r t xs, (tries wait a i more).outcome.Course s log r t ∧
      Attempts wait a i more s xs r t ∧ deeds log = (xs.flatMap fun x => deeds x.log) ∧
      ∀ j x, xs[j]? = some x → x.answer = answers j := by
  induction more generalizing i s answers with
  | zero =>
    obtain ⟨log, v, hcourse⟩ := ha s (answers 0)
    refine ⟨log, _, v, _, hcourse, .single hcourse, (List.flatMap_singleton ..).symm, ?_⟩
    rintro (_ | j) x ⟨⟩
    rfl
  | succ more ih =>
    obtain ⟨log, u, hfirst⟩ := ha s (answers 0)
    cases hanswer : answers 0 with
    | ok x =>
      rw [hanswer] at hfirst
      refine ⟨_, _, u, _, course_always_bind hfirst (.done _ _), .succeeded hfirst, ?_, ?_⟩
      · rw [List.append_nil, List.flatMap_singleton]
      · rintro (_ | j) x ⟨⟩
        exact hanswer.symm
    | error e =>
      rw [hanswer] at hfirst
      obtain ⟨log', hpause⟩ := Program.exists_course_pause (wait i) u
      obtain ⟨log'', r, t, xs, hmore, hxs, hdeeds, hanswers⟩ :=
        ih (i + 1) (u.later (wait i)) fun j => answers (j + 1)
      refine ⟨_, r, t, _, course_always_bind hfirst (course_always_bind hpause hmore),
        .again hfirst hxs, ?_, ?_⟩
      · rw [deeds_append, deeds_append, hpause.of_pause.2, List.nil_append, hdeeds,
          List.flatMap_cons]
      · rintro (_ | j) x hx
        · obtain rfl := Option.some.inj hx
          exact hanswer.symm
        · exact hanswers j x hx

end Action
end CacheLayer
