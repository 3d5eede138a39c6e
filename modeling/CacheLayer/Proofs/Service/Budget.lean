/-
Budgets of attempts. A load is tried once more than the settings say, and so is the check of the
store's health when an engine is built: up to the first success, with the waits between the attempts
that the settings and the back-off say. This holds as long as the number of attempts is a word of
32 bits. One more than the greatest number of retries is none: the sum overflows before anything is
tried (`not_budget_exact`).

Main statements: `budget_exact`, `not_budget_exact`.
-/
import CacheLayer.Proofs.Client.Coding
import CacheLayer.Proofs.Program.Retry
import CacheLayer.Proofs.Reload.Attempts
import CacheLayer.Service

namespace CacheLayer

variable {V α : Type} {s t : Scene V} {log : List (Exchange V)}

/-! ## Loads -/

namespace Reload

theorem outcome_retry {c : ReloadConfig} (h : c.maxRetries + 1 < Nat.pow 2 32) (a : Action V α) :
    (retry c a).outcome = (Action.tries (fun _ => c.retryDelay) a 1 c.maxRetries).outcome := by
  rw [retry, Action.outcome_always_bind, attempts_eq h, pure_bind, Nat.add_sub_cancel,
    retryTimes_eq _ _ 1]

/-- One more than the greatest number of retries is no word, and nothing is tried. -/
theorem retry_greatest {c : ReloadConfig} (h : c.maxRetries + 1 = Nat.pow 2 32) (a : Action V α)
    (s : Scene V) : (retry c a).outcome.runChecked s = (.error .add, s) := by
  have hno : c.maxRetries + 1 ≠ (c.maxRetries + 1) % Nat.pow 2 32 := by rw [h]; decide
  rw [retry, Action.outcome_always_bind]
  exact Program.runChecked_bind_error (Program.runChecked_word_of_ne hno s)

variable {id : SourceId} {call : Source.Call V}

/-- A source may give any answer. -/
theorem exists_course_request (s : Scene V) (r : Except Error call.Reply) :
    ∃ log t, (Action.request id call).outcome.Course s log r t := by
  obtain ⟨log, hpause⟩ :=
    Program.exists_course_pause ((s.world.sites id).latency call.method) s
  exact ⟨_, _, .ask (q := .latency id call.method) ⟨s.world.sites, rfl⟩
    (hpause.bind (.ask (q := .request id call) (a := r) ⟨s.world.sites, rfl⟩ (.done _ _)))⟩

/-- At each attempt the source is asked once. -/
theorem said_of_attempts {wait : Nat → Nat} {i more : Nat} {xs : List (Attempt V call.Reply)}
    {r : Except Error call.Reply} (h : Attempts wait (Action.request id call) i more s xs r t)
    (hdeeds : deeds log = xs.flatMap fun x => deeds x.log) :
    said log = xs.map fun x => .asked id call x.answer := by
  have hquiet (e : Exchange V) (he : e.ask.isClock = true) : e.event? = none := by
    obtain ⟨time, q, answer⟩ := e
    cases q <;> first | rfl | cases he
  refine filterMap_of_deeds hquiet hdeeds fun x hx => ?_
  obtain ⟨-, -, hsaid⟩ := Action.course_request (h.course x hx)
  exact hsaid

end Reload

/-! ## Checks of the store's health -/

/-- The time of a check of the store's health. -/
def Exchange.checkTime? : Exchange V → Option Nat
  | ⟨time, .health, _⟩ => some time
  | _ => none

namespace Service

/-- No power and no product leaves the range of a word before the wait has reached its limit. -/
theorem backoff_eq (i : Nat) : backoff i = min (100 * Nat.pow 2 (i - 1)) 30000 := by
  have hwords : Nat.pow 2 64 = 18446744073709551616 := rfl
  rw [backoff, saturated, saturated, hwords]
  generalize Nat.pow 2 (i - 1) = power
  omega

theorem awaitHealth_eq (i more : Nat) :
    (awaitHealth i more : Action V Unit) = Action.tries backoff checkOnce i more := by
  induction more generalizing i with
  | zero => rfl
  | succ more ih =>
    rw [awaitHealth, Action.tries]
    refine bind_congr fun r => ?_
    cases r with
    | ok x => rfl
    | error e => exact bind_congr fun _ => ih (i + 1)

theorem outcome_awaitStore {b : Blueprint V} (h : b.connectRetries + 1 < Nat.pow 2 32) :
    (awaitStore b).outcome = (Action.tries backoff checkOnce 1 b.connectRetries).outcome := by
  rw [awaitStore, Action.outcome_always_bind, healthAttempts, Nat.mod_eq_of_lt h,
    Program.word_self, pure_bind, Nat.add_sub_cancel, awaitHealth_eq]

theorem awaitStore_greatest {b : Blueprint V} (h : b.connectRetries + 1 = Nat.pow 2 32)
    (s : Scene V) : (awaitStore b).outcome.runChecked s = (.error .add, s) := by
  have hno : b.connectRetries + 1 ≠ (b.connectRetries + 1) % Nat.pow 2 32 := by rw [h]; decide
  rw [awaitStore, Action.outcome_always_bind]
  exact Program.runChecked_bind_error (Program.runChecked_word_of_ne hno s)

theorem fits_checkOnce : (checkOnce : Action V Unit).outcome.Each Ask.Fits := by
  refine Program.each_then (Program.each_lift rfl) fun well => ?_
  cases well <;> exact Program.each_pure _

/-- What an answer about the store's health comes to. -/
def verdict : Except Error Bool → Except Error Unit
  | .ok true => .ok ()
  | .ok false => .error (.backend "health check failed")
  | .error e => .error e

/-- What the coming checks of the store's health come to. -/
def outlook (w : World V) (j : Nat) : Except Error Unit := verdict (w.health.getD j (.ok true))

/-- The world after a check of its health. -/
def checked (s : Scene V) : Scene V :=
  { s with world := { s.world with health := s.world.health.tail } }

theorem perform_health (s : Scene V) :
    (Ask.health : Ask V).perform s = (s.world.health.getD 0 (.ok true), checked s) := by
  obtain ⟨⟨now, store, scripts, health, sites, drawn, notes⟩, memory⟩ := s
  cases health <;> rfl

theorem outlook_later (s : Scene V) (ms j : Nat) :
    outlook ((checked s).later ms).world j = outlook s.world (j + 1) := by
  change verdict (s.world.health.tail.getD j (.ok true)) = _
  rw [outlook]
  cases s.world.health <;> rfl

theorem toBool_outlook (w : World V) (j : Nat) :
    (outlook w j).toBool = true ↔ w.health.getD j (.ok true) = .ok true := by
  rw [outlook]
  rcases w.health.getD j (.ok true) with e | _ | _ <;> simp [verdict, Except.toBool]

/-- A check of the store's health takes no time. -/
theorem course_checkOnce {r : Except Error Unit} (h : checkOnce.outcome.Course s log r t) :
    r = outlook s.world 0 ∧ t = checked s ∧ log.filterMap Exchange.checkTime? = [s.world.now] := by
  rcases Action.course_then h with ⟨log₁, well, u, log₂, hcheck, hrest, rfl⟩ | ⟨e, rfl, hcheck⟩
  · obtain ⟨hget, rfl⟩ := hcheck.of_lift
    obtain ⟨hanswer, rfl⟩ := Prod.mk.inj ((perform_health s).symm.trans hget)
    rw [outlook, hanswer]
    cases well with
    | true =>
      obtain ⟨rfl, rfl, rfl⟩ := hrest.of_pure
      exact ⟨rfl, rfl, rfl⟩
    | false =>
      obtain ⟨rfl, rfl, rfl⟩ := hrest.of_pure
      exact ⟨rfl, rfl, rfl⟩
  · obtain ⟨hget, rfl⟩ := hcheck.of_lift
    obtain ⟨hanswer, rfl⟩ := Prod.mk.inj ((perform_health s).symm.trans hget)
    rw [outlook, hanswer]
    exact ⟨rfl, rfl, rfl⟩

/-- The attempts come out as the coming checks do. -/
theorem answers_of_checks {wait : Nat → Nat} {i more : Nat} {xs : List (Attempt V Unit)}
    {r : Except Error Unit} (h : Attempts wait checkOnce i more s xs r t) :
    ∀ j x, xs[j]? = some x → x.answer = outlook s.world j := by
  induction h with
  | succeeded h | exhausted h =>
    rintro (_ | j) x ⟨⟩
    exact (course_checkOnce h).1
  | @again i more s t u log e xs r h rest ih =>
    obtain ⟨hanswer, rfl, -⟩ := course_checkOnce h
    rintro (_ | j) x hx
    · obtain rfl := Option.some.inj hx
      exact hanswer
    · exact (ih j x hx).trans (outlook_later s (wait i) j)

/-- The store is waited for with success if one of the checks is well. -/
theorem outcome_of_checks {wait : Nat → Nat} {i more : Nat} {xs : List (Attempt V Unit)}
    {r : Except Error Unit} (h : Attempts wait checkOnce i more s xs r t) :
    r = .ok () ↔ ∃ j < xs.length, s.world.health.getD j (.ok true) = .ok true := by
  have hanswers := answers_of_checks h
  have hok : r = .ok () ↔ r.toBool = true := by
    rcases r with e | ⟨⟩ <;> simp [Except.toBool]
  rw [hok, h.toBool_iff]
  constructor
  · rintro ⟨x, hx, hwell⟩
    obtain ⟨j, hj, rfl⟩ := List.getElem_of_mem hx
    rw [hanswers j _ (List.getElem?_eq_getElem hj), toBool_outlook] at hwell
    exact ⟨j, hj, hwell⟩
  · rintro ⟨j, hj, hwell⟩
    refine ⟨xs[j], List.getElem_mem hj, ?_⟩
    rw [hanswers j _ (List.getElem?_eq_getElem hj), toBool_outlook]
    exact hwell

/-- One check is made at the beginning of each attempt, and takes no time; from one check to the next
only the wait passes. -/
theorem times_of_checks {wait : Nat → Nat} {i more : Nat} {xs : List (Attempt V Unit)}
    {r : Except Error Unit} (h : Attempts wait checkOnce i more s xs r t)
    (hdeeds : deeds log = xs.flatMap fun x => deeds x.log) :
    log.filterMap Exchange.checkTime? = (xs.map fun x => x.before.world.now) ∧
      (∀ x ∈ xs, x.after.world.now = x.before.world.now) ∧
      ∀ j x y, xs[j]? = some x → xs[j + 1]? = some y →
        y.before.world.now = x.before.world.now + wait (i + j) := by
  have hquiet (e : Exchange V) (he : e.ask.isClock = true) : e.checkTime? = none := by
    obtain ⟨time, q, answer⟩ := e
    cases q <;> first | rfl | cases he
  have hnow : ∀ x ∈ xs, x.after.world.now = x.before.world.now := by
    intro x hx
    rw [(course_checkOnce (h.course x hx)).2.1]
    rfl
  refine ⟨filterMap_of_deeds hquiet hdeeds fun x hx => (course_checkOnce (h.course x hx)).2.2, hnow,
    fun j x y hx hy => ?_⟩
  rw [h.before_succ hx hy, ← hnow x (List.mem_of_getElem? hx)]
  rfl

/-! ## The budget -/

/-- **Budgets of attempts are kept to.** Let one more than the number of retries be a word. Then no
arithmetic overflows. A load is tried up to the first success, and at most once more than the number
of retries says, with the delay of the settings between two attempts; the last answer is the result.
Any answers can come. When an engine is built, the store's health is checked up to the first check
that is well, and at most once more than the number of retries says; after the `i`-th check, unless
it is the last, there is a wait of a tenth of a second, doubled `i - 1` times, but not above half a
minute. The store is found well exactly if one of the checks is. If one more than the number of
retries is no word, both overflow before anything is tried. -/
theorem budget_exact (n : Nat) :
    (n + 1 < Nat.pow 2 32 →
      (∀ (c : ReloadConfig) (id : SourceId) (call : Source.Call V) (s : Scene V),
        c.maxRetries = n →
        (∃ r t, (Reload.retry c (Action.request id call)).outcome.runChecked s = (.ok r, t)) ∧
        (∀ log r t, (Reload.retry c (Action.request id call)).outcome.Course s log r t →
          (∀ e ∈ log, e.ask.Fits) ∧
          ∃ xs, Attempts (fun _ => c.retryDelay) (Action.request id call) 1 n s xs r t ∧
            said log = (xs.map fun x => .asked id call x.answer) ∧
            ∀ answers, (∀ j x, xs[j]? = some x → x.answer = answers j) →
              Within (n + 1) answers xs.length r) ∧
        ∀ answers : Nat → Except Error call.Reply, ∃ log r t xs,
          (Reload.retry c (Action.request id call)).outcome.Course s log r t ∧
          Attempts (fun _ => c.retryDelay) (Action.request id call) 1 n s xs r t ∧
          ∀ j x, xs[j]? = some x → x.answer = answers j) ∧
      ∀ (b : Blueprint V) (s : Scene V), b.connectRetries = n →
        ∃ xs r t, (awaitStore b).outcome.runChecked s = (.ok r, t) ∧
          Attempts (fun i => min (100 * Nat.pow 2 (i - 1)) 30000) checkOnce 1 n s xs r t ∧
          ((awaitStore b).outcome.trace s).filterMap Exchange.checkTime? =
            (xs.map fun x => x.before.world.now) ∧
          (∀ x ∈ xs, x.after.world.now = x.before.world.now) ∧
          (∀ j x y, xs[j]? = some x → xs[j + 1]? = some y →
            y.before.world.now = x.before.world.now + min (100 * Nat.pow 2 j) 30000) ∧
          Within (n + 1) (outlook s.world) xs.length r ∧
          (r = .ok () ↔ ∃ j < xs.length, s.world.health.getD j (.ok true) = .ok true)) ∧
    (n + 1 = Nat.pow 2 32 →
      (∀ (c : ReloadConfig) (a : Action V α) (s : Scene V), c.maxRetries = n →
        (Reload.retry c a).outcome.runChecked s = (.error .add, s)) ∧
      ∀ (b : Blueprint V) (s : Scene V), b.connectRetries = n →
        (awaitStore b).outcome.runChecked s = (.error .add, s)) := by
  refine ⟨fun hn => ⟨?_, ?_⟩, fun hn => ⟨?_, ?_⟩⟩
  · rintro c id call s rfl
    have hfits : (Reload.retry c (Action.request id call)).outcome.Each Ask.Fits :=
      Reload.fits_retry hn (Program.each_request (Q := Ask.Fits) (fun _ _ => rfl) rfl
        (fun _ => rfl) (fun _ _ => rfl) id call)
    refine ⟨⟨_, _, Program.runChecked_of_each hfits⟩, fun log r t h => ?_, fun answers => ?_⟩
    · refine ⟨h.forall_ask hfits, ?_⟩
      rw [Reload.outcome_retry hn] at h
      obtain ⟨xs, hxs, hdeeds⟩ := Action.course_tries h
      exact ⟨xs, hxs, Reload.said_of_attempts hxs hdeeds, fun answers h => hxs.within h⟩
    · rw [Reload.outcome_retry hn]
      obtain ⟨log, r, t, xs, hcourse, hxs, -, hanswers⟩ :=
        Action.exists_course_tries Reload.exists_course_request (fun _ => c.retryDelay) 1
          c.maxRetries s answers
      exact ⟨log, r, t, xs, hcourse, hxs, hanswers⟩
  · rintro b s rfl
    rw [outcome_awaitStore hn, ← funext backoff_eq]
    have hfits : (Action.tries backoff checkOnce 1 b.connectRetries :
        Action V Unit).outcome.Each Ask.Fits :=
      Action.each_tries (Q := Ask.Fits) rfl (fun _ => rfl) fits_checkOnce _ _ _
    obtain ⟨xs, hxs, hdeeds⟩ := Action.course_tries
      (Program.course_run (Action.tries backoff checkOnce 1 b.connectRetries).outcome s)
    obtain ⟨htimes, hnow, hwaits⟩ := times_of_checks hxs hdeeds
    refine ⟨xs, _, _, Program.runChecked_of_each hfits, hxs, htimes, hnow,
      fun j x y hx hy => ?_, hxs.within (answers_of_checks hxs), outcome_of_checks hxs⟩
    rw [hwaits j x y hx hy, backoff_eq, Nat.add_sub_cancel_left]
  · rintro c a s rfl
    exact Reload.retry_greatest hn a s
  · rintro b s rfl
    exact awaitStore_greatest hn s

/-- An engine before a store that fails two checks of its health and is well then. -/
def recovering : Scene UInt8 :=
  ⟨{ World.start default with health := [.ok false, .error (.backend "down")] }, Client.byteMemory⟩

/-- What an engine of bytes is built from that tries again so often. -/
def trying (retries : Nat) : Blueprint UInt8 :=
  { format := Client.byteFormat, config := {}, connectRetries := retries }

/-- Two retries suffice for a store that is well at the third check, three tenths of a second later,
and for a load that succeeds at the third attempt. The greatest number of retries overflows. -/
theorem budget_exact_recovering :
    2 + 1 < Nat.pow 2 32 ∧ 4294967295 + 1 = Nat.pow 2 32 ∧
    (∃ log t xs, (Reload.retry { maxRetries := 2 }
        (Action.request .main (.loadOne "k"))).outcome.Course recovering log (.ok (some 7)) t ∧
      Attempts (fun _ => 100) (Action.request .main (.loadOne "k")) 1 2 recovering xs
        (.ok (some 7)) t ∧ xs.length = 3) ∧
    (∃ xs t, (awaitStore (trying 2)).outcome.runChecked recovering = (.ok (.ok ()), t) ∧
      Attempts (fun i => min (100 * Nat.pow 2 (i - 1)) 30000) checkOnce 1 2 recovering xs (.ok ())
        t ∧ xs.length = 3 ∧ t.world.now = 300) ∧
    (awaitStore (trying 4294967295)).outcome.runChecked recovering = (.error .add, recovering) := by
  have hn : 2 + 1 < Nat.pow 2 32 := by decide
  have hgreatest : 4294967295 + 1 = Nat.pow 2 32 := rfl
  have hbudget := (budget_exact (V := UInt8) (α := Unit) 2).1 hn
  refine ⟨hn, hgreatest, ?_, ?_, ?_⟩
  · obtain ⟨-, -, hany⟩ := hbudget.1 { maxRetries := 2 } .main (.loadOne "k") recovering rfl
    obtain ⟨log, r, t, xs, hcourse, hxs, hanswers⟩ := hany fun j =>
      if j < 2 then .error (.source "down") else .ok (some 7)
    obtain ⟨hfound, -, hlast⟩ := hxs.within hanswers
    have hlength : xs.length = 3 := hfound 2 rfl (by decide)
    rw [hlength] at hlast
    obtain rfl : r = .ok (some 7) := hlast
    exact ⟨log, t, xs, hcourse, hxs, hlength⟩
  · have htime : ((awaitStore (trying 2)).outcome.runChecked recovering).2.world.now = 300 := by
      decide +kernel
    obtain ⟨xs, r, t, hrun, hxs, -, -, -, ⟨hfound, -, hlast⟩, -⟩ :=
      hbudget.2 (trying 2) recovering rfl
    have hlength : xs.length = 3 := hfound 2 rfl (by decide)
    rw [hlength] at hlast
    obtain rfl : r = .ok () := hlast
    rw [hrun] at htime
    exact ⟨xs, t, hrun, hxs, hlength, htime⟩
  · exact ((budget_exact (V := UInt8) (α := Unit) 4294967295).2 hgreatest).2
      (trying 4294967295) recovering rfl

/-- The greatest number of retries leaves no attempt, at a load and at a check: one more than it is
no word. -/
theorem not_budget_exact :
    (¬ ∀ n < Nat.pow 2 32, ∀ (c : ReloadConfig) (id : SourceId) (call : Source.Call UInt8)
      (s : Scene UInt8), c.maxRetries = n →
      ∃ xs r t, (Reload.retry c (Action.request id call)).outcome.runChecked s = (.ok r, t) ∧
        Attempts (fun _ => c.retryDelay) (Action.request id call) 1 n s xs r t) ∧
    ¬ ∀ n < Nat.pow 2 32, ∀ (b : Blueprint UInt8) (s : Scene UInt8), b.connectRetries = n →
      ∃ (xs : List (Attempt UInt8 Unit)) (r : Except Error Unit) (t : Scene UInt8),
        (awaitStore b).outcome.runChecked s = (.ok r, t) ∧
        Within (n + 1) (outlook s.world) xs.length r := by
  have hgreatest : 4294967295 + 1 = Nat.pow 2 32 := rfl
  refine ⟨fun hall => ?_, fun hall => ?_⟩
  · obtain ⟨xs, r, t, hrun, -⟩ := hall 4294967295 (by decide) { maxRetries := 4294967295 } .main
      (.loadOne "k") recovering rfl
    rw [Reload.retry_greatest hgreatest] at hrun
    cases hrun
  · obtain ⟨xs, r, t, hrun, -⟩ := hall 4294967295 (by decide) (trying 4294967295) recovering rfl
    rw [awaitStore_greatest hgreatest] at hrun
    cases hrun

end Service
end CacheLayer
