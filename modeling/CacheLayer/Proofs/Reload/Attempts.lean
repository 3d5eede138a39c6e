/-
Loads that are tried again. While a source is asked, time may pass and nothing else happens
(`Scene.Idles`); a load is tried until the source gives an answer or the attempts are used up, and
the last answer is the one that counts (`Tried`).

What the engine says to sources and to the store in a course are its events.
-/
import CacheLayer.Proofs.Program.Checked
import CacheLayer.Proofs.Program.Retry
import CacheLayer.Proofs.Program.Serving
import CacheLayer.Proofs.Store.Lifetime
import CacheLayer.Reload.Reloader

namespace CacheLayer

variable {V α : Type} {s t u : Scene V} {log : List (Exchange V)}

/-! ## Waiting -/

/-- Between the scenes the engine and its store have done nothing. -/
structure Scene.Idles (s t : Scene V) : Prop where
  memory : t.memory = s.memory
  store : t.world.store = s.world.store
  scripts : t.world.scripts = s.world.scripts
  now : s.world.now ≤ t.world.now

namespace Scene.Idles

theorem refl (s : Scene V) : s.Idles s := ⟨rfl, rfl, rfl, Nat.le_refl _⟩

theorem trans (h : s.Idles t) (h' : t.Idles u) : s.Idles u :=
  ⟨h'.memory.trans h.memory, h'.store.trans h.store, h'.scripts.trans h.scripts,
    Nat.le_trans h.now h'.now⟩

theorem steady (h : s.Idles t) (hs : s.world.Steady) : t.world.Steady := fun m => by
  rw [h.scripts]
  exact hs m

/-- A key holds what it held, unless that has died meanwhile. -/
theorem live? (h : s.Idles t) (key : String) :
    t.live? key = (s.live? key).filter fun e => !e.isDead t.world.now := by
  unfold Scene.live?
  rw [h.store]
  exact Store.live?_later _ h.now key

theorem of_mayGet {q : Ask V} {a : Answer q} (hq : q.toSource = true) (h : q.MayGet s a t) :
    s.Idles t := by
  unfold Ask.MayGet at h
  rw [if_pos hq] at h
  obtain ⟨sites, rfl⟩ := h
  exact ⟨rfl, rfl, rfl, Nat.le_refl _⟩

theorem drawn_of_mayGet {q : Ask V} {a : Answer q} (hq : q.toSource = true)
    (h : q.MayGet s a t) : t.world.drawn = s.world.drawn := by
  unfold Ask.MayGet at h
  rw [if_pos hq] at h
  obtain ⟨sites, rfl⟩ := h
  rfl

theorem later (s : Scene V) (ms : Nat) : s.Idles { s with world := s.world.later ms } :=
  ⟨rfl, rfl, rfl, Nat.le_add_right _ _⟩

end Scene.Idles

/-! ## Events -/

/-- What the engine says to a source or to the store. -/
inductive Event (V : Type) where
  | asked (id : SourceId) (c : Source.Call V) (answer : Except Error c.Reply)
  | judged (id : SourceId) (v : V) (verdict : Except Error Unit)
  | sent (time : Nat) (c : Store.Call)

def Exchange.event? : Exchange V → Option (Event V)
  | ⟨_, .request id c, answer⟩ => some (.asked id c answer)
  | ⟨_, .judge id v, verdict⟩ => some (.judged id v verdict)
  | ⟨time, .command c, _⟩ => some (.sent time c)
  | _ => none

/-- What the engine says in a course, in order. -/
def said (log : List (Exchange V)) : List (Event V) := log.filterMap Exchange.event?

theorem said_append (log log' : List (Exchange V)) :
    said (log ++ log') = said log ++ said log' := List.filterMap_append

/-- The scene answers the request, and it is no event. -/
def Ask.isSilent : Ask V → Bool
  | .latency _ _ | .request _ _ | .judge _ _ | .command _ => false
  | _ => true

/-- A program that says nothing has one course. -/
theorem Program.Course.of_silent {p : Program V α} {r : α} (h : p.Course s log r t)
    (hp : p.Each fun q => q.isSilent = true) : p.run s = (r, t) ∧ said log = [] := by
  refine ⟨h.eq_run (Program.each_mono (fun q hq => ?_) hp), ?_⟩
  · cases q <;> first | rfl | cases hq
  · induction h with
    | done a s => rfl
    | @ask q next s t u a log r hget rest ih =>
      have hnone : Exchange.event? ⟨s.world.now, q, a⟩ = none := by
        have hq := hp.1
        cases q <;> first | rfl | cases hq
      rw [said, List.filterMap_cons_none hnone]
      exact ih (hp.2 a)

theorem Program.course_pause {ms : Nat} (h : (pause ms : Program V Unit).Course s log () t) :
    s.Idles t ∧ t.world.drawn = s.world.drawn ∧ said log = [] := by
  obtain ⟨hrun, hsilent⟩ := h.of_silent
    (each_pause (Q := fun q => q.isSilent = true) rfl (fun _ => rfl) ms)
  rw [run_pause] at hrun
  obtain ⟨-, rfl⟩ := Prod.mk.inj hrun
  exact ⟨.later s ms, rfl, hsilent⟩

namespace Action

theorem course_request {id : SourceId} {c : Source.Call V} {r : Except Error c.Reply}
    (h : (request id c).outcome.Course s log r t) :
    s.Idles t ∧ t.world.drawn = s.world.drawn ∧ said log = [.asked id c r] := by
  change Program.Course (Program.lift (.latency id c.method) >>= fun ms =>
    Program.pause ms >>= fun _ => Program.lift (.request id c)) s log r t at h
  obtain ⟨log₁, ms, s₁, log₂, hlatency, hrest, rfl⟩ := h.of_bind
  obtain ⟨log₃, ⟨⟩, s₂, log₄, hpause, hrequest, rfl⟩ := hrest.of_bind
  obtain ⟨hget, rfl⟩ := hlatency.of_lift
  obtain ⟨hidles, hdrawn, hsilent⟩ := Program.course_pause hpause
  obtain ⟨hget', rfl⟩ := hrequest.of_lift
  refine ⟨((Scene.Idles.of_mayGet rfl hget).trans hidles).trans (.of_mayGet rfl hget'), ?_, ?_⟩
  · rw [Scene.Idles.drawn_of_mayGet rfl hget', hdrawn, Scene.Idles.drawn_of_mayGet rfl hget]
  · rw [said_append, said_append, hsilent]
    rfl

/-- A command of a steady store is carried out. -/
theorem course_command (hs : s.world.Steady) {c : Store.Call} {r : Except Error c.Reply}
    (h : (command c : Action V c.Reply).outcome.Course s log r t) :
    r = (c.run s.world.now s.world.store).1 ∧
      t = s.withStore (c.run s.world.now s.world.store).2 ∧
      said log = [.sent s.world.now c] := by
  have hrun := h.eq_run (Program.each_lift (Q := fun q => q.toSource = false) rfl)
  rw [run_command hs] at hrun
  obtain ⟨hreply, hscene⟩ := Prod.mk.inj hrun
  obtain ⟨-, rfl⟩ := Program.Course.of_lift h
  exact ⟨hreply.symm, hscene.symm, rfl⟩

end Action

namespace Reload

/-! ## Attempts -/

/-- The answers to the attempts at a load, with so many more at most after the first one. All but
the last have failed. -/
inductive Tried : Nat → List (Except Error α) → Except Error α → Prop where
  | loaded {more : Nat} (x : α) : Tried more [.ok x] (.ok x)
  | failed (e : Error) : Tried 0 [.error e] (.error e)
  | again {more : Nat} (e : Error) {answers : List (Except Error α)} {r : Except Error α}
      (h : Tried more answers r) : Tried (more + 1) (.error e :: answers) r

/-- The last answer is the one that counts. -/
theorem Tried.getLast? {more : Nat} {answers : List (Except Error α)} {r : Except Error α}
    (h : Tried more answers r) : answers.getLast? = some r := by
  induction h with
  | loaded x => rfl
  | failed e => rfl
  | again e h ih => rw [List.getLast?_cons, ih, Option.getD_some]

theorem retryTimes_eq (delay : Nat) (a : Action V α) (i more : Nat) :
    retryTimes delay a more = Action.tries (fun _ => delay) a i more := by
  induction more generalizing i with
  | zero => rfl
  | succ more ih =>
    rw [retryTimes, Action.tries]
    refine bind_congr fun r => ?_
    cases r with
    | ok x => rfl
    | error e => exact bind_congr fun _ => ih (i + 1)

/-- To try again, an action waits, and makes no other requests than before. -/
theorem each_retryTimes {Q : Ask V → Prop} (hnow : Q .now)
    (hpause : ∀ t, Q (.wait ⟨some t, fun _ => false⟩)) {a : Action V α}
    (ha : a.outcome.Each Q) (delay more : Nat) :
    (retryTimes delay a more).outcome.Each Q := by
  rw [retryTimes_eq delay a 1 more]
  exact Action.each_tries hnow hpause ha _ _ _

/-- How often a load is tried again at most. Where the number of attempts overflows and goes
unchecked, none of them is left but the first. -/
def retries (c : ReloadConfig) : Nat := (c.maxRetries + 1) % Nat.pow 2 32 - 1

theorem attempts_eq {c : ReloadConfig} (h : c.maxRetries + 1 < Nat.pow 2 32) :
    (attempts c : Program V Nat) = pure (c.maxRetries + 1) := by
  rw [attempts, Nat.mod_eq_of_lt h, Program.word_self]

theorem each_retry {Q : Ask V → Prop} (hoverflow : Q (.overflow .add)) (hnow : Q .now)
    (hpause : ∀ t, Q (.wait ⟨some t, fun _ => false⟩)) (c : ReloadConfig) {a : Action V α}
    (ha : a.outcome.Each Q) :
    (retry c a).outcome.Each Q := by
  rw [retry, Action.outcome_always_bind]
  exact Program.each_bind (Program.each_word hoverflow _ _) fun _ =>
    each_retryTimes hnow hpause ha _ _

theorem course_retryTimes {id : SourceId} {c : Source.Call V} {delay more : Nat}
    {r : Except Error c.Reply}
    (h : (retryTimes delay (Action.request id c) more).outcome.Course s log r t) :
    s.Idles t ∧ t.world.drawn = s.world.drawn ∧
      ∃ answers, Tried more answers r ∧ said log = answers.map (.asked id c) := by
  induction more generalizing s log with
  | zero =>
    obtain ⟨hidles, hdrawn, hevents⟩ := Action.course_request h
    refine ⟨hidles, hdrawn, [r], ?_, hevents⟩
    cases r with
    | ok x => exact .loaded x
    | error e => exact .failed e
  | succ more ih =>
    obtain ⟨log₁, first, s₁, log₂, hfirst, hrest, rfl⟩ := Action.course_always_then h
    obtain ⟨hidles, hdrawn, hevents⟩ := Action.course_request hfirst
    rw [said_append, hevents]
    cases first with
    | ok x =>
      obtain ⟨rfl, rfl, rfl⟩ := hrest.of_pure
      exact ⟨hidles, hdrawn, [.ok x], .loaded x, rfl⟩
    | error e =>
      obtain ⟨log₃, ⟨⟩, s₂, log₄, hpause, hmore, rfl⟩ := Action.course_always_then hrest
      obtain ⟨hidles', hdrawn', hsilent⟩ := Program.course_pause hpause
      obtain ⟨hidles'', hdrawn'', answers, htried, hevents'⟩ := ih hmore
      refine ⟨(hidles.trans hidles').trans hidles'', ?_, .error e :: answers, .again e htried, ?_⟩
      · rw [hdrawn'', hdrawn', hdrawn]
      rw [said_append, hsilent, hevents']
      rfl

/-- Where the number of attempts is a word, nothing overflows. -/
theorem fits_retry {c : ReloadConfig} (h : c.maxRetries + 1 < Nat.pow 2 32) {a : Action V α}
    (ha : a.outcome.Each Ask.Fits) : (retry c a).outcome.Each Ask.Fits := by
  rw [retry, Action.outcome_always_bind, attempts_eq h, pure_bind]
  exact each_retryTimes (Q := Ask.Fits) rfl (fun _ => rfl) ha _ _

/-- A load is tried as often as the settings say; how often that is takes no time. -/
theorem course_retry {c : ReloadConfig} {id : SourceId} {call : Source.Call V}
    {r : Except Error call.Reply}
    (h : (retry c (Action.request id call)).outcome.Course s log r t) :
    s.Idles t ∧ t.world.drawn = s.world.drawn ∧
      ∃ answers, Tried (retries c) answers r ∧ said log = answers.map (.asked id call) := by
  rw [retry, Action.outcome_always_bind] at h
  obtain ⟨log₁, times, s₁, log₂, htimes, hload, rfl⟩ := h.of_bind
  obtain ⟨hrun, hsilent⟩ := htimes.of_silent
    (Program.each_word (Q := fun q => q.isSilent = true) rfl _ _)
  rw [attempts, Program.run_word] at hrun
  obtain ⟨rfl, rfl⟩ := Prod.mk.inj hrun
  rw [said_append, hsilent]
  exact course_retryTimes hload

end Reload
end CacheLayer
