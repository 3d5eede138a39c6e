/-
The reload of one key, from its first hook to its last. The hooks of a phase are called in their
order, up to the first that fails (`Hooks.Called`). A reload passes from one stage to the next one as
long as nothing fails, and there is one way in which it can end at each of them (`Passage`); what the
hooks, the source and the store have heard then is told in order. A failure is told to the hooks, and
the reload is counted (`Lifecycle`).

Main statement: `reload_lifecycle`.
-/
import CacheLayer.Proofs.Hook
import CacheLayer.Proofs.Reload.Batch

namespace CacheLayer

variable {V α : Type} {s t u : Scene V} {log log' : List (Exchange V)}

/-! ## Occasions -/

/-- Something that a reload does: it calls a hook, or it says something to the source or the store. -/
inductive Occasion (V : Type) where
  | called (call : HookCall V)
  | told (event : Event V)

/-- The request is the call of a hook. -/
def Ask.callsHook : Ask V → Bool
  | .note (.hook _) => true
  | _ => false

def Exchange.occasion? (e : Exchange V) : Option (Occasion V) :=
  match e.ask with
  | .note (.hook call) => some (.called call)
  | _ => e.event?.map .told

/-- All that happens in a course, in order. -/
def happened (log : List (Exchange V)) : List (Occasion V) := log.filterMap Exchange.occasion?

theorem happened_append (log log' : List (Exchange V)) :
    happened (log ++ log') = happened log ++ happened log' := List.filterMap_append

/-- Where no hook is called, all that happens is what is said. -/
theorem happened_of_said (h : ∀ e ∈ log, e.ask.callsHook = false) :
    happened log = (said log).map .told := by
  induction log with
  | nil => rfl
  | cons e log ih =>
    obtain ⟨he, hlog⟩ := List.forall_mem_cons.1 h
    have hone : e.occasion? = e.event?.map .told := by
      obtain ⟨time, q, a⟩ := e
      cases q with
      | note n => cases n <;> first | rfl | cases he
      | _ => rfl
    rw [happened, said, List.filterMap_cons, List.filterMap_cons, hone]
    cases e.event? with
    | none => exact ih hlog
    | some event => exact congrArg (_ :: ·) (ih hlog)

theorem Program.Course.happened_eq {p : Program V α} {r : α} (h : p.Course s log r t)
    (hp : p.Each fun q => q.callsHook = false) : happened log = (said log).map .told :=
  happened_of_said (h.forall_ask hp)

namespace Scene

/-- Between the scenes nothing has changed but what has been noted and what sources remember. -/
structure Rests (s t : Scene V) : Prop where
  memory : t.memory = s.memory
  store : t.world.store = s.world.store
  scripts : t.world.scripts = s.world.scripts
  now : t.world.now = s.world.now
  drawn : t.world.drawn = s.world.drawn

theorem Rests.trans (h : s.Rests t) (h' : t.Rests u) : s.Rests u :=
  ⟨h'.memory.trans h.memory, h'.store.trans h.store, h'.scripts.trans h.scripts,
    h'.now.trans h.now, h'.drawn.trans h.drawn⟩

theorem Rests.idles (h : s.Rests t) : s.Idles t :=
  ⟨h.memory, h.store, h.scripts, Nat.le_of_eq h.now.symm⟩

theorem Rests.live? (h : s.Rests t) (key : String) : t.live? key = s.live? key := by
  unfold Scene.live?
  rw [h.store, h.now]

end Scene

namespace Reload

theorem course_notes {calls : List (HookCall V)}
    (h : (calls.forM fun call => Program.note (.hook call) : Program V Unit).Course s log () t) :
    s.Rests t ∧ happened log = calls.map .called := by
  induction calls generalizing s log with
  | nil =>
    obtain ⟨rfl, -, rfl⟩ := h.of_pure
    exact ⟨⟨rfl, rfl, rfl, rfl, rfl⟩, rfl⟩
  | cons call calls ih =>
    obtain ⟨log₁, ⟨⟩, s₁, log₂, hnote, hrest, rfl⟩ := Program.Course.of_bind h
    obtain ⟨hget, rfl⟩ := hnote.of_lift
    have hnoted : s.Rests s₁ := by
      obtain ⟨-, rfl⟩ := Prod.mk.inj hget
      exact ⟨rfl, rfl, rfl, rfl, rfl⟩
    obtain ⟨hrests, hcalls⟩ := ih hrest
    refine ⟨hnoted.trans hrests, ?_⟩
    rw [happened_append, hcalls]
    rfl

/-- To call hooks changes nothing else. -/
theorem course_runHooks {phase : HookPhase V} {r : Except Error Unit}
    (h : (runHooks phase).outcome.Course s log r t) :
    s.Rests t ∧ ∃ calls, Hooks.Called phase s.memory.hooks calls r ∧
      happened log = calls.map .called := by
  obtain ⟨log', hcalls, rfl⟩ := Action.course_memory_then h
  have hcalled := Hooks.called_run phase s.memory.hooks
  obtain ⟨log₁, ⟨⟩, s₁, log₂, hnotes, hreturn, rfl⟩ := Action.course_always_then hcalls
  obtain ⟨rfl, rfl, rfl⟩ := hreturn.of_pure
  obtain ⟨hrests, hhappened⟩ := course_notes hnotes
  refine ⟨hrests, _, hcalled, ?_⟩
  rw [List.append_nil]
  exact hhappened

/-! ## Storing one value -/

/-- A value that cannot be encoded is not stored; another one is stored under its key. -/
theorem course_set (hs : s.world.Steady) {f : Format α} {key : String} {a : α} {life : Option Nat}
    {r : Except Error Unit} (h : (Client.set f key a life).outcome.Course s log r t) :
    t.memory = s.memory ∧ t.world.scripts = s.world.scripts ∧ t.world.now = s.world.now ∧
    ((∃ e, Client.coded s.memory f s.world.drawn key a = .error e ∧ r = .error e ∧ said log = [] ∧
        t.world.store = s.world.store) ∨
      ∃ b, Client.coded s.memory f s.world.drawn key a = .ok b ∧ r = .ok () ∧
        said log = [.sent s.world.now (.set key b life)] ∧
        t.world.store = s.world.store.set s.world.now key b life) := by
  rcases Action.course_then h with ⟨log₁, b, s₁, log₂, hencode, hcommand, rfl⟩ |
    ⟨e, rfl, hencode⟩
  · obtain ⟨hcoded, hsilent, hscene⟩ := course_encode hencode
    have hs₁ : s₁.world.Steady := by
      rw [hscene]
      exact hs
    obtain ⟨rfl, rfl, hsaid⟩ := Action.course_command hs₁ hcommand
    subst hscene
    refine ⟨rfl, rfl, rfl, .inr ⟨b, hcoded, rfl, ?_, rfl⟩⟩
    rw [said_append, hsilent, hsaid]
    rfl
  · obtain ⟨hcoded, hsilent, rfl⟩ := course_encode hencode
    exact ⟨rfl, rfl, rfl, .inl ⟨e, hcoded, rfl, hsilent, rfl⟩⟩

theorem each_set (f : Format α) (key : String) (a : α) (life : Option Nat) :
    (Client.set f key a life : Action V Unit).outcome.Each fun q => q.callsHook = false :=
  Client.each_set (Q := fun q => q.callsHook = false) rfl (fun _ => rfl) (fun _ _ => rfl) f a life

theorem quiet_retry (c : ReloadConfig) (id : SourceId) (call : Source.Call V) :
    (retry c (Action.request id call)).outcome.Each fun q => q.callsHook = false :=
  each_retry (Q := fun q => q.callsHook = false) rfl rfl (fun _ => rfl) c
    (Program.each_request (Q := fun q => q.callsHook = false) (fun _ _ => rfl) rfl (fun _ => rfl)
      (fun _ _ => rfl) id call)

/-! ## From stage to stage -/

/-- What becomes of a loaded value: what happens in order, the bytes that are stored, and how it
ends. -/
inductive Handled (m : Memory V) (fresh : Nat) (key : String) (time : Nat) (v : V) :
    List (Occasion V) → Option Bytes → Except Error Unit → Prop where
  | rejected (e : Error) :
      Handled m fresh key time v [.told (.judged m.reloadSource v (.error e))] none (.error e)
  /-- The value is accepted, but it cannot be encoded. -/
  | unfit {e : Error} (hmode : m.reload.mode ≠ .lazy)
      (hcoded : Client.coded m m.format fresh key v = .error e) :
      Handled m fresh key time v [.told (.judged m.reloadSource v (.ok ()))] none (.error e)
  /-- The value is accepted and not to be stored. -/
  | checked {calls : List (HookCall V)} {r : Except Error Unit} (hmode : m.reload.mode = .lazy)
      (hafter : m.hooks.Called (.after key v) calls r) :
      Handled m fresh key time v
        (.told (.judged m.reloadSource v (.ok ())) :: calls.map .called) none r
  | stored {b : Bytes} {calls : List (HookCall V)} {r : Except Error Unit}
      (hmode : m.reload.mode ≠ .lazy) (hcoded : Client.coded m m.format fresh key v = .ok b)
      (hafter : m.hooks.Called (.after key v) calls r) :
      Handled m fresh key time v (.told (.judged m.reloadSource v (.ok ())) ::
        .told (.sent time (.set key b m.reload.life)) :: calls.map .called) (some b) r

/-- The attempts at loading a key. -/
def attemptsAt (m : Memory V) (key : String) (answers : List (Except Error (Option V))) :
    List (Occasion V) :=
  answers.map fun answer => .told (.asked m.reloadSource (.loadOne key) answer)

/-- The ways in which the reload of a key can go. It gets to the next stage only if nothing has
failed before. -/
inductive Passage (m : Memory V) (fresh : Nat) (key : String) (time : Nat) :
    List (Occasion V) → Option Bytes → Except Error Unit → Prop where
  /-- A hook does not let the reload begin. -/
  | vetoed {calls : List (HookCall V)} {e : Error}
      (hbefore : m.hooks.Called (.before key) calls (.error e)) :
      Passage m fresh key time (calls.map .called) none (.error e)
  /-- All attempts at loading the key have failed. -/
  | unloaded {calls : List (HookCall V)} {answers : List (Except Error (Option V))} {e : Error}
      (hbefore : m.hooks.Called (.before key) calls (.ok ()))
      (hload : Tried (retries m.reload) answers (.error e)) :
      Passage m fresh key time (calls.map .called ++ attemptsAt m key answers) none (.error e)
  /-- The source has no value. -/
  | missing {calls : List (HookCall V)} {answers : List (Except Error (Option V))}
      (hbefore : m.hooks.Called (.before key) calls (.ok ()))
      (hload : Tried (retries m.reload) answers (.ok none)) :
      Passage m fresh key time (calls.map .called ++ attemptsAt m key answers) none
        (.error (.notFound key))
  | loaded {calls : List (HookCall V)} {answers : List (Except Error (Option V))} {v : V}
      {rest : List (Occasion V)} {stored : Option Bytes} {r : Except Error Unit}
      (hbefore : m.hooks.Called (.before key) calls (.ok ()))
      (hload : Tried (retries m.reload) answers (.ok (some v)))
      (hhandled : Handled m fresh key time v rest stored r) :
      Passage m fresh key time (calls.map .called ++ attemptsAt m key answers ++ rest) stored r

/-- Between the scenes a key has been given some bytes, if any, and nothing else. -/
structure Gives (s t : Scene V) (key : String) (stored : Option Bytes) : Prop where
  memory : t.memory = s.memory
  scripts : t.world.scripts = s.world.scripts
  now : s.world.now ≤ t.world.now
  live : ∀ k, t.live? k = ((if k = key then stored.map fun b =>
    .born (.bytes b) s.memory.reload.life t.world.now else none).or (s.live? k)).filter
      fun e => !e.isDead t.world.now

namespace Gives

variable {key : String} {stored : Option Bytes}

theorem of_idles (h : s.Idles t) (key : String) : Gives s t key none :=
  ⟨h.memory, h.scripts, h.now, fun k => by simpa using h.live? k⟩

theorem of_set (hmemory : t.memory = s.memory) (hscripts : t.world.scripts = s.world.scripts)
    (hnow : t.world.now = s.world.now) {b : Bytes}
    (hstore : t.world.store = s.world.store.set s.world.now key b s.memory.reload.life) :
    Gives s t key (some b) := by
  refine ⟨hmemory, hscripts, Nat.le_of_eq hnow.symm, fun k => ?_⟩
  unfold Scene.live?
  rw [hstore, hnow, Store.set]
  by_cases hkey : k = key
  · subst hkey
    rw [Store.live?_put_self, if_pos rfl]
    cases hdead : (Entry.born (.bytes b) s.memory.reload.life s.world.now).isDead s.world.now <;>
      simp [Option.filter, hdead]
  · rw [Store.live?_put_other _ _ _ hkey, if_neg hkey, Option.none_or]
    exact Store.live?_later _ (Nat.le_refl _) k

/-- Before and afterwards, time may pass and nothing else may happen. -/
theorem after_idles (h : s.Idles t) (h' : Gives t u key stored) : Gives s u key stored where
  memory := h'.memory.trans h.memory
  scripts := h'.scripts.trans h.scripts
  now := Nat.le_trans h.now h'.now
  live k := by
    rw [h'.live, h.live?, h.memory]
    cases (if k = key then stored.map fun b =>
      Entry.born (.bytes b) s.memory.reload.life u.world.now else none) with
    | some e => rfl
    | none => exact Store.filter_later h'.now _

theorem then_rests (h : Gives s t key stored) (h' : t.Rests u) : Gives s u key stored where
  memory := h'.memory.trans h.memory
  scripts := h'.scripts.trans h.scripts
  now := h'.now ▸ h.now
  live k := by rw [h'.live?, h.live, h'.now]

end Gives

theorem course_judged {id : SourceId} {v : V} {r : Except Error Unit}
    (h : (Action.judge id v).outcome.Course s log r t) :
    s.Rests t ∧ happened log = [.told (.judged id v r)] := by
  have hhappened := h.happened_eq (Program.each_lift rfl)
  obtain ⟨hsaid, sites, rfl⟩ := course_judge h
  refine ⟨⟨rfl, rfl, rfl, rfl, rfl⟩, ?_⟩
  rw [hhappened, hsaid]
  rfl

/-- An accepted value is stored, if it can be encoded, and then the hooks are told. -/
theorem course_keep (hs : s.world.Steady) {key : String} {v : V} {r : Except Error Unit}
    (h : (do
      Client.set s.memory.format key v s.memory.reload.life
      runHooks (.after key v) : Action V Unit).outcome.Course s log r t) :
    t.world.now = s.world.now ∧
    ((∃ e, Client.coded s.memory s.memory.format s.world.drawn key v = .error e ∧ r = .error e ∧
        happened log = [] ∧ Gives s t key none) ∨
      ∃ b calls, Client.coded s.memory s.memory.format s.world.drawn key v = .ok b ∧
        s.memory.hooks.Called (.after key v) calls r ∧
        happened log = .told (.sent s.world.now (.set key b s.memory.reload.life)) ::
          calls.map .called ∧ Gives s t key (some b)) := by
  rcases Action.course_then h with ⟨log₁, ⟨⟩, s₁, log₂, hset, hafter, rfl⟩ | ⟨e, rfl, hset⟩
  · have hhappened := hset.happened_eq (each_set _ _ _ _)
    obtain ⟨hmemory, hscripts, hnow, ⟨e, -, herror, -⟩ | ⟨b, hcoded, -, hsaid, hstore⟩⟩ :=
      course_set hs hset
    · cases herror
    · obtain ⟨hrests, calls, hcalled, hcalls⟩ := course_runHooks hafter
      rw [hmemory] at hcalled
      refine ⟨hrests.now.trans hnow, .inr ⟨b, calls, hcoded, hcalled, ?_, ?_⟩⟩
      · rw [happened_append, hhappened, hsaid, hcalls]
        rfl
      · exact (Gives.of_set hmemory hscripts hnow hstore).then_rests hrests
  · have hhappened := hset.happened_eq (each_set _ _ _ _)
    obtain ⟨hmemory, hscripts, hnow, ⟨e, hcoded, herror, hsaid, hstore⟩ | ⟨b, -, hok, -⟩⟩ :=
      course_set hs hset
    · cases herror
      refine ⟨hnow, .inl ⟨e, hcoded, rfl, ?_, ?_⟩⟩
      · rw [hhappened, hsaid]
        rfl
      · exact .of_idles ⟨hmemory, hstore, hscripts, Nat.le_of_eq hnow.symm⟩ key
    · cases hok

theorem course_handle (hs : s.world.Steady) {key : String} {v : V} {r : Except Error Unit}
    (h : (do
      Action.judge s.memory.reloadSource v
      if s.memory.reload.mode ≠ .lazy then
        Client.set s.memory.format key v s.memory.reload.life
      runHooks (.after key v) : Action V Unit).outcome.Course s log r t) :
    ∃ stored, Handled s.memory s.world.drawn key t.world.now v (happened log) stored r ∧
      Gives s t key stored := by
  rcases Action.course_then h with ⟨log₁, ⟨⟩, s₁, log₂, hjudge, hrest, rfl⟩ | ⟨e, rfl, hjudge⟩
  · obtain ⟨hrests, hverdict⟩ := course_judged hjudge
    rw [happened_append, hverdict]
    by_cases hmode : s.memory.reload.mode = .lazy
    · simp only [hmode, ne_eq, not_true, if_false] at hrest
      obtain ⟨hrests', calls, hcalled, hcalls⟩ := course_runHooks hrest
      rw [hrests.memory] at hcalled
      refine ⟨none, ?_, .of_idles (hrests.trans hrests').idles key⟩
      rw [hcalls]
      exact .checked hmode hcalled
    · simp only [hmode, ne_eq, not_false_eq_true, if_true] at hrest
      rw [← hrests.memory] at hrest
      obtain ⟨hnow, hkept⟩ := course_keep (hrests.idles.steady hs) hrest
      rw [hrests.memory, hrests.drawn, ← hnow] at hkept
      rcases hkept with ⟨e, hcoded, rfl, hnone, hgives⟩ | ⟨b, calls, hcoded, hcalled, hcalls, hgives⟩
      · refine ⟨none, ?_, hgives.after_idles hrests.idles⟩
        rw [hnone]
        exact .unfit hmode hcoded
      · refine ⟨some b, ?_, hgives.after_idles hrests.idles⟩
        rw [hcalls]
        exact .stored hmode hcoded hcalled
  · obtain ⟨hrests, hverdict⟩ := course_judged hjudge
    refine ⟨none, ?_, .of_idles hrests.idles key⟩
    rw [hverdict]
    exact .rejected e

theorem course_reloadSteps (hs : s.world.Steady) {key : String} {r : Except Error Unit}
    (h : (reloadSteps key).outcome.Course s log r t) :
    ∃ stored, Passage s.memory s.world.drawn key t.world.now (happened log) stored r ∧
      Gives s t key stored := by
  obtain ⟨log', hsteps, rfl⟩ := Action.course_memory_then h
  change ∃ stored, Passage s.memory s.world.drawn key t.world.now (happened log') stored r ∧
    Gives s t key stored
  rcases Action.course_then hsteps with ⟨log₁, ⟨⟩, s₁, log₂, hbefore, hrest, rfl⟩ |
    ⟨e, rfl, hbefore⟩
  · obtain ⟨hrests, calls, hcalled, hcalls⟩ := course_runHooks hbefore
    rw [happened_append, hcalls]
    have hload : ∀ {log₃ : List (Exchange V)} {answer : Except Error (Option V)} {s₂ : Scene V},
        (retry s.memory.reload (Action.request s.memory.reloadSource
          (.loadOne key))).outcome.Course s₁ log₃ answer s₂ →
        s₁.Idles s₂ ∧ s₂.world.drawn = s₁.world.drawn ∧ ∃ answers,
          Tried (retries s.memory.reload) answers answer ∧
          happened log₃ = attemptsAt s.memory key answers := by
      intro log₃ answer s₂ hretry
      have hhappened := hretry.happened_eq (quiet_retry _ _ _)
      obtain ⟨hidles, hdrawn, answers, htried, hasked⟩ := course_retry hretry
      refine ⟨hidles, hdrawn, answers, htried, ?_⟩
      rw [hhappened, hasked, List.map_map]
      rfl
    rcases Action.course_then hrest with ⟨log₃, found, s₂, log₄, hretry, hfound, rfl⟩ |
      ⟨e, rfl, hretry⟩
    · obtain ⟨hidles, hdrawn, answers, htried, hasked⟩ := hload hretry
      have hbegun := hrests.idles.trans hidles
      rw [happened_append, hasked]
      cases found with
      | none =>
        obtain ⟨rfl, rfl, rfl⟩ := Program.Course.of_pure hfound
        refine ⟨none, ?_, .of_idles hbegun key⟩
        exact (List.append_nil _).symm ▸ .missing hcalled htried
      | some v =>
        rw [← hbegun.memory] at hfound
        obtain ⟨stored, hhandled, hgives⟩ := course_handle (hbegun.steady hs) hfound
        rw [hbegun.memory, hdrawn, hrests.drawn] at hhandled
        refine ⟨stored, ?_, .after_idles hbegun hgives⟩
        rw [← List.append_assoc]
        exact .loaded hcalled htried hhandled
    · obtain ⟨hidles, -, answers, htried, hasked⟩ := hload hretry
      rw [hasked]
      exact ⟨none, .unloaded hcalled htried, .of_idles (hrests.idles.trans hidles) key⟩
  · obtain ⟨hrests, calls, hcalled, hcalls⟩ := course_runHooks hbefore
    rw [hcalls]
    exact ⟨none, .vetoed hcalled, .of_idles hrests.idles key⟩

/-! ## The whole reload -/

/-- How the reload of a key goes: its steps, the hooks that are called about a failure, and the bytes
that are stored. -/
structure Lifecycle (s t : Scene V) (key : String) (log : List (Exchange V))
    (steps : List (Occasion V)) (calls : List (HookCall V)) (stored : Option Bytes)
    (r : Except Error Unit) : Prop where
  passage : Passage s.memory s.world.drawn key t.world.now steps stored r
  /-- Nothing else happens. -/
  happened : happened log = steps ++ calls.map .called
  succeeded : r = .ok () → calls = []
  /-- A failure is told to the hooks once, up to the first that fails, and this changes nothing. -/
  failed : ∀ e, r = .error e → ∃ r', s.memory.hooks.Called (.failed key e) calls r'
  /-- The key holds what was stored, if anything was. -/
  live : t.live? key = ((stored.map fun b =>
    .born (.bytes b) s.memory.reload.life t.world.now).or (s.live? key)).filter
      fun e => !e.isDead t.world.now
  others : ∀ k, k ≠ key → t.live? k = (s.live? k).filter fun e => !e.isDead t.world.now
  /-- The reload is counted once, and nothing else is remembered of it. -/
  memory : t.memory = { s.memory with
    reloadStats := s.memory.reloadStats.reload r.toBool
      ((t.world.now - s.world.now) * 1000000) }
  counts : t.memory.reloadStats.total = s.memory.reloadStats.total + 1 ∧
    t.memory.reloadStats.succeeded =
      s.memory.reloadStats.succeeded + (if r.toBool then 1 else 0) ∧
    t.memory.reloadStats.failed =
      s.memory.reloadStats.failed + (if r.toBool then 0 else 1)

/-- When the steps are over, the reload is counted and the hooks are told of a failure. -/
theorem Lifecycle.of_steps {key : String} {steps : List (Occasion V)} {calls : List (HookCall V)}
    {stored : Option Bytes} {r : Except Error Unit}
    (hpassage : Passage s.memory s.world.drawn key u.world.now steps stored r)
    (hgives : Gives s u key stored) (hrests : (counting r.toBool s.world.now u).Rests t)
    (hhappened : CacheLayer.happened log = steps ++ calls.map .called)
    (hsucceeded : r = .ok () → calls = [])
    (hfailed : ∀ e, r = .error e → ∃ r', s.memory.hooks.Called (.failed key e) calls r') :
    Lifecycle s t key log steps calls stored r := by
  have hnow : t.world.now = u.world.now := hrests.now
  have hlive : ∀ k, t.live? k = u.live? k := hrests.live?
  have hmemory : t.memory = { s.memory with
      reloadStats := s.memory.reloadStats.reload r.toBool
        ((t.world.now - s.world.now) * 1000000) } := by
    rw [hrests.memory, hnow, counting, hgives.memory]
  exact {
    passage := hnow ▸ hpassage
    happened := hhappened
    succeeded := hsucceeded
    failed := hfailed
    live := by rw [hlive, hgives.live, if_pos rfl, hnow]
    others := fun k hk => by rw [hlive, hgives.live, if_neg hk, Option.none_or, hnow]
    memory := hmemory
    counts := by
      rw [hmemory]
      exact ⟨rfl, rfl, rfl⟩ }

theorem lifecycle_of_course (hs : s.world.Steady) {key : String} {r : Except Error Unit}
    (h : (reload key).outcome.Course s log r t) :
    ∃ steps calls stored, Lifecycle s t key log steps calls stored r := by
  obtain ⟨log₁, start, s₁, log₂, hnow, hrest, rfl⟩ := Action.course_always_then h
  obtain ⟨hget, rfl⟩ := hnow.of_lift
  obtain ⟨rfl, rfl⟩ := Prod.mk.inj hget
  obtain ⟨log₃, outcome, u, log₄, hsteps, hend, rfl⟩ := Action.course_always_then hrest
  obtain ⟨stored, hpassage, hgives⟩ := course_reloadSteps hs hsteps
  -- To count the reload, no hook is called.
  have hrecorded : ∀ {ok : Bool} {log₅ : List (Exchange V)} {u' : Scene V},
      (record ok s.world.now : Program V Unit).Course u log₅ () u' →
      u' = counting ok s.world.now u ∧ happened log₅ = [] := by
    intro ok log₅ u' hrecord
    have hhappened := hrecord.happened_eq (Program.each_bind
      (Program.each_lift (Q := fun q => q.callsHook = false) rfl) fun _ => ⟨rfl, fun _ => trivial⟩)
    obtain ⟨hcounted, hsaid⟩ := course_record hrecord
    exact ⟨hcounted, by rw [hhappened, hsaid]; rfl⟩
  cases outcome with
  | ok =>
    obtain ⟨log₅, ⟨⟩, u', log₆, hrecord, hreturn, rfl⟩ := Program.Course.of_bind hend
    obtain ⟨rfl, hnone⟩ := hrecorded hrecord
    obtain ⟨rfl, rfl, rfl⟩ := hreturn.of_pure
    refine ⟨happened log₃, [], stored,
      .of_steps hpassage hgives ⟨rfl, rfl, rfl, rfl, rfl⟩ ?_ (fun _ => rfl) ?_⟩
    · rw [happened_append, happened_append, happened_append, hnone]
      rfl
    · intro e herror
      cases herror
  | error e =>
    obtain ⟨log₅, ⟨⟩, u', log₆, hrecord, hthrow, rfl⟩ := Action.course_always_then hend
    obtain ⟨rfl, hnone⟩ := hrecorded hrecord
    obtain ⟨log₇, ⟨⟩, u₂, log₈, hignore, hreturn, rfl⟩ := Action.course_always_then hthrow
    obtain ⟨rfl, rfl, rfl⟩ := hreturn.of_pure
    obtain ⟨log₉, r', u₃, log₁₀, hhooks, hdone, rfl⟩ := Program.Course.of_bind hignore
    obtain ⟨rfl, -, rfl⟩ := hdone.of_pure
    obtain ⟨hrests, calls, hcalled, hcalls⟩ := course_runHooks hhooks
    have hsame : (counting false s.world.now u).memory.hooks = s.memory.hooks := by
      rw [counting, hgives.memory]
    rw [hsame] at hcalled
    refine ⟨happened log₃, calls, stored, .of_steps hpassage hgives hrests ?_ ?_ ?_⟩
    · simp only [happened_append, hnone, hcalls, List.append_nil, List.nil_append]
      rfl
    · intro hok
      cases hok
    · intro e' herror
      cases herror
      exact ⟨r', hcalled⟩

/-- **A reload of a key goes through its stages.** Whatever the hooks do and whatever the source makes
up its answers from, the reload ends. The hooks before it are called in their order up to the first
that fails; only if none does is the key loaded; only what is loaded and accepted is stored, unless
values are only checked, and only then are the hooks after it called. A failure at any stage is how
the reload ends, and it is told to the hooks once, whatever they do; a success is not. The key holds
what was stored, no other key is touched, and the reload is counted once. -/
theorem reload_lifecycle (s : Scene V) (hs : s.world.Steady) (key : String) :
    (∀ answer, ∃ log r t, (reload key).outcome.Course s log r t ∧ Program.Heeds answer [] log) ∧
      ∀ log r t, (reload key).outcome.Course s log r t →
        ∃ steps calls stored, Lifecycle s t key log steps calls stored r := by
  refine ⟨fun answer => Program.exists_course answer _ s [], ?_⟩
  intro log r t h
  exact lifecycle_of_course hs h

/-- A hook that objects to what has been reloaded. -/
def objector : Hook UInt8 where
  name := "late"
  priority := 2
  noted := true
  call
    | .after _ _ => .error (.invalid "too late")
    | _ => .ok ()

/-- An engine with two hooks, before a source with one row. -/
def hooked : Scene UInt8 :=
  ⟨.start (Source.ofRows (KeyMap.empty.insert "k" 7)),
    { Client.byteMemory with hooks := [⟨"early", 1, true, fun _ => .ok ()⟩, objector] }⟩

/-- A hook fails after the value has been stored: the reload ends with its failure, and both hooks are
told. -/
theorem reload_lifecycle_hooked :
    hooked.world.Steady ∧ ∃ log t steps calls stored,
      Lifecycle hooked t "k" log steps calls stored
        (.error (.hook "late" "Validation error: too late")) ∧
      (t.live? "k").isSome = true ∧ calls.map HookCall.hook = ["early", "late"] := by
  have hs : hooked.world.Steady := fun _ => rfl
  have hcourse := Program.course_run (reload "k").outcome hooked
  obtain ⟨steps, calls, stored, hlifecycle⟩ := (reload_lifecycle hooked hs "k").2 _ _ _ hcourse
  have hresult : ((reload "k").outcome.run hooked).1 =
      .error (.hook "late" "Validation error: too late") := rfl
  have hlive : (((reload "k").outcome.run hooked).2.live? "k").isSome = true := by decide +kernel
  rw [hresult] at hlifecycle
  refine ⟨hs, _, _, steps, calls, stored, hlifecycle, hlive, ?_⟩
  obtain ⟨r, hcalled⟩ := hlifecycle.failed _ rfl
  have hok : ∀ hook ∈ hooked.memory.hooks,
      hook.call (.failed "k" (.hook "late" "Validation error: too late")) = .ok () := by
    intro hook hmem
    simp only [hooked, List.mem_cons, List.not_mem_nil, or_false] at hmem
    rcases hmem with rfl | rfl <;> rfl
  rw [hcalled.eq_of_ok hok]
  rfl

end Reload
end CacheLayer
