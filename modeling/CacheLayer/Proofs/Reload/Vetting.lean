/-
Values from a source on their way into the store. A load may put a value under a key if a source has
given it for that key and, where this is asked for, has accepted it (`Vetted`); what a load notes
down for the engine itself is exempt. That only such values are put there is a guard over the
answers of the sources (`vetting`), which is shown here to let pass reads by the strategy, and
reloads of one key or of many, in which the source is asked about each value.
-/
import CacheLayer.Proofs.Client.Coding
import CacheLayer.Proofs.Reload.Requests
import CacheLayer.Proofs.WriteBehind.Quiet

namespace CacheLayer

variable {V α β : Type}

/-! ## What is put where -/

/-- The bytes that the command puts under keys. -/
def BatchStep.puts : BatchStep → List (String × Bytes)
  | .set key b _ | .setIfAbsent key b _ | .setIfPresent key b _ | .swap key _ b _ => [(key, b)]
  | _ => []

/-- The bytes that the command puts under keys, by themselves or into what the keys hold. -/
def Store.Call.puts : Store.Call → List (String × Bytes)
  | .set key b _ | .setIfAbsent key b _ | .setIfPresent key b _ | .swap key _ b _
  | .setField key _ b => [(key, b)]
  | .pushFront key bs | .pushBack key bs => bs.map (key, ·)
  | .execute steps _ => steps.flatMap BatchStep.puts
  | _ => []

/-- The bytes that the request puts under keys. -/
def Ask.puts : Ask V → List (String × Bytes)
  | .command c => c.puts
  | _ => []

/-- The keys under which the engine notes down something that is no value of a source. -/
def Marker.notes : List String := [Marker.warmedUp, Marker.events]

/-- A source gives the value for the key. -/
inductive Exchange.Gives (id : SourceId) (key : String) (v : V) : Exchange V → Prop where
  | one (time : Nat) : Gives id key v ⟨time, .request id (.loadOne key), .ok (some v)⟩
  | many (time : Nat) {keys : List String} {got : KeyMap V} (h : got.get? key = some v) :
      Gives id key v ⟨time, .request id (.loadBatch keys), .ok got⟩
  | all (time : Nat) {got : KeyMap V} (h : got.get? key = some v) :
      Gives id key v ⟨time, .request id .loadAll, .ok got⟩

/-- A source says that the value may be cached. -/
inductive Exchange.Accepts (id : SourceId) (v : V) : Exchange V → Prop where
  | mk (time : Nat) : Accepts id v ⟨time, .judge id v, .ok ()⟩

/-- What decides how a value is encoded. -/
def Memory.coding (m : Memory V) : Format V × EngineConfig × Transformers :=
  (m.format, m.config, m.transformers)

theorem Client.coded_congr {m m' : Memory V} (h : m'.coding = m.coding) (f : Format α)
    (fresh : Nat) (key : String) (a : α) :
    coded m' f fresh key a = coded m f fresh key a := by
  simp only [Memory.coding, Prod.mk.injEq] at h
  simp only [coded, h.2.1, h.2.2]

/-- A source has given the value for the key. -/
def Gave (log : List (Exchange V)) (id : SourceId) (key : String) (v : V) : Prop :=
  ∃ e ∈ log, Exchange.Gives id key v e

/-- A source has accepted the value. -/
def Accepted (log : List (Exchange V)) (id : SourceId) (v : V) : Prop :=
  ∃ e ∈ log, Exchange.Accepts id v e

theorem Gave.mono {log log' : List (Exchange V)} {id : SourceId} {key : String} {v : V}
    (h : Gave log id key v) (hlog : log ⊆ log') : Gave log' id key v := by
  obtain ⟨e, he, hgives⟩ := h
  exact ⟨e, hlog he, hgives⟩

theorem Accepted.mono {log log' : List (Exchange V)} {id : SourceId} {v : V}
    (h : Accepted log id v) (hlog : log ⊆ log') : Accepted log' id v := by
  obtain ⟨e, he, haccepts⟩ := h
  exact ⟨e, hlog he, haccepts⟩

/-- The bytes are the encoding of a value that a source has given for the key, and that it has
accepted if this is asked for. -/
def Vetted (m : Memory V) (checked : Bool) (log : List (Exchange V)) (key : String) (b : Bytes) :
    Prop :=
  ∃ (id : SourceId) (v : V) (fresh : Nat), Gave log id key v ∧
    (checked = true → Accepted log id v) ∧ Client.coded m m.format fresh key v = .ok b

theorem Vetted.mono {m : Memory V} {checked : Bool} {log log' : List (Exchange V)} {key : String}
    {b : Bytes} (h : Vetted m checked log key b) (hlog : log ⊆ log') :
    Vetted m checked log' key b := by
  obtain ⟨id, v, fresh, hgave, haccepted, hb⟩ := h
  exact ⟨id, v, fresh, hgave.mono hlog, fun hchecked => (haccepted hchecked).mono hlog, hb⟩

/-- Only notes and vetted values are put into the store, and the way of encoding stays. -/
def vetting (m : Memory V) (checked : Bool) : Guard V where
  knows m' := m'.coding = m.coding
  may log q := ∀ key b, (key, b) ∈ q.puts → key ∈ Marker.notes ∨ Vetted m checked log key b
  mono hlog h key b hputs := (h key b hputs).imp_right fun hb => hb.mono hlog

namespace Vetting

variable {m : Memory V} {checked : Bool} {log : List (Exchange V)} {key : String}

open Guard

/-! ## Requests that put nothing anywhere -/

theorem lets_command {c : Store.Call} (h : ∀ key b, (key, b) ∈ c.puts → key ∈ Marker.notes) :
    (vetting m checked).Lets (.command c) :=
  ⟨trivial, fun _ key b hputs => .inl (h key b hputs)⟩

theorem lets_update {f : Memory V → Memory V} (h : ∀ m', (f m').coding = m'.coding) :
    (vetting m checked).Lets (.update f) :=
  ⟨fun m' hm' => (h m').trans hm', fun _ _ _ hputs => absurd hputs List.not_mem_nil⟩

theorem lets_plain {q : Ask V} (hq : ∀ knows, q.Respects knows) (hputs : q.puts = []) :
    (vetting m checked).Lets q :=
  ⟨hq _, fun _ key b h => by simp [hputs] at h⟩

theorem lets_idle {q : Ask V} (h : q.IsIdle) : (vetting m checked).Lets q := by
  cases q with
  | update f =>
    refine lets_update fun m' => ?_
    obtain ⟨stats, hf⟩ := h m'
    rw [hf]
    rfl
  | command | health | request | overflow => cases h
  | _ => exact lets_plain (fun _ => trivial) rfl

theorem letsWait : (vetting m checked).LetsWait where
  now := lets_idle trivial
  memory := lets_update fun _ => rfl
  wait _ := lets_plain (fun _ => trivial) rfl

theorem lets_source {q : Ask V} (hq : q.toSource = true) : (vetting m checked).Lets q := by
  cases q <;> first | exact lets_plain (fun _ => trivial) rfl | cases hq

theorem each_command {c : Store.Call} (h : ∀ key b, (key, b) ∈ c.puts → key ∈ Marker.notes) :
    (Action.command c : Action V c.Reply).outcome.Each (vetting m checked).Lets :=
  Program.each_lift (lets_command h)

theorem each_idle {p : Program V α} (h : p.Each Ask.IsIdle) : p.Each (vetting m checked).Lets :=
  Program.each_mono (fun _ => lets_idle) h

theorem safe_idle {p : Program V α} (h : p.Each Ask.IsIdle) (log : List (Exchange V)) :
    (vetting m checked).Safe log p :=
  safe_each (each_idle h) log

/-! ## Memory and values -/

/-- Memory may have changed, but not the way of encoding. -/
theorem passes_look {f : Memory V → Action V α} {P : Except Error α → List (Exchange V) → Prop}
    (h : ∀ m', m'.coding = m.coding → (vetting m checked).Passes (f m').outcome P log) :
    (vetting m checked).Passes (Action.always Program.memory >>= f).outcome P log :=
  passes_memory letsWait.memory h

theorem passes_ofExcept {r : Except Error α} {P : Except Error α → List (Exchange V) → Prop}
    (h : P r log) : (vetting m checked).Passes (Action.ofExcept r).outcome P log := h

theorem passes_encode (f : Format α) (key : String) (a : α) (log : List (Exchange V)) :
    (vetting m checked).Passes (Client.encode f key a).outcome
      (fun r _ => ∀ b, r = .ok b → ∃ fresh, Client.coded m f fresh key a = .ok b) log := by
  refine passes_look fun m' hm' => ?_
  refine passes_then (passes_ofExcept ⟨fun plain hplain => ?_, fun e _ b hb => by cases hb⟩)
  refine passes_always_then ⟨trivial, (lets_idle (q := .draw _) trivial).2 log, fun _ fresh _ => ?_⟩
  refine passes_then (passes_ofExcept ⟨fun sealed hsealed => ?_, fun e _ b hb => by cases hb⟩)
  intro b hb
  refine ⟨fresh, ?_⟩
  rw [← Client.coded_congr hm', Client.coded]
  simp only [hplain, hsealed, bind, Except.bind]
  exact hb

theorem safe_set {f : Format α} {a : α} {life : Option Nat}
    (h : ∀ fresh b, Client.coded m f fresh key a = .ok b →
      key ∈ Marker.notes ∨ Vetted m checked log key b) :
    (vetting m checked).Safe log (Client.set f key a life).outcome := by
  refine passes_then ((passes_encode f key a log).grows.mono fun r log' hr => ?_)
  obtain ⟨hlog, hb⟩ := hr
  refine ⟨fun b hb' => ⟨trivial, fun key' b' hputs => ?_, fun _ _ _ => trivial⟩, fun _ _ => trivial⟩
  obtain ⟨rfl, rfl⟩ : key' = key ∧ b' = b := by simpa [Ask.puts, Store.Call.puts] using hputs
  obtain ⟨fresh, hcoded⟩ := hb b' hb'
  exact (h fresh b' hcoded).imp_right fun hvetted => hvetted.mono hlog

/-! ## Answers of sources -/

theorem passes_request (id : SourceId) (c : Source.Call V) (log : List (Exchange V)) :
    (vetting m checked).Passes (Action.request id c).outcome
      (fun r log' => ∃ time, ⟨time, .request id c, r⟩ ∈ log') log := by
  change (vetting m checked).Passes (Program.lift (.latency id c.method) >>= fun ms =>
    Program.pause ms >>= fun _ => Program.lift (.request id c)) _ log
  refine ⟨trivial, (lets_source rfl).2 log, fun _ ms _ => ?_⟩
  change (vetting m checked).Passes (Program.pause ms >>= fun _ => Program.lift (.request id c)) _ _
  refine Program.along_then (passes_each (each_idle (Idle.pause ms)) fun _ log' _ => ?_)
  refine ⟨trivial, (lets_source rfl).2 log', fun time r _ => ⟨time, ?_⟩⟩
  exact List.mem_append_right _ List.mem_cons_self

theorem passes_judge (id : SourceId) (v : V) (log : List (Exchange V)) :
    (vetting m checked).Passes (Action.judge id v).outcome
      (fun r log' => r = .ok () → Accepted log' id v) log := by
  refine ⟨trivial, (lets_source rfl).2 log, fun time r _ hr => ?_⟩
  subst hr
  exact ⟨_, List.mem_append_right _ List.mem_cons_self, .mk time⟩

theorem passes_retry {a : Action V α} {P : Except Error α → List (Exchange V) → Prop}
    (h : ∀ log', log ⊆ log' → (vetting m checked).Passes a.outcome P log') (c : ReloadConfig) :
    (vetting m checked).Passes (Reload.retry c a).outcome P log := by
  rw [Reload.retry, Action.outcome_always_bind]
  refine Program.along_then (passes_each (Program.each_word (lets_plain (fun _ => trivial) rfl) _ _)
    fun _ log' hlog => ?_)
  exact passes_retryTimes (fun ms => each_idle (Idle.pause ms))
    (fun log'' hlog' => h log'' (List.Subset.trans hlog hlog')) _ _

/-! ## Reads by the strategy -/

theorem each_get (f : Format α) (key : String) :
    (Client.get f key : Action V α).outcome.Each (vetting m checked).Lets :=
  Client.each_get letsWait.memory (lets_command fun _ _ h => by cases h) f

/-- A read stores what the source has given, without asking whether it may be cached. -/
theorem safe_load (key : String) (start : Nat) (log : List (Exchange V)) :
    (vetting m false).Safe log (Strategy.load key start).outcome := by
  refine passes_always_then ((passes_request .main (.loadOne key) log).mono fun r log' hr => ?_)
  obtain ⟨time, hgave⟩ := hr
  cases r with
  | error e => exact safe_idle (Idle.fail key e) log'
  | ok found =>
    cases found with
    | none => exact safe_idle (Idle.finish start _ _ (Program.each_pure _)) log'
    | some v =>
      refine passes_look fun m' hm' => ?_
      obtain ⟨hformat, -⟩ := Prod.mk.inj hm'
      refine passes_always_then (Program.along_then ((safe_set fun fresh b hb => ?_).mono
        fun _ log'' _ => ?_))
      · rw [hformat] at hb
        exact .inr ⟨.main, v, fresh, ⟨_, hgave, .one time⟩, by rintro ⟨⟩, hb⟩
      · exact safe_idle (Idle.finish start _ _ (Program.each_pure _)) log''

theorem safe_read (key : String) (log : List (Exchange V)) :
    (vetting m false).Safe log (Strategy.read key).outcome := by
  refine passes_always_then ⟨trivial, (letsWait.now).2 log, fun _ start _ => ?_⟩
  refine passes_look fun m' _ => ?_
  refine passes_always_then (passes_each (each_get m'.format key) fun r log' _ => ?_)
  cases r with
  | ok v => exact safe_idle (Idle.finish start _ _ (Program.each_pure _)) log'
  | error e =>
    by_cases he : e.isMiss = true
    · simp only [he, if_true]
      exact safe_load key start log'
    · simp only [he]
      exact safe_idle (Idle.fail key e) log'

/-! ## Reloads -/

theorem letsCount : (vetting m checked).LetsCount := fun _ _ => lets_update fun _ => rfl

theorem each_hooks (phase : HookPhase V) :
    (Reload.runHooks phase).outcome.Each (vetting m checked).Lets :=
  each_runHooks letsWait.memory (fun _ => lets_idle trivial) phase

theorem safe_reloadSteps (key : String) (log : List (Exchange V)) :
    (vetting m true).Safe log (Reload.reloadSteps key).outcome := by
  refine passes_look fun m' hm' => ?_
  obtain ⟨hformat, -⟩ := Prod.mk.inj hm'
  refine safe_then (safe_each (each_hooks _) log) fun _ log _ => ?_
  refine passes_then ((passes_retry (fun log' _ => passes_request m'.reloadSource
    (.loadOne key) log') _).mono fun r log' hr => ⟨fun found hfound => ?_, fun _ _ => trivial⟩)
  obtain ⟨time, hgave⟩ := hr
  subst hfound
  cases found with
  | none => exact safe_pure _
  | some v =>
    refine passes_then ((passes_judge m'.reloadSource v log').grows.mono fun r log'' hr => ?_)
    refine ⟨fun _ hok => ?_, fun _ _ => trivial⟩
    have haccepted : Accepted log'' m'.reloadSource v := hr.2 hok
    have hset : (vetting m true).Safe log''
        (Client.set m'.format key v m'.reload.life).outcome := by
      refine safe_set fun fresh b hb => .inr ⟨m'.reloadSource, v, fresh, ?_, fun _ => haccepted, ?_⟩
      · exact Gave.mono ⟨_, hgave, .one time⟩ hr.1
      · rwa [hformat] at hb
    split
    · exact safe_then hset fun _ log₃ _ => safe_each (each_hooks _) log₃
    · exact safe_each (each_hooks _) log''

theorem safe_reload (key : String) (log : List (Exchange V)) :
    (vetting m true).Safe log (Reload.reload key).outcome := by
  refine passes_always_then ⟨trivial, (letsWait.now).2 log, fun _ start _ => ?_⟩
  refine safe_always_then (safe_reloadSteps key log) fun r log' _ => ?_
  cases r with
  | ok => exact safe_each (Program.each_always (each_record letsWait.now letsCount true start)) log'
  | error e =>
    exact safe_each (Program.each_then (Program.each_always
      (each_record letsWait.now letsCount false start)) fun _ =>
      Program.each_then (Program.each_always (Program.each_ignore (each_hooks _))) fun _ =>
        Program.each_pure _) log'

/-! ## Reloads of many keys -/

/-- What is left of a load was given by the source, and what is ready to be stored is vetted. -/
structure IsVetted (m : Memory V) (id : SourceId) (s : Reload.Sorting V)
    (log : List (Exchange V)) : Prop where
  loaded : ∀ key v, s.loaded.get? key = some v → Gave log id key v
  steps : ∀ step ∈ s.steps, ∀ key b, (key, b) ∈ step.puts → Vetted m true log key b

theorem IsVetted.mono {id : SourceId} {s : Reload.Sorting V} {log log' : List (Exchange V)}
    (h : IsVetted m id s log) (hlog : log ⊆ log') : IsVetted m id s log' :=
  ⟨fun key v hv => (h.loaded key v hv).mono hlog,
    fun step hstep key b hb => (h.steps step hstep key b hb).mono hlog⟩

theorem passes_sortKey {id : SourceId} {c : ReloadConfig} {checkOnly : Bool}
    {s : Reload.Sorting V} (h : IsVetted m id s log) (key : String) :
    (vetting m true).Passes (Reload.sortKey id c m.format checkOnly s key) (IsVetted m id) log := by
  unfold Reload.sortKey
  cases hv : s.loaded.get? key with
  | none => exact ⟨h.loaded, h.steps⟩
  | some v =>
    -- Whatever becomes of the value, it is taken out of what was loaded.
    have herased : IsVetted m id { s with loaded := s.loaded.erase key } log := by
      refine ⟨fun key' v' hv' => h.loaded key' v' ?_, h.steps⟩
      by_cases hkey : key' = key
      · subst hkey
        simp at hv'
      · rwa [KeyMap.get?_erase_other _ hkey] at hv'
    refine Program.along_then ((passes_judge id v log).grows.mono fun r log' hr => ?_)
    obtain ⟨hlog, haccepted⟩ := hr
    cases r with
    | error e => exact ⟨(herased.mono hlog).loaded, (herased.mono hlog).steps⟩
    | ok =>
      cases checkOnly with
      | true => exact ⟨(herased.mono hlog).loaded, (herased.mono hlog).steps⟩
      | false =>
        refine Program.along_then ((passes_encode m.format key v log').grows.mono
          fun r log'' hr => ?_)
        obtain ⟨hlog', hcoded⟩ := hr
        have hlater := herased.mono (List.Subset.trans hlog hlog')
        cases r with
        | error e => exact ⟨hlater.loaded, hlater.steps⟩
        | ok b =>
          refine ⟨hlater.loaded, fun step hstep key' b' hb' => ?_⟩
          rcases List.mem_append.1 hstep with hstep | hstep
          · exact hlater.steps step hstep key' b' hb'
          · obtain rfl := List.mem_singleton.1 hstep
            obtain ⟨rfl, rfl⟩ : key' = key ∧ b' = b := by simpa [BatchStep.puts] using hb'
            obtain ⟨fresh, hfresh⟩ := hcoded b' rfl
            exact ⟨id, v, fresh, (h.loaded key' v hv).mono (List.Subset.trans hlog hlog'),
              fun _ => (haccepted rfl).mono hlog', hfresh⟩

theorem passes_sortKeys {id : SourceId} {c : ReloadConfig} {checkOnly : Bool} (keys : List String)
    {s : Reload.Sorting V} (h : IsVetted m id s log) :
    (vetting m true).Passes (keys.foldlM (Reload.sortKey id c m.format checkOnly) s)
      (IsVetted m id) log := by
  induction keys generalizing s log with
  | nil => exact h
  | cons key keys ih =>
    rw [List.foldlM_cons]
    exact Program.along_then ((passes_sortKey h key).mono fun s' log' hs' => ih hs')

theorem safe_storeLoaded {id : SourceId} {c : ReloadConfig} {checkOnly : Bool}
    {keys : List String} {loaded : KeyMap V}
    (h : ∀ key v, loaded.get? key = some v → Gave log id key v) :
    (vetting m true).Safe log (Reload.storeLoaded id c checkOnly keys loaded).outcome := by
  refine passes_look fun m' hm' => ?_
  obtain ⟨hformat, -⟩ := Prod.mk.inj hm'
  rw [hformat]
  refine passes_always_then ((passes_sortKeys keys ⟨h, by rintro _ ⟨⟩⟩).mono fun s log' hs => ?_)
  refine safe_then ?_ fun _ log'' _ => safe_pure _
  unfold Client.execute
  split
  · exact safe_pure _
  · refine ⟨trivial, fun key b hputs => ?_, fun _ _ _ => trivial⟩
    obtain ⟨step, hstep, hb⟩ := List.mem_flatMap.1 hputs
    exact .inr (hs.steps step hstep key b hb)

theorem safe_loadChunk (checkOnly : Bool) (keys : List String) (log : List (Exchange V)) :
    (vetting m true).Safe log (Reload.loadChunk checkOnly keys).outcome := by
  refine passes_look fun m' _ => ?_
  refine passes_always_then ((passes_retry (fun log' _ => passes_request m'.reloadSource
    (.loadBatch keys) log') _).mono fun r log' hr => ?_)
  obtain ⟨time, hgave⟩ := hr
  cases r with
  | error e => exact safe_pure _
  | ok loaded => exact safe_storeLoaded fun key v hv => ⟨_, hgave, .many time hv⟩

theorem safe_reloadBatch (keys : List String) (log : List (Exchange V)) :
    (vetting m true).Safe log (Reload.reloadBatch keys).outcome :=
  safe_counted letsWait.now letsCount fun _ _ => passes_look fun _ _ =>
    safe_eachChunk (fun part log' _ => safe_loadChunk _ part log') _

theorem safe_reloadAll (log : List (Exchange V)) :
    (vetting m true).Safe log (Reload.reloadAll).outcome := by
  refine safe_counted letsWait.now letsCount fun log _ => passes_look fun m' _ => ?_
  have hrest (log : List (Exchange V)) : (vetting m true).Safe log (do
      let loaded ← Reload.retry m'.reload (Action.request m'.reloadSource .loadAll)
      Reload.eachChunk (fun keys => Reload.storeLoaded m'.reloadSource m'.reload
          (m'.reload.mode == .lazy) keys loaded) (chunks m'.reload.batchSize loaded.keys) :
        Action V ReloadResult).outcome := by
    refine passes_then ((passes_retry (fun log' _ => passes_request m'.reloadSource .loadAll
      log') _).mono fun r log' hr => ⟨fun loaded hloaded => ?_, fun _ _ => trivial⟩)
    obtain ⟨time, hgave⟩ := hr
    subst hloaded
    exact safe_eachChunk (fun part log'' hlog => safe_storeLoaded fun key v hv =>
      Gave.mono ⟨_, hgave, .all time hv⟩ hlog) _
  dsimp only
  split
  · refine safe_then (safe_each (each_command fun _ _ h => by cases h) log)
      fun _ log' _ => hrest log'
  · exact hrest log

end Vetting
end CacheLayer
