/-
The requests of reloads. A guard that lets all of a few kinds of requests pass lets a reload pass
(`Guard.LetsReload`), of one key or of many, so that what is claimed of every request of a reload has
only to be shown of these kinds. How often a load is tried depends on the settings; that is the one
place where it matters what is known of memory.
-/
import CacheLayer.Proofs.Client.Coding
import CacheLayer.Proofs.Program.Guard
import CacheLayer.Proofs.Reload.Attempts

namespace CacheLayer.Guard

open CacheLayer.Program CacheLayer.Reload

variable {V α : Type} {g : Guard V} {log : List (Exchange V)}

/-! ## Attempts -/

/-- What lets an action pass lets it pass again after a pause. -/
theorem passes_retryTimes (hpause : ∀ ms, (pause ms : Program V Unit).Each g.Lets) {a : Action V α}
    {P : Except Error α → List (Exchange V) → Prop}
    (h : ∀ log', log ⊆ log' → g.Passes a.outcome P log') (delay more : Nat) :
    g.Passes (retryTimes delay a more).outcome P log := by
  induction more generalizing log with
  | zero => exact h log (List.Subset.refl log)
  | succ more ih =>
    refine passes_always_then ((h log (List.Subset.refl log)).grows.mono fun r log' hr => ?_)
    cases r with
    | ok x => exact hr.2
    | error e =>
      -- What earlier attempts have noted is no harm to the next one.
      refine passes_always_then (passes_each (hpause delay) fun _ log'' hlog => ?_)
      exact ih fun log₃ hlog' => h log₃
        (List.Subset.trans hr.1 (List.Subset.trans hlog hlog'))

/-- What lets every chunk pass lets all of them pass. -/
theorem safe_eachChunk {f : List String → Action V ReloadResult}
    (hf : ∀ keys log', log ⊆ log' → g.Safe log' (f keys).outcome) (parts : List (List String)) :
    g.Safe log (eachChunk f parts).outcome := by
  induction parts generalizing log with
  | nil => exact safe_pure _
  | cons part parts ih =>
    refine safe_then (hf part log (List.Subset.refl log)) fun r log' hlog => ?_
    refine safe_then (ih fun keys log'' hlog' => hf keys log'' (List.Subset.trans hlog hlog'))
      fun _ log'' _ => safe_pure _

theorem each_runHooks (hmemory : g.Lets (.update id)) (hnote : ∀ n, g.Lets (.note n))
    (phase : HookPhase V) : (runHooks phase).outcome.Each g.Lets :=
  each_then (each_always (each_lift hmemory)) fun _ =>
    each_then (each_always (each_forM (fun _ => each_lift (hnote _)) _)) fun _ => each_pure _

/-- The guard lets a reload count itself. -/
def LetsCount (g : Guard V) : Prop :=
  ∀ ok elapsed, g.Lets (.update fun m => { m with reloadStats := m.reloadStats.reload ok elapsed })

theorem each_record (hnow : g.Lets .now) (hcount : g.LetsCount) (ok : Bool) (start : Nat) :
    (record ok start : Program V Unit).Each g.Lets :=
  each_bind (each_lift hnow) fun _ => ⟨hcount ok _, fun _ => trivial⟩

theorem safe_counted (hnow : g.Lets .now) (hcount : g.LetsCount) {a : Action V ReloadResult}
    (ha : ∀ log', log ⊆ log' → g.Safe log' a.outcome) : g.Safe log (counted a).outcome := by
  refine safe_always_then (safe_each (each_lift hnow) log) fun start log' hlog => ?_
  refine safe_always_then (ha log' hlog) fun r log'' _ => ?_
  exact safe_each (each_then (each_always (each_record hnow hcount _ start)) fun _ => each_pure _)
    log''

/-! ## Reloads -/

/-- The guard lets all requests pass that a reload makes until it counts itself. -/
structure LetsReload (g : Guard V) : Prop where
  now : g.Lets .now
  memory : g.Lets (.update id)
  pause : ∀ t, g.Lets (.wait ⟨some t, fun _ => false⟩)
  note : ∀ n, g.Lets (.note n)
  draw : ∀ count, g.Lets (.draw count)
  command : ∀ c, g.Lets (.command c)
  latency : ∀ id m, g.Lets (.latency id m)
  request : ∀ id c, g.Lets (.request id c)
  judge : ∀ id v, g.Lets (.judge id v)
  attempts : ∀ m log, g.knows m → g.Safe log (attempts m.reload)

namespace LetsReload

variable (h : g.LetsReload)

include h

theorem each_pause (ms : Nat) : (Program.pause ms : Program V Unit).Each g.Lets :=
  Program.each_pause h.now h.pause ms

theorem each_request (id : SourceId) (c : Source.Call V) :
    (Action.request id c).outcome.Each g.Lets :=
  Program.each_request h.latency h.now h.pause h.request id c

theorem safe_retry {m : Memory V} (hm : g.knows m) (id : SourceId) (c : Source.Call V)
    (log : List (Exchange V)) : g.Safe log (retry m.reload (Action.request id c)).outcome :=
  safe_always_then (h.attempts m log hm) fun _ _ _ =>
    passes_retryTimes h.each_pause (fun log' _ => safe_each (h.each_request id c) log') _ _

theorem each_runHooks (phase : HookPhase V) : (runHooks phase).outcome.Each g.Lets :=
  Guard.each_runHooks h.memory h.note phase

theorem safe_reloadSteps (key : String) (log : List (Exchange V)) :
    g.Safe log (reloadSteps key).outcome := by
  refine passes_memory h.memory fun m hm => ?_
  refine safe_then (safe_each (h.each_runHooks _) log) fun _ log _ => ?_
  refine safe_then (h.safe_retry hm _ _ log) fun found log _ => ?_
  cases found with
  | none => exact safe_pure _
  | some v =>
    have hset : (Client.set m.format key v m.reload.life : Action V Unit).outcome.Each g.Lets :=
      Client.each_set h.memory h.draw (fun _ _ => h.command _) m.format v m.reload.life
    refine safe_each (each_then (each_lift (h.judge _ v)) fun _ => ?_) log
    split
    · exact each_then hset fun _ => h.each_runHooks _
    · exact h.each_runHooks _

theorem each_sortKey (id : SourceId) (c : ReloadConfig) (f : Format V) (checkOnly : Bool)
    (s : Sorting V) (key : String) : (sortKey id c f checkOnly s key).Each g.Lets := by
  unfold sortKey
  cases s.loaded.get? key with
  | none => exact each_pure _
  | some v =>
    refine each_bind (each_lift (h.judge id v)) fun r => ?_
    cases r with
    | error e => exact each_pure _
    | ok =>
      cases checkOnly with
      | true => exact each_pure _
      | false =>
        refine each_bind (Client.each_encode h.memory h.draw f key v) fun r => ?_
        cases r <;> exact each_pure _

theorem each_storeLoaded (id : SourceId) (c : ReloadConfig) (checkOnly : Bool)
    (keys : List String) (loaded : KeyMap V) :
    (storeLoaded id c checkOnly keys loaded).outcome.Each g.Lets := by
  refine each_then (each_always (each_lift h.memory)) fun m => ?_
  refine each_then (each_always (each_foldlM (fun _ _ => h.each_sortKey _ _ _ _ _ _) _ _))
    fun s => each_then ?_ fun _ => each_pure _
  unfold Client.execute
  split
  · exact each_pure _
  · exact each_lift (h.command _)

theorem safe_loadChunk (checkOnly : Bool) (keys : List String) (log : List (Exchange V)) :
    g.Safe log (loadChunk checkOnly keys).outcome := by
  refine passes_memory h.memory fun m hm => ?_
  refine safe_always_then (h.safe_retry hm _ _ log) fun r log _ => ?_
  cases r with
  | ok loaded => exact safe_each (h.each_storeLoaded _ _ _ _ _) log
  | error e => exact safe_pure _

/-! ### Counted reloads -/

theorem safe_reload (hcount : g.LetsCount) (key : String) (log : List (Exchange V)) :
    g.Safe log (reload key).outcome := by
  refine safe_always_then (safe_each (each_lift h.now) log) fun start log _ => ?_
  refine safe_always_then (h.safe_reloadSteps key log) fun r log _ => ?_
  cases r with
  | ok => exact safe_each (each_always (each_record h.now hcount true start)) log
  | error e =>
    exact safe_each (each_then (each_always (each_record h.now hcount false start)) fun _ =>
      each_then (each_always (each_ignore (h.each_runHooks _))) fun _ => each_pure _) log

theorem safe_reloadBatch (hcount : g.LetsCount) (keys : List String) (log : List (Exchange V)) :
    g.Safe log (reloadBatch keys).outcome :=
  safe_counted h.now hcount fun _ _ => passes_memory h.memory fun _ _ =>
    safe_eachChunk (fun part log' _ => h.safe_loadChunk _ part log') _

theorem safe_reloadAll (hcount : g.LetsCount) (log : List (Exchange V)) :
    g.Safe log (reloadAll).outcome := by
  refine safe_counted h.now hcount fun log _ => passes_memory h.memory fun m hm => ?_
  have hrest (log : List (Exchange V)) : g.Safe log (do
      let loaded ← retry m.reload (Action.request m.reloadSource .loadAll)
      eachChunk (fun keys => storeLoaded m.reloadSource m.reload (m.reload.mode == .lazy) keys
        loaded) (chunks m.reload.batchSize loaded.keys) :
        Action V ReloadResult).outcome :=
    safe_then (h.safe_retry hm _ _ log) fun _ _ _ =>
      safe_eachChunk (fun _ log' _ => safe_each (h.each_storeLoaded _ _ _ _ _) log') _
  dsimp only
  split
  · exact safe_then (safe_each (each_lift (h.command _)) log) fun _ log' _ => hrest log'
  · exact hrest log

end LetsReload
end CacheLayer.Guard
