/-
Loads of values from a source: a read by the strategy, a read that loads what is missing, reloads,
warm-ups, and an invalidation with a reload. Whatever the source answers, none puts anything into
the store but what a source gave for the key; and except for a read by the strategy, the source was
asked about the value and accepted it. A read by the strategy does not ask.

Main statement: `stored_vetted`.
-/
import CacheLayer.Proofs.Invalidation.Target
import CacheLayer.Proofs.Reload.Vetting
import CacheLayer.Proofs.WarmUp.Flag
import CacheLayer.Service

namespace CacheLayer

variable {V α β : Type}

/-! ## Loads -/

/-- A request that loads values from a source. -/
inductive Load where
  | read (key : String)
  | getOrLoad (key : String)
  | reload (key : String)
  | reloadBatch (keys : List String)
  | reloadAll
  | warmUp
  | warmUpKeys (keys : List String)
  | warmUpSelective (test : String → Bool)
  | invalidateAndReload (key : String)

namespace Load

def act : Load → Action V Unit
  | read key => do
    let _ ← Strategy.read key
  | getOrLoad key => do
    let _ ← Service.getOrLoad key
  | reload key => Reload.reload key
  | reloadBatch keys => do
    let _ ← Reload.reloadBatch keys
  | reloadAll => do
    let _ ← Reload.reloadAll
  | warmUp => do
    let _ ← WarmUp.warmUp
  | warmUpKeys keys => do
    let _ ← WarmUp.warmUpKeys keys
  | warmUpSelective test => do
    let _ ← WarmUp.warmUpSelective test
  | invalidateAndReload key => Service.invalidateAndReload key

/-- The source is asked about a value before it is stored. -/
def checks : Load → Bool
  | read _ => false
  | _ => true

/-- Loads one after the other, each with its requests and their answers. -/
inductive Run : Scene V → List (Load × List (Exchange V)) → Scene V → Prop where
  | none (s : Scene V) : Run s [] s
  | one {s t u : Scene V} {load : Load} {log : List (Exchange V)} {r : Except Error Unit}
      {rest : List (Load × List (Exchange V))}
      (hload : load.act.outcome.Course s log r t) (more : Run t rest u) :
      Run s ((load, log) :: rest) u

end Load

/-! ## What lets loads pass -/

namespace Guard

open CacheLayer.Program

/-- The guard lets loads pass: reloads, and what else they ask for. -/
structure LetsLoads (g : Guard V) : Prop extends LetsWait g where
  draw : ∀ count, g.Lets (.draw count)
  /-- A change that leaves the settings. -/
  update : ∀ f : Memory V → Memory V, (∀ m, (f m).coding = m.coding) →
    (∀ m, (f m).reload = m.reload) → g.Lets (.update f)
  /-- A command that puts nothing into the store but notes. -/
  command : ∀ c : Store.Call, (∀ key b, (key, b) ∈ c.puts → key ∈ Marker.notes) →
    g.Lets (.command c)
  source : ∀ q : Ask V, q.toSource = true → g.Lets q
  chunk : ∀ keys log, g.Safe log (Reload.loadChunk false keys).outcome
  reload : ∀ key log, g.Safe log (Reload.reload key).outcome
  reloadBatch : ∀ keys log, g.Safe log (Reload.reloadBatch keys).outcome
  reloadAll : ∀ log, g.Safe log Reload.reloadAll.outcome

namespace LetsLoads

variable {g : Guard V} (h : g.LetsLoads)

include h

theorem each_request (id : SourceId) (c : Source.Call V) :
    (Action.request id c).outcome.Each g.Lets :=
  Program.each_request (fun _ _ => h.source _ rfl) h.now (fun _ => h.wait _)
    (fun _ _ => h.source _ rfl) id c

theorem each_change {f : Memory V → Memory V} (hcoding : ∀ m, (f m).coding = m.coding)
    (hreload : ∀ m, (f m).reload = m.reload) : (change f).Each g.Lets :=
  ⟨h.update f hcoding hreload, fun _ => trivial⟩

theorem each_get (f : Format α) (key : String) :
    (Client.get f key : Action V α).outcome.Each g.Lets :=
  Client.each_get h.memory (h.command _ fun _ _ hputs => by cases hputs) f

/-! ### Warm-ups -/

theorem safe_load (keys : List String) (log : List (Exchange V)) :
    g.Safe log (WarmUp.load keys).outcome := by
  refine passes_memory h.memory fun m _ => ?_
  -- The chunks are loaded at the same time, so each has to be safe after any answers to the others.
  refine safe_always_then (safe_gather h.toLetsWait _ _ fun p hp => ?_) fun _ log' _ => safe_pure _
  obtain ⟨part, -, rfl⟩ := List.mem_map.1 hp
  exact h.chunk part log

theorem each_candidates : (WarmUp.candidates : Action V (List String)).outcome.Each g.Lets :=
  WarmUp.each_candidates h.memory fun _ => h.each_request _ _

theorem each_isWarm : (WarmUp.isWarm : Action V Bool).outcome.Each g.Lets :=
  WarmUp.each_isWarm h.memory (h.command _ fun _ _ hputs => by cases hputs)
    (h.update _ (fun _ => rfl) fun _ => rfl)

theorem each_markWarm : (WarmUp.markWarm : Action V Unit).outcome.Each g.Lets := by
  refine each_then (each_always (h.each_change (fun _ => rfl) fun _ => rfl)) fun _ => ?_
  refine Client.each_set h.memory h.draw (fun b life => h.command _ fun key b' hputs => ?_) _ _ _
  obtain ⟨rfl, -⟩ := Prod.mk.inj (List.mem_singleton.1 hputs)
  exact List.mem_cons_self

theorem safe_warmUp (log : List (Exchange V)) :
    g.Safe log (WarmUp.warmUp : Action V WarmUpResult).outcome := by
  refine safe_then (safe_each h.each_isWarm log) fun warm log _ => ?_
  split
  · exact safe_pure _
  · refine safe_then (safe_each h.each_candidates log) fun keys log _ => ?_
    refine safe_then (h.safe_load keys log) fun _ log _ => ?_
    exact safe_then (safe_each h.each_markWarm log) fun _ _ _ => safe_pure _

/-! ### Requests that join parts -/

theorem safe_getOrLoad (key : String) (log : List (Exchange V)) :
    g.Safe log (Service.getOrLoad key).outcome := by
  have haccess (hit : Bool) (log : List (Exchange V)) : g.Safe log (change fun m : Memory V =>
      { m with reloadStats := m.reloadStats.access hit }) := by
    refine safe_each (h.each_change ?_ ?_) log <;> exact fun _ => rfl
  refine passes_memory h.memory fun m _ => ?_
  refine safe_always_then (safe_each (h.each_get _ key) log) fun r log _ => ?_
  cases r with
  | ok v => exact safe_always_then (haccess true log) fun _ _ _ => safe_pure _
  | error e =>
    dsimp only
    split
    · exact safe_pure _
    refine safe_always_then (haccess false log) fun _ log _ => ?_
    split
    · exact safe_pure _
    refine safe_then (h.reload key log) fun _ log _ => ?_
    refine safe_always_then (safe_each (h.each_get _ key) log) fun r log _ => ?_
    cases r with
    | ok v => exact safe_pure _
    | error e =>
      dsimp only
      split
      · exact safe_pure _
      -- a value that is loaded although it may not be stored is only handed on
      refine safe_then (safe_each (h.each_request _ _) log) fun found log _ => ?_
      cases found <;> exact safe_pure _

/-- An invalidation only puts an event into its log. -/
theorem each_record (target kind : String) (removed start : Nat) :
    (Invalidation.record target kind removed start : Program V Unit).Each g.Lets := by
  refine Invalidation.each_record h.memory h.now
    (fun bs => h.command _ fun key b hputs => ?_)
    (fun _ _ => h.command _ fun _ _ hputs => by cases hputs)
    (fun _ => h.command _ fun _ _ hputs => by cases hputs) target kind removed start
  obtain ⟨b', -, heq⟩ := List.mem_map.1 hputs
  obtain ⟨rfl, -⟩ := Prod.mk.inj heq
  exact List.mem_cons_of_mem _ List.mem_cons_self

theorem each_invalidate (key : String) :
    (Invalidation.invalidate key : Action V Nat).outcome.Each g.Lets :=
  each_then (each_always (each_lift h.now)) fun _ =>
    each_then (Invalidation.each_dependents h.memory
      (h.command _ fun _ _ hputs => by cases hputs)
      fun _ => h.update _ (fun _ => rfl) fun _ => rfl) fun _ =>
    each_then (Invalidation.each_deleteKeys h.memory h.now (fun _ => h.wait _)
      (fun _ => h.command _ fun _ _ hputs => by cases hputs) _) fun _ =>
    each_then (each_always (h.each_record _ _ _ _)) fun _ => each_pure _

theorem safe_act (load : Load) (log : List (Exchange V))
    (hread : ∀ key, load = .read key → g.Safe log (Strategy.read key).outcome) :
    g.Safe log load.act.outcome := by
  cases load with
  | read key => exact safe_then (hread key rfl) fun _ _ _ => safe_pure _
  | getOrLoad key => exact safe_then (h.safe_getOrLoad key log) fun _ _ _ => safe_pure _
  | reload key => exact h.reload key log
  | reloadBatch keys => exact safe_then (h.reloadBatch keys log) fun _ _ _ => safe_pure _
  | reloadAll => exact safe_then (h.reloadAll log) fun _ _ _ => safe_pure _
  | warmUp => exact safe_then (h.safe_warmUp log) fun _ _ _ => safe_pure _
  | warmUpKeys keys =>
    exact safe_then (safe_then (h.safe_load keys log) fun _ _ _ => safe_pure _) fun _ _ _ =>
      safe_pure _
  | warmUpSelective test =>
    refine safe_then (safe_then (safe_each h.each_candidates log) fun keys log _ => ?_) fun _ _ _ =>
      safe_pure _
    exact safe_then (h.safe_load _ log) fun _ _ _ => safe_pure _
  | invalidateAndReload key =>
    exact safe_then (safe_each (h.each_invalidate key) log) fun _ log _ => h.reload key log

end LetsLoads
end Guard

/-! ## Vetted loads -/

theorem Vetting.letsLoads (m : Memory V) : (vetting m true).LetsLoads where
  toLetsWait := letsWait
  draw _ := lets_idle trivial
  update _ hcoding _ := lets_update hcoding
  command _ hputs := lets_command hputs
  source _ hq := lets_source hq
  chunk keys log := safe_loadChunk false keys log
  reload key log := safe_reload key log
  reloadBatch keys log := safe_reloadBatch keys log
  reloadAll log := safe_reloadAll log

theorem Vetting.safe_act (load : Load) (m : Memory V) (log : List (Exchange V)) :
    (vetting m load.checks).Safe log load.act.outcome := by
  cases load with
  | read key => exact Guard.safe_then (safe_read key log) fun _ _ _ => Guard.safe_pure _
  | _ => exact (letsLoads m).safe_act _ log (by rintro key ⟨⟩)

theorem Vetted.congr {m m' : Memory V} {checked : Bool} {log : List (Exchange V)} {key : String}
    {b : Bytes} (hm : m'.coding = m.coding) (h : Vetted m' checked log key b) :
    Vetted m checked log key b := by
  obtain ⟨id, v, fresh, hgave, haccepted, hb⟩ := h
  refine ⟨id, v, fresh, hgave, haccepted, ?_⟩
  rwa [Client.coded_congr hm, (Prod.mk.inj hm).1] at hb

/-- **What is loaded is vetted before it is stored, except by a read.** However sources answer in a
run of loads: what one of them puts under a key, other than its own notes, is the encoding of a value
that a source has given for that key during this load. Unless the load is a read by the strategy,
the source has been asked about the value before that, and has accepted it. -/
theorem stored_vetted {s t : Scene V} {run : List (Load × List (Exchange V))}
    (h : Load.Run s run t) (load : Load) (log : List (Exchange V)) (hload : (load, log) ∈ run)
    (before after : List (Exchange V)) (e : Exchange V) (hlog : log = before ++ e :: after)
    (key : String) (b : Bytes) (hputs : (key, b) ∈ e.ask.puts) :
    key ∈ Marker.notes ∨ Vetted s.memory load.checks before key b := by
  induction h with
  | none s => cases hload
  | @one s t u first log' r rest hfirst more ih =>
    obtain ⟨-, ht, hmay⟩ := (Vetting.safe_act first s.memory []).course hfirst rfl
    rcases List.mem_cons.1 hload with heq | hrest
    · obtain ⟨rfl, rfl⟩ := Prod.mk.inj heq
      exact hmay before e after hlog key b hputs
    · exact (ih hrest).imp_right fun hvetted => hvetted.congr ht

/-- A run of one load that the scene answers by itself. -/
theorem Load.run_alone (load : Load) (s : Scene V) :
    Run s [(load, load.act.outcome.trace s)] (load.act.outcome.run s).2 :=
  .one (Program.course_run _ s) (.none _)

/-- A source with one row. -/
def oneRow : Source UInt8 := Source.ofRows (KeyMap.empty.insert "k" 7)

/-- The value that a reload stores was loaded and accepted before. -/
theorem stored_vetted_reload :
    ∃ (s t : Scene UInt8) (log before after : List (Exchange UInt8)) (e : Exchange UInt8),
      Load.Run s [(.reload "k", log)] t ∧ log = before ++ e :: after ∧
      ("k", [7]) ∈ e.ask.puts ∧ Vetted s.memory true before "k" [7] := by
  have hputs : ("k", [7]) ∈ ((Load.reload "k").act.outcome.trace
      ⟨.start oneRow, Client.byteMemory⟩).flatMap (·.ask.puts) := by
    decide +kernel
  obtain ⟨e, he, hputs⟩ := List.mem_flatMap.1 hputs
  obtain ⟨before, after, hlog⟩ := List.append_of_mem he
  have hrun := Load.run_alone (.reload "k") ⟨.start oneRow, Client.byteMemory⟩
  refine ⟨_, _, _, before, after, e, hrun, hlog, hputs, ?_⟩
  exact (stored_vetted hrun (.reload "k") _ List.mem_cons_self before after e hlog "k" [7]
    hputs).resolve_left (by decide)

/-- The row again, of a source that rejects its value. -/
def rejecting : Scene UInt8 :=
  ⟨.start (oneRow.markInvalid (· == ·) "k"), Client.byteMemory⟩

/-- The request asks a source whether a value may be cached. -/
def Ask.isJudge : Ask V → Bool
  | .judge _ _ => true
  | _ => false

/-- It is not so that all loads put only into the store what the source has accepted: a read puts a
value there that the source would reject. -/
theorem not_stored_vetted :
    ¬ ∀ (s t : Scene UInt8) (run : List (Load × List (Exchange UInt8))), Load.Run s run t →
      ∀ load log, (load, log) ∈ run → ∀ before after e, log = before ++ e :: after →
        ∀ key b, (key, b) ∈ e.ask.puts →
          key ∈ Marker.notes ∨ Vetted s.memory true before key b := by
  intro hvetted
  have hputs : ("k", [7]) ∈ ((Load.read "k").act.outcome.trace rejecting).flatMap (·.ask.puts) := by
    decide +kernel
  have hjudge : ((Load.read "k").act.outcome.trace rejecting).all (!·.ask.isJudge) = true := by
    decide +kernel
  obtain ⟨e, he, hputs⟩ := List.mem_flatMap.1 hputs
  obtain ⟨before, after, hlog⟩ := List.append_of_mem he
  rcases hvetted _ _ _ (Load.run_alone (.read "k") rejecting) _ _ List.mem_cons_self before after e
    hlog "k" [7] hputs with hnote | ⟨id, v, fresh, -, haccepted, -⟩
  · exact absurd hnote (by decide)
  · obtain ⟨e', he', haccepts⟩ := haccepted rfl
    cases haccepts with
    | mk time =>
      rw [hlog, List.all_append, Bool.and_eq_true, List.all_eq_true] at hjudge
      exact absurd (hjudge.1 _ he') (by simp [Ask.isJudge])

end CacheLayer
