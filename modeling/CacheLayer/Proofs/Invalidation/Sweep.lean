/-
Requests that invalidate, whatever their kind. Such a request does its work first and records the
invalidation last (`Sweep.perform_eq`). The work does not depend on whether events are recorded, so
neither does the result of the request (`perform_unrecorded`), and all that it does to the log is to
remove it if it is a target (`remove_strips`).
-/
import CacheLayer.Proofs.Invalidation.Faults
import CacheLayer.Proofs.Invalidation.Tag

namespace CacheLayer

variable {V α β : Type} {s t u : Scene V}

namespace Invalidation

/-! ## Requests -/

/-- A request that invalidates: it removes keys, or everything. -/
inductive Sweep where
  | removal (R : Removal)
  | everything

namespace Sweep

def perform : Sweep → Action V Nat
  | removal R => R.act
  | everything => do
    invalidateAll
    return 0

/-- What the event of the request says it has been aimed at. -/
def target : Sweep → String
  | removal (.single key) => key
  | removal (.matching pattern) => pattern
  | removal (.tagged tags) => ",".intercalate tags
  | everything => "*"

def kind : Sweep → String
  | removal (.single _) => "key"
  | removal (.matching _) => "pattern"
  | removal (.tagged _) => "tags"
  | everything => "all"

/-- What the request does before it records the invalidation. -/
def remove : Sweep → Action V Nat
  | removal (.single key) => do
    deleteKeys ((KeySet.ofMembers (← dependents key)).add key).keys
  | removal (.matching pattern) => do
    deleteKeys (← withDependents (← Client.scanKeys pattern)).keys
  | removal (.tagged tags) => do
    let members ← Client.union (tags.map Marker.tag)
    if members.isEmpty then return 0
    let removed ← deleteKeys (← withDependents members).keys
    strike members (← Client.scanKeys Marker.tagPattern)
    return removed
  | everything => do
    Client.flush
    Action.always (Program.change fun m => { m with dependents := KeyMap.empty })
    return 0

/-- A request does its work and then records it. -/
theorem perform_eq (k : Sweep) : (k.perform : Action V Nat) = do
    let start ← Action.always Program.now
    let removed ← k.remove
    Action.always (record k.target k.kind removed start)
    return removed := by
  cases k with
  | everything => simp only [perform, invalidateAll, remove, bind_assoc, pure_bind, target, kind]
  | removal R =>
    cases R with
    | single | matching =>
      simp only [perform, Removal.act, invalidate, invalidatePattern, remove, bind_assoc, target,
        kind]
    | tagged tags =>
      simp only [perform, Removal.act, invalidateTags, remove, bind_assoc, target, kind]
      refine bind_congr fun start => bind_congr fun members => ?_
      cases members.isEmpty <;>
        simp only [if_true, Bool.false_eq_true, if_false, bind_assoc, pure_bind]

end Sweep
end Invalidation

/-! ## Whether events are recorded -/

/-- The memory of the engine if it does not record events. -/
def Memory.unrecorded (m : Memory V) : Memory V :=
  { m with
    config := { m.config with
      invalidation := { m.config.invalidation with recordEvents := false } } }

def Scene.unrecorded (s : Scene V) : Scene V := { s with memory := s.memory.unrecorded }

namespace Program

/-- The program does the same whether events are recorded or not. -/
def Overlooks (p : Program V α) : Prop :=
  ∀ s, p.run s.unrecorded = ((p.run s).1, (p.run s).2.unrecorded)

variable {p : Program V α}

theorem overlooks_pure (a : α) : (pure a : Program V α).Overlooks := fun _ => rfl

theorem overlooks_extent : (lift .extent : Program V Nat).Overlooks := fun _ => rfl

theorem overlooks_pause (ms : Nat) : (pause ms : Program V Unit).Overlooks := by
  intro s
  rw [run_pause, run_pause]
  rfl

theorem overlooks_change {f : Memory V → Memory V} (hf : ∀ m, f m.unrecorded = (f m).unrecorded) :
    (change f).Overlooks := by
  intro s
  rw [run_change, run_change]
  exact congrArg (fun m => ((), (⟨s.world, m⟩ : Scene V))) (hf s.memory)

theorem overlooks_bind {f : α → Program V β} (hp : p.Overlooks) (hf : ∀ a, (f a).Overlooks) :
    (p >>= f).Overlooks := by
  intro s
  rw [run_bind, run_bind, hp, hf]

end Program

namespace Action

variable {a : Action V α} {f : α → Action V β}

theorem overlooks_always {p : Program V α} (hp : p.Overlooks) : (always p).outcome.Overlooks := by
  rw [outcome_always]
  exact Program.overlooks_bind hp fun _ => Program.overlooks_pure _

theorem overlooks_command (c : Store.Call) :
    (command c : Action V c.Reply).outcome.Overlooks := fun _ => rfl

theorem overlooks_then (ha : a.outcome.Overlooks) (hf : ∀ x, (f x).outcome.Overlooks) :
    (a >>= f).outcome.Overlooks := by
  rw [outcome_bind]
  refine Program.overlooks_bind ha fun r => ?_
  cases r with
  | ok x => exact hf x
  | error e => exact Program.overlooks_pure _

/-- What is done with the settings is the same if it does not depend on that one. -/
theorem overlooks_memory_then {f : Memory V → Action V β} (hsame : ∀ m, f m.unrecorded = f m)
    (hf : ∀ m, (f m).outcome.Overlooks) : (always Program.memory >>= f).outcome.Overlooks := by
  intro s
  rw [run_always_bind, run_always_bind, Program.run_memory, Program.run_memory]
  exact (congrArg (fun a => a.outcome.run s.unrecorded) (hsame s.memory)).trans (hf s.memory s)

end Action

open CacheLayer.Action

theorem Client.overlooks_scanKeys (pattern : String) :
    (Client.scanKeys pattern : Action V (List String)).outcome.Overlooks := by
  have hpages (pages cursor : Nat) :
      (Client.pagesFrom pattern pages cursor : Action V (List String)).outcome.Overlooks := by
    induction pages generalizing cursor with
    | zero => exact Program.overlooks_pure _
    | succ pages ih =>
      refine overlooks_then (overlooks_command (.scan cursor pattern Client.pageSize)) fun page => ?_
      change (if page.1 = 0 then _ else _ : Action V (List String)).outcome.Overlooks
      split
      · exact Program.overlooks_pure _
      · exact overlooks_then (ih _) fun _ => Program.overlooks_pure _
  exact overlooks_then (overlooks_always Program.overlooks_extent) fun _ =>
    overlooks_then (hpages _ _) fun _ => Program.overlooks_pure _

namespace Invalidation

theorem overlooks_dependents (key : String) :
    (dependents key : Action V (List String)).outcome.Overlooks := by
  refine overlooks_memory_then (fun _ => rfl) fun m => ?_
  split
  · exact Program.overlooks_pure _
  · refine overlooks_then (overlooks_command (.members (Marker.dependency key))) fun stored => ?_
    split
    · exact Program.overlooks_pure _
    · exact overlooks_then (overlooks_always (Program.overlooks_change fun _ => rfl)) fun _ =>
        Program.overlooks_pure _

theorem overlooks_withDependents (keys : List String) :
    (withDependents keys : Action V KeySet).outcome.Overlooks := by
  induction keys with
  | nil => exact Program.overlooks_pure _
  | cons key keys ih =>
    exact overlooks_then (overlooks_dependents key) fun _ =>
      overlooks_then ih fun _ => Program.overlooks_pure _

theorem overlooks_retryFrom {a : Action V Nat} (ha : a.outcome.Overlooks)
    (delay last attempt more : Nat) : (retryFrom delay last a attempt more).outcome.Overlooks := by
  induction more generalizing attempt with
  | zero =>
    refine overlooks_then (overlooks_always ha) fun r => ?_
    cases r <;> exact Program.overlooks_pure _
  | succ more ih =>
    refine overlooks_then (overlooks_always ha) fun r => ?_
    cases r with
    | ok n => exact Program.overlooks_pure _
    | error e =>
      exact overlooks_then (overlooks_always (Program.overlooks_pause _)) fun _ => ih _

theorem overlooks_deleteKeys (keys : List String) :
    (deleteKeys keys : Action V Nat).outcome.Overlooks := by
  have hchunks (c : InvalidationConfig) (parts : List (List String)) :
      (deleteChunks c parts : Action V Nat).outcome.Overlooks := by
    induction parts with
    | nil => exact Program.overlooks_pure _
    | cons part parts ih =>
      exact overlooks_then (overlooks_retryFrom (overlooks_command (.deleteMany part)) _ _ _ _)
        fun _ => overlooks_then ih fun _ => Program.overlooks_pure _
  have hsame (c : InvalidationConfig) (parts : List (List String)) :
      (deleteChunks { c with recordEvents := false } parts : Action V Nat) =
        deleteChunks c parts := by
    induction parts with
    | nil => rfl
    | cons part parts ih =>
      rw [deleteChunks, deleteChunks, ih]
      rfl
  exact overlooks_memory_then (fun m => hsame m.config.invalidation (chunks _ keys)) fun m =>
    hchunks _ _

theorem overlooks_strike (members sets : List String) :
    (strike members sets : Action V Unit).outcome.Overlooks := by
  induction sets with
  | nil => exact Program.overlooks_pure _
  | cons set sets ih =>
    exact overlooks_then (overlooks_command (.removeMembers set members)) fun _ => ih

namespace Sweep

theorem overlooks_remove (k : Sweep) : (k.remove : Action V Nat).outcome.Overlooks := by
  cases k with
  | everything =>
    exact overlooks_then (overlooks_command .flush) fun _ =>
      overlooks_then (overlooks_always (Program.overlooks_change fun _ => rfl)) fun _ =>
        Program.overlooks_pure _
  | removal R =>
    cases R with
    | single key =>
      exact overlooks_then (overlooks_dependents key) fun _ => overlooks_deleteKeys _
    | matching pattern =>
      exact overlooks_then (Client.overlooks_scanKeys pattern) fun _ =>
        overlooks_then (overlooks_withDependents _) fun _ => overlooks_deleteKeys _
    | tagged tags =>
      refine overlooks_then (overlooks_command (.union (tags.map Marker.tag))) fun members => ?_
      split
      · exact Program.overlooks_pure _
      · exact overlooks_then (overlooks_withDependents _) fun _ =>
          overlooks_then (overlooks_deleteKeys _) fun _ =>
          overlooks_then (Client.overlooks_scanKeys _) fun _ =>
          overlooks_then (overlooks_strike _ _) fun _ => Program.overlooks_pure _

/-- The result is that of the work, whatever becomes of its record. -/
theorem run_perform (k : Sweep) (s : Scene V) :
    (k.perform.outcome.run s).1 = (k.remove.outcome.run s).1 := by
  rw [perform_eq, run_always_bind, Program.run_now]
  rcases hremove : k.remove.outcome.run s with ⟨r, t⟩
  cases r with
  | ok n =>
    rw [run_bind_ok hremove, run_always_bind]
    rfl
  | error e => rw [run_bind_error hremove]

/-- What has succeeded has done its work and has then been recorded. -/
theorem of_perform {k : Sweep} {n : Nat} (h : k.perform.outcome.run s = (.ok n, t)) :
    ∃ u, k.remove.outcome.run s = (.ok n, u) ∧
      t = ((record k.target k.kind n s.world.now).run u).2 := by
  rw [perform_eq, run_always_bind, Program.run_now] at h
  obtain ⟨m, u, hremove, hrecord⟩ := of_run_bind_ok h
  rw [run_always_bind] at hrecord
  obtain ⟨hm, rfl⟩ := Prod.mk.inj hrecord
  obtain rfl := Except.ok.inj hm
  exact ⟨u, hremove, rfl⟩

/-- **Whether events are recorded does not matter for the result**, whatever fails. -/
theorem perform_unrecorded (k : Sweep) (s : Scene V) :
    (k.perform.outcome.run s).1 = (k.perform.outcome.run s.unrecorded).1 := by
  rw [run_perform, run_perform, overlooks_remove]

end Sweep

/-! ## What becomes of the log -/

namespace Removal

/-- The keys at which a request aims, before their dependents are added. -/
def aims (s : Scene V) : Removal → List String
  | single key => [key]
  | matching pattern => s.liveKeys.filter (Glob.accepts pattern)
  | tagged tags => tags.flatMap s.tagged

end Removal

/-- The log is a target of the request. -/
def Sweep.clears (s : Scene V) : Sweep → Bool
  | removal R => (s.targets (R.aims s)).contains Marker.events
  | everything => true

/-- Between the scenes nothing has happened to the log, or it has been removed. -/
structure Strips (s t : Scene V) (removed : Bool) : Prop where
  serving : t.Serving
  now : t.world.now = s.world.now
  config : t.memory.config = s.memory.config
  log : t.live? Marker.events = if removed then none else s.live? Marker.events

theorem of_dependents {key : String} {own : List String} (hs : s.Serving)
    (h : (dependents key).outcome.run s = (.ok own, t)) :
    s.Agrees t ∧ s.dependents? key = some own := by
  obtain ⟨t', hrun, hagrees⟩ := run_dependents hs key
  rw [h] at hrun
  obtain ⟨hanswer, rfl⟩ := Prod.mk.inj hrun
  refine ⟨hagrees, ?_⟩
  cases hown : s.dependents? key with
  | none =>
    rw [hown] at hanswer
    cases hanswer
  | some own' =>
    rw [hown] at hanswer
    exact congrArg some (Except.ok.inj hanswer).symm

theorem of_withDependents {keys : List String} {set : KeySet} (hs : s.Serving)
    (h : (withDependents keys).outcome.run s = (.ok set, t)) :
    s.Agrees t ∧ ∀ k, k ∈ set.keys ↔ k ∈ s.targets keys := by
  obtain ⟨t', hagrees, ⟨set', hrun, hmem⟩ | ⟨-, e, hrun⟩⟩ := run_withDependents hs keys <;>
    rw [h] at hrun <;> obtain ⟨hanswer, rfl⟩ := Prod.mk.inj hrun
  · obtain rfl := Except.ok.inj hanswer
    exact ⟨hagrees, hmem⟩
  · cases hanswer

/-- A union that succeeds has been one of sets. -/
theorem of_union {tags ks : List String} (hs : s.Serving)
    (h : (Client.union (tags.map Marker.tag)).outcome.run s = (.ok ks, t)) :
    s.Agrees t ∧ ∀ k, k ∈ ks ↔ k ∈ tags.flatMap s.tagged := by
  have hanswer : ((Store.Call.union (tags.map Marker.tag)).run s.world.now s.world.store).1 =
      .ok ks :=
    congrArg Prod.fst ((Action.run_command hs.steady (.union (tags.map Marker.tag))).symm.trans h)
  obtain ⟨ks', t', hrun, hagrees, hmem⟩ := run_union hs (Store.sets_of_union hanswer)
  rw [h] at hrun
  obtain ⟨hks, rfl⟩ := Prod.mk.inj hrun
  obtain rfl := Except.ok.inj hks
  rw [List.flatMap_map] at hmem
  exact ⟨hagrees, hmem⟩

/-- When targets have been deleted, the log is gone if it is one of them. -/
theorem strips_delete {keys : List String} {set : KeySet} {n : Nat} (ht : t.Serving)
    (hagrees : s.Agrees t) (hset : ∀ k, k ∈ set.keys ↔ k ∈ s.targets keys)
    (h : (deleteKeys set.keys).outcome.run t = (.ok n, u)) :
    Strips s u ((s.targets keys).contains Marker.events) := by
  obtain ⟨u', hrun, hmemory, hnow, hlive⟩ := run_deleteKeys ht hset
  rw [h] at hrun
  obtain ⟨-, rfl⟩ := Prod.mk.inj hrun
  refine ⟨Program.serving_of_run ht h, hnow.trans hagrees.now, ?_, ?_⟩
  · rw [hmemory, hagrees.config]
  · rw [hlive, hagrees.live]
    simp only [List.contains_iff_mem]

/-- What leaves the log and the settings alone changes nothing about that. -/
theorem Strips.then {removed : Bool} {p : Program V α} {r : α} (h : Strips s t removed)
    (hleaves : p.Each (Ask.Leaves Marker.events)) (hkeeps : p.Keeps Memory.config)
    (hrun : p.run t = (r, u)) : Strips s u removed := by
  obtain ⟨hnow, hlive⟩ := Program.run_leaves h.serving hleaves
  have hconfig := Program.run_keeps hkeeps t
  rw [hrun] at hnow hlive hconfig
  exact ⟨Program.serving_of_run h.serving hrun, hnow.trans h.now, hconfig.trans h.config,
    hlive.trans h.log⟩

/-- To strike members off the sets of tags does not touch the log. -/
theorem Strips.strike {removed : Bool} {ms sets : List String} (h : Strips s t removed)
    (hscan : (Client.scanKeys Marker.tagPattern).outcome.run t = (.ok sets, u))
    {v : Scene V} (hstrike : (strike ms sets).outcome.run u = (.ok (), v)) :
    Strips s v removed := by
  obtain ⟨u', hscan', -⟩ := Client.run_scanKeys h.serving Marker.tagPattern
  rw [hscan] at hscan'
  obtain ⟨hsets, -⟩ := Prod.mk.inj hscan'
  obtain rfl := Except.ok.inj hsets
  have hother : ∀ set ∈ t.liveKeys.filter (Glob.accepts Marker.tagPattern),
      (set != Marker.events) = true := by
    intro set hset
    obtain ⟨tag, rfl⟩ := Marker.accepts_tagPattern.1 (List.mem_filter.1 hset).2
    exact bne_iff_ne.2 (Marker.tag_ne_events tag)
  have hscanned : Strips s u removed :=
    h.then (Client.isStill_scanKeys _ Marker.events)
      (Client.each_scanKeys (Q := Ask.Keeps Memory.config) trivial fun _ => trivial) hscan
  exact hscanned.then (each_strike fun set hset => .inr (hother set hset))
    (each_strike (Q := Ask.Keeps Memory.config) fun _ _ => trivial) hstrike

theorem strips_single {key : String} {n : Nat} (hs : s.Serving)
    (h : (Sweep.removal (.single key)).remove.outcome.run s = (.ok n, t)) :
    Strips s t ((Sweep.removal (.single key)).clears s) := by
  obtain ⟨own, u, hown, hdelete⟩ := Action.of_run_bind_ok h
  obtain ⟨hagrees, hknown⟩ := of_dependents hs hown
  refine strips_delete (Program.serving_of_run hs hown) hagrees (fun k => ?_) hdelete
  rw [KeySet.mem_add, KeySet.mem_ofMembers]
  simp [Removal.aims, Scene.mem_targets, hknown]

theorem strips_matching {pattern : String} {n : Nat} (hs : s.Serving)
    (h : (Sweep.removal (.matching pattern)).remove.outcome.run s = (.ok n, t)) :
    Strips s t ((Sweep.removal (.matching pattern)).clears s) := by
  obtain ⟨u, hscan, halike, hmemory⟩ := Client.run_scanKeys hs pattern
  have hu := Program.serving_of_run hs hscan
  have hseen : s.Agrees u := .of_alike halike hmemory
  rw [Sweep.remove, Action.run_bind_ok hscan] at h
  obtain ⟨set, v, hset, hdelete⟩ := Action.of_run_bind_ok h
  obtain ⟨hagrees, hmem⟩ := of_withDependents hu hset
  rw [hseen.targets] at hmem
  exact strips_delete (Program.serving_of_run hu hset) (hseen.trans hagrees) hmem hdelete

theorem strips_tagged {tags : List String} {n : Nat} (hs : s.Serving)
    (h : (Sweep.removal (.tagged tags)).remove.outcome.run s = (.ok n, t)) :
    Strips s t ((Sweep.removal (.tagged tags)).clears s) := by
  obtain ⟨ks, u, hunion, hrest⟩ := Action.of_run_bind_ok h
  obtain ⟨hseen, hks⟩ := of_union hs hunion
  have hu := Program.serving_of_run hs hunion
  split at hrest
  · next hempty =>
    -- no key has any of the tags, so nothing is a target
    obtain ⟨-, rfl⟩ := Prod.mk.inj hrest
    refine ⟨hu, hseen.now, hseen.config, ?_⟩
    rw [hseen.live, Sweep.clears, Removal.aims, eq_nil_of_isEmpty hks hempty]
    rfl
  · obtain ⟨set, v, hset, hrest⟩ := Action.of_run_bind_ok hrest
    obtain ⟨removed, w, hdelete, hrest⟩ := Action.of_run_bind_ok hrest
    obtain ⟨sets, x, hscan, hrest⟩ := Action.of_run_bind_ok hrest
    obtain ⟨⟨⟩, y, hstrike, hrest⟩ := Action.of_run_bind_ok hrest
    obtain ⟨-, rfl⟩ := Prod.mk.inj hrest
    obtain ⟨hagrees, hmem⟩ := of_withDependents hu hset
    have htargets (k : String) : k ∈ set.keys ↔ k ∈ s.targets (tags.flatMap s.tagged) := by
      rw [hmem, hseen.targets, Scene.mem_targets_congr hks]
    have hdeleted := strips_delete (Program.serving_of_run hu hset) (hseen.trans hagrees)
      htargets hdelete
    exact hdeleted.strike hscan hstrike

theorem strips_everything {n : Nat} (hs : s.Serving)
    (h : Sweep.everything.remove.outcome.run s = (.ok n, t)) :
    Strips s t (Sweep.everything.clears s) := by
  have hflush : (Client.flush : Action V Unit).outcome.run s = _ :=
    Action.run_command hs.steady .flush
  have hu := Program.serving_of_run hs hflush
  rw [Sweep.remove, Action.run_bind_ok hflush, Action.run_always_bind, Program.run_change] at h
  obtain ⟨-, rfl⟩ := Prod.mk.inj h
  exact ⟨hu, rfl, rfl, rfl⟩

/-- **A request that has done its work has removed the log if it is a target**, and has done nothing
to it otherwise. -/
theorem remove_strips {k : Sweep} {n : Nat} (hs : s.Serving)
    (h : k.remove.outcome.run s = (.ok n, t)) : Strips s t (k.clears s) := by
  cases k with
  | everything => exact strips_everything hs h
  | removal R =>
    cases R with
    | single key => exact strips_single hs h
    | matching pattern => exact strips_matching hs h
    | tagged tags => exact strips_tagged hs h

end Invalidation
end CacheLayer
