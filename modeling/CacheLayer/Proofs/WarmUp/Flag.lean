/-
The flag with which an engine remembers that the cache is warm. Only four operations have to do with
it: a warm-up, the question whether the cache is warm, a reset, and the invalidation of everything.
All others leave it as it is, whatever they are answered and whatever goes on at the same time
(`Operation.keepsFlag`).
-/
import CacheLayer.Proofs.Client.Looking
import CacheLayer.Proofs.Fleet
import CacheLayer.Proofs.Invalidation.Target
import CacheLayer.Proofs.Program.Guard
import CacheLayer.Proofs.Reload.Memory
import CacheLayer.Proofs.Strategy.Requests

namespace CacheLayer

open CacheLayer.Program

variable {V α β : Type}

/-- The program leaves the flag as it is. -/
abbrev Program.KeepsFlag (p : Program V α) : Prop := p.Keeps Memory.warm

/-- The request leaves the flag as it is if that is said by `b`. -/
abbrev Ask.HoldsFlag (b : Bool) : Ask V → Prop := Ask.Respects fun m => m.warm = b

theorem Ask.flag_of_mayGet {q : Ask V} {b : Bool} {s t : Scene V} {a : Answer q}
    (hq : q.HoldsFlag b) (hget : q.MayGet s a t) (hs : s.memory.warm = b) : t.memory.warm = b :=
  (Ask.tells_of_mayGet hq hs hget).2

theorem Program.KeepsFlag.holds {p : Program V α} (h : p.KeepsFlag) (b : Bool) :
    p.Each (Ask.HoldsFlag b) := by
  refine each_mono (fun q hq => ?_) h
  cases q with
  | update f => exact fun m hm => (hq m).trans hm
  | _ => trivial

/-! ## Reloads -/

namespace Reload

theorem keepsFlag_reload (key : String) : (reload key : Action V Unit).outcome.KeepsFlag :=
  (counts_reload key).keeps fun _ _ => rfl

theorem keepsFlag_reloadBatch (keys : List String) :
    (reloadBatch keys : Action V ReloadResult).outcome.KeepsFlag :=
  (counts_reloadBatch keys).keeps fun _ _ => rfl

theorem keepsFlag_reloadAll : (reloadAll : Action V ReloadResult).outcome.KeepsFlag :=
  counts_reloadAll.keeps fun _ _ => rfl

/-! ### Schedules -/

theorem keepsFlag_startSchedule : (startSchedule : Action V Unit).outcome.KeepsFlag := by
  refine each_then (each_always keeps_memory) fun m => ?_
  have hstart : (if m.timetable.isNone then (do
      let now ← Action.always Program.now
      Action.always (Program.change fun m' =>
        { m' with timetable := some (Timetable.start m.reload.interval now) }))
      else pure () : Action V Unit).outcome.KeepsFlag := by
    split
    · exact each_then (each_always (each_lift trivial)) fun _ =>
        each_always (keeps_change fun _ => rfl)
    · exact each_pure _
  dsimp only
  split
  · exact each_pure _
  · exact hstart

theorem keepsFlag_stopSchedule : (stopSchedule : Program V Unit).KeepsFlag :=
  each_bind (keeps_change fun _ => rfl) fun _ => each_lift trivial

theorem keepsFlag_scheduleTurn : (scheduleTurn : Program V Unit).KeepsFlag := by
  refine each_bind keeps_memory fun m => ?_
  split
  · exact each_pure _
  · refine each_bind (each_lift trivial) fun _ => each_bind keeps_memory fun m' => ?_
    split
    · exact keeps_change fun _ => rfl
    · exact each_bind (each_lift trivial) fun _ => each_bind (keeps_change fun _ => rfl) fun _ =>
        each_ignore keepsFlag_reloadAll

end Reload

/-! ## Loads of a warm-up -/

namespace WarmUp

theorem each_candidates {Q : Ask V → Prop} (hmemory : Q (.update id))
    (hrequest : ∀ id, (Action.request id .listKeys).outcome.Each Q) :
    (candidates : Action V (List String)).outcome.Each Q := by
  refine each_then (each_always (each_lift hmemory)) fun m => ?_
  split
  · exact hrequest _
  · exact each_pure _

theorem onlyReads_candidates : (candidates : Action V (List String)).outcome.OnlyReads :=
  each_candidates (Q := Ask.OnlyReads) (fun _ => rfl) fun _ => onlyReads_request _ _

/-- Several chunks are loaded at the same time. -/
theorem onlyReads_load (keys : List String) :
    (load keys : Action V ReloadResult).outcome.OnlyReads := by
  refine each_then (each_always onlyReads_memory) fun m => ?_
  refine each_then (each_always (Guard.each_gather (Q := Ask.OnlyReads) trivial
    (fun _ => rfl) (fun _ => trivial) _ _ fun p hp => ?_)) fun _ => each_pure _
  obtain ⟨part, -, rfl⟩ := List.mem_map.1 hp
  exact Reload.onlyReads_loadChunk false part

theorem keepsFlag_candidates : (candidates : Action V (List String)).outcome.KeepsFlag :=
  onlyReads_candidates.keeps _

theorem keepsFlag_load (keys : List String) :
    (load keys : Action V ReloadResult).outcome.KeepsFlag := (onlyReads_load keys).keeps _

theorem keepsFlag_warmUpKeys (keys : List String) :
    (warmUpKeys keys : Action V WarmUpResult).outcome.KeepsFlag :=
  each_then (keepsFlag_load keys) fun _ => each_pure _

theorem keepsFlag_warmUpSelective (test : String → Bool) :
    (warmUpSelective test : Action V WarmUpResult).outcome.KeepsFlag :=
  each_then keepsFlag_candidates fun _ => each_then (keepsFlag_load _) fun _ => each_pure _

/-! ### Who sets the flag -/

theorem each_isWarm {Q : Ask V → Prop} (hmemory : Q (.update id))
    (hmarked : Q (.command (.has Marker.warmedUp)))
    (hraise : Q (.update fun m => { m with warm := true })) :
    (isWarm : Action V Bool).outcome.Each Q := by
  refine each_then (each_always (each_lift hmemory)) fun m => ?_
  split
  · exact each_pure _
  · refine each_then (each_lift hmarked) fun marked => ?_
    split
    · exact each_then (each_always ⟨hraise, fun _ => trivial⟩) fun _ => each_pure _
    · exact each_pure _

theorem hurries_isWarm : (isWarm : Action V Bool).outcome.Hurries :=
  each_isWarm (Q := fun q => q.isWait = false) rfl rfl rfl

theorem holds_isWarm : (isWarm : Action V Bool).outcome.Each (Ask.HoldsFlag true) :=
  each_isWarm (Q := Ask.HoldsFlag true) (fun _ hm => hm) trivial fun _ _ => rfl

theorem looks_mark : (Client.set Format.flag Marker.warmedUp true (some Marker.warmedUpLife) :
    Action V Unit).outcome.Looks := Client.looks_set _ _ _

theorem hurries_markWarm : (markWarm : Action V Unit).outcome.Hurries :=
  each_then (each_always ⟨rfl, fun _ => trivial⟩) fun _ => looks_mark.hurries

theorem holds_warmUp : (warmUp : Action V WarmUpResult).outcome.Each (Ask.HoldsFlag true) := by
  refine each_then holds_isWarm fun warm => ?_
  split
  · exact each_pure _
  refine each_then (keepsFlag_candidates.holds true) fun keys => ?_
  refine each_then ((keepsFlag_load keys).holds true) fun _ => ?_
  refine each_then (each_then (each_always ⟨fun _ _ => rfl, fun _ => trivial⟩) fun _ => ?_)
    fun _ => each_pure _
  exact Program.KeepsFlag.holds (looks_mark.keeps _) true

theorem hurries_reset : (reset : Action V Unit).outcome.Hurries :=
  each_then (each_always ⟨rfl, fun _ => trivial⟩) fun _ =>
    each_then (Client.looks_command _).hurries fun _ => each_pure _

theorem holds_reset : (reset : Action V Unit).outcome.Each (Ask.HoldsFlag false) :=
  each_then (each_always ⟨fun _ _ => rfl, fun _ => trivial⟩) fun _ =>
    each_then (Program.KeepsFlag.holds ((Client.looks_command _).keeps _) false) fun _ => each_pure _

end WarmUp

/-! ## Lanes -/

theorem changes_keepsFlag : Changes (Ask.Keeps (Memory.warm (V := V))) :=
  changes_keeps fun _ _ _ => rfl

theorem reads_keepsFlag : Reads (Ask.Keeps (Memory.warm (V := V))) := reads_keeps fun _ _ => rfl

namespace WriteBehind

theorem keepsFlag_shutdown (lane : Nat) (flush : Bool) :
    (shutdown lane flush : Program V Nat).KeepsFlag := by
  refine each_bind keeps_memory fun m => ?_
  dsimp only
  split
  · exact each_pure _
  · refine each_bind (changes_keepsFlag.each_onLane lane _) fun _ => ?_
    refine each_bind (each_lift trivial) fun _ => ?_
    split
    · exact each_pure _
    · exact each_bind (each_lift fun _ => rfl) fun _ => each_pure _

end WriteBehind

/-! ## Strategies -/

namespace Strategy

theorem keepsFlag_read (key : String) : (read key : Action V V).outcome.KeepsFlag :=
  reads_keepsFlag.each_read key

theorem keepsFlag_write (key : String) (v : V) (life : Option Nat) :
    (write key v life).outcome.KeepsFlag :=
  changes_keepsFlag.each_write reads_keepsFlag.toReports key v life

theorem keepsFlag_delete (key : String) : (delete key : Action V Unit).outcome.KeepsFlag :=
  changes_keepsFlag.each_delete reads_keepsFlag.toReports key

theorem keepsFlag_shutdown (s : Strategy) (flush : Bool) :
    (shutdown s flush : Program V Nat).KeepsFlag := by
  unfold shutdown
  cases s.policy with
  | writeBehind => exact WriteBehind.keepsFlag_shutdown _ _
  | _ => exact each_pure _

theorem keepsFlag_switch (policy : Policy) : (switch policy : Program V Unit).KeepsFlag :=
  each_bind (each_lift fun _ => rfl) fun _ => each_bind (keepsFlag_shutdown _ _) fun _ =>
    each_pure _

end Strategy

/-! ## Invalidation -/

namespace Invalidation

theorem keepsFlag_addDependency (key : String) (dependents : List String) :
    (addDependency key dependents : Action V Unit).outcome.KeepsFlag := by
  unfold addDependency
  split
  · exact each_pure _
  · refine each_then (each_always (keeps_change fun _ => rfl)) fun _ => ?_
    exact each_then ((Client.looks_command _).keeps _) fun _ =>
      each_then ((Client.looks_command _).keeps _) fun _ => each_pure _

theorem keepsFlag_removeDependency (key : String) :
    (removeDependency key : Action V Unit).outcome.KeepsFlag :=
  each_then (each_always (keeps_change fun _ => rfl)) fun _ =>
    each_then ((Client.looks_command _).keeps _) fun _ => each_pure _

theorem keepsFlag_dependents (key : String) :
    (dependents key : Action V (List String)).outcome.KeepsFlag :=
  each_dependents (Q := Ask.Keeps Memory.warm) (fun _ => rfl) trivial (fun _ _ => rfl)

theorem keepsFlag_withDependents (keys : List String) :
    (withDependents keys : Action V KeySet).outcome.KeepsFlag :=
  each_withDependents (Q := Ask.Keeps Memory.warm) (fun _ => rfl) (fun _ => trivial)
    (fun _ _ _ => rfl) keys

theorem keepsFlag_addTags (key : String) (tags : List String) :
    (addTags key tags : Action V Unit).outcome.KeepsFlag := by
  induction tags with
  | nil => exact each_pure _
  | cons tag tags ih => exact each_then ((Client.looks_command _).keeps _) fun _ => ih

theorem keepsFlag_tagMembers (tag : String) :
    (tagMembers tag : Action V (List String)).outcome.KeepsFlag :=
  each_then ((Client.looks_command _).keeps _) fun _ => each_pure _

theorem keepsFlag_deleteKeys (keys : List String) :
    (deleteKeys keys : Action V Nat).outcome.KeepsFlag :=
  each_deleteKeys (Q := Ask.Keeps Memory.warm) (fun _ => rfl) trivial (fun _ => trivial)
    (fun _ => trivial) keys

theorem looks_record (target kind : String) (removed start : Nat) :
    (record target kind removed start : Program V Unit).Looks :=
  each_record (Q := Ask.Looks) (fun _ => rfl) trivial (fun _ => trivial) (fun _ _ => trivial)
    (fun _ => trivial) target kind removed start

theorem keepsFlag_record (target kind : String) (removed start : Nat) :
    (record target kind removed start : Program V Unit).KeepsFlag :=
  (looks_record target kind removed start).keeps _

theorem keepsFlag_recentEvents (limit : Nat) :
    (recentEvents limit : Action V (List InvalidationEvent)).outcome.KeepsFlag := by
  unfold recentEvents
  split
  · exact each_pure _
  · exact (Client.looks_act InvalidationEvent.format (.range _ _ _)).keeps _

theorem keepsFlag_invalidate (key : String) :
    (invalidate key : Action V Nat).outcome.KeepsFlag :=
  each_then (each_always (each_lift trivial)) fun _ => each_then (keepsFlag_dependents key) fun _ =>
    each_then (keepsFlag_deleteKeys _) fun _ =>
    each_then (each_always (keepsFlag_record _ _ _ _)) fun _ => each_pure _

theorem keepsFlag_invalidatePattern (pattern : String) :
    (invalidatePattern pattern : Action V Nat).outcome.KeepsFlag :=
  each_then (each_always (each_lift trivial)) fun _ =>
    each_then ((Client.looks_scanKeys _).keeps _) fun _ =>
    each_then (keepsFlag_withDependents _) fun _ => each_then (keepsFlag_deleteKeys _) fun _ =>
    each_then (each_always (keepsFlag_record _ _ _ _)) fun _ => each_pure _

theorem keepsFlag_strike (members sets : List String) :
    (strike members sets : Action V Unit).outcome.KeepsFlag :=
  each_strike (Q := Ask.Keeps Memory.warm) fun _ _ => trivial

theorem keepsFlag_invalidateTags (tags : List String) :
    (invalidateTags tags : Action V Nat).outcome.KeepsFlag := by
  refine each_then (each_always (each_lift trivial)) fun start => ?_
  refine each_then ((Client.looks_command _).keeps _) fun members => ?_
  dsimp only
  split
  · exact each_then (each_always (keepsFlag_record _ _ _ _)) fun _ => each_pure _
  · refine each_then (keepsFlag_withDependents _) fun _ => ?_
    refine each_then (keepsFlag_deleteKeys _) fun _ => ?_
    refine each_then ((Client.looks_scanKeys _).keeps _) fun _ => ?_
    refine each_then (keepsFlag_strike _ _) fun _ => ?_
    exact each_then (each_always (keepsFlag_record _ _ _ _)) fun _ => each_pure _

theorem keepsFlag_invalidateAll : (invalidateAll : Action V Unit).outcome.KeepsFlag :=
  each_then (each_always (each_lift trivial)) fun _ =>
    each_then ((Client.looks_command _).keeps _) fun _ =>
    each_then (each_always (keeps_change fun _ => rfl)) fun _ =>
    each_always (keepsFlag_record _ _ _ _)

end Invalidation

/-! ## Requests that join parts -/

namespace Service

theorem keepsFlag_getOrLoad (key : String) : (getOrLoad key : Action V V).outcome.KeepsFlag := by
  refine each_then (each_always keeps_memory) fun m => ?_
  refine each_then (each_always ((Client.looks_get key).keeps _)) fun r => ?_
  cases r with
  | ok v => exact each_then (each_always (keeps_change fun _ => rfl)) fun _ => each_pure _
  | error e =>
    dsimp only
    split
    · exact each_pure _
    refine each_then (each_always (keeps_change fun _ => rfl)) fun _ => ?_
    split
    · exact each_pure _
    refine each_then (Reload.keepsFlag_reload key) fun _ => ?_
    refine each_then (each_always ((Client.looks_get key).keeps _)) fun r => ?_
    cases r with
    | ok v => exact each_pure _
    | error e =>
      dsimp only
      split
      · exact each_pure _
      · refine each_then (keeps_request _ _) fun found => ?_
        cases found <;> exact each_pure _

theorem keepsFlag_setReloadConfig (c : ReloadConfig) :
    (setReloadConfig c : Action V Unit).outcome.KeepsFlag :=
  each_then (each_pure _) fun _ => each_always (keeps_change fun _ => rfl)

theorem hurries_invalidateAll : (invalidateAll : Action V Unit).outcome.Hurries := by
  refine each_then ?_ fun _ => WarmUp.hurries_reset
  refine each_then (each_always (each_lift rfl)) fun _ => ?_
  refine each_then (Client.looks_command _).hurries fun _ => ?_
  exact each_then (each_always ⟨rfl, fun _ => trivial⟩) fun _ =>
    each_always (Invalidation.looks_record _ _ _ _).hurries

theorem holds_invalidateAll : (invalidateAll : Action V Unit).outcome.Each (Ask.HoldsFlag false) :=
  each_then (Invalidation.keepsFlag_invalidateAll.holds false) fun _ => WarmUp.holds_reset

theorem keepsFlag_close : (close : Program V Unit).KeepsFlag :=
  each_bind Reload.keepsFlag_stopSchedule fun _ => each_bind keeps_memory fun _ =>
    each_bind (Strategy.keepsFlag_shutdown _ _) fun _ => each_pure _

end Service

/-! ## Operations -/

namespace Operation

/-- The operation has to do with the flag. -/
def isAboutFlag : Operation V → Bool
  | warmUp | isWarm | reset | invalidateAll => true
  | _ => false

/-- All other operations leave the flag as it is. -/
theorem keepsFlag {op : Operation V} (h : op.isAboutFlag = false) : op.act.KeepsFlag := by
  cases op with
  | warmUp | isWarm | reset | invalidateAll => cases h
  | warmUpKeys keys => exact each_ignore (WarmUp.keepsFlag_warmUpKeys keys)
  | warmUpSelective test => exact each_ignore (WarmUp.keepsFlag_warmUpSelective test)
  | client f r => exact each_ignore ((Client.looks_act f r).keeps _)
  | read key => exact each_ignore (Strategy.keepsFlag_read key)
  | write key v life => exact each_ignore (Strategy.keepsFlag_write key v life)
  | delete key => exact each_ignore (Strategy.keepsFlag_delete key)
  | switch policy => exact Strategy.keepsFlag_switch policy
  | getOrLoad key => exact each_ignore (Service.keepsFlag_getOrLoad key)
  | reload key => exact each_ignore (Reload.keepsFlag_reload key)
  | reloadBatch keys => exact each_ignore (Reload.keepsFlag_reloadBatch keys)
  | reloadAll => exact each_ignore Reload.keepsFlag_reloadAll
  | setReloadConfig c => exact each_ignore (Service.keepsFlag_setReloadConfig c)
  | startSchedule => exact each_ignore Reload.keepsFlag_startSchedule
  | stopSchedule => exact Reload.keepsFlag_stopSchedule
  | invalidate key => exact each_ignore (Invalidation.keepsFlag_invalidate key)
  | invalidatePattern pattern => exact each_ignore (Invalidation.keepsFlag_invalidatePattern pattern)
  | invalidateTags tags => exact each_ignore (Invalidation.keepsFlag_invalidateTags tags)
  | invalidateAndReload key =>
    exact each_ignore (each_then (Invalidation.keepsFlag_invalidate key) fun _ =>
      Reload.keepsFlag_reload key)
  | addDependency key deps => exact each_ignore (Invalidation.keepsFlag_addDependency key deps)
  | removeDependency key => exact each_ignore (Invalidation.keepsFlag_removeDependency key)
  | dependents key => exact each_ignore (Invalidation.keepsFlag_dependents key)
  | setWithTags f key a life tags =>
    exact each_ignore (each_then ((Client.looks_set key a life).keeps _) fun _ =>
      Invalidation.keepsFlag_addTags key tags)
  | addTags key tags => exact each_ignore (Invalidation.keepsFlag_addTags key tags)
  | tagMembers tag => exact each_ignore (Invalidation.keepsFlag_tagMembers tag)
  | recentEvents limit => exact each_ignore (Invalidation.keepsFlag_recentEvents limit)
  | clear => exact each_ignore Invalidation.keepsFlag_invalidateAll
  | configure f hf => exact keeps_change hf
  | close => exact Service.keepsFlag_close
  | turn job =>
    cases job with
    | worker lane => exact changes_keepsFlag.each_workerTurn lane
    | schedule => exact Reload.keepsFlag_scheduleTurn
  | sleep ms => exact keeps_pause ms

/-- A warm-up takes place, unless the cache is warm. -/
def warms : Operation V → Bool
  | warmUp => true
  | _ => false

/-- The engine forgets that the cache is warm. -/
def forgets : Operation V → Bool
  | reset | invalidateAll => true
  | _ => false

/-- An engine that does not forget keeps its flag up. -/
theorem holds_up {op : Operation V} (h : op.forgets = false) :
    op.act.Each (Ask.HoldsFlag true) := by
  cases hflag : op.isAboutFlag with
  | false => exact (keepsFlag hflag).holds true
  | true =>
    cases op with
    | warmUp => exact each_ignore WarmUp.holds_warmUp
    | isWarm => exact each_ignore WarmUp.holds_isWarm
    | reset | invalidateAll => cases h
    | _ => cases hflag

/-- Without a warm-up, only the question whether the cache is warm can put the flag up. -/
theorem holds_down {op : Operation V} (h : op.warms = false) (hask : op ≠ isWarm) :
    op.act.Each (Ask.HoldsFlag false) := by
  cases hflag : op.isAboutFlag with
  | false => exact (keepsFlag hflag).holds false
  | true =>
    cases op with
    | warmUp => cases h
    | isWarm => exact absurd rfl hask
    | reset => exact each_ignore WarmUp.holds_reset
    | invalidateAll => exact each_ignore Service.holds_invalidateAll
    | _ => cases hflag

end Operation
end CacheLayer
