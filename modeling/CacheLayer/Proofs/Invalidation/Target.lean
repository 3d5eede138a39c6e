/-
What an invalidation aims at, and how it is removed. The targets of some keys are
these keys and their direct dependents, as the scene before knows them. Finding
them out changes nothing that can be seen (`run_dependents`, `run_withDependents`);
deleting them in chunks removes exactly them, each counted once if it was live
(`run_deleteKeys`); and logging the invalidation touches the log alone
(`leaves_record`).
-/
import CacheLayer.Invalidation.Invalidator
import CacheLayer.Proofs.Client.Scan
import CacheLayer.Proofs.Store.Deletion
import CacheLayer.Proofs.Store.Member

namespace CacheLayer

variable {V α : Type} {s t u : Scene V} {key : String}

/-! ## Direct dependents -/

namespace Scene

/-- The direct dependents of a key in increasing order: those on record, or else those of the
mirrored set. Nothing is known of them if something else lies in the place of that set. -/
def dependents? (s : Scene V) (key : String) : Option (List String) :=
  match s.memory.dependents.get? key with
  | some known => some known.keys
  | none => members? (s.live? (Marker.dependency key))

/-- The keys with their direct dependents. -/
def targets (s : Scene V) (keys : List String) : List String :=
  keys.flatMap fun key => key :: (s.dependents? key).getD []

theorem mem_targets {keys : List String} {k : String} :
    k ∈ s.targets keys ↔ ∃ key ∈ keys, k = key ∨ k ∈ (s.dependents? key).getD [] := by
  simp [targets]

theorem mem_targets_congr {keys keys' : List String} (h : ∀ k, k ∈ keys ↔ k ∈ keys') {k : String} :
    k ∈ s.targets keys ↔ k ∈ s.targets keys' := by
  rw [mem_targets, mem_targets]
  simp only [h]

/-- The scenes look alike, in the settings and in what depends on what as well. -/
structure Agrees (s t : Scene V) : Prop extends Alike s t where
  config : t.memory.config = s.memory.config
  dependents : ∀ key, t.dependents? key = s.dependents? key

namespace Agrees

theorem refl (s : Scene V) : Agrees s s := ⟨Alike.refl s, rfl, fun _ => rfl⟩

theorem trans (h : Agrees s t) (h' : Agrees t u) : Agrees s u :=
  ⟨h.toAlike.trans h'.toAlike, h'.config.trans h.config,
    fun key => (h'.dependents key).trans (h.dependents key)⟩

theorem targets (h : Agrees s t) (keys : List String) : t.targets keys = s.targets keys := by
  unfold Scene.targets
  simp only [h.dependents]

/-- What depends on what is read off memory and what keys hold. -/
theorem of_alike (h : Alike s t) (hmemory : t.memory = s.memory) : Agrees s t := by
  refine ⟨h, by rw [hmemory], fun key => ?_⟩
  unfold dependents?
  rw [hmemory, h.live]

end Agrees

theorem Alike.liveKeys (h : Alike s t) : t.liveKeys = s.liveKeys := by
  refine KeySet.eq_of_mem_iff (Store.sorted_liveKeys _ _) (Store.sorted_liveKeys _ _) fun key => ?_
  exact mem_liveKeys.trans (by rw [h.live]; exact mem_liveKeys.symm)

end Scene

namespace Invalidation

open Scene

/-- Members that are remembered are the dependents from then on, and nothing else is known. -/
theorem agrees_addDependents {ks : List String} (hknown : s.memory.dependents.get? key = none)
    (hstored : members? (s.live? (Marker.dependency key)) = some ks)
    (hsorted : ks.Pairwise (· < ·)) :
    s.Agrees { s with memory := addDependents key (KeySet.ofMembers ks) s.memory } := by
  refine ⟨⟨rfl, fun _ => rfl⟩, rfl, fun other => ?_⟩
  unfold dependents?
  by_cases hother : other = key
  · subst hother
    simp only [addDependents, hknown, Option.getD_none, KeyMap.get?_insert_self,
      KeySet.empty_union, hstored, KeySet.keys_ofMembers hsorted]
  · simp only [addDependents, KeyMap.get?_insert_other _ _ hother]
    rfl

/-- Where the engine has no record of a key, the mirrored set is asked, and its members are put on
record if there are any. -/
theorem run_dependents_mirrored (hs : s.Serving)
    (hknown : s.memory.dependents.get? key = none) :
    ∃ t : Scene V, s.Alike t ∧ t.memory = s.memory ∧ (dependents key).outcome.run s =
      match members? (s.live? (Marker.dependency key)) with
      | some [] => (.ok [], t)
      | some ks => (.ok ks, { t with memory := addDependents key (KeySet.ofMembers ks) t.memory })
      | none => (.error (.wrongType (Marker.dependency key)), t) := by
  obtain ⟨t, hanswer, halike, hmemory⟩ :=
    Action.run_asking hs (c := .members (Marker.dependency key)) rfl
  have hasked : (Client.members (Marker.dependency key)).outcome.run s =
      (Store.toldMembers (Marker.dependency key)
        (members? (s.live? (Marker.dependency key))), t) :=
    hanswer.trans (congrArg (·, t) (Store.reply_members _ _ _))
  refine ⟨t, halike, hmemory, ?_⟩
  rw [dependents, Action.run_always_bind, Program.run_memory]
  simp only [hknown]
  cases hks : members? (s.live? (Marker.dependency key)) with
  | none =>
    rw [hks, Store.toldMembers] at hasked
    exact Action.run_bind_error hasked
  | some ks =>
    rw [hks, Store.toldMembers] at hasked
    rw [Action.run_bind_ok hasked]
    cases ks with
    | nil => rfl
    | cons k ks =>
      simp only [List.isEmpty_cons, Bool.false_eq_true, if_false,
        KeySet.keys_ofMembers (sorted_members hks)]
      rfl

/-- Only the mirrored set of the key is asked, and only the record of the key is changed. -/
theorem each_dependents {Q : Ask V → Prop} (hmemory : Q (.update id))
    (hask : Q (.command (.members (Marker.dependency key))))
    (hadd : ∀ known, Q (.update (addDependents key known))) :
    (dependents key : Action V (List String)).outcome.Each Q := by
  refine Program.each_then (Program.each_always (Program.each_lift hmemory)) fun m => ?_
  split
  · exact Program.each_pure _
  · refine Program.each_then (Program.each_lift hask) fun stored => ?_
    split
    · exact Program.each_pure _
    · exact Program.each_then (Program.each_always ⟨hadd _, fun _ => trivial⟩) fun _ =>
        Program.each_pure _

theorem each_withDependents {Q : Ask V → Prop} (hmemory : Q (.update id))
    (hask : ∀ key, Q (.command (.members (Marker.dependency key))))
    (hadd : ∀ key known, Q (.update (addDependents key known))) (keys : List String) :
    (withDependents keys : Action V KeySet).outcome.Each Q := by
  induction keys with
  | nil => exact Program.each_pure _
  | cons key keys ih =>
    exact Program.each_then (each_dependents hmemory (hask key) (hadd key)) fun _ =>
      Program.each_then ih fun _ => Program.each_pure _

/-- Asking for the dependents of a key gives them, and changes nothing that can be seen. -/
theorem run_dependents (hs : s.Serving) (key : String) :
    ∃ t : Scene V, (dependents key).outcome.run s =
        (Store.toldMembers (Marker.dependency key) (s.dependents? key), t) ∧
      s.Agrees t := by
  cases hknown : s.memory.dependents.get? key with
  | some known =>
    refine ⟨s, ?_, Agrees.refl s⟩
    rw [dependents, Action.run_always_bind, Program.run_memory]
    simp [dependents?, hknown, Store.toldMembers]
  | none =>
    have hmirrored : s.dependents? key = members? (s.live? (Marker.dependency key)) := by
      simp only [dependents?, hknown]
    obtain ⟨t, halike, hmemory, hrun⟩ := run_dependents_mirrored hs hknown
    have hagrees : s.Agrees t := Agrees.of_alike halike hmemory
    rw [hrun, hmirrored]
    cases hks : members? (s.live? (Marker.dependency key)) with
    | none => exact ⟨t, rfl, hagrees⟩
    | some ks =>
      cases ks with
      | nil => exact ⟨t, rfl, hagrees⟩
      | cons k ks =>
        refine ⟨_, rfl, hagrees.trans (agrees_addDependents (hmemory ▸ hknown) ?_
          (sorted_members hks))⟩
        rw [halike.live, hks]

/-- The targets of keys are found if all their dependents are, and nothing is changed. -/
theorem run_withDependents (hs : s.Serving) (keys : List String) :
    ∃ t : Scene V, s.Agrees t ∧
      ((∃ set : KeySet, (withDependents keys).outcome.run s = (.ok set, t) ∧
          ∀ k, k ∈ set.keys ↔ k ∈ s.targets keys) ∨
        ¬ (∀ key ∈ keys, (s.dependents? key).isSome = true) ∧
          ∃ e, (withDependents keys).outcome.run s = (.error e, t)) := by
  induction keys generalizing s with
  | nil => exact ⟨s, Agrees.refl s, .inl ⟨KeyMap.empty, rfl, fun k => Iff.rfl⟩⟩
  | cons key keys ih =>
    obtain ⟨t, hrun, hagrees⟩ := run_dependents hs key
    have ht : t.Serving := Program.serving_of_run hs hrun
    rw [withDependents]
    cases hks : s.dependents? key with
    | none =>
      rw [hks, Store.toldMembers] at hrun
      exact ⟨t, hagrees, .inr ⟨by simp [hks], _, Action.run_bind_error hrun⟩⟩
    | some own =>
      rw [hks, Store.toldMembers] at hrun
      rw [Action.run_bind_ok hrun]
      obtain ⟨u, hagrees', ⟨set, hset, hmem⟩ | ⟨hunknown, e, he⟩⟩ := ih ht
      · rw [Action.run_bind_ok hset]
        refine ⟨u, hagrees.trans hagrees', .inl ⟨_, rfl, fun k => ?_⟩⟩
        rw [KeySet.mem_union, KeySet.mem_add, KeySet.mem_ofMembers, hmem, hagrees.targets]
        simp [mem_targets, hks]
      · rw [Action.run_bind_error he]
        refine ⟨u, hagrees.trans hagrees', .inr ⟨fun hknown => hunknown ?_, e, rfl⟩⟩
        intro key' hkey'
        rw [hagrees.dependents]
        exact hknown key' (List.mem_cons_of_mem _ hkey')

/-- What is known of an action that either does as it should or lacks something that has to be
known. -/
theorem exact_of_cases {r : Except Error Nat × Scene V} {known : Prop} {P : Nat → Scene V → Prop}
    (h : (∃ n t, r = (.ok n, t) ∧ P n t) ∨ (¬ known ∧ ∃ e t, r = (.error e, t))) :
    (∀ n t, r = (.ok n, t) → P n t) ∧ (known → ∃ n t, r = (.ok n, t)) := by
  rcases h with ⟨n, t, hr, hP⟩ | ⟨hknown, e, t, hr⟩
  · refine ⟨fun n' t' hr' => ?_, fun _ => ⟨n, t, hr⟩⟩
    rw [hr] at hr'
    cases hr'
    exact hP
  · refine ⟨fun n' t' hr' => ?_, fun h => absurd h hknown⟩
    rw [hr] at hr'
    cases hr'

/-! ## Removal -/

/-- A first attempt that does not fail is the only one. -/
theorem run_retry {c : InvalidationConfig} {a : Action V Nat} {n : Nat}
    (h : a.outcome.run s = (.ok n, t)) : (retry c a).outcome.run s = (.ok n, t) := by
  unfold retry
  cases max c.maxRetries 1 - 1 <;>
    rw [retryFrom, Action.run_bind, Action.run_always, h] <;> rfl

/-- A deletion looks at memory, sends commands that delete keys, and waits. -/
theorem each_deleteKeys {Q : Ask V → Prop} (hmemory : Q (.update id)) (hnow : Q .now)
    (hpause : ∀ t, Q (.wait ⟨some t, fun _ => false⟩))
    (hdelete : ∀ keys, Q (.command (.deleteMany keys))) (keys : List String) :
    (deleteKeys keys : Action V Nat).outcome.Each Q := by
  have hfrom (delay last more attempt : Nat) (chunk : List String) :
      (retryFrom delay last (Client.deleteMany chunk) attempt more).outcome.Each Q := by
    induction more generalizing attempt with
    | zero =>
      refine Program.each_then (Program.each_always (Program.each_lift (hdelete chunk))) fun r => ?_
      cases r <;> exact Program.each_pure _
    | succ more ih =>
      refine Program.each_then (Program.each_always (Program.each_lift (hdelete chunk))) fun r => ?_
      cases r with
      | ok n => exact Program.each_pure _
      | error e =>
        exact Program.each_then (Program.each_always (Program.each_pause hnow hpause _)) fun _ =>
          ih _
  have hchunks (c : InvalidationConfig) (parts : List (List String)) :
      (deleteChunks c parts : Action V Nat).outcome.Each Q := by
    induction parts with
    | nil => exact Program.each_pure _
    | cons part parts ih =>
      exact Program.each_then (hfrom _ _ _ _ part) fun _ =>
        Program.each_then ih fun _ => Program.each_pure _
  exact Program.each_then (Program.each_always (Program.each_lift hmemory)) fun _ => hchunks _ _

/-- Deleting chunk by chunk comes to deleting all at once. -/
theorem run_deleteChunks (hs : s.world.Steady) (c : InvalidationConfig)
    (keys : List (List String)) :
    (deleteChunks c keys).outcome.run s =
      (.ok (s.world.store.deleteMany s.world.now keys.flatten).1,
        s.withStore (s.world.store.deleteMany s.world.now keys.flatten).2) := by
  induction keys generalizing s with
  | nil => rfl
  | cons chunk rest ih =>
    have hchunk := Client.run_deleteMany hs chunk
    have hrest := ih (s := s.withStore (s.world.store.deleteMany s.world.now chunk).2) hs
    rw [deleteChunks, Action.run_bind_ok (run_retry hchunk), Action.run_bind_ok hrest,
      List.flatten_cons, Store.deleteMany_append]
    rfl

/-- The keys are gone and counted if they were live; what other keys hold is the same, and so is
memory. -/
theorem run_deleteKeys (hs : s.Serving) {targets : List String} {set : KeySet}
    (hset : ∀ k, k ∈ set.keys ↔ k ∈ targets) :
    ∃ t : Scene V, (deleteKeys set.keys).outcome.run s =
        (.ok (s.liveKeys.countP (· ∈ targets)), t) ∧
      t.memory = s.memory ∧ t.world.now = s.world.now ∧
      ∀ key, t.live? key = if key ∈ targets then none else s.live? key := by
  have hrun : (deleteKeys set.keys : Action V Nat).outcome.run s = _ :=
    run_deleteChunks hs.steady s.memory.config.invalidation (chunks _ set.keys)
  rw [flatten_chunks] at hrun
  have hcount : (s.world.store.deleteMany s.world.now set.keys).1 =
      s.liveKeys.countP (· ∈ targets) := by
    calc (s.world.store.deleteMany s.world.now set.keys).1
        = set.keys.countP fun k => (s.live? k).isSome :=
          Store.count_deleteMany _ _ set.nodup_keys
      _ = set.keys.countP fun k => k ∈ s.liveKeys :=
          List.countP_congr fun k _ => by simp [mem_liveKeys]
      _ = s.liveKeys.countP fun k => k ∈ set.keys :=
          Store.countP_mem_comm set.nodup_keys s.nodup_liveKeys
      _ = s.liveKeys.countP (· ∈ targets) := by simp only [hset]
  rw [hcount] at hrun
  refine ⟨_, hrun, rfl, rfl, fun key => ?_⟩
  have hgone := Store.live?_deleteMany s.world.store s.world.now set.keys key
  simp only [hset] at hgone
  exact hgone

/-! ## The log -/

theorem each_strike {Q : Ask V → Prop} {members sets : List String}
    (hremove : ∀ set ∈ sets, Q (.command (.removeMembers set members))) :
    (strike members sets : Action V Unit).outcome.Each Q := by
  induction sets with
  | nil => exact Program.each_pure _
  | cons set sets ih =>
    obtain ⟨hset, hsets⟩ := List.forall_mem_cons.1 hremove
    exact Program.each_then (Program.each_lift hset) fun _ => ih hsets

/-- Logging looks at memory and the clock, and sends commands about the log alone. -/
theorem each_record {Q : Ask V → Prop} (hmemory : Q (.update id)) (hnow : Q .now)
    (hpush : ∀ bs, Q (.command (.pushFront Marker.events bs)))
    (htrim : ∀ start stop, Q (.command (.trim Marker.events start stop)))
    (hexpire : ∀ life, Q (.command (.expire Marker.events life)))
    (target kind : String) (removed start : Nat) :
    (record target kind removed start : Program V Unit).Each Q := by
  have hencode (e : InvalidationEvent) :
      (Client.encodeItem InvalidationEvent.format e : Action V Bytes).outcome.Each Q :=
    Program.each_then (Program.each_always (Program.each_lift hmemory)) fun _ =>
      Program.each_pure _
  refine Program.each_bind (Program.each_lift hmemory) fun m => ?_
  split
  · refine Program.each_bind (Program.each_lift hnow) fun now => Program.each_ignore ?_
    refine Program.each_then (Program.each_then (Program.each_mapM hencode _) fun bs =>
      Program.each_lift (hpush bs)) fun _ => ?_
    exact Program.each_then (Program.each_lift (htrim _ _)) fun _ =>
      Program.each_then (Program.each_lift (hexpire _)) fun _ => Program.each_pure _
  · exact Program.each_pure ()

/-- Logging touches no key but the log. -/
theorem leaves_record (hkey : key ≠ Marker.events) (target kind : String) (removed start : Nat) :
    (record target kind removed start : Program V Unit).Each (Ask.Leaves key) := by
  have hspares : (Marker.events != key) = true := by simpa using Ne.symm hkey
  exact each_record trivial trivial (fun _ => .inr hspares) (fun _ _ => .inr hspares)
    (fun _ => .inr hspares) target kind removed start

theorem run_record (hs : s.Serving) (target kind : String) (removed start : Nat) :
    ((record target kind removed start).run s).2.world.now = s.world.now ∧
      ∀ key, key ≠ Marker.events →
        ((record target kind removed start).run s).2.live? key = s.live? key := by
  have hleft {key : String} (hkey : key ≠ Marker.events) :=
    Program.run_leaves hs (leaves_record (V := V) hkey target kind removed start)
  have hother : "" ≠ Marker.events := by decide
  exact ⟨(hleft hother).1, fun key hkey => (hleft hkey).2⟩

end Invalidation
end CacheLayer
