/-
Invalidating a key, or the keys that match a pattern, removes them and their
direct dependents and nothing else, and counts each key that was live once,
however it is reached. What depends on a dependent stays, unless it is a target
itself. Only the log of invalidations is exempt.

Main statement: `invalidate_exact`.
-/
import CacheLayer.Proofs.Client.Coding
import CacheLayer.Proofs.Invalidation.Target

namespace CacheLayer

variable {V : Type} {s t : Scene V}

/-- Between the scenes so many keys have been removed, namely the targets that were live. -/
structure Scene.Removes (s t : Scene V) (targets : List String) (n : Nat) : Prop where
  now : t.world.now = s.world.now
  count : n = s.liveKeys.countP (· ∈ targets)
  gone : ∀ key ∈ targets, key ≠ Marker.events → t.live? key = none
  kept : ∀ key, key ∉ targets → key ≠ Marker.events → t.live? key = s.live? key

theorem Scene.Removes.congr {targets targets' : List String} {n : Nat}
    (h : s.Removes t targets n) (hmem : ∀ k, k ∈ targets ↔ k ∈ targets') :
    s.Removes t targets' n := by
  refine ⟨h.now, ?_, fun k hk => h.gone k ((hmem k).2 hk),
    fun k hk => h.kept k fun hk' => hk ((hmem k).1 hk')⟩
  rw [h.count]
  simp only [hmem]

namespace Invalidation

/-- Removing targets and logging it removes just them. -/
theorem run_removal (ht : t.Serving) (halike : s.Alike t) {targets : List String} {set : KeySet}
    (hset : ∀ k, k ∈ set.keys ↔ k ∈ targets) (target kind : String) (start : Nat) :
    ∃ n u, (do
        let removed ← deleteKeys set.keys
        Action.always (record target kind removed start)
        return removed : Action V Nat).outcome.run t = (.ok n, u) ∧ s.Removes u targets n := by
  obtain ⟨u, hrun, -, hnow, hlive⟩ := run_deleteKeys ht hset
  rw [halike.liveKeys] at hrun
  generalize hn : s.liveKeys.countP (· ∈ targets) = n at hrun
  obtain ⟨hnow', hlogged⟩ := run_record (Program.serving_of_run ht hrun) target kind n start
  refine ⟨n, ((record target kind n start).run u).2, ?_, ?_, hn.symm, fun key hmem hkey => ?_,
    fun key hmem hkey => ?_⟩
  · rw [Action.run_bind_ok hrun, Action.run_always_bind]
    rfl
  · rw [hnow', hnow, halike.now]
  · rw [hlogged key hkey, hlive, if_pos hmem]
  · rw [hlogged key hkey, hlive, if_neg hmem, halike.live]

theorem run_invalidate (hs : s.Serving) (key : String) :
    (∃ n t, (invalidate key).outcome.run s = (.ok n, t) ∧ s.Removes t (s.targets [key]) n) ∨
      ¬ (s.dependents? key).isSome = true ∧
        ∃ e t, (invalidate key).outcome.run s = (.error e, t) := by
  obtain ⟨t, hrun, hagrees⟩ := run_dependents hs key
  have ht : t.Serving := Program.serving_of_run hs hrun
  rw [invalidate, Action.run_always_bind, Program.run_now]
  cases hks : s.dependents? key with
  | none =>
    rw [hks, Store.toldMembers] at hrun
    exact .inr ⟨by simp, _, _, Action.run_bind_error hrun⟩
  | some own =>
    rw [hks, Store.toldMembers] at hrun
    rw [Action.run_bind_ok hrun]
    refine .inl (run_removal ht hagrees.toAlike (fun k => ?_) key "key" s.world.now)
    rw [KeySet.mem_add, KeySet.mem_ofMembers]
    simp [Scene.mem_targets, hks]

theorem run_invalidatePattern (hs : s.Serving) (pattern : String) :
    (∃ n t, (invalidatePattern pattern).outcome.run s = (.ok n, t) ∧
      s.Removes t (s.targets (s.liveKeys.filter (Glob.accepts pattern))) n) ∨
      ¬ (∀ key ∈ s.liveKeys.filter (Glob.accepts pattern), (s.dependents? key).isSome = true) ∧
        ∃ e t, (invalidatePattern pattern).outcome.run s = (.error e, t) := by
  obtain ⟨t, hscan, halike, hmemory⟩ := Client.run_scanKeys hs pattern
  have ht : t.Serving := Program.serving_of_run hs hscan
  have hagrees : s.Agrees t := .of_alike halike hmemory
  rw [invalidatePattern, Action.run_always_bind, Program.run_now, Action.run_bind_ok hscan]
  obtain ⟨u, hagrees', ⟨set, hset, hmem⟩ | ⟨hunknown, e, he⟩⟩ :=
    run_withDependents ht (s.liveKeys.filter (Glob.accepts pattern))
  · have hu : u.Serving := Program.serving_of_run ht hset
    rw [Action.run_bind_ok hset]
    rw [hagrees.targets] at hmem
    exact .inl (run_removal hu (hagrees.trans hagrees').toAlike hmem pattern "pattern" s.world.now)
  · simp only [hagrees.dependents] at hunknown
    exact .inr ⟨hunknown, e, u, Action.run_bind_error he⟩

/-- **Invalidation removes exactly the one-level cascade.** When a key, or what matches a pattern,
has been invalidated, no target is live: neither such a key nor a direct dependent of one, as they
were before. The number is that of the targets that were live, and all other keys hold what they
held. It fails only if a mirrored set that has to be read is none. -/
theorem invalidate_exact (s : Scene V) (hs : s.Serving) :
    (∀ key n t, (invalidate key).outcome.run s = (.ok n, t) → s.Removes t (s.targets [key]) n) ∧
    (∀ key, (s.dependents? key).isSome = true →
      ∃ n t, (invalidate key).outcome.run s = (.ok n, t)) ∧
    (∀ pattern n t, (invalidatePattern pattern).outcome.run s = (.ok n, t) →
      s.Removes t (s.targets (s.liveKeys.filter (Glob.accepts pattern))) n) ∧
    ∀ pattern, (∀ key ∈ s.liveKeys.filter (Glob.accepts pattern),
        (s.dependents? key).isSome = true) →
      ∃ n t, (invalidatePattern pattern).outcome.run s = (.ok n, t) :=
  ⟨fun key => (exact_of_cases (run_invalidate hs key)).1,
    fun key => (exact_of_cases (run_invalidate hs key)).2,
    fun pattern => (exact_of_cases (run_invalidatePattern hs pattern)).1,
    fun pattern => (exact_of_cases (run_invalidatePattern hs pattern)).2⟩

/-- Keys that depend on each other and on themselves. What depends on the first one has been
registered by an engine that is gone. -/
def linked : Scene UInt8 :=
  let gone := ((do
    addDependency "a" ["b", "a"]
    Action.command (.set "a" [1] none)
    Action.command (.set "b" [2] none)
    Action.command (.set "c" [3] none) : Action UInt8 Unit).outcome.run
      ⟨.start default, Client.byteMemory⟩).2
  ((addDependency "b" ["c", "a"]).outcome.run ⟨gone.world, Client.byteMemory⟩).2

theorem serving_linked : linked.Serving :=
  Program.serving_run (s := ⟨_, Client.byteMemory⟩)
    (Program.serving_run (World.serving_start default) _) _

/-- The first key goes with the second one, but not with the third. The second one, found by a
pattern, goes with both others. -/
theorem invalidate_exact_linked :
    linked.Serving ∧
    (∃ t, (invalidate "a").outcome.run linked = (.ok 2, t) ∧ t.live? "a" = none ∧
      t.live? "b" = none ∧ t.live? "c" = some ⟨.bytes [3], none⟩) ∧
    ∃ t, (invalidatePattern "[b]").outcome.run linked = (.ok 3, t) ∧ t.live? "c" = none := by
  obtain ⟨hkey, hkeyOk, hpattern, hpatternOk⟩ := invalidate_exact linked serving_linked
  refine ⟨serving_linked, ?_, ?_⟩
  · obtain ⟨n, t, hrun⟩ := hkeyOk "a" (by decide +kernel)
    have hremoves := hkey "a" n t hrun
    obtain rfl : n = 2 := hremoves.count.trans (by decide +kernel)
    refine ⟨t, hrun, ?_, ?_, ?_⟩
    · exact hremoves.gone "a" (by decide +kernel) (by decide)
    · exact hremoves.gone "b" (by decide +kernel) (by decide)
    · rw [hremoves.kept "c" (by decide +kernel) (by decide)]
      rfl
  · obtain ⟨n, t, hrun⟩ := hpatternOk "[b]" (by decide +kernel)
    have hremoves := hpattern "[b]" n t hrun
    obtain rfl : n = 3 := hremoves.count.trans (by decide +kernel)
    exact ⟨t, hrun, hremoves.gone "c" (by decide +kernel) (by decide)⟩

end Invalidation
end CacheLayer
