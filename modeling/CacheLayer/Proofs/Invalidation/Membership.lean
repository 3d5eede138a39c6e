/-
What an invalidation by tags leaves in the sets of tags, whatever keys it removes, those of sets of
tags among them. The keys with one of the given tags are struck off every set. A key that goes
because it depends on one of them is not: it stays a member wherever it is one, and a
later invalidation by such a tag finds it there and removes it again.

Main statement: `invalidateTags_strikes`.
-/
import CacheLayer.Proofs.Invalidation.Tag

namespace CacheLayer

variable {V : Type} {s t : Scene V}

namespace Invalidation

open Scene

/-- Members that could be struck off were members of sets. -/
theorem sets_of_strike (hs : s.Serving) {ms sets : List String} (hnodup : sets.Nodup)
    (h : (strike ms sets).outcome.run s = (.ok (), t)) :
    ∀ set ∈ sets, (members? (s.live? set)).isSome = true := by
  induction sets generalizing s with
  | nil => rintro set ⟨⟩
  | cons set sets ih =>
    obtain ⟨hnot, hnodup⟩ := List.nodup_cons.1 hnodup
    rw [strike] at h
    obtain ⟨n, u, hfirst, hrest⟩ := Action.of_run_bind_ok h
    cases hks : members? (s.live? set) with
    | none =>
      rw [Client.removeMembers, Action.run_command hs.steady,
        Store.reply_removeMembers_error hks] at hfirst
      cases hfirst
    | some ks =>
      obtain ⟨n', u', hrun, -, hlive⟩ := run_removeMembers hs hks ms
      obtain ⟨-, rfl⟩ := Prod.mk.inj (hfirst.symm.trans hrun)
      refine List.forall_mem_cons.2 ⟨by rw [hks]; rfl, fun other hother => ?_⟩
      have hne : other ≠ set := by
        rintro rfl
        exact hnot hother
      have hmembers := ih (Program.serving_of_run hs hrun) hnodup hrest other hother
      rwa [hlive, if_neg hne] at hmembers

/-- If all sets of tags could be struck, then nothing but sets lies in their places. -/
theorem of_strikeAll (hs : s.Serving) {ms sets : List String} {u : Scene V}
    (hscan : (Client.scanKeys Marker.tagPattern).outcome.run s = (.ok sets, u))
    (hstrike : (strike ms sets).outcome.run u = (.ok (), t)) :
    t.world.now = s.world.now ∧
    (∀ tag, t.live? (Marker.tag tag) = withoutMembers ms (s.live? (Marker.tag tag))) ∧
    ∀ key, (∀ tag, key ≠ Marker.tag tag) → t.live? key = s.live? key := by
  obtain ⟨u', hscan', halike, -⟩ := Client.run_scanKeys hs Marker.tagPattern
  obtain ⟨hsets, rfl⟩ := Prod.mk.inj (hscan.symm.trans hscan')
  obtain rfl := Except.ok.inj hsets
  have hfound := sets_of_strike (Program.serving_of_run hs hscan)
    (s.nodup_liveKeys.filter (Glob.accepts Marker.tagPattern)) hstrike
  have hall (tag : String) : (members? (s.live? (Marker.tag tag))).isSome = true := by
    cases hlive : s.live? (Marker.tag tag) with
    | none => rfl
    | some e =>
      rw [← hlive, ← halike.live]
      refine hfound _ (List.mem_filter.2 ⟨mem_liveKeys.2 (by rw [hlive]; rfl), ?_⟩)
      exact Marker.accepts_tagPattern.2 ⟨tag, rfl⟩
  obtain ⟨sets', v, w, hscan'', hstrike', hnow, hstruck, hother⟩ := run_strikeAll hs ms hall
  obtain ⟨hsets, rfl⟩ := Prod.mk.inj (hscan.symm.trans hscan'')
  obtain rfl := Except.ok.inj hsets
  obtain ⟨-, rfl⟩ := Prod.mk.inj (hstrike.symm.trans hstrike')
  exact ⟨hnow, hstruck, hother⟩

/-- What keys hold after targets were deleted and keys struck off all sets of tags: the targets hold
nothing, and the sets that are no targets have lost the keys. -/
theorem of_removal (hs : s.Serving) {ks targets : List String} {set : KeySet}
    (hset : ∀ k, k ∈ set.keys ↔ k ∈ targets) {target : String} {start n : Nat}
    (hrun : (do
        let removed ← deleteKeys set.keys
        strike ks (← Client.scanKeys Marker.tagPattern)
        Action.always (record target "tags" removed start)
        return removed : Action V Nat).outcome.run s = (.ok n, t)) :
    (∀ tag, t.live? (Marker.tag tag) = withoutMembers ks
      (if Marker.tag tag ∈ targets then none else s.live? (Marker.tag tag))) ∧
    ∀ key, key ≠ Marker.events → (∀ tag, key ≠ Marker.tag tag) →
      t.live? key = if key ∈ targets then none else s.live? key := by
  obtain ⟨u, hdelete, -, -, hdeleted⟩ := run_deleteKeys hs hset
  have hu := Program.serving_of_run hs hdelete
  rw [Action.run_bind_ok hdelete] at hrun
  obtain ⟨sets, v, hscan, hrun⟩ := Action.of_run_bind_ok hrun
  obtain ⟨_, w, hstrike, hrun⟩ := Action.of_run_bind_ok hrun
  have hw := Program.serving_of_run (Program.serving_of_run hu hscan) hstrike
  obtain ⟨-, hstruck, hother⟩ := of_strikeAll hu hscan hstrike
  rw [Action.run_always_bind] at hrun
  obtain ⟨-, rfl⟩ := Prod.mk.inj hrun
  obtain ⟨-, hlogged⟩ := run_record hw target "tags" (s.liveKeys.countP (· ∈ targets)) start
  refine ⟨fun tag => ?_, fun key hkey htags => ?_⟩
  · rw [← hdeleted, ← hstruck]
    exact hlogged _ (Marker.tag_ne_events tag)
  · rw [← hdeleted, ← hother key htags]
    exact hlogged key hkey

/-- The same of an invalidation by tags that has not failed. -/
theorem of_invalidateTags (hs : s.Serving) {tags : List String} {n : Nat}
    (hrun : (invalidateTags tags).outcome.run s = (.ok n, t)) :
    (∀ tag, t.live? (Marker.tag tag) = withoutMembers (tags.flatMap s.tagged)
      (if Marker.tag tag ∈ s.targets (tags.flatMap s.tagged) then none
        else s.live? (Marker.tag tag))) ∧
    ∀ key, key ≠ Marker.events → (∀ tag, key ≠ Marker.tag tag) →
      t.live? key = if key ∈ s.targets (tags.flatMap s.tagged) then none else s.live? key := by
  rw [invalidateTags, Action.run_always_bind, Program.run_now] at hrun
  obtain ⟨ks, u, hunion, hrun⟩ := Action.of_run_bind_ok hrun
  have hgathered : ((Store.Call.union (tags.map Marker.tag)).run s.world.now s.world.store).1 =
      .ok ks := by
    rw [Client.union, Action.run_command hs.steady] at hunion
    exact congrArg Prod.fst hunion
  obtain ⟨ks', u', hunion', hagrees, hks⟩ :=
    run_union hs (Store.sets_of_union hgathered)
  obtain ⟨hsame, rfl⟩ := Prod.mk.inj (hunion.symm.trans hunion')
  obtain rfl := Except.ok.inj hsame
  have hu := Program.serving_of_run hs hunion
  have hks (k : String) : k ∈ ks ↔ k ∈ tags.flatMap s.tagged := by
    rw [hks, List.flatMap_map]
    exact Iff.rfl
  by_cases hempty : ks.isEmpty = true
  · have hnone : tags.flatMap s.tagged = [] := by
      refine List.eq_nil_iff_forall_not_mem.2 fun k hk => ?_
      have hmem := (hks k).2 hk
      rw [List.isEmpty_iff.1 hempty] at hmem
      cases hmem
    simp only [hempty, if_true] at hrun
    rw [Action.run_always_bind] at hrun
    obtain ⟨-, rfl⟩ := Prod.mk.inj hrun
    obtain ⟨-, hlogged⟩ := run_record hu (",".intercalate tags) "tags" 0 s.world.now
    simp only [hnone, targets, List.flatMap_nil, List.not_mem_nil, if_false]
    refine ⟨fun tag => ?_, fun key hkey _ => (hlogged key hkey).trans (hagrees.live key)⟩
    rw [withoutMembers_nil (hs.isFilled _)]
    exact (hlogged _ (Marker.tag_ne_events tag)).trans (hagrees.live _)
  · simp only [hempty, Bool.false_eq_true, if_false] at hrun
    obtain ⟨set, v, htargets, hrun⟩ := Action.of_run_bind_ok hrun
    -- Finding the targets has not failed, so it has found them all.
    obtain ⟨v', hagrees', ⟨set', htargets', hmem⟩ | ⟨-, e, herror⟩⟩ := run_withDependents hu ks
    · obtain ⟨hsame, rfl⟩ := Prod.mk.inj (htargets.symm.trans htargets')
      obtain rfl := Except.ok.inj hsame
      have hset (k : String) : k ∈ set.keys ↔ k ∈ s.targets (tags.flatMap s.tagged) := by
        rw [hmem, hagrees.targets, mem_targets, mem_targets]
        simp only [hks]
      have hleft := of_removal (Program.serving_of_run hu htargets) hset hrun
      simp only [(hagrees.trans hagrees').live, withoutMembers_congr hks] at hleft
      exact hleft
    · cases htargets.symm.trans herror

/-- **No set keeps a key that carried one of the tags; a dependent of one stays where it was a
member.** When an invalidation by tags has not failed, the keys that carried one of them and their
direct dependents are gone, and no others. The members of the set of any tag are then those from
before, less the keys that carried one of the given tags; only a set that was a target itself has
none. So a key that was removed is left in a set exactly if it was in it, carried none of the given
tags and went as a dependent. -/
theorem invalidateTags_strikes (s : Scene V) (hs : s.Serving) (tags : List String) (n : Nat)
    (t : Scene V) (hrun : (invalidateTags tags).outcome.run s = (.ok n, t)) :
    (∀ key ∈ s.targets (tags.flatMap s.tagged), key ≠ Marker.events → t.live? key = none) ∧
    (∀ key, key ∉ s.targets (tags.flatMap s.tagged) → key ≠ Marker.events →
      (∀ tag, key ≠ Marker.tag tag) → t.live? key = s.live? key) ∧
    ∀ tag key, key ∈ t.tagged tag ↔
      key ∈ s.tagged tag ∧ key ∉ tags.flatMap s.tagged ∧
        Marker.tag tag ∉ s.targets (tags.flatMap s.tagged) := by
  obtain ⟨hsets, hothers⟩ := of_invalidateTags hs hrun
  refine ⟨fun key hkey hevents => ?_, fun key hkey hevents htags => ?_, fun tag key => ?_⟩
  · by_cases htag : ∃ tag, key = Marker.tag tag
    · obtain ⟨tag, rfl⟩ := htag
      rw [hsets, if_pos hkey]
      rfl
    · rw [hothers key hevents (fun tag heq => htag ⟨tag, heq⟩), if_pos hkey]
  · rw [hothers key hevents htags, if_neg hkey]
  · rw [tagged, hsets, mem_withoutMembers, tagged]
    split
    · next hgone => simp [members?, hgone]
    · next hstays => simp [hstays]

/-- A key with two tags, another one with the second tag that depends on it, and one with a third
tag. -/
def crossed : Scene UInt8 :=
  ((do
    addTags "a" ["news", "sport"]
    addTags "d" ["sport"]
    addTags "e" ["lost"]
    addDependency "a" ["d"]
    for key in ["a", "d", "e"] do
      Action.command (.set key [1] none) : Action UInt8 Unit).outcome.run
    ⟨.start default, Client.byteMemory⟩).2

theorem serving_crossed : crossed.Serving :=
  Program.serving_run (s := ⟨_, Client.byteMemory⟩) (World.serving_start default) _

/-- The first tag can be invalidated there. -/
theorem run_crossed : ∃ n t, (invalidateTags ["news"]).outcome.run crossed = (.ok n, t) :=
  (exact_of_cases (run_invalidateTags serving_crossed ["news"]
    (sets_of_owned (by decide +kernel)) (by decide +kernel))).2 (by decide +kernel)

/-- The key is struck off the second tag too, and its dependent is not. -/
theorem invalidateTags_strikes_crossed :
    crossed.Serving ∧
    ∃ n t, (invalidateTags ["news"]).outcome.run crossed = (.ok n, t) ∧
      t.live? "a" = none ∧ "a" ∉ t.tagged "sport" ∧
      t.live? "d" = none ∧ "d" ∈ t.tagged "sport" ∧
      t.live? "e" = crossed.live? "e" ∧ "e" ∈ t.tagged "lost" := by
  obtain ⟨n, t, hrun⟩ := run_crossed
  obtain ⟨hgone, hkept, hleft⟩ :=
    invalidateTags_strikes crossed serving_crossed ["news"] n t hrun
  refine ⟨serving_crossed, n, t, hrun, ?_, ?_, ?_, ?_, ?_, ?_⟩
  · exact hgone "a" (by decide +kernel) (by decide)
  · rw [hleft]
    decide +kernel
  · exact hgone "d" (by decide +kernel) (by decide)
  · rw [hleft]
    decide +kernel
  · refine hkept "e" (by decide +kernel) (by decide) ?_
    rintro tag he
    exact absurd (he ▸ Marker.owns_tag tag) (by decide)
  · rw [hleft]
    decide +kernel

/-- It is not so that no set of a tag holds a key that has been removed: the dependent is in one. -/
theorem not_strikes_dependents :
    ¬ ∀ (s : Scene UInt8) (tags : List String) (n : Nat) (t : Scene UInt8), s.Serving →
      (invalidateTags tags).outcome.run s = (.ok n, t) →
      ∀ key ∈ s.targets (tags.flatMap s.tagged), (s.live? key).isSome = true →
        t.live? key = none → ∀ tag, key ∉ t.tagged tag := by
  intro hstruck
  obtain ⟨n, t, hrun⟩ := run_crossed
  obtain ⟨hsets, hothers⟩ := of_invalidateTags serving_crossed hrun
  refine hstruck crossed ["news"] n t serving_crossed hrun "d" (by decide +kernel)
    (by decide +kernel) ?_ "sport" ?_
  · rw [hothers "d" (by decide) fun tag hd => absurd (hd ▸ Marker.owns_tag tag) (by decide)]
    decide +kernel
  · rw [tagged, hsets, mem_withoutMembers]
    decide +kernel

end Invalidation
end CacheLayer
