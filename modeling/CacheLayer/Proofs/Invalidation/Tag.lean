/-
Invalidating by tags removes the keys that carry any of the tags, and their direct
dependents. Every set of a tag in the store loses the tagged keys and nothing
else, and is gone if none is left, as the sets of the given tags are. No other key
is touched, the log of invalidations apart.

Main statement: `invalidateTags_exact`.
-/
import CacheLayer.Proofs.Client.Coding
import CacheLayer.Proofs.Glob.Language
import CacheLayer.Proofs.Invalidation.Target

namespace CacheLayer

variable {V : Type} {s t : Scene V} {key name : String}

/-! ## The keys of tags -/

namespace Marker

/-- The key lies in the namespace that the cache keeps for itself. -/
def Owns (key : String) : Prop := (space ++ ":").toList <+: key.toList

instance (key : String) : Decidable (Owns key) := inferInstanceAs (Decidable (_ <+: _))

theorem owns_tag (name : String) : Owns (tag name) := by
  refine ⟨"tag:".toList ++ name.toList, ?_⟩
  simp [tag, space]

theorem owns_events : Owns events := by decide

theorem tag_ne_events (name : String) : tag name ≠ events := by
  intro h
  have htoList := congrArg String.toList h
  simp [tag, space, events] at htoList

/-- The pattern of the sets of tags matches just these. -/
theorem accepts_tagPattern : Glob.accepts tagPattern key = true ↔ ∃ name, key = tag name := by
  have hplain : ∀ c ∈ (space ++ ":tag:").toList, Glob.IsPlain c := by
    simp [space, Glob.IsPlain]
  rw [Glob.accepts_beginning hplain (by simp [tagPattern, space])]
  constructor
  · rintro ⟨rest, hrest⟩
    refine ⟨String.ofList rest, String.toList_inj.1 ?_⟩
    rw [← hrest]
    simp [tag]
  · rintro ⟨name, rfl⟩
    exact ⟨name.toList, by simp [tag]⟩

end Marker

namespace Scene

/-- The keys that carry a tag. -/
def tagged (s : Scene V) (tag : String) : List String :=
  (members? (s.live? (Marker.tag tag))).getD []

/-- Between the scenes the keys with any of the tags have been removed, with their direct
dependents; so many of them were live. -/
structure Untags (s t : Scene V) (tags : List String) (n : Nat) : Prop where
  now : t.world.now = s.world.now
  count : n = s.liveKeys.countP (· ∈ s.targets (tags.flatMap s.tagged))
  gone : ∀ key ∈ s.targets (tags.flatMap s.tagged), t.live? key = none
  emptied : ∀ tag ∈ tags, t.live? (Marker.tag tag) = none
  struck : ∀ tag, t.live? (Marker.tag tag) =
    withoutMembers (tags.flatMap s.tagged) (s.live? (Marker.tag tag))
  kept : ∀ key, key ∉ s.targets (tags.flatMap s.tagged) → (∀ tag, key ≠ Marker.tag tag) →
    key ≠ Marker.events → t.live? key = s.live? key

end Scene

namespace Invalidation

open Scene

/-! ## Requests about sets -/

theorem run_removeMembers {set : String} {ks : List String} (hs : s.Serving)
    (h : members? (s.live? set) = some ks) (ms : List String) :
    ∃ (n : Nat) (t : Scene V), (Client.removeMembers set ms).outcome.run s = (.ok n, t) ∧
      t.world.now = s.world.now ∧
      ∀ key, t.live? key = if key = set then withoutMembers ms (s.live? set) else s.live? key := by
  obtain ⟨⟨n, hn⟩, hlive⟩ := Store.live?_removeMembers h ms
  refine ⟨n, s.withStore ((Store.Call.removeMembers set ms).run s.world.now s.world.store).2, ?_,
    rfl, hlive⟩
  rw [Client.removeMembers, Action.run_command hs.steady, hn]

theorem run_union {keys : List String} (hs : s.Serving)
    (hsets : ∀ key ∈ keys, (members? (s.live? key)).isSome = true) :
    ∃ (ks : List String) (t : Scene V), (Client.union keys).outcome.run s = (.ok ks, t) ∧
      s.Agrees t ∧ ∀ k, k ∈ ks ↔ k ∈ keys.flatMap fun key => (members? (s.live? key)).getD [] := by
  obtain ⟨ks, hks, hmem⟩ := Store.reply_union hsets
  obtain ⟨t, hanswer, halike, hmemory⟩ := Action.run_asking hs (c := .union keys) rfl
  exact ⟨ks, t, hanswer.trans (congrArg (·, t) hks), .of_alike halike hmemory, hmem⟩

/-- Each of the sets loses the members, and no other key is touched. -/
theorem run_strike (hs : s.Serving) (ms : List String) {sets : List String} (hnodup : sets.Nodup)
    (hsets : ∀ set ∈ sets, (members? (s.live? set)).isSome = true) :
    ∃ t : Scene V, (strike ms sets).outcome.run s = (.ok (), t) ∧
      t.world.now = s.world.now ∧
      ∀ key, t.live? key = if key ∈ sets then withoutMembers ms (s.live? key) else s.live? key := by
  induction sets generalizing s with
  | nil => exact ⟨s, rfl, rfl, fun key => rfl⟩
  | cons set sets ih =>
    obtain ⟨hset, hrest⟩ := List.forall_mem_cons.1 hsets
    obtain ⟨hnot, hnodup⟩ := List.nodup_cons.1 hnodup
    obtain ⟨ks, hks⟩ := Option.isSome_iff_exists.1 hset
    obtain ⟨n, u, hrun, hnow, hlive⟩ := run_removeMembers hs hks ms
    have hother {key : String} (hkey : key ∈ sets) : u.live? key = s.live? key := by
      rw [hlive, if_neg]
      rintro rfl
      exact hnot hkey
    obtain ⟨t, hrun', hnow', hlive'⟩ := ih (Program.serving_of_run hs hrun) hnodup
      fun set' hset' => by rw [hother hset']; exact hrest set' hset'
    refine ⟨t, ?_, hnow'.trans hnow, fun key => ?_⟩
    · rw [strike, Action.run_bind_ok hrun, hrun']
    · rw [hlive']
      by_cases hkey : key ∈ sets
      · rw [if_pos hkey, if_pos (List.mem_cons_of_mem _ hkey), hother hkey]
      · rw [if_neg hkey, hlive]
        by_cases heq : key = set <;> simp [heq, hkey, hnot]

/-- Where the cache keeps nothing but sets for itself, that is what lies in the place of sets. -/
theorem sets_of_owned (h : ∀ key ∈ s.liveKeys, Marker.Owns key →
    (members? (s.live? key)).isSome = true) (tag : String) :
    (members? (s.live? (Marker.tag tag))).isSome = true := by
  cases hlive : s.live? (Marker.tag tag) with
  | none => rfl
  | some e =>
    rw [← hlive]
    exact h _ (mem_liveKeys.2 (by rw [hlive]; rfl)) (Marker.owns_tag tag)

/-- Every set of a tag in the store loses the members, and no other key is touched. -/
theorem run_strikeAll (hs : s.Serving) (ms : List String)
    (hsets : ∀ tag, (members? (s.live? (Marker.tag tag))).isSome = true) :
    ∃ (sets : List String) (t u : Scene V),
      (Client.scanKeys Marker.tagPattern).outcome.run s = (.ok sets, t) ∧
      (strike ms sets).outcome.run t = (.ok (), u) ∧ u.world.now = s.world.now ∧
      (∀ tag, u.live? (Marker.tag tag) = withoutMembers ms (s.live? (Marker.tag tag))) ∧
      ∀ key, (∀ tag, key ≠ Marker.tag tag) → u.live? key = s.live? key := by
  obtain ⟨t, hscan, halike, -⟩ := Client.run_scanKeys hs Marker.tagPattern
  have hmem {key : String} : key ∈ s.liveKeys.filter (Glob.accepts Marker.tagPattern) ↔
      (s.live? key).isSome = true ∧ ∃ tag, key = Marker.tag tag := by
    rw [List.mem_filter, mem_liveKeys, Marker.accepts_tagPattern]
  have hfound : ∀ key ∈ s.liveKeys.filter (Glob.accepts Marker.tagPattern),
      (members? (t.live? key)).isSome = true := by
    intro key hkey
    obtain ⟨-, tag, rfl⟩ := hmem.1 hkey
    rw [halike.live]
    exact hsets tag
  obtain ⟨u, hstrike, hnow, hlive⟩ := run_strike (Program.serving_of_run hs hscan) ms
    (s.nodup_liveKeys.filter (Glob.accepts Marker.tagPattern)) hfound
  refine ⟨_, t, u, hscan, hstrike, hnow.trans halike.now, fun tag => ?_, fun key hkey => ?_⟩
  · rw [hlive, halike.live]
    split
    · rfl
    · next hnot =>
      cases hl : s.live? (Marker.tag tag) with
      | none => rfl
      | some e => exact absurd (hmem.2 ⟨by rw [hl]; rfl, tag, rfl⟩) hnot
  · have hnot : key ∉ s.liveKeys.filter (Glob.accepts Marker.tagPattern) := by
      intro hfiltered
      obtain ⟨-, tag, heq⟩ := hmem.1 hfiltered
      exact hkey tag heq
    rw [hlive, if_neg hnot, halike.live]

/-! ## Invalidation by tags -/

/-- The sets of the tags themselves have lost all members. -/
theorem emptied_of_struck {tags : List String}
    (hsets : ∀ tag, (members? (s.live? (Marker.tag tag))).isSome = true)
    (hstruck : ∀ tag, t.live? (Marker.tag tag) =
      withoutMembers (tags.flatMap s.tagged) (s.live? (Marker.tag tag))) :
    ∀ tag ∈ tags, t.live? (Marker.tag tag) = none := by
  intro tag hmem
  obtain ⟨ks, hks⟩ := Option.isSome_iff_exists.1 (hsets tag)
  rw [hstruck]
  refine withoutMembers_all hks fun k hk => List.mem_flatMap.2 ⟨tag, hmem, ?_⟩
  rw [tagged, hks]
  exact hk

theorem eq_nil_of_isEmpty {ks keys : List String} (hks : ∀ k, k ∈ ks ↔ k ∈ keys)
    (hempty : ks.isEmpty = true) : keys = [] := by
  refine List.eq_nil_iff_forall_not_mem.2 fun k hk => ?_
  rw [← hks, List.isEmpty_iff.1 hempty] at hk
  cases hk

/-- Where no key carries one of the tags, there is nothing to be done. -/
theorem untags_none {tags : List String} (hs : s.Serving) (hnow : t.world.now = s.world.now)
    (hlive : ∀ key, key ≠ Marker.events → t.live? key = s.live? key)
    (hsets : ∀ tag, (members? (s.live? (Marker.tag tag))).isSome = true)
    (hnone : tags.flatMap s.tagged = []) : s.Untags t tags 0 := by
  have hstruck (tag : String) : t.live? (Marker.tag tag) =
      withoutMembers (tags.flatMap s.tagged) (s.live? (Marker.tag tag)) := by
    rw [hlive _ (Marker.tag_ne_events tag), hnone, withoutMembers_nil (hs.isFilled _)]
  refine ⟨hnow, ?_, ?_, emptied_of_struck hsets hstruck, hstruck, fun key _ _ hkey => ?_⟩
  · simp [hnone, targets]
  · simp [hnone, targets]
  · exact hlive key hkey

/-- Tagged keys and their dependents are deleted, and then the tagged ones struck off all sets of
tags. -/
theorem untags_some {tags ks : List String} {u : Scene V} (hu : s.Agrees u) (hserving : u.Serving)
    (hks : ∀ k, k ∈ ks ↔ k ∈ tags.flatMap s.tagged)
    (hsets : ∀ tag, (members? (s.live? (Marker.tag tag))).isSome = true)
    (houtside : ∀ key ∈ s.targets (tags.flatMap s.tagged), ¬ Marker.Owns key) {set : KeySet}
    (hset : ∀ k, k ∈ set.keys ↔ k ∈ s.targets (tags.flatMap s.tagged)) (target : String)
    (start : Nat) :
    ∃ n t, (do
        let removed ← deleteKeys set.keys
        strike ks (← Client.scanKeys Marker.tagPattern)
        Action.always (record target "tags" removed start)
        return removed : Action V Nat).outcome.run u = (.ok n, t) ∧ s.Untags t tags n := by
  obtain ⟨v, hdelete, -, hnow, hdeleted⟩ := run_deleteKeys hserving hset
  have hv := Program.serving_of_run hserving hdelete
  -- the deletion has not touched the sets of tags
  have htag (tag : String) : v.live? (Marker.tag tag) = s.live? (Marker.tag tag) := by
    rw [hdeleted, if_neg fun hmem => houtside _ hmem (Marker.owns_tag tag), hu.live]
  obtain ⟨sets, w, x, hscan, hstrike, hnow', hstruck, hother⟩ :=
    run_strikeAll hv ks fun tag => by rw [htag]; exact hsets tag
  have hx := Program.serving_of_run (Program.serving_of_run hv hscan) hstrike
  rw [hu.liveKeys] at hdelete
  generalize hn : s.liveKeys.countP (· ∈ s.targets (tags.flatMap s.tagged)) = n at hdelete
  obtain ⟨hnow'', hlogged⟩ := run_record hx target "tags" n start
  have hsets' (tag : String) : ((record target "tags" n start).run x).2.live? (Marker.tag tag) =
      withoutMembers (tags.flatMap s.tagged) (s.live? (Marker.tag tag)) := by
    rw [hlogged _ (Marker.tag_ne_events tag), hstruck, htag, withoutMembers_congr hks]
  refine ⟨n, ((record target "tags" n start).run x).2, ?_, ?_, hn.symm, fun key hkey => ?_,
    emptied_of_struck hsets hsets', hsets', fun key hkey htags hevents => ?_⟩
  · rw [Action.run_bind_ok hdelete, Action.run_bind_ok hscan, Action.run_bind_ok hstrike,
      Action.run_always_bind]
    rfl
  · rw [hnow'', hnow', hnow, hu.now]
  · have hevents : key ≠ Marker.events := by
      rintro rfl
      exact houtside _ hkey Marker.owns_events
    have htags (tag : String) : key ≠ Marker.tag tag := by
      rintro rfl
      exact houtside _ hkey (Marker.owns_tag tag)
    rw [hlogged key hevents, hother key htags, hdeleted, if_pos hkey]
  · rw [hlogged key hevents, hother key htags, hdeleted, if_neg hkey, hu.live]

/-- An invalidation by tags does its work, or lacks the dependents of a key that is to go. -/
theorem run_invalidateTags (hs : s.Serving) (tags : List String)
    (hsets : ∀ tag, (members? (s.live? (Marker.tag tag))).isSome = true)
    (houtside : ∀ key ∈ s.targets (tags.flatMap s.tagged), ¬ Marker.Owns key) :
    (∃ n t, (invalidateTags tags).outcome.run s = (.ok n, t) ∧ s.Untags t tags n) ∨
      ¬ (∀ key ∈ tags.flatMap s.tagged, (s.dependents? key).isSome = true) ∧
        ∃ e t, (invalidateTags tags).outcome.run s = (.error e, t) := by
  have hkeys : ∀ key ∈ tags.map Marker.tag, (members? (s.live? key)).isSome = true := by
    intro key hkey
    obtain ⟨tag, -, rfl⟩ := List.mem_map.1 hkey
    exact hsets tag
  obtain ⟨ks, t, hunion, hagrees, hks⟩ := run_union hs hkeys
  have ht := Program.serving_of_run hs hunion
  have hks (k : String) : k ∈ ks ↔ k ∈ tags.flatMap s.tagged := by
    rw [hks, List.flatMap_map]
    exact Iff.rfl
  rw [invalidateTags, Action.run_always_bind, Program.run_now, Action.run_bind_ok hunion]
  by_cases hempty : ks.isEmpty = true
  · have hnone := eq_nil_of_isEmpty hks hempty
    obtain ⟨hnow, hlogged⟩ := run_record ht (",".intercalate tags) "tags" 0 s.world.now
    refine .inl ⟨0, ((record (",".intercalate tags) "tags" 0 s.world.now).run t).2, ?_, ?_⟩
    · simp only [hempty, if_true]
      rw [Action.run_always_bind]
      rfl
    · refine untags_none hs (hnow.trans hagrees.now) (fun key hkey => ?_) hsets hnone
      rw [hlogged key hkey, hagrees.live]
  · simp only [hempty, Bool.false_eq_true, if_false]
    obtain ⟨u, hagrees', ⟨set, hset, hmem⟩ | ⟨hunknown, e, he⟩⟩ := run_withDependents ht ks
    · have htargets (k : String) : k ∈ set.keys ↔ k ∈ s.targets (tags.flatMap s.tagged) := by
        rw [hmem, hagrees.targets, mem_targets_congr hks]
      rw [Action.run_bind_ok hset]
      exact .inl (untags_some (hagrees.trans hagrees') (Program.serving_of_run ht hset) hks hsets
        houtside htargets (",".intercalate tags) s.world.now)
    · simp only [hagrees.dependents, hks] at hunknown
      exact .inr ⟨hunknown, e, u, Action.run_bind_error he⟩

/-- **Invalidation by tags is complete and touches nothing else.** Suppose that only sets lie where
the sets of tags do, and that neither the tagged keys nor their dependents are keys that the cache
keeps for itself. Then no key with any of the tags is live afterwards, nor a direct dependent of
one; the number is that of those that were live. The sets of the tags are gone, and those of other
tags have lost just the tagged keys. All other keys hold what they held, the log apart. It fails
only if a mirrored set that has to be read is none. -/
theorem invalidateTags_exact (s : Scene V) (hs : s.Serving) (tags : List String)
    (hsets : ∀ tag, (members? (s.live? (Marker.tag tag))).isSome = true)
    (houtside : ∀ key ∈ s.targets (tags.flatMap s.tagged), ¬ Marker.Owns key) :
    (∀ n t, (invalidateTags tags).outcome.run s = (.ok n, t) → s.Untags t tags n) ∧
    ((∀ key ∈ tags.flatMap s.tagged, (s.dependents? key).isSome = true) →
      ∃ n t, (invalidateTags tags).outcome.run s = (.ok n, t)) :=
  exact_of_cases (run_invalidateTags hs tags hsets houtside)

/-- Three keys with tags, of which one is named like a pattern, and a dependent. -/
def labeled : Scene UInt8 :=
  ((do
    addTags "a" ["news", "sport"]
    addTags "b" ["sport"]
    addTags "c" ["[n]ews"]
    addDependency "a" ["d"]
    for key in ["a", "b", "c", "d"] do
      Action.command (.set key [1] none) : Action UInt8 Unit).outcome.run
    ⟨.start default, Client.byteMemory⟩).2

theorem serving_labeled : labeled.Serving :=
  Program.serving_run (s := ⟨_, Client.byteMemory⟩) (World.serving_start default) _

/-- All that the cache keeps for itself there are sets. -/
theorem sets_labeled (tag : String) :
    (members? (labeled.live? (Marker.tag tag))).isSome = true :=
  sets_of_owned (by decide +kernel) tag

/-- A tag that is given twice and one that no key carries make no difference, and what is named like
a pattern is none. The key with another tag too is struck off the set of that. -/
theorem invalidateTags_exact_labeled :
    (∃ t, (invalidateTags ["news", "lost", "news"]).outcome.run labeled = (.ok 2, t) ∧
      t.live? "a" = none ∧ t.live? "d" = none ∧
      t.live? "b" = some ⟨.bytes [1], none⟩ ∧
      t.live? (Marker.tag "news") = none ∧
      members? (t.live? (Marker.tag "sport")) = some ["b"]) ∧
    ∃ t, (invalidateTags ["[n]ews"]).outcome.run labeled = (.ok 1, t) ∧
      t.live? "c" = none ∧
      t.live? (Marker.tag "[n]ews") = none ∧
      members? (t.live? (Marker.tag "news")) = some ["a"] := by
  refine ⟨?_, ?_⟩
  · obtain ⟨huntags, hok⟩ := invalidateTags_exact labeled serving_labeled ["news", "lost", "news"]
      sets_labeled (by decide +kernel)
    obtain ⟨n, t, hrun⟩ := hok (by decide +kernel)
    have hexact := huntags n t hrun
    obtain rfl : n = 2 := hexact.count.trans (by decide +kernel)
    refine ⟨t, hrun, hexact.gone "a" (by decide +kernel), hexact.gone "d" (by decide +kernel), ?_,
      hexact.emptied "news" (by decide), ?_⟩
    · rw [hexact.kept "b" (by decide +kernel) (fun tag => ?_) (by decide)]
      · rfl
      · rintro hb
        exact absurd (hb ▸ Marker.owns_tag tag) (by decide)
    · rw [hexact.struck]
      decide +kernel
  · obtain ⟨huntags, hok⟩ := invalidateTags_exact labeled serving_labeled ["[n]ews"]
      sets_labeled (by decide +kernel)
    obtain ⟨n, t, hrun⟩ := hok (by decide +kernel)
    have hexact := huntags n t hrun
    obtain rfl : n = 1 := hexact.count.trans (by decide +kernel)
    refine ⟨t, hrun, hexact.gone "c" (by decide +kernel), hexact.emptied "[n]ews" (by decide), ?_⟩
    rw [hexact.struck]
    decide +kernel

end Invalidation
end CacheLayer
