/-
Keys by pattern. The loop of a scan ends and has shown exactly the live keys that
match, and the deletion of what a pattern matches, chunk by chunk, comes to one
deletion of those keys (`run_deleteChunks`): each of them is counted once and
gone, and no other key is touched.

Main statement: `patterns_exact`.
-/
import CacheLayer.Proofs.Client.Coding
import CacheLayer.Proofs.Client.Scan
import CacheLayer.Proofs.Store.Deletion

namespace CacheLayer.Client

variable {V : Type} {s : Scene V}

/-- The keys that match are deleted and counted, and no other key is touched. -/
theorem run_deletePattern (hs : s.world.Steady) (pattern : String) :
    ∃ t : Scene V, (deletePattern pattern).outcome.run s =
        (.ok (s.liveKeys.filter (Glob.accepts pattern)).length, t) ∧
      t.world.now = s.world.now ∧ t.memory = s.memory ∧
      ∀ key, t.live? key =
        if key ∈ s.liveKeys.filter (Glob.accepts pattern) then none else s.live? key := by
  obtain ⟨-, store, -, -, -, hentries, hscan⟩ := scans_scanKeys hs pattern
  have hlive (key : String) : store.live? s.world.now key = s.live? key := by
    rw [Store.live?, hentries]
    rfl
  generalize hkeys : s.liveKeys.filter (Glob.accepts pattern) = keys at hscan ⊢
  have hnodup : keys.Nodup := hkeys ▸ s.nodup_liveKeys.filter _
  have hcount : (store.deleteMany s.world.now keys).1 = keys.length := by
    rw [Store.count_deleteMany store s.world.now hnodup, List.countP_eq_length]
    intro key hkey
    rw [← hkeys] at hkey
    rw [hlive]
    exact Scene.mem_liveKeys.1 (List.mem_filter.1 hkey).1
  have hdelete : (deleteChunks (chunks pageSize keys) : Action V Nat).outcome.run
      (s.withStore store) =
      (.ok keys.length, s.withStore (store.deleteMany s.world.now keys).2) := by
    have hall := run_deleteChunks (s := s.withStore store) hs (chunks pageSize keys)
    rw [flatten_chunks] at hall
    rw [← hcount]
    exact hall
  refine ⟨s.withStore (store.deleteMany s.world.now keys).2, ?_, rfl, rfl, fun key => ?_⟩
  · rw [deletePattern, Action.run_bind_ok hscan, hdelete]
  · have hleft := Store.live?_deleteMany store s.world.now keys key
    rw [hlive] at hleft
    exact hleft

/-- **Scanning and deleting by a pattern are exact.** Of the live keys those that match, in increasing
order and each once, are what the loop of a scan shows on its pages. The loop goes one way only and
ends after at most one page more than there are live keys, and the client goes all the way with it,
without a change to any entry. Deletion answers with their number; they are gone then, and every
other key has its value and its deadline. -/
theorem patterns_exact (hs : s.world.Steady) (pattern : String) :
    ∃ keys : List String, keys.Pairwise (· < ·) ∧
      (∀ key, key ∈ keys ↔ (s.live? key).isSome = true ∧ Glob.accepts pattern key = true) ∧
      (∃ pages store, Store.Scans s.world.now pattern 0 s.world.store pages store ∧
        (∀ pages' store', Store.Scans s.world.now pattern 0 s.world.store pages' store' →
          pages' = pages ∧ store' = store) ∧
        pages.length ≤ s.world.store.size s.world.now + 1 ∧ pages.flatten = keys ∧
        store.entries = s.world.store.entries ∧
        (scanKeys pattern).outcome.run s = (.ok keys, s.withStore store)) ∧
      ∃ t : Scene V, (deletePattern pattern).outcome.run s = (.ok keys.length, t) ∧
        t.world.now = s.world.now ∧
        ∀ key, t.live? key = if key ∈ keys then none else s.live? key := by
  obtain ⟨pages, store, hscans, hflatten, hlength, hentries, hscan⟩ := scans_scanKeys hs pattern
  obtain ⟨t, hdelete, hnow, -, hlive⟩ := run_deletePattern hs pattern
  refine ⟨s.liveKeys.filter (Glob.accepts pattern), (Store.sorted_liveKeys _ _).filter _,
    fun key => ?_, ⟨pages, store, hscans, fun pages' store' hscans' => hscans'.unique hscans, hlength,
      hflatten, hentries, hscan⟩, t, hdelete, hnow, hlive⟩
  rw [List.mem_filter, Scene.mem_liveKeys]

/-- A number, a dead one, a list that dies at fifty, and a key with a longer name. -/
def shelved : Scene UInt8 :=
  ⟨{ World.start default with
      now := 10
      store := (((Store.empty.put "a" ⟨.bytes [49], none⟩).put "b" ⟨.bytes [50], some 5⟩).put
        "c" ⟨.list [[1]], some 50⟩).put "aa" ⟨.bytes [51], none⟩ }, byteMemory⟩

/-- The dead key is not found and not counted, and the longer one stays. -/
theorem patterns_exact_shelved :
    shelved.world.Steady ∧
    (∃ store, (scanKeys "?").outcome.run shelved = (.ok ["a", "c"], shelved.withStore store)) ∧
    ∃ t, (deletePattern "?").outcome.run shelved = (.ok 2, t) ∧ t.live? "c" = none ∧
      t.live? "aa" = some ⟨.bytes [51], none⟩ := by
  have hsteady : shelved.world.Steady := fun _ => rfl
  obtain ⟨keys, hsorted, hmem, ⟨_, store, -, -, -, -, -, hscan⟩, t, hdelete, -, hlive⟩ :=
    patterns_exact hsteady "?"
  have hfound : shelved.liveKeys.filter (Glob.accepts "?") = ["a", "c"] := by decide +kernel
  obtain rfl : keys = ["a", "c"] := by
    refine KeySet.eq_of_mem_iff hsorted (by decide) fun key => ?_
    rw [hmem, ← hfound, List.mem_filter, Scene.mem_liveKeys]
  exact ⟨hsteady, ⟨store, hscan⟩, t, hdelete, (hlive "c").trans rfl, (hlive "aa").trans rfl⟩

end CacheLayer.Client
