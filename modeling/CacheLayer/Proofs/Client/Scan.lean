/-
A scan of the client asks for page after page until no page is left, for as long
as that takes (`Scans`). It gets to the end after at most one page more than there
are live keys, and has shown then just those that match, in increasing order
(`scans_of_standsAt`), so the bound that `pagesFrom` is given is never reached
(`run_pagesFrom`). What a scan answers is the list of the live keys that match
(`run_scanKeys`).
-/
import CacheLayer.Proofs.Client.Request
import CacheLayer.Proofs.Store.Packed
import CacheLayer.Proofs.Store.Walk

namespace CacheLayer

namespace Store

variable {s t : Store} {now cursor : Nat} {pattern last : String} {after : Option String}
  {keys seen rest : List String} {pages : List (List String)}

/-! ## Scans -/

/-- The loop of a scan, from a cursor on: pages follow one another until one has no next page. There
is no bound on their number. -/
inductive Scans (now : Nat) (pattern : String) :
    Nat → Store → List (List String) → Store → Prop where
  | last {cursor : Nat} {s : Store}
    (h : (s.scan now cursor pattern Client.pageSize).1.1 = 0) :
    Scans now pattern cursor s [(s.scan now cursor pattern Client.pageSize).1.2]
      (s.scan now cursor pattern Client.pageSize).2
  | next {cursor : Nat} {s t : Store} {pages : List (List String)}
    (h : (s.scan now cursor pattern Client.pageSize).1.1 ≠ 0)
    (more : Scans now pattern (s.scan now cursor pattern Client.pageSize).1.1
      (s.scan now cursor pattern Client.pageSize).2 pages t) :
    Scans now pattern cursor s ((s.scan now cursor pattern Client.pageSize).1.2 :: pages) t

/-- A scan can go one way only. -/
theorem Scans.unique {t' : Store} {pages' : List (List String)}
    (h : Scans now pattern cursor s pages t) (h' : Scans now pattern cursor s pages' t') :
    pages = pages' ∧ t = t' := by
  induction h generalizing pages' t' with
  | last hzero =>
    cases h' with
    | last _ => exact ⟨rfl, rfl⟩
    | next hmore _ => exact absurd hzero hmore
  | next hmore _ ih =>
    cases h' with
    | last hzero => exact absurd hzero hmore
    | next _ more' =>
      obtain ⟨rfl, rfl⟩ := ih more'
      exact ⟨rfl, rfl⟩

/-- Behind the last key that was looked at is just what was not looked at. -/
theorem behind_last (hsorted : keys.Pairwise (· < ·)) (h : behind after keys = seen ++ rest)
    (hlast : seen.getLast? = some last) : behind (some last) keys = rest := by
  have hall : (seen ++ rest).Pairwise (· < ·) := h ▸ hsorted.filter _
  obtain ⟨before, rfl⟩ := List.getLast?_eq_some_iff.1 hlast
  obtain ⟨hseen, hrest, hparted⟩ := List.pairwise_append.1 hall
  have hmem {k : String} : k ∈ behind after keys ↔ k ∈ (before ++ [last]) ++ rest := by rw [h]
  have hpassed : after.all (· < last) = true := (List.mem_filter.1 (hmem.2 (by simp))).2
  refine KeySet.eq_of_mem_iff (hsorted.filter _) hrest fun k => ?_
  rw [behind, List.mem_filter, Option.all_some, decide_eq_true_eq]
  constructor
  · rintro ⟨hk, hlt⟩
    rcases List.mem_append.1 (hmem.1 (List.mem_filter.2 ⟨hk, all_lt_trans hpassed hlt⟩)) with hs | hr
    · rcases List.mem_append.1 hs with hs | hs
      · have hbefore := (List.pairwise_append.1 hseen).2.2 k hs last (List.mem_singleton_self _)
        exact absurd (String.lt_trans hlt hbefore) (String.lt_irrefl _)
      · obtain rfl := List.mem_singleton.1 hs
        exact absurd hlt (String.lt_irrefl _)
    · exact hr
  · intro hr
    have hbehind := hmem.2 (List.mem_append_right _ hr)
    exact ⟨(List.mem_filter.1 hbehind).1, hparted last (by simp) k hr⟩

theorem liveKeys_of_entries (h : t.entries = s.entries) (now : Nat) :
    t.liveKeys now = s.liveKeys now := by
  rw [liveKeys, liveKeys, h]

/-- A scan from a place on comes to its end, has shown the keys behind that place that match, and
has changed no entry. -/
theorem scans_of_standsAt (h : s.StandsAt cursor after) (now : Nat) (pattern : String) :
    ∃ pages t, Scans now pattern cursor s pages t ∧
      pages.flatten = (behind after (s.liveKeys now)).filter (Glob.accepts pattern) ∧
      pages.length ≤ (behind after (s.liveKeys now)).length + 1 ∧ t.entries = s.entries := by
  -- each page looks at one key at least, so fewer and fewer are behind the place of the scan
  induction hn : (behind after (s.liveKeys now)).length using Nat.strongRecOn
    generalizing s cursor after with
  | ind n ih =>
    obtain ⟨seen, rest, hsplit, hshown, hnext⟩ := scan_cases h now pattern Client.pageSize
    have hsame := s.entries_scan now cursor pattern Client.pageSize
    rcases hnext with ⟨hzero, rfl⟩ | ⟨last, hlast, hstands⟩
    · refine ⟨_, _, .last hzero, ?_, ?_, hsame⟩
      · rw [hsplit, hshown, List.append_nil]
        simp
      · simp
    · have hrest : behind (some last) ((s.scan now cursor pattern Client.pageSize).2.liveKeys now) =
          rest := by
        rw [liveKeys_of_entries hsame]
        exact behind_last (sorted_liveKeys s now) hsplit hlast
      have hless : rest.length < n := by
        have hpos : 0 < seen.length := List.length_pos_of_mem (List.mem_of_getLast? hlast)
        rw [← hn, hsplit, List.length_append]
        omega
      obtain ⟨pages, t, hscans, hflatten, hlength, hentries⟩ :=
        ih rest.length hless hstands (congrArg List.length hrest)
      refine ⟨_, t, .next hstands.1 hscans, ?_, ?_, hentries.trans hsame⟩
      · rw [List.flatten_cons, hshown, hflatten, hrest, hsplit, List.filter_append]
      · rw [List.length_cons]
        omega

theorem size_le (s : Store) (now : Nat) : (s.liveKeys now).length ≤ s.entries.size := by
  rw [liveKeys, KeyMap.keys, List.length_map]
  exact List.length_filter_le _ _

end Store

variable {V : Type} {s : Scene V} {key : String}

/-- The keys of entries that are not dead, in increasing order. -/
def Scene.liveKeys (s : Scene V) : List String := s.world.store.liveKeys s.world.now

theorem Scene.mem_liveKeys : key ∈ s.liveKeys ↔ (s.live? key).isSome = true :=
  Store.mem_liveKeys_iff

theorem Scene.nodup_liveKeys (s : Scene V) : s.liveKeys.Nodup := KeyMap.nodup_keys _

namespace Client

/-- The client looks at one more page. -/
theorem run_pagesFrom_succ (hs : s.world.Steady) (pattern : String) (pages cursor : Nat)
    (store : Store) :
    (pagesFrom pattern (pages + 1) cursor : Action V (List String)).outcome.run
        (s.withStore store) =
      (if (store.scan s.world.now cursor pattern pageSize).1.1 = 0 then
          pure (store.scan s.world.now cursor pattern pageSize).1.2
        else
          pagesFrom pattern pages (store.scan s.world.now cursor pattern pageSize).1.1 >>= fun rest =>
            pure ((store.scan s.world.now cursor pattern pageSize).1.2 ++ rest) :
        Action V (List String)).outcome.run
        (s.withStore (store.scan s.world.now cursor pattern pageSize).2) := by
  have hpage := Action.run_command (s := s.withStore store) hs (.scan cursor pattern pageSize)
  rw [pagesFrom, Action.run_bind_ok hpage]
  rfl

/-- A scan for which the client has enough pages is carried out to its end. -/
theorem run_pagesFrom (hs : s.world.Steady) {pattern : String} {cursor pages : Nat}
    {shown : List (List String)} {store left : Store}
    (h : Store.Scans s.world.now pattern cursor store shown left) (hpages : shown.length ≤ pages) :
    (pagesFrom pattern pages cursor : Action V (List String)).outcome.run (s.withStore store) =
      (.ok shown.flatten, s.withStore left) := by
  induction h generalizing pages with
  | last hzero =>
    cases pages with
    | zero => simp at hpages
    | succ pages =>
      rw [run_pagesFrom_succ hs, if_pos hzero, List.flatten_singleton]
      rfl
  | next hmore _ ih =>
    cases pages with
    | zero => simp at hpages
    | succ pages =>
      rw [run_pagesFrom_succ hs, if_neg hmore,
        Action.run_bind_ok (ih (Nat.le_of_succ_le_succ hpages)), List.flatten_cons]
      rfl

/-- A scan of the client goes to its end and answers with the live keys that match. -/
theorem scans_scanKeys (hs : s.world.Steady) (pattern : String) :
    ∃ pages store, Store.Scans s.world.now pattern 0 s.world.store pages store ∧
      pages.flatten = s.liveKeys.filter (Glob.accepts pattern) ∧
      pages.length ≤ s.liveKeys.length + 1 ∧ store.entries = s.world.store.entries ∧
      (scanKeys pattern : Action V (List String)).outcome.run s =
        (.ok (s.liveKeys.filter (Glob.accepts pattern)), s.withStore store) := by
  have hall : Store.behind none s.liveKeys = s.liveKeys := List.filter_eq_self.2 fun _ _ => rfl
  have hstart : s.world.store.StandsAt 0 none := rfl
  obtain ⟨pages, store, hscans, hflatten, hlength, hentries⟩ :=
    Store.scans_of_standsAt hstart s.world.now pattern
  change _ = (Store.behind none s.liveKeys).filter _ at hflatten
  change _ ≤ (Store.behind none s.liveKeys).length + 1 at hlength
  rw [hall] at hflatten hlength
  refine ⟨pages, store, hscans, hflatten, hlength, hentries, ?_⟩
  have hsize := Store.size_le s.world.store s.world.now
  have hbound : pages.length ≤ s.world.store.entries.size + 1 :=
    Nat.le_trans hlength (Nat.succ_le_succ hsize)
  have hrun : (pagesFrom pattern (s.world.store.entries.size + 1) 0 : Action V _).outcome.run s =
      (.ok pages.flatten, s.withStore store) := run_pagesFrom hs hscans hbound
  have hsorted : (s.liveKeys.filter (Glob.accepts pattern)).Pairwise (· < ·) :=
    (Store.sorted_liveKeys _ _).filter _
  rw [hflatten] at hrun
  rw [scanKeys, Action.outcome_always_bind, Program.run_bind]
  change ((pagesFrom pattern (s.world.store.entries.size + 1) 0 >>= fun keys =>
    pure (KeySet.ofMembers keys).keys : Action V (List String)).outcome).run s = _
  rw [Action.run_bind_ok hrun, KeySet.keys_ofMembers hsorted]
  rfl

/-- A scan answers with the live keys that match and changes nothing that a key holds. -/
theorem run_scanKeys (hs : s.Serving) (pattern : String) :
    ∃ t : Scene V, (scanKeys pattern).outcome.run s =
        (.ok (s.liveKeys.filter (Glob.accepts pattern)), t) ∧
      s.Alike t ∧ t.memory = s.memory := by
  obtain ⟨pages, store, -, -, -, hentries, hrun⟩ := scans_scanKeys hs.steady pattern
  refine ⟨_, hrun, ⟨rfl, fun key => ?_⟩, rfl⟩
  change store.live? s.world.now key = s.world.store.live? s.world.now key
  rw [Store.live?, Store.live?, hentries]

end Client
end CacheLayer
