/-
Sets and their members. `members?` is what a key is seen to hold as a set; what
the commands on sets answer is told by it (`reply_members`, `reply_union`), and so
is what is left of a set when members are removed from it (`live?_removeMembers`).
-/
import CacheLayer.Proofs.Store.Container
import CacheLayer.Proofs.Store.Filled

namespace CacheLayer

variable {α : Type}

/-- The members of the set in an entry, in increasing order. No entry is like an empty set; an entry
of another type has no members that could be told. -/
def members? : Option Entry → Option (List String)
  | none => some []
  | some e =>
    match e.value with
    | .set set => some set.keys
    | _ => none

theorem members?_eq (e? : Option Entry) :
    members? e? = (Store.setShape.seen? e?).map KeyMap.keys := by
  cases e? with
  | none => rfl
  | some e =>
    obtain ⟨value, deadline⟩ := e
    cases value <;> rfl

theorem sorted_members {e? : Option Entry} {ks : List String} (h : members? e? = some ks) :
    ks.Pairwise (· < ·) := by
  cases e? with
  | none =>
    obtain rfl : [] = ks := Option.some.inj h
    exact .nil
  | some e =>
    obtain ⟨value, deadline⟩ := e
    cases value with
    | set set =>
      obtain rfl : set.keys = ks := Option.some.inj h
      exact set.sorted_keys
    | _ => cases h

/-- What the entry of a set becomes when members are removed: the set without them, with its
deadline, or nothing if none is left. -/
def withoutMembers (ms : List String) : Option Entry → Option Entry
  | some ⟨.set set, deadline⟩ =>
    let left := set.filter fun k _ => !ms.contains k
    if left.isEmpty then none else some ⟨.set left, deadline⟩
  | e? => e?

theorem withoutMembers_congr {ms ms' : List String} (h : ∀ k, k ∈ ms ↔ k ∈ ms')
    (e? : Option Entry) : withoutMembers ms e? = withoutMembers ms' e? := by
  have hcontains (k : String) : ms.contains k = ms'.contains k := by
    rw [Bool.eq_iff_iff, List.contains_iff_mem, List.contains_iff_mem, h]
  unfold withoutMembers
  simp only [hcontains]

/-- A set of which all members are removed is gone. -/
theorem withoutMembers_all {ms ks : List String} {e? : Option Entry} (h : members? e? = some ks)
    (hall : ∀ k ∈ ks, k ∈ ms) : withoutMembers ms e? = none := by
  cases e? with
  | none => rfl
  | some e =>
    obtain ⟨value, deadline⟩ := e
    cases value with
    | set set =>
      obtain rfl : set.keys = ks := Option.some.inj h
      have hnone : (set.filter fun k _ => !ms.contains k).isEmpty = true := by
        change (set.entries.filter _).isEmpty = true
        rw [List.isEmpty_iff, List.filter_eq_nil_iff]
        intro entry hentry
        simpa using hall entry.1 (List.mem_map_of_mem hentry)
      exact if_pos hnone
    | _ => cases h

/-- What is removed is no member any more, and the other members stay. -/
theorem mem_withoutMembers {ms : List String} {e? : Option Entry} {k : String} :
    k ∈ (members? (withoutMembers ms e?)).getD [] ↔ k ∈ (members? e?).getD [] ∧ k ∉ ms := by
  cases e? with
  | none => simp [withoutMembers, members?]
  | some e =>
    obtain ⟨value, deadline⟩ := e
    cases value with
    | set set =>
      have hleft : k ∈ (set.filter fun k _ => !ms.contains k).keys ↔ k ∈ set.keys ∧ k ∉ ms := by
        rw [KeyMap.mem_keys_iff, KeyMap.mem_keys_iff, KeyMap.get?_filter]
        cases set.get? k <;> simp [Option.filter]
      change _ ↔ k ∈ set.keys ∧ k ∉ ms
      rw [← hleft]
      generalize hfilter : (set.filter fun k _ => !ms.contains k) = left
      by_cases hempty : left.isEmpty = true
      · have hnone : left.keys = [] := congrArg (List.map Prod.fst) (List.isEmpty_iff.1 hempty)
        simp only [withoutMembers, hfilter, hempty, if_true, hnone]
        exact Iff.rfl
      · simp only [withoutMembers, hfilter, hempty, Bool.false_eq_true, if_false]
        exact Iff.rfl
    | _ => simp [withoutMembers, members?]

/-- Removing no members changes nothing. -/
theorem withoutMembers_nil {e? : Option Entry} (hfilled : Rule.IsFilled e?) :
    withoutMembers [] e? = e? := by
  cases e? with
  | none => rfl
  | some e =>
    have hvalue := hfilled e rfl
    obtain ⟨value, deadline⟩ := e
    cases value with
    | set set =>
      have hsame : (set.filter fun k _ => !([] : List String).contains k) = set :=
        set.filter_eq_self fun _ _ => rfl
      change set.isEmpty = false at hvalue
      simp only [withoutMembers, hsame, hvalue, Bool.false_eq_true, if_false]
    | _ => rfl

/-! ## Rules -/

namespace Rule

/-- What has been counted before is added to what is counted. -/
theorem foldl_addEach (ms : List String) (count : Nat) (set : KeySet) :
    ms.foldl (fun found m => if found.2.contains m then (found.1, found.2)
      else (found.1 + 1, found.2.add m)) (count, set) =
      (count + (addEach ms set).1, (addEach ms set).2) := by
  induction ms generalizing count set with
  | nil => rfl
  | cons m ms ih =>
    unfold addEach
    cases hthere : set.contains m with
    | true =>
      simp only [List.foldl_cons, hthere, if_true]
      exact ih count set
    | false =>
      simp only [List.foldl_cons, hthere, Bool.false_eq_true, if_false, ih, Prod.mk.injEq, and_true]
      omega

theorem addEach_cons (m : String) (ms : List String) (set : KeySet) :
    addEach (m :: ms) set =
      if set.contains m then addEach ms set
      else ((addEach ms (set.add m)).1 + 1, (addEach ms (set.add m)).2) := by
  have hfold : addEach (m :: ms) set =
      ms.foldl (fun found m => if found.2.contains m then (found.1, found.2)
        else (found.1 + 1, found.2.add m)) (if set.contains m then (0, set) else (1, set.add m)) :=
    rfl
  rw [hfold]
  cases set.contains m with
  | true => rfl
  | false =>
    simp only [Bool.false_eq_true, if_false]
    rw [foldl_addEach, Nat.add_comm]

/-- What has been counted before is added to what is counted. -/
theorem foldl_removeEach (keys : List String) (count : Nat) (m : KeyMap α) :
    keys.foldl (fun found key => if found.2.contains key then (found.1 + 1, found.2.erase key)
      else (found.1, found.2)) (count, m) =
      (count + (removeEach keys m).1, (removeEach keys m).2) := by
  induction keys generalizing count m with
  | nil => rfl
  | cons key keys ih =>
    unfold removeEach
    cases hthere : m.contains key with
    | true =>
      simp only [List.foldl_cons, hthere, if_true, ih, Prod.mk.injEq, and_true]
      omega
    | false =>
      simp only [List.foldl_cons, hthere, Bool.false_eq_true, if_false]
      exact ih count m

theorem removeEach_cons (key : String) (keys : List String) (m : KeyMap α) :
    removeEach (key :: keys) m =
      if m.contains key then ((removeEach keys (m.erase key)).1 + 1, (removeEach keys (m.erase key)).2)
      else removeEach keys m := by
  have hfold : removeEach (key :: keys) m =
      keys.foldl (fun found key => if found.2.contains key then (found.1 + 1, found.2.erase key)
        else (found.1, found.2)) (if m.contains key then (1, m.erase key) else (0, m)) := rfl
  rw [hfold]
  cases m.contains key with
  | true =>
    simp only [if_true]
    rw [foldl_removeEach, Nat.add_comm]
  | false => rfl

/-- Removing one after the other comes to leaving out all of them. -/
theorem snd_removeEach (keys : List String) (m : KeyMap α) :
    (removeEach keys m).2 = m.filter fun k _ => !keys.contains k := by
  induction keys generalizing m with
  | nil => exact (m.filter_eq_self fun _ _ => rfl).symm
  | cons key keys ih =>
    have hboth : (m.erase key).filter (fun k _ => !keys.contains k) =
        m.filter fun k _ => !(key :: keys).contains k := by
      refine KeyMap.ext_get? fun k => ?_
      rw [KeyMap.erase, KeyMap.get?_filter, KeyMap.get?_filter, KeyMap.get?_filter]
      cases m.get? k with
      | none => rfl
      | some a => by_cases hk : k = key <;> simp [Option.filter, hk]
    rw [← hboth, removeEach_cons]
    cases hthere : m.contains key with
    | true => exact ih (m.erase key)
    | false =>
      rw [m.erase_eq_self hthere]
      exact ih m

theorem mem_snd_addEach {ms : List String} {set : KeySet} {k : String} :
    k ∈ (addEach ms set).2.keys ↔ k ∈ ms ∨ k ∈ set.keys := by
  induction ms generalizing set with
  | nil => simp [addEach]
  | cons m ms ih =>
    rw [addEach_cons]
    cases hthere : set.contains m with
    | true =>
      have hm : m ∈ set.keys := set.mem_keys_iff.2 hthere
      rw [if_pos rfl, ih, List.mem_cons]
      refine ⟨fun h => h.imp_left .inr, ?_⟩
      rintro ((rfl | h) | h)
      · exact .inr hm
      · exact .inl h
      · exact .inr h
    | false =>
      simp only [Bool.false_eq_true, if_false]
      rw [ih, KeySet.mem_add, List.mem_cons, or_left_comm, or_assoc]

theorem removeEach_empty (keys : List String) :
    removeEach keys (KeyMap.empty : KeyMap α) = (0, KeyMap.empty) := by
  induction keys with
  | nil => rfl
  | cons key keys ih => exact ih

end Rule

namespace Store

variable {s : Store} {now : Nat} {key : String} {keys : List String} {set : KeySet}

/-! ## The commands on sets -/

theorem exists_seen {ks : List String} (h : members? (s.live? now key) = some ks) :
    ∃ set, setShape.seen? (s.live? now key) = some set ∧ set.keys = ks := by
  rw [members?_eq] at h
  exact Option.map_eq_some_iff.1 h

theorem addMembers_seen (h : setShape.seen? (s.live? now key) = some set) {ms : List String}
    (hms : ms ≠ []) :
    s.addMembers now key ms = (.ok (Rule.addEach ms set).1,
      s.place key (setShape.kept (Rule.addEach ms set).2 (s.deadline? now key))) := by
  cases ms with
  | nil => exact absurd rfl hms
  | cons m ms => exact onContainer_seen h rfl (.inl rfl)

theorem removeMembers_seen (h : setShape.seen? (s.live? now key) = some set) (ms : List String) :
    s.removeMembers now key ms = (.ok (Rule.removeEach ms set).1,
      s.place key (setShape.kept (Rule.removeEach ms set).2 (s.deadline? now key))) :=
  onContainer_seen h rfl (.inr (Rule.removeEach_empty ms))

/-- The answer to the question for the members of a set. -/
def toldMembers (key : String) : Option (List String) → Except Error (List String)
  | some ks => .ok ks
  | none => .error (.wrongType key)

theorem reply_members (s : Store) (now : Nat) (key : String) :
    ((Call.members key).run now s).1 = toldMembers key (members? (s.live? now key)) := by
  rw [(s.run_onKey now (.members key) rfl).1]
  cases s.live? now key with
  | none => rfl
  | some e =>
    obtain ⟨value, deadline⟩ := e
    cases value <;> rfl

theorem firstOther_eq_none_iff :
    s.firstOther now keys = none ↔ ∀ key ∈ keys, (members? (s.live? now key)).isSome = true := by
  rw [firstOther, List.find?_eq_none]
  refine forall₂_congr fun key _ => ?_
  rw [members?_eq]
  cases setShape.seen? (s.live? now key) <;> simp

/-- The members of any of the sets at keys are told. -/
theorem reply_union (hsets : ∀ key ∈ keys, (members? (s.live? now key)).isSome = true) :
    ∃ ks, ((Call.union keys).run now s).1 = .ok ks ∧
      ∀ k, k ∈ ks ↔ k ∈ keys.flatMap fun key => (members? (s.live? now key)).getD [] := by
  obtain ⟨ks, hks, -, hmem⟩ := (s.union_eq now keys).2 (firstOther_eq_none_iff.2 hsets)
  refine ⟨ks, hks, fun k => ?_⟩
  rw [hmem, List.mem_flatMap]
  refine exists_congr fun key => and_congr_right fun _ => ?_
  rw [members?_eq]
  cases setShape.seen? (s.live? now key) <;> simp

/-- Only sets can be united. -/
theorem sets_of_union {ks : List String} (hks : ((Call.union keys).run now s).1 = .ok ks) :
    ∀ key ∈ keys, (members? (s.live? now key)).isSome = true := by
  rw [← firstOther_eq_none_iff]
  cases hother : s.firstOther now keys with
  | none => rfl
  | some other =>
    have herror : ((Call.union keys).run now s).1 = .error (.wrongType other) :=
      (s.union_eq now keys).1 other hother
    rw [herror] at hks
    cases hks

/-- Adding members to a set, or to none, gives a set with them. -/
theorem live?_addMembers {ms ks : List String} (h : members? (s.live? now key) = some ks)
    (hms : ms ≠ []) :
    (∃ n, ((Call.addMembers key ms).run now s).1 = .ok n) ∧
      ∃ (set : KeySet) (deadline : Option Nat),
        ((Call.addMembers key ms).run now s).2.live? now key = some ⟨.set set, deadline⟩ ∧
        ∀ k, k ∈ set.keys ↔ k ∈ ks ∨ k ∈ ms := by
  obtain ⟨set, hset, rfl⟩ := exists_seen h
  have hrun : (Call.addMembers key ms).run now s = _ := addMembers_seen hset hms
  have hsome : ¬ (Rule.addEach ms set).2.isEmpty = true := by
    obtain ⟨m, hm⟩ := List.exists_mem_of_ne_nil ms hms
    have hmem : m ∈ (Rule.addEach ms set).2.keys := Rule.mem_snd_addEach.2 (.inl hm)
    intro hempty
    rw [(KeyMap.isEmpty_iff _).1 hempty] at hmem
    cases hmem
  rw [hrun]
  refine ⟨⟨_, rfl⟩, (Rule.addEach ms set).2, s.deadline? now key, ?_, fun k => ?_⟩
  · rw [live?_place_kept]
    exact if_neg hsome
  · rw [Rule.mem_snd_addEach, or_comm]

/-- Members can be removed from sets only. -/
theorem reply_removeMembers_error (h : members? (s.live? now key) = none) (ms : List String) :
    ((Call.removeMembers key ms).run now s).1 = .error (.wrongType key) := by
  rw [members?_eq, Option.map_eq_none_iff] at h
  exact congrArg Prod.fst (onContainer_unseen h)

/-- Removing members leaves the set without them. -/
theorem live?_removeMembers {ks : List String} (h : members? (s.live? now key) = some ks)
    (ms : List String) :
    (∃ n, ((Call.removeMembers key ms).run now s).1 = .ok n) ∧
      ∀ other, ((Call.removeMembers key ms).run now s).2.live? now other =
        if other = key then withoutMembers ms (s.live? now key) else s.live? now other := by
  obtain ⟨set, hset, -⟩ := exists_seen h
  have hrun : (Call.removeMembers key ms).run now s = _ := removeMembers_seen hset ms
  rw [hrun, Rule.snd_removeEach]
  refine ⟨⟨_, rfl⟩, fun other => ?_⟩
  split
  · next hother =>
    subst hother
    rw [live?_place_kept, deadline?]
    cases hl : s.live? now other with
    | none =>
      rw [hl] at hset
      obtain rfl : KeyMap.empty = set := Option.some.inj hset
      rfl
    | some e =>
      obtain ⟨value, deadline⟩ := e
      rw [hl] at hset
      cases value with
      | set members =>
        obtain rfl : members = set := Option.some.inj hset
        rfl
      | _ => cases hset
  · next hother => exact live?_place_other _ hother now

end Store
end CacheLayer
