/-
Sets and hashes, and how much the commands change them. Each command that counts
tells by how much what it works on grows or shrinks, also where it names a thing
twice: members that are added (`size_addEach`), keys that are removed
(`size_removeEach`), live keys that are deleted (`size_deleteMany`).

Main statement: `collections_exact`.
-/
import CacheLayer.Proofs.Store.Container
import CacheLayer.Proofs.Store.Deletion
import CacheLayer.Proofs.Store.Member
import CacheLayer.Proofs.Store.Packed

namespace CacheLayer

variable {α : Type}

/-! ## Sizes -/

namespace KeyMap

theorem length_keys (m : KeyMap α) : m.keys.length = m.size := List.length_map _

theorem length_put {k : String} {v : α} {l : List (String × α)}
    (h : l.Pairwise (fun a b => a.1 < b.1)) :
    (put k v l).length = l.length + if (find k l).isSome then 0 else 1 := by
  induction l with
  | nil => rfl
  | cons e l ih =>
    obtain ⟨k', v'⟩ := e
    obtain ⟨hfirst, hrest⟩ := List.pairwise_cons.1 h
    by_cases heq : k = k'
    · subst heq
      simp only [put, find, String.lt_irrefl, if_true, if_false]
      rfl
    · by_cases hlt : k < k'
      · have hnone : find k l = none :=
          find_eq_none_of_lt fun e he => String.lt_trans hlt (hfirst e he)
        simp [put, find, hlt, heq, hnone]
      · simp only [put, find, hlt, heq, if_false, List.length_cons, ih hrest]
        omega

/-- A map grows by one if the key is new. -/
theorem size_insert (m : KeyMap α) (k : String) (v : α) :
    (m.insert k v).size = m.size + if m.contains k then 0 else 1 := length_put m.sorted

/-- A map shrinks by one if the key is there. -/
theorem size_erase (m : KeyMap α) (k : String) :
    (m.erase k).size + (if m.contains k then 1 else 0) = m.size := by
  cases hthere : m.contains k with
  | false => rw [m.erase_eq_self hthere]; rfl
  | true =>
    have hkeys : (m.erase k).keys = m.keys.erase k := by
      rw [m.nodup_keys.erase_eq_filter, keys, keys, List.filter_map]
      rfl
    have hmem : k ∈ m.keys := m.mem_keys_iff.2 hthere
    have hpos : 0 < m.keys.length := List.length_pos_of_mem hmem
    have hless := List.length_erase_of_mem hmem
    rw [← hkeys, length_keys] at hless
    rw [← length_keys m]
    simp only [if_true]
    omega

end KeyMap

namespace Rule

/-- What is counted while members are added is by how much the set grows. -/
theorem size_addEach (ms : List String) (set : KeySet) :
    (addEach ms set).2.size = set.size + (addEach ms set).1 := by
  induction ms generalizing set with
  | nil => rfl
  | cons m ms ih =>
    rw [addEach_cons]
    cases hthere : set.contains m with
    | true => exact ih set
    | false =>
      have hgrown : (set.add m).size = set.size + 1 := by
        rw [KeySet.add, KeyMap.size_insert, hthere]
        rfl
      have hrest := ih (set.add m)
      simp only [Bool.false_eq_true, if_false]
      omega

/-- What is counted while keys are removed is by how much the map shrinks. -/
theorem size_removeEach (keys : List String) (m : KeyMap α) :
    (removeEach keys m).2.size + (removeEach keys m).1 = m.size := by
  induction keys generalizing m with
  | nil => rfl
  | cons key keys ih =>
    rw [removeEach_cons]
    cases hthere : m.contains key with
    | true =>
      have hshrunk := m.size_erase key
      rw [hthere, if_pos rfl] at hshrunk
      have hrest := ih (m.erase key)
      simp only [if_true]
      omega
    | false => exact ih m

end Rule

namespace Store

variable {C : Type} {s : Store} {now : Nat} {key : String} {set : KeySet} {hash : KeyMap Bytes}

theorem size_eq (s : Store) (now : Nat) :
    s.size now = (s.entries.filter fun _ e => !e.isDead now).size := KeyMap.length_keys _

/-- Deleting a key that is live makes one less. -/
theorem size_delete (s : Store) (now : Nat) (key : String) :
    (s.delete now key).2.size now + (if (s.delete now key).1 then 1 else 0) = s.size now := by
  have hleft : ((s.delete now key).2.entries.filter fun _ e => !e.isDead now) =
      (s.entries.filter fun _ e => !e.isDead now).erase key := by
    refine KeyMap.ext_get? fun k => ?_
    have hlive := live?_delete s now key k
    rw [live?, live?] at hlive
    rw [KeyMap.get?_filter, hlive]
    split
    · next hk =>
      subst hk
      exact (KeyMap.get?_erase_self _ _).symm
    · next hk =>
      rw [KeyMap.get?_erase_other _ hk, KeyMap.get?_filter]
  have hfound : (s.delete now key).1 =
      (s.entries.filter fun _ e => !e.isDead now).contains key := by
    rw [KeyMap.contains, KeyMap.get?_filter]
    exact contains_purge s now key
  rw [size_eq, size_eq, hleft, hfound, KeyMap.size_erase]

/-- What is counted while keys are deleted is by how many fewer are live. -/
theorem size_deleteMany (s : Store) (now : Nat) (keys : List String) :
    (s.deleteMany now keys).2.size now + (s.deleteMany now keys).1 = s.size now := by
  induction keys generalizing s with
  | nil => rfl
  | cons key keys ih =>
    have hone := s.size_delete now key
    have hrest := ih (s.delete now key).2
    change ((s.delete now key).2.deleteMany now keys).2.size now +
      ((if (s.delete now key).1 = true then 1 else 0) +
        ((s.delete now key).2.deleteMany now keys).1) = _
    omega

/-! ## What commands leave -/

/-- The command has answered and left a container at the key, and no other key is touched. -/
structure Leaves (shape : Shape C) (s : Store) (now : Nat) (key : String) (o : Outcome α) (answer : α)
    (c : C) : Prop where
  reply : o.1 = .ok answer
  seen : shape.seen? (o.2.live? now key) = some c
  others : ∀ other t, other ≠ key → o.2.live? t other = s.live? t other

theorem leaves_place {shape : Shape C} (hshape : shape.Faithful) {o : Outcome α} {answer : α} {c : C}
    (h : o = (.ok answer, s.place key (shape.kept c (s.deadline? now key)))) :
    Leaves shape s now key o answer c := by
  subst h
  refine ⟨rfl, ?_, fun other t hne => live?_place_other _ hne t⟩
  rw [live?_place_kept, hshape.seen?_kept]

/-! ## Sets -/

/-- The count of added members is by how much the set grows. -/
theorem leaves_addMembers (h : setShape.seen? (s.live? now key) = some set) (ms : List String) :
    ∃ n grown, Leaves setShape s now key (s.addMembers now key ms) n grown ∧
      grown.size = set.size + n ∧ ∀ m, m ∈ grown.keys ↔ m ∈ set.keys ∨ m ∈ ms := by
  cases ms with
  | nil => exact ⟨0, set, ⟨rfl, h, fun _ _ _ => rfl⟩, rfl, by simp⟩
  | cons m ms =>
    have hrun := addMembers_seen h (List.cons_ne_nil m ms)
    refine ⟨_, _, leaves_place faithful_setShape hrun, Rule.size_addEach _ set, fun k => ?_⟩
    rw [Rule.mem_snd_addEach, or_comm]

/-- The count of removed members is by how much the set shrinks. -/
theorem leaves_removeMembers (h : setShape.seen? (s.live? now key) = some set) (ms : List String) :
    ∃ n left, Leaves setShape s now key (s.removeMembers now key ms) n left ∧
      left.size + n = set.size ∧ ∀ m, m ∈ left.keys ↔ m ∈ set.keys ∧ m ∉ ms := by
  refine ⟨_, _, leaves_place faithful_setShape (removeMembers_seen h ms),
    Rule.size_removeEach ms set, fun m => ?_⟩
  rw [Rule.snd_removeEach, KeyMap.mem_keys_iff, KeyMap.mem_keys_iff, KeyMap.get?_filter]
  cases set.get? m <;> simp [Option.filter]

/-! ## Hashes -/

/-- A field is new exactly if the hash grows. -/
theorem leaves_setField (h : hashShape.seen? (s.live? now key) = some hash) (field : String)
    (b : Bytes) :
    ∃ new, Leaves hashShape s now key (s.setField now key field b) new (hash.insert field b) ∧
      (new = true ↔ hash.size < (hash.insert field b).size) := by
  have hrun : s.setField now key field b = (.ok (!hash.contains field),
      s.place key (hashShape.kept (hash.insert field b) (s.deadline? now key))) :=
    onContainer_seen h rfl (.inl rfl)
  refine ⟨_, leaves_place faithful_hashShape hrun, ?_⟩
  rw [KeyMap.size_insert]
  cases hash.contains field <;> simp

/-- The count of removed fields is by how much the hash shrinks. -/
theorem leaves_removeFields (h : hashShape.seen? (s.live? now key) = some hash)
    (names : List String) :
    ∃ n left, Leaves hashShape s now key (s.removeFields now key names) n left ∧
      left.size + n = hash.size ∧
      ∀ name, left.get? name = if name ∈ names then none else hash.get? name := by
  have hrun : s.removeFields now key names = (.ok (Rule.removeEach names hash).1,
      s.place key (hashShape.kept (Rule.removeEach names hash).2 (s.deadline? now key))) :=
    onContainer_seen h rfl (.inr (Rule.removeEach_empty names))
  refine ⟨_, _, leaves_place faithful_hashShape hrun, Rule.size_removeEach names hash,
    fun name => ?_⟩
  rw [Rule.snd_removeEach, KeyMap.get?_filter]
  by_cases hname : name ∈ names <;> cases hash.get? name <;> simp [Option.filter, hname]

/-- **Collections are never empty, and what is counted is the change.** No entry of a store that
commands have made is an empty list, set or hash. Adding tells by how much a set grows, removing by
how much a set or a hash shrinks, setting a field whether the hash grows, and deleting how many
fewer keys are live, however often a thing is named. A union has exactly the members of the sets. On
a key of another type the commands on sets and hashes fail and no key is touched, but adding no
members is always fine. -/
theorem collections_exact :
    (∀ (now : Nat) (ds : List Deed) (key : String) (e : Entry),
      (Deed.runAll now empty ds).2.2.entries.get? key = some e → e.value.IsFilled) ∧
    ∀ (s : Store) (now : Nat),
      (∀ key set, setShape.seen? (s.live? now key) = some set →
        (∀ ms, ∃ n grown, Leaves setShape s now key (s.addMembers now key ms) n grown ∧
          grown.size = set.size + n ∧ ∀ m, m ∈ grown.keys ↔ m ∈ set.keys ∨ m ∈ ms) ∧
        (∀ ms, ∃ n left, Leaves setShape s now key (s.removeMembers now key ms) n left ∧
          left.size + n = set.size ∧ ∀ m, m ∈ left.keys ↔ m ∈ set.keys ∧ m ∉ ms)) ∧
      (∀ key hash, hashShape.seen? (s.live? now key) = some hash →
        (∀ name b, ∃ new,
          Leaves hashShape s now key (s.setField now key name b) new (hash.insert name b) ∧
          (new = true ↔ hash.size < (hash.insert name b).size)) ∧
        (∀ names, ∃ n left, Leaves hashShape s now key (s.removeFields now key names) n left ∧
          left.size + n = hash.size ∧
          ∀ name, left.get? name = if name ∈ names then none else hash.get? name)) ∧
      (∀ keys, (s.deleteMany now keys).2.size now + (s.deleteMany now keys).1 = s.size now) ∧
      (∀ keys,
        (s.firstOther now keys = none →
          ∃ ms, (s.union now keys).1 = .ok ms ∧ ms.Pairwise (· < ·) ∧ ∀ m, m ∈ ms ↔
            ∃ key ∈ keys, ∃ set, setShape.seen? (s.live? now key) = some set ∧ m ∈ set.keys) ∧
        (∀ other, s.firstOther now keys = some other →
          (s.union now keys).1 = .error (.wrongType other)) ∧
        (s.Packed → ∀ key, (s.union now keys).2.live? now key = s.live? now key)) ∧
      (∀ key, setShape.seen? (s.live? now key) = none →
        (∀ m ms, s.addMembers now key (m :: ms) = (.error (.wrongType key), s)) ∧
        (∀ ms, s.removeMembers now key ms = (.error (.wrongType key), s)) ∧
        s.members now key = (.error (.wrongType key), s) ∧
        (∀ m, s.hasMember now key m = (.error (.wrongType key), s))) ∧
      (∀ key, hashShape.seen? (s.live? now key) = none →
        (∀ name b, s.setField now key name b = (.error (.wrongType key), s)) ∧
        (∀ name, s.field now key name = (.error (.wrongType key), s)) ∧
        s.fields now key = (.error (.wrongType key), s) ∧
        (∀ names, s.removeFields now key names = (.error (.wrongType key), s))) ∧
      ∀ key, s.addMembers now key [] = (.ok 0, s) := by
  refine ⟨fun now ds => packed_runAll packed_empty now ds, fun s now => ⟨fun key set h => ?_,
    fun key hash h => ?_, s.size_deleteMany now, fun keys => ?_, fun key h => ?_, fun key h => ?_,
    fun key => rfl⟩⟩
  · exact ⟨leaves_addMembers h, leaves_removeMembers h⟩
  · exact ⟨leaves_setField h, leaves_removeFields h⟩
  · obtain ⟨hother, hall⟩ := s.union_eq now keys
    refine ⟨hall, hother, fun hpacked key => ?_⟩
    exact live?_asked (c := .union keys) (hpacked.filled now) rfl key
  · exact ⟨fun m ms => onContainer_unseen h, fun ms => onContainer_unseen h, onContainer_unseen h,
      fun m => onContainer_unseen h⟩
  · exact ⟨fun name b => onContainer_unseen h, fun name => onContainer_unseen h,
      onContainer_unseen h, fun names => onContainer_unseen h⟩

/-- Two sets that overlap, a hash and a number. -/
def assorted : Store :=
  (((Store.empty.put "a" ⟨.set (KeySet.ofMembers ["x", "y"]), some 50⟩).put
    "b" ⟨.set (KeySet.ofMembers ["y", "z"]), none⟩).put
    "h" ⟨.hash (KeyMap.empty.insert "f" [1]), none⟩).put "n" ⟨.bytes [49], none⟩

/-- What is named twice counts once, what was there does not count, and the union leaves out nothing;
with the number there is none. -/
theorem collections_exact_assorted :
    (∃ grown, Leaves setShape assorted 10 "a" (assorted.addMembers 10 "a" ["y", "z", "z"]) 1 grown ∧
      grown.size = 3) ∧
    (∃ left, Leaves hashShape assorted 10 "h" (assorted.removeFields 10 "h" ["f", "f"]) 1 left ∧
      left.size = 0) ∧
    (assorted.deleteMany 10 ["a", "q", "a"]).2.size 10 = 3 ∧
    (∃ ms, (assorted.union 10 ["a", "q", "b"]).1 = .ok ms ∧ "x" ∈ ms ∧ "z" ∈ ms) ∧
    (assorted.union 10 ["a", "n", "h"]).1 = .error (.wrongType "n") ∧
    assorted.setField 10 "a" "f" [1] = (.error (.wrongType "a"), assorted) := by
  obtain ⟨hsets, hhashes, hdelete, hunion, -, hother, -⟩ := collections_exact.2 assorted 10
  refine ⟨?_, ?_, ?_, ?_, (hunion ["a", "n", "h"]).2.1 "n" rfl, (hother "a" rfl).1 "f" [1]⟩
  · obtain ⟨n, grown, hleaves, hsize, -⟩ := (hsets "a" _ rfl).1 ["y", "z", "z"]
    have hone : (assorted.addMembers 10 "a" ["y", "z", "z"]).1 = .ok 1 := rfl
    obtain rfl : n = 1 := Except.ok.inj (hleaves.reply.symm.trans hone)
    exact ⟨grown, hleaves, hsize⟩
  · obtain ⟨n, left, hleaves, hsize, -⟩ := (hhashes "h" _ rfl).2 ["f", "f"]
    have hone : (assorted.removeFields 10 "h" ["f", "f"]).1 = .ok 1 := rfl
    obtain rfl : n = 1 := Except.ok.inj (hleaves.reply.symm.trans hone)
    exact ⟨left, hleaves, Nat.succ.inj hsize⟩
  · have hone : (assorted.deleteMany 10 ["a", "q", "a"]).1 = 1 := rfl
    have hsize : assorted.size 10 = 4 := rfl
    have hshrunk := hdelete ["a", "q", "a"]
    omega
  · obtain ⟨ms, hok, -, hmem⟩ := (hunion ["a", "q", "b"]).1 rfl
    refine ⟨ms, hok, (hmem "x").2 ⟨"a", by simp, _, rfl, ?_⟩, (hmem "z").2 ⟨"b", by simp, _, rfl, ?_⟩⟩
    · exact KeySet.mem_ofMembers.2 (by simp)
    · exact KeySet.mem_ofMembers.2 (by simp)

end Store
end CacheLayer
