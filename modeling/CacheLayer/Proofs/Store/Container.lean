/-
Commands on one container, told once for lists, sets and hashes. The container of
a key that is absent is an empty one. A command answers and changes what it finds
by its own function (`onContainer_seen`): the key gets the container that the
function gives, with the deadline it had, or no entry if that container is empty,
and nothing else in the store is touched. On a key of another type it fails and
leaves the whole store as it was (`onContainer_unseen`). A union goes through its
keys in this way, and has the members of all sets and no others (`union_eq`).
-/
import CacheLayer.Proofs.Store.Deadline
import CacheLayer.Proofs.Store.Entries

namespace CacheLayer

theorem KeyMap.isEmpty_iff {α : Type} (m : KeyMap α) : m.isEmpty = true ↔ m = empty := by
  constructor
  · intro h
    obtain ⟨entries, sorted⟩ := m
    obtain rfl : entries = [] := List.isEmpty_iff.1 h
    rfl
  · rintro rfl
    rfl

namespace Store

variable {C α : Type} {s : Store} {now : Nat} {key : String} {set : KeySet}

/-! ## Containers in entries -/

/-- The container in an entry. No entry is like an empty container, and an entry of another type has
none. -/
def Shape.seen? (shape : Shape C) : Option Entry → Option C
  | .none => some shape.none
  | some e => shape.see? e.value

/-- The entry that keeps a container, if there is something in it. -/
def Shape.kept (shape : Shape C) (c : C) (deadline : Option Nat) : Option Entry :=
  if shape.isNone c then .none else some ⟨shape.keep c, deadline⟩

/-- What is kept is seen again, and no container but one is empty. -/
structure Shape.Faithful (shape : Shape C) : Prop where
  see_keep : ∀ c, shape.see? (shape.keep c) = some c
  isNone_iff : ∀ c, shape.isNone c = true ↔ c = shape.none

theorem faithful_setShape : setShape.Faithful := ⟨fun _ => rfl, KeyMap.isEmpty_iff⟩

theorem faithful_hashShape : hashShape.Faithful := ⟨fun _ => rfl, KeyMap.isEmpty_iff⟩

theorem Shape.Faithful.seen?_kept {shape : Shape C} (h : shape.Faithful) (c : C)
    (deadline : Option Nat) : shape.seen? (shape.kept c deadline) = some c := by
  unfold Shape.kept
  by_cases hnone : shape.isNone c = true
  · rw [if_pos hnone, (h.isNone_iff c).1 hnone]
    rfl
  · rw [if_neg hnone]
    exact h.see_keep c

/-- What is kept with a deadline is there until then. -/
theorem Shape.filter_kept (shape : Shape C) (c : C) (deadline now : Nat) :
    (shape.kept c (some deadline)).filter (fun e => !e.isDead now) =
      if now < deadline then shape.kept c (some deadline) else .none := by
  unfold Shape.kept
  split
  · simp
  · by_cases hnow : now < deadline
    · have halive : ¬ deadline ≤ now := by omega
      simp [Option.filter, Entry.isDead, hnow, halive]
    · have hdead : deadline ≤ now := by omega
      simp [Option.filter, Entry.isDead, hnow, hdead]

/-- The deadline of what a key holds. -/
def deadline? (s : Store) (now : Nat) (key : String) : Option Nat :=
  (s.live? now key).bind Entry.deadline

/-- What a key has got with the deadline that it had is live. -/
theorem live?_place_kept (shape : Shape C) (c : C) :
    (s.place key (shape.kept c (s.deadline? now key))).live? now key =
      shape.kept c (s.deadline? now key) := by
  unfold live? Shape.kept
  rw [get?_place_self]
  by_cases hnone : shape.isNone c = true
  · rw [if_pos hnone]
    rfl
  · rw [if_neg hnone, deadline?]
    cases hl : s.live? now key with
    | none => rfl
    | some e => exact filter_of_live? hl rfl

/-- Another key holds what it held. -/
theorem live?_place_other (e? : Option Entry) {other : String} (hne : other ≠ key) (t : Nat) :
    (s.place key e?).live? t other = s.live? t other := by
  unfold live?
  rw [get?_place_other s e? hne]

/-- What is seen at any key is the same once a container is put back as it was. -/
theorem seen?_place_same {shape : Shape C} (hshape : shape.Faithful) {c : C}
    (h : shape.seen? (s.live? now key) = some c) (k : String) :
    shape.seen? ((s.place key (shape.kept c (s.deadline? now key))).live? now k) =
      shape.seen? (s.live? now k) := by
  by_cases hk : k = key
  · subst hk
    rw [live?_place_kept, hshape.seen?_kept, h]
  · rw [live?_place_other _ hk]

/-! ## Commands on a container -/

/-- A command on a container answers and leaves what its function gives for the container that is
seen. One that creates none has to leave the empty one as it is. -/
theorem onContainer_seen {shape : Shape C} {create : Bool} {absent : α} {f : C → α × C} {c : C}
    (h : shape.seen? (s.live? now key) = some c) (hnone : shape.isNone shape.none = true)
    (hidle : create = true ∨ f shape.none = (absent, shape.none)) :
    orElse absent (onContainer shape create f s now key) =
      (.ok (f c).1, s.place key (shape.kept (f c).2 (s.deadline? now key))) := by
  rw [onContainer_eq, orElse_obey, obey]
  unfold deadline? Shape.kept
  cases hl : s.live? now key with
  | none =>
    rw [hl] at h
    obtain rfl : shape.none = c := Option.some.inj h
    cases create with
    | true => rfl
    | false =>
      have hf : f shape.none = (absent, shape.none) := hidle.resolve_left (by simp)
      rw [hf, if_pos hnone]
      rfl
  | some e =>
    rw [hl] at h
    have hsee : shape.see? e.value = some c := h
    simp only [Rule.orElse, Rule.map, Rule.container, hsee]
    rfl

/-- A command on a container fails on a key of another type, and the store is the same. -/
theorem onContainer_unseen {shape : Shape C} {create : Bool} {absent : α} {f : C → α × C}
    (h : shape.seen? (s.live? now key) = none) :
    orElse absent (onContainer shape create f s now key) = (.error (.wrongType key), s) := by
  cases hl : s.live? now key with
  | none =>
    rw [hl] at h
    cases h
  | some e =>
    rw [hl] at h
    have hsee : shape.see? e.value = none := h
    have hsame : s.purge now key = s := purge_eq_self hl
    have hget : s.entries.get? key = some e := get?_of_live? hl
    unfold onContainer
    simp only [hsame, hget, hsee]
    rfl

/-! ## Many sets -/

/-- The first of the keys that holds something else than a set. -/
def firstOther (s : Store) (now : Nat) (keys : List String) : Option String :=
  keys.find? fun key => (setShape.seen? (s.live? now key)).isNone

theorem gather_cons_seen (h : setShape.seen? (s.live? now key) = some set) (got : KeySet)
    (keys : List String) :
    s.gather now got (key :: keys) =
      (s.place key (setShape.kept set (s.deadline? now key))).gather now (got.union set) keys := by
  have hone : orElse KeyMap.empty (onContainer setShape false (fun set => (set, set)) s now key) =
      (.ok set, s.place key (setShape.kept set (s.deadline? now key))) :=
    onContainer_seen h rfl (.inr rfl)
  rcases ho : onContainer setShape false (fun set => (set, set)) s now key with ⟨r, after⟩
  rw [ho] at hone
  simp only [gather, ho]
  cases r with
  | error e => cases hone
  | ok found =>
    cases hone
    cases found <;> rfl

theorem gather_cons_unseen (h : setShape.seen? (s.live? now key) = none) (got : KeySet)
    (keys : List String) : s.gather now got (key :: keys) = (.error (.wrongType key), s) := by
  have hone : orElse KeyMap.empty (onContainer setShape false (fun set => (set, set)) s now key) =
      (.error (.wrongType key), s) := onContainer_unseen h
  rcases ho : onContainer setShape false (fun set => (set, set)) s now key with ⟨r, after⟩
  rw [ho] at hone
  simp only [gather, ho]
  cases r with
  | error e =>
    cases hone
    rfl
  | ok found => cases hone

theorem firstOther_congr {s' : Store} (h : ∀ key, setShape.seen? (s'.live? now key) =
    setShape.seen? (s.live? now key)) (keys : List String) :
    s'.firstOther now keys = s.firstOther now keys := by
  unfold firstOther
  simp only [h]

/-- Sets are gathered with all of their members, up to the first key that holds something else. -/
theorem gather_eq (s : Store) (now : Nat) (got : KeySet) (keys : List String) :
    (∀ other, s.firstOther now keys = some other →
      (s.gather now got keys).1 = .error (.wrongType other)) ∧
    (s.firstOther now keys = none → ∃ all, (s.gather now got keys).1 = .ok all ∧
      ∀ m, m ∈ all.keys ↔ m ∈ got.keys ∨
        ∃ key ∈ keys, ∃ set, setShape.seen? (s.live? now key) = some set ∧ m ∈ set.keys) := by
  induction keys generalizing s got with
  | nil => exact ⟨by rintro other ⟨⟩, fun _ => ⟨got, rfl, by simp⟩⟩
  | cons key keys ih =>
    cases hkey : setShape.seen? (s.live? now key) with
    | none =>
      have hfirst : s.firstOther now (key :: keys) = some key := by simp [firstOther, hkey]
      rw [gather_cons_unseen hkey, hfirst]
      refine ⟨fun other hother => ?_, by rintro ⟨⟩⟩
      obtain rfl : key = other := Option.some.inj hother
      rfl
    | some set =>
      have hsame := seen?_place_same faithful_setShape hkey
      have hfirst : s.firstOther now (key :: keys) = s.firstOther now keys := by
        simp [firstOther, hkey]
      obtain ⟨hother, hall⟩ := ih (s.place key (setShape.kept set (s.deadline? now key)))
        (got.union set)
      rw [firstOther_congr hsame] at hother hall
      rw [gather_cons_seen hkey, hfirst]
      refine ⟨hother, fun hnone => ?_⟩
      obtain ⟨all, hok, hmem⟩ := hall hnone
      refine ⟨all, hok, fun m => ?_⟩
      rw [hmem, KeySet.mem_union, or_assoc]
      simp only [hsame, List.mem_cons, exists_eq_or_imp, hkey, Option.some.injEq, exists_eq_left']

/-- A union has exactly the members of the sets, in increasing order. -/
theorem union_eq (s : Store) (now : Nat) (keys : List String) :
    (∀ other, s.firstOther now keys = some other →
      (s.union now keys).1 = .error (.wrongType other)) ∧
    (s.firstOther now keys = none → ∃ ms, (s.union now keys).1 = .ok ms ∧ ms.Pairwise (· < ·) ∧
      ∀ m, m ∈ ms ↔
        ∃ key ∈ keys, ∃ set, setShape.seen? (s.live? now key) = some set ∧ m ∈ set.keys) := by
  obtain ⟨hother, hall⟩ := s.gather_eq now KeyMap.empty keys
  refine ⟨fun other h => ?_, fun h => ?_⟩
  · simp only [union, hother other h]
    rfl
  · obtain ⟨all, hok, hmem⟩ := hall h
    refine ⟨all.keys, by simp only [union, hok]; rfl, all.sorted_keys, fun m => ?_⟩
    rw [hmem]
    simp [KeyMap.keys, KeyMap.empty]

end Store
end CacheLayer
