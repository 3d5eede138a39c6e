/-
Finite maps from texts, kept as a list of entries in strictly increasing order
of their keys. Because the order is part of the type, two maps that answer
every look-up alike are equal (`KeyMap.ext_get?`), so "nothing else changed"
can be said as an equation between maps.

The order of texts is the order of their code points.
-/

namespace CacheLayer

/-- A finite map from texts to values. -/
structure KeyMap (α : Type) where
  entries : List (String × α)
  sorted : entries.Pairwise (fun a b => a.1 < b.1)

namespace KeyMap

variable {α β : Type}

/-! ## Entry lists -/

/-- Puts an entry at its place, in the stead of an entry with its key. -/
def put (k : String) (v : α) : List (String × α) → List (String × α)
  | [] => [(k, v)]
  | (k', v') :: rest =>
    if k < k' then (k, v) :: (k', v') :: rest
    else if k = k' then (k, v) :: rest
    else (k', v') :: put k v rest

/-- The value beside a key. -/
def find (k : String) : List (String × α) → Option α
  | [] => none
  | (k', v') :: rest => if k = k' then some v' else find k rest

theorem mem_put {k : String} {v : α} {e : String × α} {l : List (String × α)}
    (h : e ∈ put k v l) : e = (k, v) ∨ e ∈ l := by
  induction l with
  | nil => exact .inl (by simpa [put] using h)
  | cons p l ih =>
    obtain ⟨k', v'⟩ := p
    simp only [put] at h
    split at h
    · simpa using h
    · split at h
      · rcases List.mem_cons.1 h with h | h
        · exact .inl h
        · exact .inr (List.mem_cons_of_mem _ h)
      · rcases List.mem_cons.1 h with h | h
        · exact .inr (h ▸ List.mem_cons_self)
        · exact (ih h).imp id (List.mem_cons_of_mem _)

theorem sorted_put {k : String} {v : α} {l : List (String × α)}
    (h : l.Pairwise (fun a b => a.1 < b.1)) : (put k v l).Pairwise (fun a b => a.1 < b.1) := by
  induction l with
  | nil => simp [put]
  | cons p l ih =>
    obtain ⟨k', v'⟩ := p
    obtain ⟨h₁, h₂⟩ := List.pairwise_cons.1 h
    simp only [put]
    split
    · rename_i hlt
      refine List.pairwise_cons.2 ⟨fun e he => ?_, h⟩
      rcases List.mem_cons.1 he with rfl | he
      · exact hlt
      · exact String.lt_trans hlt (h₁ e he)
    · rename_i hlt
      split
      · rename_i heq
        subst heq
        exact List.pairwise_cons.2 ⟨h₁, h₂⟩
      · rename_i hne
        refine List.pairwise_cons.2 ⟨fun e he => ?_, ih h₂⟩
        rcases mem_put he with rfl | he
        · exact (Std.lt_trichotomy k k').elim (absurd · hlt) (·.elim (absurd · hne) id)
        · exact h₁ e he

theorem find_put_self {k : String} {v : α} {l : List (String × α)} :
    find k (put k v l) = some v := by
  induction l with
  | nil => simp [put, find]
  | cons p l ih =>
    obtain ⟨k', v'⟩ := p
    simp only [put]
    split
    · simp [find]
    · split
      · simp [find]
      · rename_i hne
        simp [find, hne, ih]

theorem find_put_other {k k' : String} {v : α} {l : List (String × α)} (hne : k' ≠ k) :
    find k' (put k v l) = find k' l := by
  induction l with
  | nil => simp [put, find, hne]
  | cons p l ih =>
    obtain ⟨k'', v''⟩ := p
    simp only [put]
    split
    · simp [find, hne]
    · split
      · rename_i heq
        subst heq
        simp [find, hne]
      · simp only [find, ih]

theorem find_eq_none_of_lt {k : String} {l : List (String × α)} (h : ∀ e ∈ l, k < e.1) :
    find k l = none := by
  induction l with
  | nil => rfl
  | cons e l ih =>
    have hne : k ≠ e.1 := fun he =>
      String.lt_irrefl k (by simpa [← he] using h e List.mem_cons_self)
    simp only [find, hne, if_false]
    exact ih fun e he => h e (List.mem_cons_of_mem _ he)

theorem find_filter {p : String × α → Bool} {k : String} {l : List (String × α)}
    (h : l.Pairwise (fun a b => a.1 < b.1)) :
    find k (l.filter p) = (find k l).filter fun v => p (k, v) := by
  induction l with
  | nil => rfl
  | cons e l ih =>
    obtain ⟨k', v'⟩ := e
    obtain ⟨h₁, h₂⟩ := List.pairwise_cons.1 h
    by_cases hk : k = k'
    · subst hk
      by_cases hp : p (k, v') = true
      · rw [List.filter_cons_of_pos hp]
        simp [find, Option.filter, hp]
      · rw [List.filter_cons_of_neg hp,
          find_eq_none_of_lt fun e he => h₁ e (List.mem_filter.1 he).1]
        simp [find, Option.filter, hp]
    · by_cases hp : p (k', v') = true
      · rw [List.filter_cons_of_pos hp]
        simp only [find, hk, if_false, ih h₂]
      · rw [List.filter_cons_of_neg hp]
        simp only [find, hk, if_false, ih h₂]

theorem find_eq_some_iff {k : String} {v : α} {l : List (String × α)}
    (h : l.Pairwise (fun a b => a.1 < b.1)) : find k l = some v ↔ (k, v) ∈ l := by
  induction l with
  | nil => simp [find]
  | cons e l ih =>
    obtain ⟨k', v'⟩ := e
    obtain ⟨h₁, h₂⟩ := List.pairwise_cons.1 h
    by_cases hk : k = k'
    · subst hk
      simp only [find, if_true, Option.some.injEq, List.mem_cons, Prod.mk.injEq, true_and]
      refine ⟨fun he => .inl he.symm, fun he => he.elim Eq.symm fun hm => ?_⟩
      exact absurd (h₁ _ hm) (String.lt_irrefl k)
    · simp [find, hk, ih h₂]

theorem eq_of_find_eq {l l' : List (String × α)}
    (h : l.Pairwise (fun a b => a.1 < b.1)) (h' : l'.Pairwise (fun a b => a.1 < b.1))
    (heq : ∀ k, find k l = find k l') : l = l' := by
  induction l generalizing l' with
  | nil =>
    cases l' with
    | nil => rfl
    | cons e l' => simpa [find] using heq e.1
  | cons e l ih =>
    obtain ⟨k, v⟩ := e
    cases l' with
    | nil => simpa [find] using heq k
    | cons e' l' =>
      obtain ⟨k', v'⟩ := e'
      obtain ⟨h₁, h₂⟩ := List.pairwise_cons.1 h
      obtain ⟨h₁', h₂'⟩ := List.pairwise_cons.1 h'
      have hk : k = k' := by
        rcases Std.lt_trichotomy k k' with hlt | heq' | hlt
        · have := heq k
          rw [find_eq_none_of_lt (l := (k', v') :: l')] at this
          · simp [find] at this
          · intro e he
            rcases List.mem_cons.1 he with rfl | he
            · exact hlt
            · exact String.lt_trans hlt (h₁' e he)
        · exact heq'
        · have := heq k'
          rw [find_eq_none_of_lt (l := (k, v) :: l)] at this
          · simp [find] at this
          · intro e he
            rcases List.mem_cons.1 he with rfl | he
            · exact hlt
            · exact String.lt_trans hlt (h₁ e he)
      subst hk
      have hv : v = v' := by simpa [find] using heq k
      subst hv
      congr 1
      refine ih h₂ h₂' fun x => ?_
      by_cases hx : x = k
      · subst hx
        rw [find_eq_none_of_lt h₁, find_eq_none_of_lt h₁']
      · simpa [find, hx] using heq x

/-! ## Maps -/

def empty : KeyMap α := ⟨[], .nil⟩

instance : Inhabited (KeyMap α) := ⟨empty⟩

def get? (m : KeyMap α) (k : String) : Option α := find k m.entries

def contains (m : KeyMap α) (k : String) : Bool := (m.get? k).isSome

/-- The map with one more entry, in the stead of an entry with its key. -/
def insert (m : KeyMap α) (k : String) (v : α) : KeyMap α :=
  ⟨put k v m.entries, sorted_put m.sorted⟩

/-- The entries that pass a test. -/
def filter (m : KeyMap α) (p : String → α → Bool) : KeyMap α :=
  ⟨m.entries.filter fun e => p e.1 e.2, m.sorted.filter _⟩

/-- The map without the entry of a key. -/
def erase (m : KeyMap α) (k : String) : KeyMap α :=
  m.filter fun k' _ => k' != k

/-- The keys, in increasing order. -/
def keys (m : KeyMap α) : List String := m.entries.map (·.1)

def size (m : KeyMap α) : Nat := m.entries.length

def isEmpty (m : KeyMap α) : Bool := m.entries.isEmpty

/-- The map with these entries, of which a later one wins over an earlier one of the same key. -/
def ofList (l : List (String × α)) : KeyMap α :=
  l.foldl (fun m e => m.insert e.1 e.2) empty

/-- The same keys with other values. -/
def map (f : α → β) (m : KeyMap α) : KeyMap β :=
  ⟨m.entries.map fun e => (e.1, f e.2), by
    simpa [List.pairwise_map] using m.sorted⟩

@[simp] theorem get?_empty (k : String) : (empty : KeyMap α).get? k = none := rfl

@[simp] theorem get?_insert_self (m : KeyMap α) (k : String) (v : α) :
    (m.insert k v).get? k = some v := find_put_self

theorem get?_insert_other (m : KeyMap α) {k k' : String} (v : α) (hne : k' ≠ k) :
    (m.insert k v).get? k' = m.get? k' := find_put_other hne

theorem get?_filter (m : KeyMap α) (p : String → α → Bool) (k : String) :
    (m.filter p).get? k = (m.get? k).filter (p k) := find_filter m.sorted

@[simp] theorem get?_erase_self (m : KeyMap α) (k : String) : (m.erase k).get? k = none := by
  rw [erase, get?_filter]
  cases m.get? k <;> simp

theorem get?_erase_other (m : KeyMap α) {k k' : String} (hne : k' ≠ k) :
    (m.erase k).get? k' = m.get? k' := by
  rw [erase, get?_filter]
  cases m.get? k' <;> simp [hne]

theorem filter_eq_self (m : KeyMap α) {p : String → α → Bool}
    (h : ∀ e ∈ m.entries, p e.1 e.2 = true) : m.filter p = m := by
  obtain ⟨l, hl⟩ := m
  simpa [filter] using h

/-- Without the entry of a key that has none, the map is the same. -/
theorem erase_eq_self (m : KeyMap α) {k : String} (h : m.contains k = false) : m.erase k = m := by
  refine m.filter_eq_self fun e he => ?_
  have hne : e.1 ≠ k := by
    rintro rfl
    have hfound : m.get? e.1 = some e.2 := (find_eq_some_iff m.sorted).2 he
    simp [contains, hfound] at h
  simpa using hne

theorem get?_eq_some_iff (m : KeyMap α) {k : String} {v : α} :
    m.get? k = some v ↔ (k, v) ∈ m.entries := find_eq_some_iff m.sorted

theorem mem_keys_iff (m : KeyMap α) {k : String} : k ∈ m.keys ↔ (m.get? k).isSome := by
  rw [keys, List.mem_map, Option.isSome_iff_exists]
  constructor
  · rintro ⟨⟨k', v⟩, h, rfl⟩
    exact ⟨v, m.get?_eq_some_iff.2 h⟩
  · rintro ⟨v, h⟩
    exact ⟨(k, v), m.get?_eq_some_iff.1 h, rfl⟩

theorem sorted_keys (m : KeyMap α) : m.keys.Pairwise (· < ·) := by
  simpa [keys, List.pairwise_map] using m.sorted

theorem nodup_keys (m : KeyMap α) : m.keys.Nodup := m.sorted_keys.imp String.ne_of_lt

/-- Maps that answer every look-up alike are equal. -/
theorem ext_get? {m m' : KeyMap α} (h : ∀ k, m.get? k = m'.get? k) : m = m' := by
  obtain ⟨l, hl⟩ := m
  obtain ⟨l', hl'⟩ := m'
  obtain rfl : l = l' := eq_of_find_eq hl hl' h
  rfl

end KeyMap

/-- A finite set of texts. -/
abbrev KeySet := KeyMap Unit

namespace KeySet

/-- The set with one more member. -/
def add (s : KeySet) (k : String) : KeySet := s.insert k ()

/-- The set of the given members. -/
def ofMembers (ks : List String) : KeySet := ks.foldl add KeyMap.empty

/-- The members of either set. -/
def union (s t : KeySet) : KeySet := t.keys.foldl add s

variable {s t : KeySet} {k a : String} {ks : List String}

/-- Sets of the same members are equal. -/
theorem ext_mem (h : ∀ k, k ∈ s.keys ↔ k ∈ t.keys) : s = t := by
  refine KeyMap.ext_get? fun k => ?_
  have hk := h k
  rw [KeyMap.mem_keys_iff, KeyMap.mem_keys_iff] at hk
  cases hs : s.get? k with
  | none =>
    cases ht : t.get? k with
    | none => rfl
    | some u => simp [hs, ht] at hk
  | some u =>
    cases ht : t.get? k with
    | none => simp [hs, ht] at hk
    | some u' => rfl

theorem mem_add : k ∈ (s.add a).keys ↔ k = a ∨ k ∈ s.keys := by
  rw [KeyMap.mem_keys_iff, KeyMap.mem_keys_iff, add]
  by_cases hk : k = a
  · subst hk
    simp
  · simp [KeyMap.get?_insert_other _ _ hk, hk]

theorem mem_foldl_add : k ∈ (ks.foldl add s).keys ↔ k ∈ ks ∨ k ∈ s.keys := by
  induction ks generalizing s with
  | nil => simp
  | cons a ks ih => rw [List.foldl_cons, ih, mem_add, List.mem_cons, or_left_comm, or_assoc]

theorem mem_ofMembers : k ∈ (ofMembers ks).keys ↔ k ∈ ks := by
  rw [ofMembers, mem_foldl_add]
  simp [KeyMap.keys, KeyMap.empty]

theorem mem_union : k ∈ (s.union t).keys ↔ k ∈ s.keys ∨ k ∈ t.keys := by
  rw [union, mem_foldl_add, or_comm]

theorem empty_union (s : KeySet) : union KeyMap.empty s = s :=
  ext_mem fun k => by
    rw [mem_union]
    simp [KeyMap.keys, KeyMap.empty]

/-- The set of a list in increasing order has its members in this order. -/
theorem keys_ofMembers (h : ks.Pairwise (· < ·)) : (ofMembers ks).keys = ks := by
  have hsorted : (ks.map fun k => (k, ())).Pairwise fun a b => a.1 < b.1 := by
    simpa [List.pairwise_map] using h
  have hkeys : (⟨_, hsorted⟩ : KeySet).keys = ks := by
    rw [KeyMap.keys, List.map_map]
    exact List.map_id ks
  have heq : ofMembers ks = ⟨_, hsorted⟩ := ext_mem fun k => by rw [mem_ofMembers, hkeys]
  rw [heq, hkeys]

/-- Lists in increasing order with the same members are equal. -/
theorem eq_of_mem_iff {ls : List String} (h : ks.Pairwise (· < ·)) (h' : ls.Pairwise (· < ·))
    (hmem : ∀ k, k ∈ ks ↔ k ∈ ls) : ks = ls := by
  rw [← keys_ofMembers h, ← keys_ofMembers h']
  refine congrArg KeyMap.keys (ext_mem fun k => ?_)
  rw [mem_ofMembers, mem_ofMembers, hmem]

end KeySet
end CacheLayer
