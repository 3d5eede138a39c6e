/-
Registries as stable sorts. What a registry holds after any sequence of edits is the stable sort of
what remains of them (`foldl_eq_sort`): the entries that were added and that no later edit has dropped,
in the order in which they were added. A stable sort is determined by what it is, not by how it is
done (`IsStableSort.unique`), so entries with priorities of their own can be registered in any order
(`sort_eq_of_perm`).
-/
import CacheLayer.Priority
import Mathlib.Data.List.Nodup

namespace CacheLayer.Priority

variable {α : Type} {priority : α → Int} {entries xs ys : List α}

/-! ## Stable sorts -/

/-- The entries in ascending order of priority, and those of one priority in the order in which they
were given. -/
structure IsStableSort (priority : α → Int) (entries sorted : List α) : Prop where
  ascends : sorted.Pairwise fun a b => priority a ≤ priority b
  keeps : ∀ p, sorted.filter (priority · == p) = entries.filter (priority · == p)

/-- Two ascending lists with the same entries of each priority begin with the same entry. -/
theorem head_eq {a b : α} (hx : (a :: xs).Pairwise fun a b => priority a ≤ priority b)
    (hy : (b :: ys).Pairwise fun a b => priority a ≤ priority b)
    (h : ∀ p, (a :: xs).filter (priority · == p) = (b :: ys).filter (priority · == p)) : a = b := by
  have hmem : ∀ {c : α} {us vs : List α}, (∀ p, us.filter (priority · == p) =
      vs.filter (priority · == p)) → c ∈ us → c ∈ vs := fun {c us vs} hsame hc => by
    have hc' : c ∈ us.filter (priority · == priority c) := List.mem_filter.2 ⟨hc, by simp⟩
    rw [hsame] at hc'
    exact (List.mem_filter.1 hc').1
  have hab : priority a ≤ priority b := by
    rcases List.mem_cons.1 (hmem (fun p => (h p).symm) List.mem_cons_self) with rfl | hb
    · exact Int.le_refl _
    · exact List.rel_of_pairwise_cons hx hb
  have hba : priority b ≤ priority a := by
    rcases List.mem_cons.1 (hmem h List.mem_cons_self) with rfl | ha
    · exact Int.le_refl _
    · exact List.rel_of_pairwise_cons hy ha
  have hfirst := h (priority a)
  rw [List.filter_cons_of_pos (by simp),
    List.filter_cons_of_pos (by simpa using Int.le_antisymm hba hab)] at hfirst
  exact (List.cons.inj hfirst).1

theorem eq_of_filter_eq (hx : xs.Pairwise fun a b => priority a ≤ priority b)
    (hy : ys.Pairwise fun a b => priority a ≤ priority b)
    (h : ∀ p, xs.filter (priority · == p) = ys.filter (priority · == p)) : xs = ys := by
  induction xs generalizing ys with
  | nil =>
    cases ys with
    | nil => rfl
    | cons b ys => simpa using h (priority b)
  | cons a xs ih =>
    cases ys with
    | nil => simpa using h (priority a)
    | cons b ys =>
      obtain rfl := head_eq hx hy h
      refine congrArg (a :: ·) (ih hx.of_cons hy.of_cons fun p => ?_)
      have hp := h p
      rw [List.filter_cons, List.filter_cons] at hp
      split at hp
      · exact (List.cons.inj hp).2
      · exact hp

/-- There is one stable sort only. -/
theorem IsStableSort.unique (hx : IsStableSort priority entries xs)
    (hy : IsStableSort priority entries ys) : xs = ys :=
  eq_of_filter_eq hx.ascends hy.ascends fun p => (hx.keeps p).trans (hy.keeps p).symm

theorem isStableSort_sort (priority : α → Int) (entries : List α) :
    IsStableSort priority entries (sort priority entries) := by
  have htrans : ∀ a b c : α, decide (priority a ≤ priority b) → decide (priority b ≤ priority c) →
      decide (priority a ≤ priority c) := fun a b c hab hbc =>
    decide_eq_true (Int.le_trans (of_decide_eq_true hab) (of_decide_eq_true hbc))
  have htotal : ∀ a b : α, decide (priority a ≤ priority b) || decide (priority b ≤ priority a) :=
    fun a b => by simpa using Int.le_total (priority a) (priority b)
  refine ⟨?_, fun p => ?_⟩
  · exact (List.pairwise_mergeSort htrans htotal entries).imp fun h => of_decide_eq_true h
  · -- The entries of one priority are sorted as they stand, so the sort leaves them in their order.
    have hperm : (sort priority entries).Perm entries := List.mergeSort_perm _ _
    have hlevel : (entries.filter (priority · == p)).Pairwise
        fun a b => decide (priority a ≤ priority b) = true := by
      refine List.pairwise_of_forall_mem_list fun a ha b hb => ?_
      have ha' : priority a = p := by simpa using (List.mem_filter.1 ha).2
      have hb' : priority b = p := by simpa using (List.mem_filter.1 hb).2
      simp [ha', hb']
    have hsub : (entries.filter (priority · == p)).Sublist (sort priority entries) :=
      List.sublist_mergeSort htrans htotal hlevel List.filter_sublist
    have hsub' := hsub.filter (priority · == p)
    rw [List.filter_filter] at hsub'
    simp only [Bool.and_self] at hsub'
    exact (hsub'.eq_of_length (hperm.filter _).length_eq.symm).symm

theorem sort_eq_iff : sort priority entries = xs ↔ IsStableSort priority entries xs :=
  ⟨fun h => h ▸ isStableSort_sort priority entries,
    fun h => (isStableSort_sort priority entries).unique h⟩

/-- What is dropped from a sorted registry might as well never have been there. -/
theorem filter_sort (p : α → Bool) :
    (sort priority entries).filter p = sort priority (entries.filter p) := by
  have hsort := isStableSort_sort priority entries
  refine (sort_eq_iff.2 ⟨hsort.ascends.filter p, fun q => ?_⟩).symm
  rw [List.filter_comm, hsort.keeps, List.filter_comm]

/-- To register an entry is to sort all over again with the entry in the last place. -/
theorem register_sort (a : α) :
    register priority (sort priority entries) a = sort priority (entries ++ [a]) := by
  refine sort_eq_iff.2 ⟨(isStableSort_sort priority _).ascends, fun p => ?_⟩
  rw [(isStableSort_sort priority _).keeps, List.filter_append, List.filter_append,
    (isStableSort_sort priority _).keeps]

/-- Entries with priorities of their own are sorted alike in whatever order they are given. -/
theorem sort_eq_of_perm (h : xs.Perm ys) (hdistinct : (xs.map priority).Nodup) :
    sort priority xs = sort priority ys := by
  have hx := isStableSort_sort priority xs
  have hy := isStableSort_sort priority ys
  have hpx : (sort priority xs).Perm xs := List.mergeSort_perm _ _
  have hpy : (sort priority ys).Perm ys := List.mergeSort_perm _ _
  refine List.Perm.eq_of_pairwise (fun a b ha hb hab hba => ?_) hx.ascends hy.ascends
    (hpx.trans (h.trans hpy.symm))
  exact List.inj_on_of_nodup_map hdistinct (hpx.mem_iff.1 ha) (h.mem_iff.2 (hpy.mem_iff.1 hb))
    (Int.le_antisymm hab hba)

/-! ## Edits -/

/-- Something that is done to a registry. -/
inductive Edit (α : Type) where
  | add (a : α)
  | remove (name : String)

/-- The entries that were added and that no later edit has dropped, in the order in which they were
added. -/
def remaining (drops : Edit α → α → Bool) : List (Edit α) → List α
  | [] => []
  | .add a :: later =>
    (if later.any (drops · a) then [] else [a]) ++ remaining drops later
  | .remove _ :: later => remaining drops later

/-- **A registry is the stable sort of what remains.** If each edit drops some entries and an added
one is registered behind those that are left, the registry is the stable sort of what remains of the
edits. -/
theorem foldl_eq_sort {drops : Edit α → α → Bool} {edit : List α → Edit α → List α}
    (hadd : ∀ xs a, edit xs (.add a) = register priority (xs.filter (!drops (.add a) ·)) a)
    (hremove : ∀ xs name, edit xs (.remove name) = xs.filter (!drops (.remove name) ·))
    (edits : List (Edit α)) (entries : List α) :
    edits.foldl edit (sort priority entries) =
      sort priority (entries.filter (fun a => !edits.any (drops · a)) ++ remaining drops edits) := by
  induction edits generalizing entries with
  | nil => simp [remaining]
  | cons e later ih =>
    have hleft : ∀ a : α, (!(e :: later).any (drops · a)) =
        (!later.any (drops · a) && !drops e a) := fun a => by
      rw [List.any_cons, Bool.not_or, Bool.and_comm]
    rw [List.foldl_cons]
    simp only [hleft]
    rw [← List.filter_filter]
    cases e with
    | add a =>
      rw [hadd, filter_sort, register_sort, ih, List.filter_append, List.append_assoc]
      have hone : [a].filter (fun a => !later.any (drops · a)) =
          if later.any (drops · a) then [] else [a] := by
        rw [List.filter_cons, List.filter_nil]
        cases later.any (drops · a) <;> rfl
      rw [hone]
      rfl
    | remove name =>
      rw [hremove, filter_sort, ih]
      rfl

/-- What was only added, and nothing of it dropped by what was added later, remains. -/
theorem remaining_adds {drops : Edit α → α → Bool}
    (h : xs.Pairwise fun a b => drops (.add b) a = false) :
    remaining drops (xs.map .add) = xs := by
  induction xs with
  | nil => rfl
  | cons a xs ih =>
    have hkept : (xs.map Edit.add).any (drops · a) = false := by
      simpa using fun b hb => List.rel_of_pairwise_cons h hb
    rw [List.map_cons, remaining, hkept, ih h.of_cons]
    rfl

/-- Something is dropped exactly if there is an entry of the name. -/
theorem discard_iff (nameOf : α → String) (entries : List α) (name : String) :
    (discard nameOf entries name).1 = true ↔ ∃ a ∈ entries, nameOf a = name := by
  have hlength : (entries.filter fun a => nameOf a != name).length = entries.length ↔
      ∀ a ∈ entries, nameOf a ≠ name := by
    rw [List.length_filter_eq_length_iff]
    simp
  unfold discard
  rw [bne_iff_ne, ne_eq, hlength]
  simp

end CacheLayer.Priority
