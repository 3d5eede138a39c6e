/-
The slots of a lane count its unfinished changes. `Tallies` says so for each
key: there is a slot exactly as long as a change of the key is unfinished, with
their number and with that of the newest change issued. Issuing adds a change to
the unfinished ones, finishing takes one away, and `isLatest` asks what its name
says.
-/
import CacheLayer.Proofs.WriteBehind.History

namespace CacheLayer.WriteBehind

variable {V : Type} {l : Lane V} {issues owed owed' : List (Nat × Change V)} {key : String}
  {number : Nat} {c : Change V}

/-- How many of the changes are of a key. -/
def countOn (key : String) (owed : List (Nat × Change V)) : Nat :=
  owed.countP fun x => x.2.key == key

/-- The number of the newest change of a key. -/
def latest (key : String) (issues : List (Nat × Change V)) : Nat :=
  ((newest? key issues).map (·.1)).getD 0

/-- The slots count the changes that are owed to the source, of those that were issued. -/
def Tallies (l : Lane V) (owed issues : List (Nat × Change V)) : Prop :=
  ∀ key, l.slots.get? key =
    if countOn key owed = 0 then none else some ⟨latest key issues, countOn key owed⟩

theorem newest?_cons_self (issues : List (Nat × Change V)) (number : Nat) (c : Change V) :
    newest? c.key ((number, c) :: issues) = some (number, c) := by
  simp [newest?]

theorem newest?_cons_other (issues : List (Nat × Change V)) (number : Nat) (h : c.key ≠ key) :
    newest? key ((number, c) :: issues) = newest? key issues := by
  simp [newest?, h]

theorem newest?_mem {x : Nat × Change V} (h : newest? key issues = some x) :
    x ∈ issues ∧ x.2.key = key :=
  ⟨List.mem_of_find?_eq_some h, by simpa using List.find?_some h⟩

/-- If numbers only grow, the newest change of a key has the greatest number. -/
theorem le_of_newest? {x y : Nat × Change V} (ho : issues.Pairwise fun a b => b.1 < a.1)
    (hx : newest? key issues = some x) (hy : y ∈ issues) (hk : y.2.key = key) : y.1 ≤ x.1 := by
  induction issues with
  | nil => cases hy
  | cons z issues ih =>
    obtain ⟨hz, ho⟩ := List.pairwise_cons.1 ho
    by_cases hzk : z.2.key = key
    · have hzx : z = x := by
        simpa [newest?, hzk] using hx
      subst hzx
      rcases List.mem_cons.1 hy with rfl | hy
      · exact Nat.le_refl _
      · exact Nat.le_of_lt (hz y hy)
    · have hx' : newest? key issues = some x := by
        simpa [newest?, hzk] using hx
      rcases List.mem_cons.1 hy with rfl | hy
      · exact absurd hk hzk
      · exact ih ho hx' hy

theorem exists_newest? {x : Nat × Change V} (hx : x ∈ issues) (hk : x.2.key = key) :
    ∃ y, newest? key issues = some y := by
  have h : (issues.find? fun x => x.2.key == key).isSome := by
    rw [List.find?_isSome]
    exact ⟨x, hx, by simpa using hk⟩
  exact Option.isSome_iff_exists.1 h

/-! ## Counting -/

theorem countOn_perm {xs ys : List (Nat × Change V)} (h : xs.Perm ys) (key : String) :
    countOn key xs = countOn key ys :=
  h.countP_eq _

theorem countOn_cons_self (number : Nat) (c : Change V) (xs : List (Nat × Change V)) :
    countOn c.key ((number, c) :: xs) = countOn c.key xs + 1 := by
  simp [countOn]

theorem countOn_cons_other (number : Nat) (xs : List (Nat × Change V)) (h : c.key ≠ key) :
    countOn key ((number, c) :: xs) = countOn key xs := by
  simp [countOn, h]

theorem countOn_pos {x : Nat × Change V} (h : x ∈ owed) : countOn x.2.key owed ≠ 0 := by
  have hpos : 0 < countOn x.2.key owed := List.countP_pos_iff.2 ⟨x, h, by simp⟩
  omega

namespace Tallies

theorem perm (h : Tallies l owed issues) (hp : owed.Perm owed') : Tallies l owed' issues := by
  intro key
  rw [h key, countOn_perm hp]

theorem outstanding (h : Tallies l owed issues) (key : String) :
    ((l.slots.get? key).map Slot.outstanding).getD 0 = countOn key owed := by
  rw [h key]
  by_cases h0 : countOn key owed = 0 <;> simp [h0]

theorem isLatest (h : Tallies l owed issues) (hmem : (number, c) ∈ owed) :
    l.isLatest c.key number = (latest c.key issues == number) := by
  have h0 : countOn c.key owed ≠ 0 := countOn_pos hmem
  rw [Lane.isLatest, h c.key, if_neg h0]

theorem issue (h : Tallies l owed issues) (c : Change V) :
    Tallies (l.issue c.key) ((l.issued + 1, c) :: owed) ((l.issued + 1, c) :: issues) := by
  intro key
  simp only [Lane.issue, h.outstanding]
  by_cases hk : c.key = key
  · subst hk
    rw [KeyMap.get?_insert_self, countOn_cons_self, latest, newest?_cons_self]
    simp
  · rw [KeyMap.get?_insert_other _ _ (Ne.symm hk), countOn_cons_other _ _ hk, latest,
      newest?_cons_other _ _ hk, h key, latest]

theorem finish (h : Tallies l ((number, c) :: owed) issues) :
    Tallies (l.finish c.key) owed issues := by
  have hself := h c.key
  rw [countOn_cons_self, if_neg (by omega)] at hself
  intro key
  simp only [Lane.finish, hself]
  by_cases hk : c.key = key
  · subst hk
    by_cases h1 : countOn c.key owed = 0
    · simp [h1]
    · have hle : ¬ countOn c.key owed + 1 ≤ 1 := by omega
      simp [h1, hle]
  · have hother := h key
    rw [countOn_cons_other _ _ hk] at hother
    have hne : key ≠ c.key := Ne.symm hk
    split
    · rw [KeyMap.get?_erase_other _ hne, hother]
    · rw [KeyMap.get?_insert_other _ _ hne, hother]

end Tallies

theorem finish_eq (l : Lane V) (key : String) :
    l.finish key = { l with slots := (l.finish key).slots } := by
  unfold Lane.finish
  split
  · rfl
  · split <;> rfl

theorem tallies_sweep (xs : List (Nat × Change V)) (h : Tallies l (xs ++ owed) issues) :
    Tallies (xs.foldl (fun l x => l.finish x.2.key) l) owed issues := by
  induction xs generalizing l with
  | nil => exact h
  | cons x xs ih => exact ih (Tallies.finish h)

theorem sweep_eq (xs : List (Nat × Change V)) (l : Lane V) :
    xs.foldl (fun l x => l.finish x.2.key) l =
      { l with slots := (xs.foldl (fun l x => l.finish x.2.key) l).slots } := by
  induction xs generalizing l with
  | nil => rfl
  | cons x xs ih =>
    simp only [List.foldl_cons]
    rw [ih (l.finish x.2.key), finish_eq]

end CacheLayer.WriteBehind
