/-
Deleting many keys at once: they are gone, every other key stays, and the count
is that of the live ones if no key is named twice. Deleting some keys and then
others comes to deleting them together (`deleteMany_append`).
-/
import CacheLayer.Proofs.Store.Rule
import Mathlib.Data.List.Nodup

namespace CacheLayer.Store

variable {s : Store} {now : Nat} {key other : String} {keys : List String}

theorem live?_delete (s : Store) (now : Nat) (key other : String) :
    (s.delete now key).2.live? now other = if other = key then none else s.live? now other := by
  change ((s.purge now key).drop key).live? now other = _
  split
  · next hk =>
    subst hk
    exact live?_drop_self _ _ _
  · next hk => rw [live?_drop_other _ _ hk, live?_purge s now now (Nat.le_refl _)]

theorem get?_delete (s : Store) (now : Nat) (key other : String) :
    (s.delete now key).2.entries.get? other =
      if other = key then none else s.entries.get? other := by
  change ((s.purge now key).drop key).entries.get? other = _
  split
  · next hk =>
    subst hk
    exact KeyMap.get?_erase_self _ _
  · next hk => exact (KeyMap.get?_erase_other _ hk).trans (get?_purge_other s now hk)

/-- The entries of the keys are dropped, dead or not, and no other entry is. -/
theorem get?_deleteMany (s : Store) (now : Nat) (keys : List String) (key : String) :
    (s.deleteMany now keys).2.entries.get? key =
      if key ∈ keys then none else s.entries.get? key := by
  induction keys generalizing s with
  | nil => rfl
  | cons k keys ih =>
    change ((s.delete now k).2.deleteMany now keys).2.entries.get? key = _
    rw [ih, get?_delete]
    by_cases hk : key = k <;> simp [hk]

/-- The keys are gone, and no other key is touched. -/
theorem live?_deleteMany (s : Store) (now : Nat) (keys : List String) (key : String) :
    (s.deleteMany now keys).2.live? now key = if key ∈ keys then none else s.live? now key := by
  induction keys generalizing s with
  | nil => rfl
  | cons k keys ih =>
    change ((s.delete now k).2.deleteMany now keys).2.live? now key = _
    rw [ih, live?_delete]
    by_cases hk : key = k <;> simp [hk]

/-- Each live key is counted once. -/
theorem count_deleteMany (s : Store) (now : Nat) (h : keys.Nodup) :
    (s.deleteMany now keys).1 = keys.countP fun k => (s.live? now k).isSome := by
  induction keys generalizing s with
  | nil => rfl
  | cons k keys ih =>
    obtain ⟨hk, hkeys⟩ := List.nodup_cons.1 h
    have hfound : (s.delete now k).1 = (s.live? now k).isSome := contains_purge s now k
    have hrest : ((s.delete now k).2.deleteMany now keys).1 =
        keys.countP fun k' => (s.live? now k').isSome := by
      rw [ih _ hkeys]
      refine List.countP_congr fun k' hk' => ?_
      have hne : k' ≠ k := fun heq => hk (heq ▸ hk')
      rw [live?_delete, if_neg hne]
    change (if (s.delete now k).1 = true then 1 else 0) +
      ((s.delete now k).2.deleteMany now keys).1 = _
    rw [hfound, hrest, List.countP_cons, Nat.add_comm]

theorem deleteMany_append (s : Store) (now : Nat) (ks ls : List String) :
    s.deleteMany now (ks ++ ls) =
      ((s.deleteMany now ks).1 + ((s.deleteMany now ks).2.deleteMany now ls).1,
        ((s.deleteMany now ks).2.deleteMany now ls).2) := by
  induction ks generalizing s with
  | nil => simp [deleteMany]
  | cons k ks ih =>
    change ((if (s.delete now k).1 = true then 1 else 0) +
      ((s.delete now k).2.deleteMany now (ks ++ ls)).1,
      ((s.delete now k).2.deleteMany now (ks ++ ls)).2) = _
    rw [ih, ← Nat.add_assoc]
    rfl

/-- Of two lists without repetition, as many items of the one are in the other as the other way
round. -/
theorem countP_mem_comm {α : Type} [DecidableEq α] {l l' : List α} (h : l.Nodup) (h' : l'.Nodup) :
    l.countP (fun a => decide (a ∈ l')) = l'.countP (fun a => decide (a ∈ l)) := by
  rw [List.countP_eq_length_filter, List.countP_eq_length_filter]
  refine List.Perm.length_eq ((List.perm_ext_iff_of_nodup (h.filter _) (h'.filter _)).2 fun a => ?_)
  simp only [List.mem_filter, decide_eq_true_eq]
  exact And.comm

end CacheLayer.Store
