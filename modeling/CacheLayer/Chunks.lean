/-
Lists cut into chunks of one size, the last of which may be shorter. A size of
zero acts as one.
-/

namespace CacheLayer

def chunks {α : Type} (size : Nat) : List α → List (List α)
  | [] => []
  | a :: as => (a :: as.take (size - 1)) :: chunks size (as.drop (size - 1))
termination_by l => l.length
decreasing_by
  simp only [List.length_drop, List.length_cons]
  omega

theorem chunks_nil {α : Type} (size : Nat) : chunks size ([] : List α) = [] := by
  rw [chunks]

theorem chunks_cons {α : Type} (size : Nat) (a : α) (as : List α) :
    chunks size (a :: as) =
      (a :: as.take (size - 1)) :: chunks size (as.drop (size - 1)) := by
  rw [chunks]

/-- Nothing is lost or moved. -/
theorem flatten_chunks {α : Type} (size : Nat) (l : List α) : (chunks size l).flatten = l := by
  induction l using chunks.induct size with
  | case1 => rw [chunks_nil]; rfl
  | case2 a as ih =>
    rw [chunks_cons, List.flatten_cons, ih]
    simp [List.take_append_drop]

/-- Each chunk begins where the one before ends. -/
theorem getElem?_chunks {α : Type} (size : Nat) (l : List α) (i : Nat) :
    (chunks size l)[i]? =
      if i * max size 1 < l.length then some ((l.drop (i * max size 1)).take (max size 1))
      else none := by
  obtain ⟨k, hk⟩ : ∃ k, max size 1 = k + 1 := ⟨max size 1 - 1, by omega⟩
  have hsize : size - 1 = k := by omega
  rw [hk]
  induction l using chunks.induct size generalizing i with
  | case1 => simp [chunks_nil]
  | case2 a as ih =>
    rw [hsize] at ih
    rw [chunks_cons, hsize]
    cases i with
    | zero => simp
    | succ i =>
      have hstep : (i + 1) * (k + 1) = i * (k + 1) + k + 1 := by rw [Nat.succ_mul, Nat.add_assoc]
      have hwithin : i * (k + 1) < as.length - k ↔ i * (k + 1) + k + 1 < as.length + 1 := by omega
      rw [List.getElem?_cons_succ, ih, hstep, List.drop_succ_cons, List.drop_drop,
        List.length_drop, List.length_cons, Nat.add_comm k (i * (k + 1))]
      simp only [hwithin]

end CacheLayer
