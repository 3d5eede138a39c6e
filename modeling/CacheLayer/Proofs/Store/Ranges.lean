/-
Lists with inclusive signed ranges. `within` picks the items whose places lie
within a range, and the slices of the store are those (`slice_eq_within`). All
arithmetic on the way stays in range of signed words of 64 bits as long as the
length does (`wordBounds?_eq`), and the bounds that come out lie within the list
(`rangeBounds?_bounds`), so no slice is taken out of place.

Main statement: `lists_exact`.
-/
import CacheLayer.Proofs.Store.Container
import CacheLayer.Proofs.Text.Numeral

namespace CacheLayer.Store

variable {α : Type} {s : Store} {now : Nat} {key : String}

/-! ## Ranges -/

/-- The items at the places of a range. A bound below zero counts from the end, and a first place
before the beginning is the beginning. -/
def within (items : List α) (start stop : Int) : List α :=
  let lo := if start < 0 then max (items.length + start) 0 else start
  let hi := if stop < 0 then items.length + stop else stop
  (items.zipIdx.filter fun p => decide (lo ≤ (p.2 : Int) ∧ (p.2 : Int) ≤ hi)).map Prod.fst

/-- Items between two places of a list that is counted from `n` on. -/
theorem filter_zipIdx (items : List α) (n lo hi : Nat) :
    ((items.zipIdx n).filter fun p => decide (lo ≤ p.2 ∧ p.2 ≤ hi)).map Prod.fst =
      (items.take (hi + 1 - n)).drop (lo - n) := by
  induction items generalizing n with
  | nil => simp
  | cons a items ih =>
    rw [List.zipIdx_cons]
    by_cases hlo : lo ≤ n
    · have hstart : lo - n = 0 := by omega
      have hstart' : lo - (n + 1) = 0 := by omega
      by_cases hhi : n ≤ hi
      · have htake : hi + 1 - n = (hi + 1 - (n + 1)) + 1 := by omega
        rw [List.filter_cons_of_pos (by simp [hlo, hhi]), List.map_cons, ih, hstart, hstart', htake]
        simp
      · have htake : hi + 1 - n = 0 := by omega
        have htake' : hi + 1 - (n + 1) = 0 := by omega
        rw [List.filter_cons_of_neg (by simp [hhi]), ih, htake, htake']
        simp
    · have hstart : lo - n = (lo - (n + 1)) + 1 := by omega
      rw [List.filter_cons_of_neg (by simp [hlo]), ih, hstart]
      by_cases hhi : n ≤ hi
      · have htake : hi + 1 - n = (hi + 1 - (n + 1)) + 1 := by omega
        rw [htake]
        simp
      · have htake : hi + 1 - n = 0 := by omega
        have htake' : hi + 1 - (n + 1) = 0 := by omega
        rw [htake, htake']
        simp

/-- The bounds of a range lie within the list, the first one not behind the last one. -/
theorem rangeBounds?_bounds {len lo hi : Nat} {start stop : Int}
    (h : rangeBounds? len start stop = some (lo, hi)) : lo ≤ hi ∧ hi < len := by
  by_cases hstart : start < 0 <;> by_cases hstop : stop < 0 <;>
    simp only [rangeBounds?, hstart, hstop, if_true, if_false] at h <;> split at h <;> cases h <;>
    omega

/-- A place of the list is within the bounds exactly if it is within the range. -/
theorem rangeBounds?_iff (len : Nat) (start stop : Int) {i : Nat} (hi : i < len) :
    ((if start < 0 then max (len + start) 0 else start) ≤ (i : Int) ∧
        (i : Int) ≤ if stop < 0 then len + stop else stop) ↔
      ∃ bounds, rangeBounds? len start stop = some bounds ∧ bounds.1 ≤ i ∧ i ≤ bounds.2 := by
  by_cases hstart : start < 0 <;> by_cases hstop : stop < 0 <;>
    simp only [rangeBounds?, hstart, hstop, if_true, if_false] <;> split <;> simp <;> omega

/-- A slice has the items at the places of its range. -/
theorem slice_eq_within (items : List Bytes) (start stop : Int) :
    slice items start stop = within items start stop := by
  have hplace {p : Bytes × Nat} (hp : p ∈ items.zipIdx) : p.2 < items.length := by
    have := List.snd_lt_add_of_mem_zipIdx hp
    omega
  unfold slice within
  simp only
  split
  · next lo hi hbounds =>
    have hfilter := filter_zipIdx items 0 lo hi
    rw [Nat.sub_zero, Nat.sub_zero] at hfilter
    rw [← hfilter]
    refine congrArg (List.map Prod.fst) (List.filter_congr fun p hp => ?_)
    rw [decide_eq_decide, rangeBounds?_iff _ _ _ (hplace hp), hbounds]
    simp
  · next hbounds =>
    have hnone : items.zipIdx.filter (fun p => decide (
        (if start < 0 then max (items.length + start) 0 else start) ≤ (p.2 : Int) ∧
          (p.2 : Int) ≤ if stop < 0 then items.length + stop else stop)) = [] := by
      refine List.filter_eq_nil_iff.2 fun p hp => ?_
      rw [decide_eq_true_eq, rangeBounds?_iff _ _ _ (hplace hp), hbounds]
      simp
    rw [hnone]
    rfl

/-! ## Arithmetic on words -/

/-- A number as a signed word of 64 bits, unless it overflows. -/
def word? (i : Int) : Option Int := if Text.fitsInt64 i then some i else none

/-- The bounds of a range, where the length and every sum is a signed word of 64 bits. There are none
if one of them overflows. -/
def wordBounds? (len start stop : Int) : Option (Option (Nat × Nat)) := do
  let len ← word? len
  let lo ← if start < 0 then (word? (len + start)).map (max · 0) else some start
  let hi ← if stop < 0 then word? (len + stop) else (word? (len - 1)).map (min stop ·)
  return if lo > hi ∨ lo ≥ len ∨ hi < 0 then none else some (lo.toNat, hi.toNat)

/-- Nothing overflows on the way to the bounds of a range. -/
theorem wordBounds?_eq {len : Nat} {start stop : Int} (hlen : Text.fitsInt64 len = true)
    (hstart : Text.fitsInt64 start = true) (hstop : Text.fitsInt64 stop = true) :
    wordBounds? len start stop = some (rangeBounds? len start stop) := by
  rw [Text.fitsInt64_iff] at hlen hstart hstop
  have hword {i : Int} (h : -9223372036854775808 ≤ i ∧ i ≤ 9223372036854775807) :
      word? i = some i := if_pos (Text.fitsInt64_iff.2 h)
  have hlast : word? (len - 1) = some ((len : Int) - 1) := hword (by omega)
  by_cases hlo : start < 0
  · have hfirst : word? (len + start) = some (len + start) := hword (by omega)
    by_cases hhi : stop < 0
    · have hend : word? (len + stop) = some (len + stop) := hword (by omega)
      simp only [wordBounds?, rangeBounds?, hword hlen, hlo, hhi, hfirst, hend, if_true,
        Option.bind_eq_bind, Option.bind_some, Option.map_some]
      rfl
    · simp only [wordBounds?, rangeBounds?, hword hlen, hlo, hhi, hfirst, hlast, if_true, if_false,
        Option.bind_eq_bind, Option.bind_some, Option.map_some]
      rfl
  · by_cases hhi : stop < 0
    · have hend : word? (len + stop) = some (len + stop) := hword (by omega)
      simp only [wordBounds?, rangeBounds?, hword hlen, hlo, hhi, hend, if_true, if_false,
        Option.bind_eq_bind, Option.bind_some]
      rfl
    · simp only [wordBounds?, rangeBounds?, hword hlen, hlo, hhi, hlast, if_false,
        Option.bind_eq_bind, Option.bind_some, Option.map_some]
      rfl

/-! ## Lists -/

/-- **Lists are lists.** On a key that holds a list, or nothing for an empty one, a push puts the
values before the list in reverse, or behind it, and tells the new length; a pop takes the first
item; a range is answered by the items at its places, and trimming leaves just those. The key keeps
its deadline and goes with its last item, and no other key is touched. No arithmetic overflows while
the length is a word, and what is sliced lies within the list. On a key of another type each of the
commands fails and the store is the same. -/
theorem lists_exact (s : Store) (now : Nat) (key : String) :
    (∀ xs, listShape.seen? (s.live? now key) = some xs →
      (∀ vs, s.pushFront now key vs = (.ok (vs.reverse ++ xs).length,
        s.place key (listShape.kept (vs.reverse ++ xs) (s.deadline? now key)))) ∧
      (∀ vs, s.pushBack now key vs = (.ok (xs ++ vs).length,
        s.place key (listShape.kept (xs ++ vs) (s.deadline? now key)))) ∧
      s.popFront now key =
        (.ok xs.head?, s.place key (listShape.kept xs.tail (s.deadline? now key))) ∧
      s.length now key = (.ok xs.length, s.place key (listShape.kept xs (s.deadline? now key))) ∧
      ∀ start stop,
        s.range now key start stop = (.ok (within xs start stop),
          s.place key (listShape.kept xs (s.deadline? now key))) ∧
        s.trim now key start stop = (.ok (),
          s.place key (listShape.kept (within xs start stop) (s.deadline? now key))) ∧
        (Text.fitsInt64 xs.length = true → Text.fitsInt64 start = true →
          Text.fitsInt64 stop = true →
          wordBounds? xs.length start stop = some (rangeBounds? xs.length start stop)) ∧
        ∀ lo hi, rangeBounds? xs.length start stop = some (lo, hi) → lo ≤ hi ∧ hi < xs.length) ∧
    (listShape.seen? (s.live? now key) = none →
      (∀ vs, s.pushFront now key vs = (.error (.wrongType key), s)) ∧
      (∀ vs, s.pushBack now key vs = (.error (.wrongType key), s)) ∧
      s.popFront now key = (.error (.wrongType key), s) ∧
      s.length now key = (.error (.wrongType key), s) ∧
      ∀ start stop,
        s.range now key start stop = (.error (.wrongType key), s) ∧
        s.trim now key start stop = (.error (.wrongType key), s)) ∧
    ∀ xs, (s.place key (listShape.kept xs (s.deadline? now key))).live? now key =
        listShape.kept xs (s.deadline? now key) ∧
      ∀ other t, other ≠ key →
        (s.place key (listShape.kept xs (s.deadline? now key))).live? t other =
          s.live? t other := by
  refine ⟨fun xs h => ⟨fun vs => ?_, fun vs => ?_, ?_, ?_, fun start stop => ⟨?_, ?_, ?_, ?_⟩⟩,
    fun h => ⟨fun vs => ?_, fun vs => ?_, ?_, ?_, fun start stop => ⟨?_, ?_⟩⟩, fun xs => ⟨?_, ?_⟩⟩
  · exact onContainer_seen h rfl (.inl rfl)
  · exact onContainer_seen h rfl (.inl rfl)
  · exact onContainer_seen h rfl (.inr rfl)
  · exact onContainer_seen h rfl (.inr rfl)
  · rw [← slice_eq_within]
    refine onContainer_seen h rfl (.inr ?_)
    rw [slice_eq_within]
    rfl
  · rw [← slice_eq_within]
    refine onContainer_seen h rfl (.inr ?_)
    rw [slice_eq_within]
    rfl
  · exact wordBounds?_eq
  · exact fun lo hi => rangeBounds?_bounds
  · exact onContainer_unseen h
  · exact onContainer_unseen h
  · exact onContainer_unseen h
  · exact onContainer_unseen h
  · exact onContainer_unseen h
  · exact onContainer_unseen h
  · exact live?_place_kept listShape xs
  · exact fun other t hne => live?_place_other _ hne t

/-- A list that dies at fifty, and a counter. -/
def queue : Store :=
  (Store.empty.put "q" ⟨.list [[1], [2], [3]], some 50⟩).put "n" ⟨.bytes [49], none⟩

/-- Two values are pushed, the ends of a word serve as bounds, and crossing bounds leave nothing. -/
theorem lists_exact_queue :
    queue.pushFront 10 "q" [[4], [5]] =
      (.ok 5, queue.put "q" ⟨.list [[5], [4], [1], [2], [3]], some 50⟩) ∧
    (queue.range 10 "q" (-9223372036854775808) (-2)).1 = .ok [[1], [2]] ∧
    queue.trim 10 "q" 2 1 = (.ok (), queue.drop "q") ∧
    wordBounds? 3 (-9223372036854775808) 9223372036854775807 = some (some (0, 2)) ∧
    queue.popFront 10 "n" = (.error (.wrongType "n"), queue) := by
  obtain ⟨hpush, -, -, -, hranges⟩ := (lists_exact queue 10 "q").1 [[1], [2], [3]] rfl
  refine ⟨hpush _, ?_, ?_, ?_, ((lists_exact queue 10 "n").2.1 rfl).2.2.1⟩
  · rw [(hranges (-9223372036854775808) (-2)).1]
    rfl
  · rw [(hranges 2 1).2.1]
    rfl
  · exact (hranges (-9223372036854775808) 9223372036854775807).2.2.1 rfl rfl rfl

end CacheLayer.Store
