/-
Averages that are kept without their history. Each sample is weighed in with a division that rounds
down, and the next one starts from what that left. The average stays between the least and the greatest
sample all the same, and a division by `n` takes less than `n` off the sum, so that after `n` samples
at most half of `n * (n - 1)` is missing (`IsAverage.cons`). The words it is computed in are wide
enough: with 64 bits for every duration and every count, nothing overflows (`wordAverageOf?_eq`).

What holds of samples is carried to the statistics by the samples that went into their averages, those
of the recordings since the last reset (`StrategyStats.after_eq`, `ReloadStats.after_eq`).

Main statement: `averages_close`.
-/
import CacheLayer.Stats
import Mathlib.Algebra.BigOperators.Intervals

namespace CacheLayer

variable {avg n x : Nat} {samples : List Nat}

/-! ## One sample -/

/-- A sample is weighed in between the average and itself. -/
theorem weighed_between (avg n x : Nat) :
    min avg x ≤ (avg * n + x) / (n + 1) ∧ (avg * n + x) / (n + 1) ≤ max avg x := by
  constructor
  · rw [Nat.le_div_iff_mul_le (Nat.succ_pos n), Nat.mul_succ]
    have havg : min avg x * n ≤ avg * n := Nat.mul_le_mul_right n (Nat.min_le_left avg x)
    omega
  · refine Nat.div_le_of_le_mul ?_
    rw [Nat.succ_mul, Nat.mul_comm n]
    have havg : avg * n ≤ max avg x * n := Nat.mul_le_mul_right n (Nat.le_max_left avg x)
    omega

/-- Between durations nothing is cut off. -/
theorem runningAverage_succ (havg : avg ≤ maxDuration) (hx : x ≤ maxDuration) :
    runningAverage avg (n + 1) x = (avg * n + x) / (n + 1) := by
  have hbound := (weighed_between avg n x).2
  unfold runningAverage
  split
  · next hn =>
    obtain rfl : n = 0 := by omega
    simp
  · rw [Nat.add_sub_cancel]
    omega

/-! ## Many samples -/

/-- The number is an average of the samples, up to what the divisions may have rounded off. -/
structure IsAverage (a : Nat) (samples : List Nat) : Prop where
  least : ∃ x ∈ samples, x ≤ a
  greatest : ∃ x ∈ samples, a ≤ x
  le_sum : samples.length * a ≤ samples.sum
  sum_le : samples.sum ≤ samples.length * a + samples.length * (samples.length - 1) / 2

namespace IsAverage

theorem single (x : Nat) : IsAverage x [x] := by
  refine ⟨⟨x, ?_⟩, ⟨x, ?_⟩, ?_, ?_⟩ <;> simp

/-- The divisions so far have rounded off their share, and this one takes less than the count. -/
theorem cons (h : IsAverage avg samples) (havg : avg ≤ maxDuration) (hx : x ≤ maxDuration) :
    IsAverage (runningAverage avg (samples.length + 1) x) (x :: samples) := by
  obtain ⟨⟨l, hl, hlavg⟩, ⟨g, hg, havgg⟩, hle, hge⟩ := h
  obtain ⟨hmin, hmax⟩ := weighed_between avg samples.length x
  have hfloor := Nat.mul_div_le (avg * samples.length + x) (samples.length + 1)
  have hceil := Nat.lt_mul_div_succ (avg * samples.length + x) (Nat.succ_pos samples.length)
  have hlost := Nat.triangle_succ samples.length
  rw [runningAverage_succ havg hx]
  generalize (avg * samples.length + x) / (samples.length + 1) = q at hmin hmax hfloor hceil ⊢
  rw [Nat.succ_eq_add_one, Nat.mul_succ] at hceil
  rw [Nat.mul_comm] at hle
  rw [Nat.mul_comm samples.length avg] at hge
  refine ⟨?_, ?_, ?_, ?_⟩
  · by_cases hxavg : x ≤ avg
    · exact ⟨x, by simp, by omega⟩
    · exact ⟨l, by simp [hl], by omega⟩
  · by_cases hxavg : x ≤ avg
    · exact ⟨g, by simp [hg], by omega⟩
    · exact ⟨x, by simp, by omega⟩
  · rw [List.length_cons, List.sum_cons]
    omega
  · rw [List.length_cons, List.sum_cons, hlost]
    omega

end IsAverage

/-- The running average of samples, the latest first. -/
def averageOf : List Nat → Nat
  | [] => 0
  | x :: earlier => runningAverage (averageOf earlier) (earlier.length + 1) x

theorem averageOf_le (h : ∀ x ∈ samples, x ≤ maxDuration) : averageOf samples ≤ maxDuration := by
  induction samples with
  | nil => exact Nat.zero_le _
  | cons x earlier ih =>
    obtain ⟨hx, hearlier⟩ := List.forall_mem_cons.1 h
    have hbound := (weighed_between (averageOf earlier) earlier.length x).2
    have havg := ih hearlier
    rw [averageOf, runningAverage_succ havg hx]
    omega

theorem isAverage_averageOf (hne : samples ≠ []) (h : ∀ x ∈ samples, x ≤ maxDuration) :
    IsAverage (averageOf samples) samples := by
  induction samples with
  | nil => exact absurd rfl hne
  | cons x earlier ih =>
    obtain ⟨hx, hearlier⟩ := List.forall_mem_cons.1 h
    cases earlier with
    | nil => exact .single x
    | cons y earlier => exact (ih (by simp) hearlier).cons (averageOf_le hearlier) hx

/-! ## Arithmetic on words -/

/-- A number as an unsigned word of so many bits, unless it overflows. -/
def unsignedWord? (bits n : Nat) : Option Nat := if n < Nat.pow 2 bits then some n else none

theorem unsignedWord?_of_lt {bits n : Nat} (h : n < Nat.pow 2 bits) :
    unsignedWord? bits n = some n := if_pos h

/-- The running average where the count and the result are words of 64 bits, and the product and the
sum on the way are words of 128 bits. There is none if one of them overflows. -/
def wordAverage? (avg count sample : Nat) : Option Nat := do
  let count ← unsignedWord? 64 count
  if count ≤ 1 then return sample
  let product ← unsignedWord? 128 (avg * (count - 1))
  let total ← unsignedWord? 128 (product + sample)
  unsignedWord? 64 (total / count)

/-- The product of two words of 64 bits leaves room for a third one. -/
theorem wordAverage?_eq (hn : n + 1 ≤ maxDuration) (havg : avg ≤ maxDuration)
    (hx : x ≤ maxDuration) :
    wordAverage? avg (n + 1) x = some (runningAverage avg (n + 1) x) := by
  have hbound := (weighed_between avg n x).2
  have hproduct : avg * n ≤ maxDuration * (maxDuration - 1) := Nat.mul_le_mul havg (by omega)
  have hmax : maxDuration = 18446744073709551615 := rfl
  have hnarrow : Nat.pow 2 64 = 18446744073709551616 := rfl
  have hwide : Nat.pow 2 128 = 340282366920938463463374607431768211456 := rfl
  rw [hmax] at hproduct
  have hword : unsignedWord? 64 (n + 1) = some (n + 1) := unsignedWord?_of_lt (by omega)
  rw [runningAverage_succ havg hx]
  simp only [wordAverage?, Option.bind_eq_bind, hword, Option.bind_some]
  split
  · next hone =>
    obtain rfl : n = 0 := by omega
    simp
  · rw [Nat.add_sub_cancel, unsignedWord?_of_lt (by omega), Option.bind_some,
      unsignedWord?_of_lt (by omega), Option.bind_some]
    exact unsignedWord?_of_lt (by omega)

/-- The running average of samples in words, the latest sample first. -/
def wordAverageOf? : List Nat → Option Nat
  | [] => some 0
  | x :: earlier => do wordAverage? (← wordAverageOf? earlier) (earlier.length + 1) x

theorem wordAverageOf?_eq (hcount : samples.length ≤ maxDuration)
    (h : ∀ x ∈ samples, x ≤ maxDuration) :
    wordAverageOf? samples = some (averageOf samples) := by
  induction samples with
  | nil => rfl
  | cons x earlier ih =>
    obtain ⟨hx, hearlier⟩ := List.forall_mem_cons.1 h
    rw [List.length_cons] at hcount
    rw [wordAverageOf?, ih (by omega) hearlier]
    exact wordAverage?_eq hcount (averageOf_le hearlier) hx

/-- The number is kept as the average of the samples: as close to their mean as the divisions allow,
and the same as without a limit to the words. -/
structure Averages (a : Nat) (samples : List Nat) : Prop extends IsAverage a samples where
  words : wordAverageOf? samples = some a

theorem averages_averageOf (hne : samples ≠ []) (hcount : samples.length ≤ maxDuration)
    (h : ∀ x ∈ samples, x ≤ maxDuration) : Averages (averageOf samples) samples :=
  ⟨isAverage_averageOf hne h, wordAverageOf?_eq hcount h⟩

/-! ## Statistics -/

namespace StrategyStats

/-- Something that is recorded of a strategy. -/
inductive Recording where
  | hit (elapsed : Nat)
  | miss (elapsed : Nat)
  | write (elapsed : Nat)
  | delete
  | error
  /-- All is counted anew. -/
  | reset

def add (s : StrategyStats) : Recording → StrategyStats
  | .hit elapsed => s.hit elapsed
  | .miss elapsed => s.miss elapsed
  | .write elapsed => s.write elapsed
  | .delete => s.delete
  | .error => s.error
  | .reset => {}

/-- The statistics after recordings, the latest of which comes first. -/
def after (log : List Recording) : StrategyStats := log.foldr (fun r s => s.add r) {}

/-- How long the reads took since the last reset, the latest first. -/
def readTimes : List Recording → List Nat
  | [] | .reset :: _ => []
  | .hit elapsed :: earlier | .miss elapsed :: earlier => elapsed :: readTimes earlier
  | .write _ :: earlier | .delete :: earlier | .error :: earlier => readTimes earlier

/-- How long the writes took since the last reset, the latest first. -/
def writeTimes : List Recording → List Nat
  | [] | .reset :: _ => []
  | .write elapsed :: earlier => elapsed :: writeTimes earlier
  | .hit _ :: earlier | .miss _ :: earlier | .delete :: earlier | .error :: earlier =>
    writeTimes earlier

/-- The averages are those of the times since the last reset, and their counts as well. -/
theorem after_eq (log : List Recording) :
    (after log).timed = (readTimes log).length ∧ (after log).readTime = averageOf (readTimes log) ∧
      (after log).writes = (writeTimes log).length ∧
      (after log).writeTime = averageOf (writeTimes log) := by
  induction log with
  | nil => exact ⟨rfl, rfl, rfl, rfl⟩
  | cons r earlier ih =>
    obtain ⟨htimed, hread, hwrites, hwrite⟩ := ih
    have hstep : after (r :: earlier) = (after earlier).add r := rfl
    cases r with
    | hit elapsed | miss elapsed =>
      simp [hstep, add, hit, miss, addRead, readTimes, writeTimes, averageOf, htimed, hread, hwrites,
        hwrite]
    | write elapsed =>
      simp [hstep, add, write, readTimes, writeTimes, averageOf, htimed, hread, hwrites, hwrite]
    | delete | error => exact ⟨htimed, hread, hwrites, hwrite⟩
    | reset => exact ⟨rfl, rfl, rfl, rfl⟩

end StrategyStats

namespace ReloadStats

/-- Something that is recorded of a reloader. -/
inductive Recording where
  | reload (ok : Bool) (elapsed : Nat)
  | access (hit : Bool)

def add (s : ReloadStats) : Recording → ReloadStats
  | .reload ok elapsed => s.reload ok elapsed
  | .access hit => s.access hit

/-- The statistics after recordings, the latest of which comes first. -/
def after (log : List Recording) : ReloadStats := log.foldr (fun r s => s.add r) {}

/-- How long the reloads took, the latest first. -/
def times : List Recording → List Nat
  | [] => []
  | .reload _ elapsed :: earlier => elapsed :: times earlier
  | .access _ :: earlier => times earlier

theorem after_eq (log : List Recording) :
    (after log).total = (times log).length ∧ (after log).time = averageOf (times log) := by
  induction log with
  | nil => exact ⟨rfl, rfl⟩
  | cons r earlier ih =>
    obtain ⟨htotal, htime⟩ := ih
    have hstep : after (r :: earlier) = (after earlier).add r := rfl
    cases r with
    | reload ok elapsed => simp [hstep, add, reload, times, averageOf, htotal, htime]
    | access hit => cases hit <;> exact ⟨htotal, htime⟩

end ReloadStats

/-- Durations of 64 bits, at least one of them and no more than 64 bits can count. -/
structure AreSamples (samples : List Nat) : Prop where
  ne_nil : samples ≠ []
  count : samples.length ≤ maxDuration
  fit : ∀ x ∈ samples, x ≤ maxDuration

/-- **Running averages stay close to the mean and never overflow.** Whatever is recorded, the average
of the reads and that of the writes since the last reset, and that of all reloads, lie between the least
and the greatest sample; times their number they are at most the sum of the samples, and less than it by
no more than half of `n * (n - 1)`. On the way nothing leaves its word and nothing is cut off. -/
theorem averages_close (log : List StrategyStats.Recording) (reloads : List ReloadStats.Recording) :
    (AreSamples (StrategyStats.readTimes log) →
      Averages (StrategyStats.after log).readTime (StrategyStats.readTimes log)) ∧
    (AreSamples (StrategyStats.writeTimes log) →
      Averages (StrategyStats.after log).writeTime (StrategyStats.writeTimes log)) ∧
    (AreSamples (ReloadStats.times reloads) →
      Averages (ReloadStats.after reloads).time (ReloadStats.times reloads)) := by
  obtain ⟨-, hread, -, hwrite⟩ := StrategyStats.after_eq log
  obtain ⟨-, hreload⟩ := ReloadStats.after_eq reloads
  rw [hread, hwrite, hreload]
  exact ⟨fun h => averages_averageOf h.ne_nil h.count h.fit,
    fun h => averages_averageOf h.ne_nil h.count h.fit,
    fun h => averages_averageOf h.ne_nil h.count h.fit⟩

/-- Three reads after a reset, each of which loses something to rounding; two writes at the ends of the
range; and reloads with an access between them. -/
theorem averages_close_rounded :
    Averages 1 [1, 2, 2] ∧ Averages 9223372036854775807 [0, 18446744073709551615] ∧
      Averages 15 [20, 10] := by
  obtain ⟨hread, hwrite, hreload⟩ := averages_close
    [.hit 1, .write 0, .miss 2, .error, .hit 2, .write 18446744073709551615, .reset, .hit 90]
    [.reload false 20, .access true, .reload true 10]
  refine ⟨hread ⟨?_, ?_, ?_⟩, hwrite ⟨?_, ?_, ?_⟩, hreload ⟨?_, ?_, ?_⟩⟩ <;> decide

end CacheLayer
