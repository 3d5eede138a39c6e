/-
Counts and running averages of what a strategy and a reloader have done. An
average is kept without its history: each new sample moves it by its share,
and the division rounds down. Durations are nanoseconds of at most 64 bits.
-/

namespace CacheLayer

/-- The longest duration that is kept. -/
def maxDuration : Nat := Nat.pow 2 64 - 1

/-- The average of `count` samples, of which all but the last had the average `avg`. -/
def runningAverage (avg count sample : Nat) : Nat :=
  if count ≤ 1 then sample else min ((avg * (count - 1) + sample) / count) maxDuration

/-- The share of hits among hits and misses, zero without any. -/
def rate (hits misses : Nat) : Float :=
  if hits + misses = 0 then 0 else Float.ofNat hits / Float.ofNat (hits + misses)

/-- What a strategy has done. -/
structure StrategyStats where
  hits : Nat := 0
  misses : Nat := 0
  writes : Nat := 0
  deletes : Nat := 0
  errors : Nat := 0
  readTime : Nat := 0
  writeTime : Nat := 0
  /-- Something was counted since the start. -/
  used : Bool := false
  /-- Reads that went into the average. -/
  timed : Nat := 0
  deriving DecidableEq, Repr, Inhabited

namespace StrategyStats

/-- A read took so long. -/
def addRead (s : StrategyStats) (elapsed : Nat) : StrategyStats :=
  { s with
    timed := s.timed + 1
    readTime := runningAverage s.readTime (s.timed + 1) elapsed
    used := true }

def hit (s : StrategyStats) (elapsed : Nat) : StrategyStats :=
  { s with hits := s.hits + 1 }.addRead elapsed

def miss (s : StrategyStats) (elapsed : Nat) : StrategyStats :=
  { s with misses := s.misses + 1 }.addRead elapsed

def write (s : StrategyStats) (elapsed : Nat) : StrategyStats :=
  { s with
    writes := s.writes + 1
    writeTime := runningAverage s.writeTime (s.writes + 1) elapsed
    used := true }

def delete (s : StrategyStats) : StrategyStats :=
  { s with deletes := s.deletes + 1, used := true }

def error (s : StrategyStats) : StrategyStats :=
  { s with errors := s.errors + 1, used := true }

/-- The share of reads answered from the cache. -/
def hitRate (s : StrategyStats) : Float := rate s.hits s.misses

/-- The statistics as they come back from storage: how many reads went into the average is not
kept. -/
def stored (s : StrategyStats) : StrategyStats := { s with timed := 0 }

end StrategyStats

/-- What a reloader has done. -/
structure ReloadStats where
  total : Nat := 0
  succeeded : Nat := 0
  failed : Nat := 0
  time : Nat := 0
  /-- There was a reload. -/
  any : Bool := false
  hits : Nat := 0
  misses : Nat := 0
  deriving DecidableEq, Repr, Inhabited

namespace ReloadStats

/-- A reload has ended. -/
def reload (s : ReloadStats) (ok : Bool) (elapsed : Nat) : ReloadStats :=
  { s with
    total := s.total + 1
    succeeded := s.succeeded + (if ok then 1 else 0)
    failed := s.failed + (if ok then 0 else 1)
    time := runningAverage s.time (s.total + 1) elapsed
    any := true }

/-- The cache was asked for a key. -/
def access (s : ReloadStats) (hit : Bool) : ReloadStats :=
  if hit then { s with hits := s.hits + 1 } else { s with misses := s.misses + 1 }

def hitRate (s : ReloadStats) : Float := rate s.hits s.misses

end ReloadStats
end CacheLayer
