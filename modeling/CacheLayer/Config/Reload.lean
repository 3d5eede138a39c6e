/-
Settings of reloads and warm-ups. Times are in milliseconds.
-/
import CacheLayer.Error
import CacheLayer.Text.Blank

namespace CacheLayer

/-- How reloaded values reach the cache. -/
inductive ReloadMode where
  /-- Entries are overwritten in place. -/
  | refresh
  /-- A full reload empties the cache first. -/
  | replace
  /-- Values are checked, but not stored. -/
  | lazy
  /-- Like `refresh`. -/
  | scheduled
  deriving DecidableEq, Repr, Inhabited

namespace ReloadMode

def name : ReloadMode → String
  | .refresh => "refresh"
  | .replace => "replace"
  | .lazy => "lazy"
  | .scheduled => "scheduled"

/-- The mode of a name, in capital or small letters, blanks around it allowed. -/
def parse (s : String) : Except Error ReloadMode :=
  match Text.lower (Text.trim s) with
  | "refresh" => .ok .refresh
  | "replace" => .ok .replace
  | "lazy" => .ok .lazy
  | "scheduled" => .ok .scheduled
  | _ => .error (.config ("unknown reload strategy: " ++ s))

end ReloadMode

structure ReloadConfig where
  mode : ReloadMode := .refresh
  /-- How long a stored entry lives; `none` is for good. -/
  life : Option Nat := some (60 * 60 * 1000)
  batchSize : Nat := 100
  /-- How often a failed load is tried again. -/
  maxRetries : Nat := 3
  retryDelay : Nat := 100
  /-- A read that misses goes to the source through the reloader. -/
  lazyLoading : Bool := true
  scheduled : Bool := false
  interval : Nat := 5 * 60 * 1000
  warmUp : Bool := false
  /-- The keys to warm up; without any, all keys that the source lists. -/
  warmUpKeys : List String := []
  /-- How many batches are loaded at once during a warm-up. -/
  warmUpConcurrency : Nat := 4
  deriving DecidableEq, Repr, Inhabited

namespace ReloadConfig

def withMode (c : ReloadConfig) (mode : ReloadMode) : ReloadConfig := { c with mode := mode }

def withLife (c : ReloadConfig) (life : Option Nat) : ReloadConfig := { c with life := life }

/-- Sets the batch size, to at least one. -/
def withBatchSize (c : ReloadConfig) (n : Nat) : ReloadConfig := { c with batchSize := max n 1 }

def withRetries (c : ReloadConfig) (n delay : Nat) : ReloadConfig :=
  { c with maxRetries := n, retryDelay := delay }

def withLazyLoading (c : ReloadConfig) (on : Bool) : ReloadConfig := { c with lazyLoading := on }

/-- Switches scheduled reloads on. -/
def withSchedule (c : ReloadConfig) (interval : Nat) : ReloadConfig :=
  { c with scheduled := true, interval := interval }

/-- Switches the warm-up on, for the given keys. -/
def withWarmUp (c : ReloadConfig) (keys : List String) : ReloadConfig :=
  { c with warmUp := true, warmUpKeys := keys }

/-- Sets how many batches are loaded at once, to at least one. -/
def withWarmUpConcurrency (c : ReloadConfig) (n : Nat) : ReloadConfig :=
  { c with warmUpConcurrency := max n 1 }

/-- Refuses settings with which no reload can run. -/
def validate (c : ReloadConfig) : Except Error Unit :=
  if c.batchSize = 0 then .error (.config "batch_size must be at least 1")
  else if c.scheduled ∧ c.interval = 0 then
    .error (.config "reload_interval must be non-zero when scheduled reload is enabled")
  else .ok ()

end ReloadConfig
end CacheLayer
