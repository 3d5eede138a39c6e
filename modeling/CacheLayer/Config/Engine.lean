/-
Settings of the whole engine, and of invalidations. Times are in milliseconds.
-/
import CacheLayer.Codec
import CacheLayer.Config.Reload
import CacheLayer.Policy

namespace CacheLayer

structure InvalidationConfig where
  /-- Keys in one deletion. -/
  batchSize : Nat := 100
  /-- How often a deletion is tried. -/
  maxRetries : Nat := 3
  /-- The wait after the first failure; after the second it is twice as long, and so on. -/
  retryDelay : Nat := 100
  /-- How many events the log keeps. -/
  maxEvents : Nat := 1000
  recordEvents : Bool := true
  deriving DecidableEq, Repr, Inhabited

namespace InvalidationConfig

/-- Sets the batch size, to at least one. -/
def withBatchSize (c : InvalidationConfig) (n : Nat) : InvalidationConfig :=
  { c with batchSize := max n 1 }

def withRetries (c : InvalidationConfig) (n delay : Nat) : InvalidationConfig :=
  { c with maxRetries := n, retryDelay := delay }

def withMaxEvents (c : InvalidationConfig) (n : Nat) : InvalidationConfig :=
  { c with maxEvents := n }

def withEventLog (c : InvalidationConfig) (on : Bool) : InvalidationConfig :=
  { c with recordEvents := on }

end InvalidationConfig

structure EngineConfig where
  policy : Policy := .readThrough
  /-- How long entries live that the policy stores; `none` is for good. -/
  defaultLife : Option Nat := some (60 * 60 * 1000)
  /-- How many writes may wait for the source. -/
  queueCapacity : Nat := 1000
  codec : Codec := .json
  reload : ReloadConfig := {}
  invalidation : InvalidationConfig := {}
  deriving DecidableEq, Repr, Inhabited

namespace EngineConfig

def withPolicy (c : EngineConfig) (policy : Policy) : EngineConfig := { c with policy := policy }

def withDefaultLife (c : EngineConfig) (life : Option Nat) : EngineConfig :=
  { c with defaultLife := life }

def withQueueCapacity (c : EngineConfig) (n : Nat) : EngineConfig := { c with queueCapacity := n }

def withCodec (c : EngineConfig) (codec : Codec) : EngineConfig := { c with codec := codec }

def withReload (c : EngineConfig) (reload : ReloadConfig) : EngineConfig :=
  { c with reload := reload }

def withInvalidation (c : EngineConfig) (invalidation : InvalidationConfig) : EngineConfig :=
  { c with invalidation := invalidation }

/-- Refuses settings with which the engine cannot run. -/
def validate (c : EngineConfig) : Except Error Unit :=
  if c.queueCapacity = 0 then .error (.config "write_behind_capacity must be at least 1")
  else if c.invalidation.batchSize = 0 then
    .error (.config "invalidation batch_size must be at least 1")
  else c.reload.validate

end EngineConfig
end CacheLayer
