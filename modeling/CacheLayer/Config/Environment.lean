/-
Settings from environment variables. A variable that is not set leaves the
default of its setting alone; one that is set has to be well formed, blanks
around it aside. The variables are read in a fixed order, and the first that is
malformed is reported, before any objection to the settings as a whole.
-/
import CacheLayer.Config.Engine
import CacheLayer.Text.Numeral
import CacheLayer.Text.Quoted
import CacheLayer.Text.Split

namespace CacheLayer

/-- The texts of environment variables. -/
abbrev Environment := String → Option String

namespace Environment

/-- What the names of all variables begin with. -/
def start : String := "CACHE_ENGINE_"

def text? (env : Environment) (name : String) : Option String := env (start ++ name)

/-- Reads a variable that is set; the reader gets its text without the blanks around it. -/
def read {α : Type} (env : Environment) (name : String) (reader : String → Except String α) :
    Except Error (Option α) :=
  match env.text? name with
  | none => .ok none
  | some raw =>
    match reader (Text.trim raw) with
    | .ok a => .ok (some a)
    | .error why => .error (.config (start ++ name ++ "=" ++ Text.quote raw ++ ": " ++ why))

/-- Reads numbers up to a limit. -/
def number (limit : Nat) (s : String) : Except String Nat :=
  (Text.readNat limit s).mapError Text.NumeralFault.message

/-- The largest size and the largest time. -/
def maxWord : Nat := Nat.pow 2 64 - 1

/-- The largest number of retries. -/
def maxRetries : Nat := Nat.pow 2 32 - 1

def flag (s : String) : Except String Bool :=
  if s = "true" then .ok true
  else if s = "false" then .ok false
  else .error "provided string was not \x60true\x60 or \x60false\x60"

/-- Reads names of something. -/
def named {α : Type} (parse : String → Except Error α) (s : String) : Except String α :=
  (parse s).mapError Error.message

/-- The life of entries given in seconds, of which none are for good. -/
def life (seconds : Nat) : Option Nat :=
  if seconds = 0 then none else some (seconds * 1000)

def reload (env : Environment) : Except Error ReloadConfig := do
  let c : ReloadConfig := {}
  let mode ← env.read "RELOAD_STRATEGY" (named ReloadMode.parse)
  let lifeSeconds ← env.read "RELOAD_TTL_SECS" (number maxWord)
  let batchSize ← env.read "RELOAD_BATCH_SIZE" (number maxWord)
  let retries ← env.read "RELOAD_MAX_RETRIES" (number maxRetries)
  let retryDelay ← env.read "RELOAD_RETRY_DELAY_MS" (number maxWord)
  let intervalSeconds ← env.read "RELOAD_INTERVAL_SECS" (number maxWord)
  let warmUp ← env.read "WARM_UP" flag
  return {
    mode := mode.getD c.mode
    life := (lifeSeconds.map life).getD c.life
    batchSize := batchSize.getD c.batchSize
    maxRetries := retries.getD c.maxRetries
    retryDelay := retryDelay.getD c.retryDelay
    scheduled := (intervalSeconds.map fun n => decide (0 < n)).getD c.scheduled
    interval := (intervalSeconds.map (· * 1000)).getD c.interval
    warmUp := warmUp.getD c.warmUp
    warmUpKeys := ((env.text? "WARM_UP_KEYS").map Text.words).getD c.warmUpKeys }

def invalidation (env : Environment) : Except Error InvalidationConfig := do
  let c : InvalidationConfig := {}
  let batchSize ← env.read "INVALIDATION_BATCH_SIZE" (number maxWord)
  let retries ← env.read "INVALIDATION_MAX_RETRIES" (number maxRetries)
  let retryDelay ← env.read "INVALIDATION_RETRY_DELAY_MS" (number maxWord)
  let maxEvents ← env.read "MAX_EVENTS" (number maxWord)
  return {
    batchSize := batchSize.getD c.batchSize
    maxRetries := retries.getD c.maxRetries
    retryDelay := retryDelay.getD c.retryDelay
    maxEvents := maxEvents.getD c.maxEvents }

/-- The settings of the engine, before they are validated. -/
def settings (env : Environment) : Except Error EngineConfig := do
  let c : EngineConfig := {}
  let policy ← env.read "STRATEGY" (named Policy.parse)
  let lifeSeconds ← env.read "DEFAULT_TTL_SECS" (number maxWord)
  let capacity ← env.read "WRITE_BEHIND_CAPACITY" (number maxWord)
  let codec ← env.read "CODEC" (named Codec.parse)
  let reload ← env.reload
  let invalidation ← env.invalidation
  return {
    policy := policy.getD c.policy
    defaultLife := (lifeSeconds.map life).getD c.defaultLife
    queueCapacity := capacity.getD c.queueCapacity
    codec := codec.getD c.codec
    reload := reload
    invalidation := invalidation }

/-- The settings that the environment gives, if they are well formed and valid. -/
def config (env : Environment) : Except Error EngineConfig := do
  let c ← env.settings
  c.validate
  return c

end Environment
end CacheLayer
