/-
The engine as a whole: how it is built, switched and closed, and the requests
that join several of its parts.
-/
import CacheLayer.Invalidation.Invalidator
import CacheLayer.Reload.Schedule
import CacheLayer.Strategy
import CacheLayer.WarmUp

namespace CacheLayer

/-- What an engine is built from. -/
structure Blueprint (V : Type) where
  format : Format V
  config : EngineConfig
  transformers : List Transformer := []
  hooks : List (Hook V) := []
  /-- How often a failed health check is repeated. -/
  connectRetries : Nat := 0

namespace Service

variable {V : Type}

/-! ## Building -/

/-- A number as far as a word of 64 bits goes. -/
def saturated (n : Nat) : Nat := min n (Nat.pow 2 64 - 1)

/-- The wait after a failed health check: a tenth of a second at first, then twice as long each
time, up to half a minute. Powers and products that leave the range of a word stay at its end. -/
def backoff (attempt : Nat) : Nat :=
  min (saturated (100 * saturated (Nat.pow 2 (attempt - 1)))) 30000

/-- One health check; a store that says it is not well is a failure. -/
def checkOnce : Action V Unit := do
  if !(← Action.checkHealth) then throw (.backend "health check failed")

/-- Checks the store's health until it is well, or up to the last attempt. -/
def awaitHealth (attempt : Nat) : Nat → Action V Unit
  | 0 => checkOnce
  | more + 1 => do
    match ← Action.always checkOnce.outcome with
    | .ok () => return ()
    | .error _ =>
      Action.always (Program.pause (backoff attempt))
      awaitHealth (attempt + 1) more

/-- How often the health is checked: once more than the check is repeated, as a word of 32 bits. -/
def healthAttempts (b : Blueprint V) : Program V Nat :=
  Program.word .add (b.connectRetries + 1) ((b.connectRetries + 1) % Nat.pow 2 32)

/-- Waits for a healthy store, for as many checks as the blueprint allows. -/
def awaitStore (b : Blueprint V) : Action V Unit := do
  let times ← Action.always (healthAttempts b)
  awaitHealth 1 (times - 1)

/-- The memory of a new engine. -/
def assemble (b : Blueprint V) (now : Nat) : Memory V :=
  let m := Memory.blank b.format b.config
  let m := { m with
    transformers := b.transformers.foldl Transformers.add []
    hooks := b.hooks.foldl Hooks.add []
    timetable :=
      if b.config.reload.scheduled ∧ b.config.reload.interval ≠ 0 then
        some (Timetable.start b.config.reload.interval now)
      else none }
  Strategy.install b.config.policy b.config.defaultLife b.config.queueCapacity m

/-- Builds an engine: valid settings and a healthy store are needed, a warm-up is not. -/
def build (b : Blueprint V) : Action V Unit := do
  Action.ofExcept b.config.validate
  awaitStore b
  let now ← Action.always Program.now
  Action.always (Program.change fun _ => assemble b now)
  if b.config.reload.warmUp then Action.always WarmUp.warmUp.ignore

/-! ## Requests -/

/-- The value of a key from the cache or, by way of a reload, from the source. -/
def getOrLoad (key : String) : Action V V := do
  let m ← Action.always Program.memory
  let access (hit : Bool) : Action V Unit := Action.always (Program.change fun m =>
    { m with reloadStats := m.reloadStats.access hit })
  match ← Action.always (Client.get m.format key).outcome with
  | .ok v =>
    access true
    return v
  | .error e =>
    if !e.isMiss then throw e
    access false
    if !m.reload.lazyLoading then throw (.cacheMiss key)
    Reload.reload key
    match ← Action.always (Client.get m.format key).outcome with
    | .ok v => return v
    | .error e =>
      if !e.isMiss then throw e
      -- a lazy reload has stored nothing
      match ← Action.request m.reloadSource (.loadOne key) with
      | some v => return v
      | none => throw (.notFound key)

/-- Changes the settings of reloads, if they are valid. -/
def setReloadConfig (c : ReloadConfig) : Action V Unit := do
  Action.ofExcept c.validate
  Action.always (Program.change fun m => { m with reload := c })

/-- Removes a key and its direct dependents, and reloads the key. -/
def invalidateAndReload (key : String) : Action V Unit := do
  let _ ← Invalidation.invalidate key
  Reload.reload key

/-- Empties the cache, which is not warm any more then. -/
def invalidateAll : Action V Unit := do
  Invalidation.invalidateAll
  WarmUp.reset

/-- Stores a value and puts tags on its key. -/
def setWithTags {α : Type} (f : Format α) (key : String) (a : α) (life : Option Nat)
    (tags : List String) : Action V Unit := do
  Client.set f key a life
  Invalidation.addTags key tags

/-- Stops scheduled reloads and flushes what is on its way to the source. -/
def close : Program V Unit := do
  Reload.stopSchedule
  let m ← Program.memory
  let _ ← Strategy.shutdown m.strategy true

end Service
end CacheLayer
