/-
Invalidation of keys, with the keys that depend on them; of patterns; of tags;
and of everything.

The dependents of a key are kept in the engine's memory and copied to a set in
the store, which is asked only about keys of which memory knows nothing.
Invalidating a key removes its direct dependents and no further ones. Removal by
tags also strikes the tagged keys off every tag's set.
-/
import CacheLayer.Client
import CacheLayer.Invalidation.Event
import CacheLayer.Marker

namespace CacheLayer.Invalidation

variable {V : Type}

/-! ## Dependencies and tags -/

/-- The memory that knows more dependents of a key. -/
def addDependents (key : String) (dependents : KeySet) (m : Memory V) : Memory V :=
  let known := (m.dependents.get? key).getD KeyMap.empty
  { m with dependents := m.dependents.insert key (known.union dependents) }

/-- Makes keys depend on a key. -/
def addDependency (key : String) (dependents : List String) : Action V Unit := do
  if dependents.isEmpty then return ()
  Action.always (Program.change (addDependents key (KeySet.ofMembers dependents)))
  let _ ← Client.addMembers (Marker.dependency key) dependents
  let _ ← Client.expire (Marker.dependency key) Marker.dependencyLife

/-- Forgets the dependents of a key. -/
def removeDependency (key : String) : Action V Unit := do
  Action.always (Program.change fun m => { m with dependents := m.dependents.erase key })
  let _ ← Client.delete (Marker.dependency key)

/-- The direct dependents of a key in increasing order. What only the store knew is remembered. -/
def dependents (key : String) : Action V (List String) := do
  let m ← Action.always Program.memory
  match m.dependents.get? key with
  | some known => return known.keys
  | none =>
    let stored ← Client.members (Marker.dependency key)
    if stored.isEmpty then return []
    let known := KeySet.ofMembers stored
    Action.always (Program.change (addDependents key known))
    return known.keys

/-- Keys and their direct dependents. -/
def withDependents : List String → Action V KeySet
  | [] => return KeyMap.empty
  | key :: keys => do
    let own ← dependents key
    let rest ← withDependents keys
    return ((KeySet.ofMembers own).add key).union rest

def addTags (key : String) : List String → Action V Unit
  | [] => return ()
  | tag :: tags => do
    let _ ← Client.addMembers (Marker.tag tag) [key]
    addTags key tags

def tagMembers (tag : String) : Action V (List String) := do
  return (KeySet.ofMembers (← Client.members (Marker.tag tag))).keys

/-! ## Removal -/

/-- Tries an action up to its last attempt, waiting longer after each failure. -/
def retryFrom (delay last : Nat) (a : Action V Nat) (attempt : Nat) : Nat → Action V Nat
  | 0 => do
    match ← Action.always a.outcome with
    | .ok n => return n
    | .error e => throw (.retriesExhausted last e.message)
  | more + 1 => do
    match ← Action.always a.outcome with
    | .ok n => return n
    | .error _ =>
      Action.always (Program.pause (delay * attempt))
      retryFrom delay last a (attempt + 1) more

/-- Tries an action as often as the settings say, at least once. -/
def retry (c : InvalidationConfig) (a : Action V Nat) : Action V Nat :=
  retryFrom c.retryDelay (max c.maxRetries 1) a 1 (max c.maxRetries 1 - 1)

/-- Deletes chunks of keys, each with retries, and counts the keys that were there. -/
def deleteChunks (c : InvalidationConfig) : List (List String) → Action V Nat
  | [] => return 0
  | chunk :: rest => do
    let n ← retry c (Client.deleteMany chunk)
    return n + (← deleteChunks c rest)

/-- Deletes keys and counts those that were there. -/
def deleteKeys (keys : List String) : Action V Nat := do
  let m ← Action.always Program.memory
  deleteChunks m.config.invalidation (chunks m.config.invalidation.batchSize keys)

/-! ## The log -/

/-- The last place of a list of so many values, in the numbers of the store. -/
def lastPlace (count : Nat) : Int := min (count : Int) (Int.pow 2 63 - 1) - 1

/-- Puts an event into the log, which keeps the latest ones. -/
def append (c : InvalidationConfig) (e : InvalidationEvent) : Action V Unit := do
  let _ ← Client.pushFront InvalidationEvent.format Marker.events [e]
  Client.trim Marker.events 0 (lastPlace (max c.maxEvents 1))
  let _ ← Client.expire Marker.events Marker.eventsLife

/-- Logs an invalidation, if events are recorded. A duration that leaves the range of a word stays
at its end. That the log fails does not matter. -/
def record (target kind : String) (removed start : Nat) : Program V Unit := do
  let m ← Program.memory
  if m.config.invalidation.recordEvents then
    let now ← Program.now
    let e : InvalidationEvent :=
      ⟨target, kind, Text.Timestamp.ofMillis now, removed, min (now - start) maxDuration⟩
    (append m.config.invalidation e).ignore

/-- The latest events of the log, the latest first. -/
def recentEvents (limit : Nat) : Action V (List InvalidationEvent) := do
  if limit = 0 then return []
  Client.range InvalidationEvent.format Marker.events 0 (lastPlace limit)

/-! ## Invalidation -/

/-- Removes a key and its direct dependents. -/
def invalidate (key : String) : Action V Nat := do
  let start ← Action.always Program.now
  let targets := (KeySet.ofMembers (← dependents key)).add key
  let removed ← deleteKeys targets.keys
  Action.always (record key "key" removed start)
  return removed

/-- Removes the keys that match a pattern, and their direct dependents. -/
def invalidatePattern (pattern : String) : Action V Nat := do
  let start ← Action.always Program.now
  let targets ← withDependents (← Client.scanKeys pattern)
  let removed ← deleteKeys targets.keys
  Action.always (record pattern "pattern" removed start)
  return removed

/-- Strikes members off sets. -/
def strike (members : List String) : List String → Action V Unit
  | [] => return ()
  | set :: sets => do
    let _ ← Client.removeMembers set members
    strike members sets

/-- Removes the keys with any of some tags, and their direct dependents, and strikes the keys off
every tag's set. -/
def invalidateTags (tags : List String) : Action V Nat := do
  let start ← Action.always Program.now
  let members ← Client.union (tags.map Marker.tag)
  let target := ",".intercalate tags
  if members.isEmpty then
    Action.always (record target "tags" 0 start)
    return 0
  let targets ← withDependents members
  let removed ← deleteKeys targets.keys
  strike members (← Client.scanKeys Marker.tagPattern)
  Action.always (record target "tags" removed start)
  return removed

/-- Empties the store and forgets all dependents. -/
def invalidateAll : Action V Unit := do
  let start ← Action.always Program.now
  Client.flush
  Action.always (Program.change fun m => { m with dependents := KeyMap.empty })
  Action.always (record "*" "all" 0 start)

end CacheLayer.Invalidation
