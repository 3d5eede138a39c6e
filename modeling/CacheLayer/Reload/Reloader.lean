/-
Reloads: values are loaded from the source of the reloader, checked by it and
stored in the cache. Under `ReloadMode.lazy` nothing is stored; under
`ReloadMode.replace` a full reload empties the cache first.
-/
import CacheLayer.Client
import CacheLayer.Reload.Result

namespace CacheLayer.Reload

variable {V α : Type}

/-! ## Attempts -/

/-- How often a load is tried: once more than it is tried again, as a word of 32 bits. -/
def attempts (c : ReloadConfig) : Program V Nat :=
  Program.word .add (c.maxRetries + 1) ((c.maxRetries + 1) % Nat.pow 2 32)

/-- Tries an action, and after a failure again, so many times at most. -/
def retryTimes (delay : Nat) (a : Action V α) : Nat → Action V α
  | 0 => a
  | more + 1 => do
    match ← Action.always a.outcome with
    | .ok r => return r
    | .error _ =>
      Action.always (Program.pause delay)
      retryTimes delay a more

/-- Tries a load as often as the settings say. -/
def retry (c : ReloadConfig) (a : Action V α) : Action V α := do
  let times ← Action.always (attempts c)
  retryTimes c.retryDelay a (times - 1)

/-- Counts a reload that began at some time. -/
def record (ok : Bool) (start : Nat) : Program V Unit := do
  let elapsed := ((← Program.now) - start) * 1000000
  Program.change fun m => { m with reloadStats := m.reloadStats.reload ok elapsed }

/-! ## One key -/

/-- Calls the hooks for a phase and notes the calls. -/
def runHooks (phase : HookPhase V) : Action V Unit := do
  let m ← Action.always Program.memory
  let (calls, r) := m.hooks.run phase
  Action.always (calls.forM fun call => Program.note (.hook call))
  Action.ofExcept r

/-- Loads, checks and stores the value of a key, between the hooks. -/
def reloadSteps (key : String) : Action V Unit := do
  let m ← Action.always Program.memory
  runHooks (.before key)
  match ← retry m.reload (Action.request m.reloadSource (.loadOne key)) with
  | none => throw (.notFound key)
  | some v =>
    Action.judge m.reloadSource v
    if m.reload.mode ≠ .lazy then Client.set m.format key v m.reload.life
    runHooks (.after key v)

/-- Reloads a key. A failure is told to the hooks, whose own failures do not matter then. -/
def reload (key : String) : Action V Unit := do
  let start ← Action.always Program.now
  match ← Action.always (reloadSteps key).outcome with
  | .ok () => Action.always (record true start)
  | .error e =>
    Action.always (record false start)
    Action.always (runHooks (.failed key e)).ignore
    throw e

/-! ## Many keys -/

/-- What becomes of the keys of a chunk: their result so far, the loaded values that are left, and
the commands that store the others. -/
structure Sorting (V : Type) where
  result : ReloadResult
  loaded : KeyMap V
  steps : List BatchStep

/-- Sorts one key: a loaded value is checked and, unless it is only to be checked, made ready to be
stored. A value serves one occurrence of its key. -/
def sortKey (id : SourceId) (c : ReloadConfig) (f : Format V) (checkOnly : Bool)
    (s : Sorting V) (key : String) : Program V (Sorting V) :=
  match s.loaded.get? key with
  | none => return { s with result := s.result.fail key (.notFound key) }
  | some v => do
    let s := { s with loaded := s.loaded.erase key }
    match ← (Action.judge id v).outcome with
    | .error e => return { s with result := s.result.fail key e }
    | .ok () =>
      if checkOnly then return { s with result := s.result.succeed }
      else
        match ← (Client.encode f key v).outcome with
        | .error e => return { s with result := s.result.fail key e }
        | .ok b =>
          return { s with result := s.result.succeed, steps := s.steps ++ [.set key b c.life] }

/-- Checks and stores the loaded values of keys, with one batch. -/
def storeLoaded (id : SourceId) (c : ReloadConfig) (checkOnly : Bool) (keys : List String)
    (loaded : KeyMap V) : Action V ReloadResult := do
  let m ← Action.always Program.memory
  let s ← Action.always (keys.foldlM (sortKey id c m.format checkOnly) ⟨{}, loaded, []⟩)
  let _ ← Client.execute s.steps false
  return s.result

/-- Loads a chunk of keys and stores what passes the check. If the load fails, all its keys do. -/
def loadChunk (checkOnly : Bool) (keys : List String) : Action V ReloadResult := do
  let m ← Action.always Program.memory
  let load := retry m.reload (Action.request m.reloadSource (.loadBatch keys))
  match ← Action.always load.outcome with
  | .ok loaded => storeLoaded m.reloadSource m.reload checkOnly keys loaded
  | .error e => return keys.foldl (fun r key => r.fail key e) {}

/-- Goes through chunks of keys and merges their results. -/
def eachChunk (f : List String → Action V ReloadResult) : List (List String) →
    Action V ReloadResult
  | [] => return {}
  | chunk :: rest => do
    let r ← f chunk
    return r.merge (← eachChunk f rest)

/-- Counts an action as one reload, successful if every key was reloaded. -/
def counted (a : Action V ReloadResult) : Action V ReloadResult := do
  let start ← Action.always Program.now
  let r ← Action.always a.outcome
  let ok := match r with
    | .ok r => r.isSuccess
    | .error _ => false
  Action.always (record ok start)
  Action.ofExcept r

/-- Reloads keys, chunk by chunk. -/
def reloadBatch (keys : List String) : Action V ReloadResult := counted do
  let m ← Action.always Program.memory
  eachChunk (loadChunk (m.reload.mode == .lazy)) (chunks m.reload.batchSize keys)

/-- Reloads all that the source has. -/
def reloadAll : Action V ReloadResult := counted do
  let m ← Action.always Program.memory
  let c := m.reload
  if c.mode = .replace then Client.flush
  let loaded ← retry c (Action.request m.reloadSource .loadAll)
  eachChunk (fun keys => storeLoaded m.reloadSource c (c.mode == .lazy) keys loaded)
    (chunks c.batchSize loaded.keys)

end CacheLayer.Reload
