/-
The warm-up: many keys are loaded and stored before the first reads come, a
few chunks at a time. It takes place once: afterwards the engine knows that the
cache is warm, and a marker in the store tells engines that start later.
-/
import CacheLayer.Marker
import CacheLayer.Program.Gather
import CacheLayer.Reload.Reloader

namespace CacheLayer

/-- What a warm-up has done. -/
structure WarmUpResult where
  /-- False if the cache was warm already. -/
  performed : Bool
  result : ReloadResult
  deriving DecidableEq, Repr, Inhabited

namespace WarmUp

variable {V : Type}

/-- The engine has warmed the cache up, or the marker is there; then the engine remembers it. -/
def isWarm : Action V Bool := do
  let m ← Action.always Program.memory
  if m.warm then return true
  let marked ← Client.has Marker.warmedUp
  if marked then Action.always (Program.change fun m => { m with warm := true })
  return marked

/-- Remembers that the cache is warm, and leaves the marker. -/
def markWarm : Action V Unit := do
  Action.always (Program.change fun m => { m with warm := true })
  Client.set Format.flag Marker.warmedUp true (some Marker.warmedUpLife)

/-- Forgets that the cache is warm, here and in the store. -/
def reset : Action V Unit := do
  Action.always (Program.change fun m => { m with warm := false })
  let _ ← Client.delete Marker.warmedUp

/-- The keys that a warm-up is about: those of the settings, or else all of the source. -/
def candidates : Action V (List String) := do
  let m ← Action.always Program.memory
  if m.reload.warmUpKeys.isEmpty then Action.request m.reloadSource .listKeys
  else return m.reload.warmUpKeys

/-- The merged results of chunks, or the first error among them. -/
def total : List (Except Error ReloadResult) → Except Error ReloadResult
  | [] => .ok {}
  | .error e :: _ => .error e
  | .ok r :: rest => (total rest).map r.merge

/-- Loads and stores keys, several chunks at a time, whatever the mode of reloads is. -/
def load (keys : List String) : Action V ReloadResult := do
  let m ← Action.always Program.memory
  let parts := (chunks m.reload.batchSize keys).map fun chunk =>
    (Reload.loadChunk false chunk).outcome
  let results ← Action.always
    (Program.gather m.reload.warmUpConcurrency (2 * (m.reload.maxRetries + 1)) parts)
  Action.ofExcept (total results)

/-- Warms the cache up, unless it is warm. -/
def warmUp : Action V WarmUpResult := do
  if ← isWarm then return ⟨false, {}⟩
  let result ← load (← candidates)
  markWarm
  return ⟨true, result⟩

/-- Loads and stores the given keys, whether the cache is warm or not. -/
def warmUpKeys (keys : List String) : Action V WarmUpResult := do
  return ⟨true, ← load keys⟩

/-- Loads and stores those keys of a warm-up that pass a test. -/
def warmUpSelective (test : String → Bool) : Action V WarmUpResult := do
  return ⟨true, ← load ((← candidates).filter test)⟩

end WarmUp
end CacheLayer
