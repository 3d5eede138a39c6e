/-
Reads, writes and deletes by the strategy in force.

All policies read alike: the cache first and, on a miss, the source, whose value
is then stored. The caller gets a loaded value even if it could not be stored.
-/
import CacheLayer.Client
import CacheLayer.WriteBehind.Worker

namespace CacheLayer.Strategy

variable {V α : Type}

/-- Counts and notes what has happened. -/
def record (count : StrategyStats → StrategyStats) (n : Note V) : Program V Unit := do
  Program.change fun m => m.onStats count
  Program.note n

/-- Ends with an error that is counted and noted. -/
def fail (key : String) (e : Error) : Action V α := do
  Action.always (record StrategyStats.error (.failed key e))
  throw e

/-- The nanoseconds since a time. -/
def elapsedSince (start : Nat) : Program V Nat := do
  return ((← Program.now) - start) * 1000000

/-! ## Reading -/

/-- Loads the value of a key that is not in the cache, and stores it. -/
def load (key : String) (start : Nat) : Action V V := do
  match ← Action.always (Action.request .main (.loadOne key)).outcome with
  | .error e => fail key e
  | .ok found =>
    match found with
    | none =>
      let elapsed ← Action.always (elapsedSince start)
      Action.always (record (·.miss elapsed) (.miss key))
      throw (.notFound key)
    | some v =>
      let m ← Action.always Program.memory
      Action.always (Client.set m.format key v m.strategy.life).ignore
      let elapsed ← Action.always (elapsedSince start)
      Action.always (record (·.miss elapsed) (.miss key))
      return v

/-- The value of a key, from the cache or else from the source. -/
def read (key : String) : Action V V := do
  let start ← Action.always Program.now
  let m ← Action.always Program.memory
  match ← Action.always (Client.get m.format key).outcome with
  | .ok v =>
    let elapsed ← Action.always (elapsedSince start)
    Action.always (record (·.hit elapsed) (.hit key))
    return v
  | .error e => if e.isMiss then load key start else fail key e

/-! ## Writing -/

/-- Stores a value in the cache, for its own life or else the default one. -/
def cacheWrite (key : String) (v : V) (life : Option Nat) : Action V Unit := do
  let m ← Action.always Program.memory
  Client.set m.format key v (life <|> m.strategy.life)

def cacheDelete (key : String) : Action V Unit := do
  let _ ← Client.delete key

/-- Writes a value into the source. If that fails, the cache forgets what it was told before. -/
def storeOrForget (key : String) (v : V) : Action V Unit := do
  match ← Action.always (Action.request .main (.store key v)).outcome with
  | .ok () => return ()
  | .error e =>
    Action.always (cacheDelete key).ignore
    throw e

/-- Where a write goes, and in which order. -/
def writeSteps (s : Strategy) (key : String) (v : V) (life : Option Nat) : Action V Unit :=
  match s.policy with
  | .readThrough => do
    cacheWrite key v life
    Action.request .main (.store key v)
  | .writeThrough => do
    cacheWrite key v life
    storeOrForget key v
  | .writeBehind => do
    cacheWrite key v life
    WriteBehind.enqueue s.lane ⟨key, some v⟩
  | .cacheAside => do
    Action.request .main (.store key v)
    cacheWrite key v life

/-- Where a delete goes, and in which order. -/
def deleteSteps (s : Strategy) (key : String) : Action V Unit :=
  match s.policy with
  | .readThrough | .writeThrough => do
    cacheDelete key
    Action.request .main (.remove key)
  | .writeBehind => do
    cacheDelete key
    WriteBehind.enqueue s.lane ⟨key, none⟩
  | .cacheAside => do
    Action.request .main (.remove key)
    cacheDelete key

def write (key : String) (v : V) (life : Option Nat) : Action V Unit := do
  let start ← Action.always Program.now
  let m ← Action.always Program.memory
  match ← Action.always (writeSteps m.strategy key v life).outcome with
  | .ok () =>
    let elapsed ← Action.always (elapsedSince start)
    Action.always (record (·.write elapsed) (.stored key))
  | .error e => fail key e

def delete (key : String) : Action V Unit := do
  let m ← Action.always Program.memory
  match ← Action.always (deleteSteps m.strategy key).outcome with
  | .ok () => Action.always (record StrategyStats.delete (.deleted key))
  | .error e => fail key e

/-! ## Switching -/

/-- The memory with a new strategy in force, and with a lane for it if it needs one. -/
def install (policy : Policy) (life : Option Nat) (capacity : Nat) (m : Memory V) : Memory V :=
  { m with
    strategy := ⟨policy, life, {}, m.lanes.length⟩
    lanes := if policy = .writeBehind then m.lanes ++ [Lane.fresh capacity] else m.lanes }

/-- Ends what a strategy does in the background, and counts the changes that were flushed or
thrown away. -/
def shutdown (s : Strategy) (flush : Bool) : Program V Nat :=
  match s.policy with
  | .writeBehind => WriteBehind.shutdown s.lane flush
  | _ => return 0

/-- Puts another policy in force. The strategy before is shut down, its changes flushed. -/
def switch (policy : Policy) : Program V Unit := do
  let before ← Program.update fun m =>
    install policy m.config.defaultLife m.config.queueCapacity m
  let _ ← shutdown before.strategy true

end CacheLayer.Strategy
