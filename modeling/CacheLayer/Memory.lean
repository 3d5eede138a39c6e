/-
What one engine keeps in memory: how it writes values, who is registered with
it, the strategy in force with its statistics, the lanes to the source, the
state of reloads, dependencies and the warm-up. All of it is lost when the
engine goes; what outlives the engine is in the store and in the sources.
-/
import CacheLayer.Codec
import CacheLayer.Config.Engine
import CacheLayer.Hook
import CacheLayer.Reload.Timetable
import CacheLayer.Stats
import CacheLayer.Transform.Registry
import CacheLayer.WriteBehind.Lane

namespace CacheLayer

/-- The name of a source. -/
inductive SourceId where
  /-- The source that reads and writes go to. -/
  | main
  /-- Another source, for reloads. -/
  | other (i : Nat)
  deriving DecidableEq, Repr

/-- The strategy in force. -/
structure Strategy where
  policy : Policy
  /-- How long entries live that are stored without a life of their own. -/
  life : Option Nat
  stats : StrategyStats
  /-- The lane on which changes travel to the source under `Policy.writeBehind`. -/
  lane : Nat

structure Memory (V : Type) where
  format : Format V
  config : EngineConfig
  transformers : Transformers
  hooks : Hooks V
  strategy : Strategy
  lanes : List (Lane V)
  reload : ReloadConfig
  reloadSource : SourceId
  reloadStats : ReloadStats
  /-- The timetable of scheduled reloads, while they run. -/
  timetable : Option Timetable
  /-- The dependents of keys, as far as this engine knows them. -/
  dependents : KeyMap KeySet
  /-- The engine has warmed the cache up, or has seen that it is warm. -/
  warm : Bool

namespace Memory

variable {V : Type}

/-- The memory before anything has happened: nothing is registered, and the strategy has neither
a default life nor a lane. -/
def blank (format : Format V) (config : EngineConfig) : Memory V where
  format := format
  config := config
  transformers := []
  hooks := []
  strategy := ⟨config.policy, none, {}, 0⟩
  lanes := []
  reload := config.reload
  reloadSource := .main
  reloadStats := {}
  timetable := none
  dependents := KeyMap.empty
  warm := false

def lane (m : Memory V) (i : Nat) : Lane V := m.lanes[i]?.getD default

/-- The memory with a lane changed. -/
def onLane (m : Memory V) (i : Nat) (f : Lane V → Lane V) : Memory V :=
  { m with lanes := m.lanes.modify i f }

/-- The memory with the statistics of the strategy changed. -/
def onStats (m : Memory V) (f : StrategyStats → StrategyStats) : Memory V :=
  { m with strategy := { m.strategy with stats := f m.strategy.stats } }

end Memory
end CacheLayer
