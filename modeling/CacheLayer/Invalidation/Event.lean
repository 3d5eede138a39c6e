/-
The events of the log of invalidations, and their stored form: a record of the
target, the kind of invalidation, the time, the number of removed keys and the
duration in milliseconds.
-/
import CacheLayer.Codec
import CacheLayer.Text.Timestamp

namespace CacheLayer

/-- An invalidation that has taken place. -/
structure InvalidationEvent where
  /-- A key, a pattern, tags between commas, or an asterisk for everything. -/
  target : String
  /-- What the target is: `key`, `pattern`, `tags` or `all`. -/
  kind : String
  time : String
  removed : Nat
  duration : Nat
  deriving DecidableEq, Repr, Inhabited

namespace InvalidationEvent

def schema : Schema :=
  .record (.field "target" .text (.field "strategy" .text (.field "timestamp" .text
    (.field "keys_invalidated" (.unsigned .w64) (.field "duration_ms" (.unsigned .w64) .none)))))

def toDatum (e : InvalidationEvent) : Datum :=
  .record [("target", .text e.target), ("strategy", .text e.kind), ("timestamp", .text e.time),
    ("keys_invalidated", .unsigned .w64 e.removed), ("duration_ms", .unsigned .w64 e.duration)]

/-- The event of a stored form whose time is an instant. -/
def ofDatum? : Datum → Option InvalidationEvent
  | .record [(_, .text target), (_, .text kind), (_, .text time), (_, .unsigned _ removed),
      (_, .unsigned _ duration)] =>
    if Text.Timestamp.isInstant time then some ⟨target, kind, time, removed, duration⟩ else none
  | _ => none

def format : Format InvalidationEvent where
  encode c e := (Format.ofSchema schema).encode c e.toDatum
  decode c b := do
    match ofDatum? (← (Format.ofSchema schema).decode c b) with
    | some e => return e
    | none => throw (.decoding "not an event")

end InvalidationEvent
end CacheLayer
