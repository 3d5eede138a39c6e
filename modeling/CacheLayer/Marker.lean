/-
The keys that the cache keeps for itself, all in the namespace `cache:`, and
how long their entries live. Every other key is the caller's.
-/

namespace CacheLayer.Marker

/-- The first part of every marker key. -/
def space : String := "cache"

/-- The marker of a cache that has been warmed up. -/
def warmedUp : String := "cache:warmed_up"

/-- The log of invalidations. -/
def events : String := "cache:invalidation_events"

/-- The set in which the dependents of a key outlive the engine. -/
def dependency (key : String) : String := space ++ ":dependency:" ++ key

/-- The set of the keys that carry a tag. -/
def tag (name : String) : String := space ++ ":tag:" ++ name

/-- The pattern that every set of a tag matches. -/
def tagPattern : String := space ++ ":tag:*"

def hour : Nat := 60 * 60 * 1000

/-- How long the marker of a warm cache lives. -/
def warmedUpLife : Nat := 24 * hour

/-- How long a set of dependents lives. -/
def dependencyLife : Nat := 24 * hour

/-- How long the log of invalidations lives after its last event. -/
def eventsLife : Nat := 7 * 24 * hour

end CacheLayer.Marker
