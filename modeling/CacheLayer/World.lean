/-
What lies outside of the engines and outlives them: the clock, the store, the
sources, and the notes that were taken. Store and sources can be scripted to
fail: a script says of each coming request whether it fails, and with which
error, before it does anything. A source can also be slow.
-/
import CacheLayer.Hook
import CacheLayer.Memory
import CacheLayer.Source.Basic
import CacheLayer.Store.Call

namespace CacheLayer

/-- What happens to the coming requests of one kind; after its end they succeed. -/
abbrev Script := List (Option Error)

/-- The scripts with a new one for a kind of request. -/
def rescript {M : Type} [DecidableEq M] (scripts : M → Script) (m : M) (script : Script) :
    M → Script :=
  fun m' => if m' = m then script else scripts m'

/-- The failure of the next request of a kind, and the scripts after it. -/
def nextFault {M : Type} [DecidableEq M] (scripts : M → Script) (m : M) :
    Option Error × (M → Script) :=
  match scripts m with
  | [] => (none, scripts)
  | fault :: rest => (fault, rescript scripts m rest)

/-- A source as it can be reached. -/
structure Site (V : Type) where
  source : Source V
  scripts : Source.Method → Script
  /-- How long a request takes before it is served. -/
  latency : Source.Method → Nat

namespace Site

variable {V : Type}

def ofSource (s : Source V) : Site V := ⟨s, fun _ => [], fun _ => 0⟩

instance : Inhabited (Site V) := ⟨ofSource default⟩

/-- The site at which a kind of request is scripted. -/
def script (s : Site V) (m : Source.Method) (script : Script) : Site V :=
  { s with scripts := rescript s.scripts m script }

/-- The site at which a kind of request takes some time. -/
def delay (s : Site V) (m : Source.Method) (ms : Nat) : Site V :=
  { s with latency := fun m' => if m' = m then ms else s.latency m' }

/-- Serves a request, or fails as scripted. -/
def serve (s : Site V) (c : Source.Call V) : Except Error c.Reply × Site V :=
  match nextFault s.scripts c.method with
  | (some e, scripts) => (.error e, { s with scripts := scripts })
  | (none, scripts) =>
    let (r, source) := c.run s.source
    (r, { s with source := source, scripts := scripts })

end Site

/-- Something worth noting. -/
inductive Note (V : Type) where
  | hit (key : String)
  | miss (key : String)
  | stored (key : String)
  | deleted (key : String)
  | failed (key : String) (e : Error)
  | hook (call : HookCall V)

/-- The note in words, given the words for values and for errors. -/
def Note.describe {V : Type} (value : V → String) (error : Error → String) : Note V → String
  | .hit key => "hit " ++ key
  | .miss key => "miss " ++ key
  | .stored key => "set " ++ key
  | .deleted key => "delete " ++ key
  | .failed key e => "error " ++ key ++ " " ++ error e
  | .hook call => call.describe value error

/-- Everything outside of the engines. -/
structure World (V : Type) where
  /-- The clock, in milliseconds. -/
  now : Nat
  store : Store
  scripts : Store.Method → Script
  /-- The answers of the coming health checks; after their end the store is healthy. -/
  health : List (Except Error Bool)
  sites : SourceId → Site V
  /-- How many numbers were drawn that are used once. -/
  drawn : Nat
  /-- The notes, the latest first. -/
  notes : List (Note V)

namespace World

variable {V : Type}

/-- An empty store before a source, at time zero. -/
def start (source : Source V) : World V where
  now := 0
  store := Store.empty
  scripts _ := []
  health := []
  sites
    | .main => Site.ofSource source
    | .other _ => default
  drawn := 0
  notes := []

instance : Inhabited (World V) := ⟨start default⟩

/-- The world with the site of a source changed. -/
def onSite (w : World V) (id : SourceId) (f : Site V → Site V) : World V :=
  let site := f (w.sites id)
  { w with sites := fun id' => if id' = id then site else w.sites id' }

/-- The world with a source changed. -/
def onSource (w : World V) (id : SourceId) (f : Source V → Source V) : World V :=
  w.onSite id fun site => { site with source := f site.source }

/-- The world in which a kind of command is scripted. -/
def script (w : World V) (m : Store.Method) (script : Script) : World V :=
  { w with scripts := rescript w.scripts m script }

/-- Carries out a command of the store, or fails as scripted. -/
def command (w : World V) (c : Store.Call) : Except Error c.Reply × World V :=
  match nextFault w.scripts c.method with
  | (some e, scripts) => (.error e, { w with scripts := scripts })
  | (none, scripts) =>
    let (r, store) := c.run w.now w.store
    (r, { w with store := store, scripts := scripts })

/-- Serves a request to a source. -/
def request (w : World V) (id : SourceId) (c : Source.Call V) : Except Error c.Reply × World V :=
  let (r, site) := (w.sites id).serve c
  (r, w.onSite id fun _ => site)

/-- Answers a health check. -/
def checkHealth (w : World V) : Except Error Bool × World V :=
  match w.health with
  | [] => (.ok true, w)
  | answer :: rest => (answer, { w with health := rest })

end World
end CacheLayer
