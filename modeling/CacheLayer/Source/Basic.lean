/-
The source: the system of record that the cache stands in front of. It maps
keys to values, checks values before they are cached, and may refuse: loads
that touch certain keys fail, and so do all writes while it refuses them.

The requests of the engine are data (`Source.Call`), each with the type of its
answer, so that they can be counted, delayed and made to fail.
-/
import CacheLayer.Error
import CacheLayer.KeyMap

namespace CacheLayer

namespace Source

/-- The kinds of requests. -/
inductive Method where
  | loadOne | loadBatch | loadAll | listKeys | store | remove
  deriving DecidableEq, Repr

namespace Method

def name : Method → String
  | .loadOne => "load_one"
  | .loadBatch => "load_batch"
  | .loadAll => "load_all"
  | .listKeys => "list_keys"
  | .store => "store"
  | .remove => "remove"

def ofName? (name : String) : Option Method :=
  [loadOne, loadBatch, loadAll, listKeys, store, remove].find? fun m => m.name == name

end Method

/-- How many requests of each kind have arrived. -/
structure Counts where
  loadOne : Nat := 0
  loadBatch : Nat := 0
  loadAll : Nat := 0
  listKeys : Nat := 0
  store : Nat := 0
  remove : Nat := 0
  deriving DecidableEq, Repr, Inhabited

/-- One more request of a kind. -/
def Counts.count (c : Counts) : Method → Counts
  | .loadOne => { c with loadOne := c.loadOne + 1 }
  | .loadBatch => { c with loadBatch := c.loadBatch + 1 }
  | .loadAll => { c with loadAll := c.loadAll + 1 }
  | .listKeys => { c with listKeys := c.listKeys + 1 }
  | .store => { c with store := c.store + 1 }
  | .remove => { c with remove := c.remove + 1 }

end Source

/-- The system of record. -/
structure Source (V : Type) where
  rows : KeyMap V
  /-- Loads that touch one of these keys fail. -/
  failing : KeySet
  refusesWrites : Bool
  /-- Decides, in view of the rows, whether a loaded value may be cached. -/
  check : KeyMap V → V → Except Error Unit
  counts : Source.Counts

namespace Source

variable {V : Type}

/-- A source with rows that objects to nothing. -/
def ofRows (rows : KeyMap V) : Source V where
  rows := rows
  failing := KeyMap.empty
  refusesWrites := false
  check _ _ := .ok ()
  counts := {}

instance : Inhabited (Source V) := ⟨ofRows KeyMap.empty⟩

/-- Makes loads that touch a key fail. -/
def failKey (s : Source V) (key : String) : Source V :=
  { s with failing := s.failing.add key }

/-- Makes the source reject every value that is the same as what the key holds at that time. -/
def markInvalid (s : Source V) (same : V → V → Bool) (key : String) : Source V :=
  { s with
    check := fun rows v =>
      if (rows.get? key).any fun kept => same kept v then
        .error (.invalid "value marked invalid")
      else s.check rows v }

def judge (s : Source V) (v : V) : Except Error Unit := s.check s.rows v

/-- The failure of a load that touches a failing key. -/
def loadFailure (key : String) : Error := .source ("load failed for " ++ key)

def load (s : Source V) (key : String) : Except Error (Option V) :=
  if s.failing.contains key then .error (loadFailure key) else .ok (s.rows.get? key)

def loadMany (s : Source V) : List String → Except Error (KeyMap V)
  | [] => .ok KeyMap.empty
  | key :: keys => do
    let v? ← s.load key
    let rest ← s.loadMany keys
    return match v? with
      | some v => rest.insert key v
      | none => rest

def loadEvery (s : Source V) : Except Error (KeyMap V) :=
  match s.failing.keys with
  | key :: _ => .error (loadFailure key)
  | [] => .ok s.rows

def put (s : Source V) (key : String) (v : V) : Source V :=
  { s with rows := s.rows.insert key v }

def drop (s : Source V) (key : String) : Source V :=
  { s with rows := s.rows.erase key }

/-- A request of the engine. -/
inductive Call (V : Type) where
  | loadOne (key : String)
  | loadBatch (keys : List String)
  | loadAll
  | listKeys
  | store (key : String) (v : V)
  | remove (key : String)

namespace Call

def method : Call V → Method
  | .loadOne _ => .loadOne
  | .loadBatch _ => .loadBatch
  | .loadAll => .loadAll
  | .listKeys => .listKeys
  | .store _ _ => .store
  | .remove _ => .remove

/-- What a request answers when it does not fail. -/
abbrev Reply : Call V → Type
  | .loadOne _ => Option V
  | .loadBatch _ => KeyMap V
  | .loadAll => KeyMap V
  | .listKeys => List String
  | .store _ _ => Unit
  | .remove _ => Unit

/-- What a request answers and does to the rows. -/
def serve (s : Source V) : (c : Call V) → Except Error c.Reply × Source V
  | .loadOne key => (s.load key, s)
  | .loadBatch keys => (s.loadMany keys, s)
  | .loadAll => (s.loadEvery, s)
  | .listKeys => (.ok s.rows.keys, s)
  | .store key v =>
    if s.refusesWrites then (.error (.source ("store failed for " ++ key)), s)
    else (.ok (), s.put key v)
  | .remove key =>
    if s.refusesWrites then (.error (.source ("remove failed for " ++ key)), s)
    else (.ok (), s.drop key)

/-- Counts a request and serves it. -/
def run (s : Source V) (c : Call V) : Except Error c.Reply × Source V :=
  c.serve { s with counts := s.counts.count c.method }

end Call
end Source
end CacheLayer
