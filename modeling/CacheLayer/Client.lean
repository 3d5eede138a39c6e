/-
The typed client of the store. A value is encoded, changed by the
transformers that want it, and put into an envelope that names them; reading
undoes these steps. Items of lists and fields of hashes are encoded only.
-/
import CacheLayer.Chunks
import CacheLayer.Envelope
import CacheLayer.Program.Basic

namespace CacheLayer.Client

variable {V α : Type}

/-- How many keys a page of a walk looks at, and how many keys one deletion names. -/
def pageSize : Nat := 100

/-! ## Encoding -/

def encode (f : Format α) (key : String) (a : α) : Action V Bytes := do
  let m ← Action.always Program.memory
  let b ← Action.ofExcept (f.encode m.config.codec a)
  let fresh ← Action.always (Program.lift (.draw m.transformers.length))
  let (names, b) ← Action.ofExcept (m.transformers.applyAll fresh key b)
  Action.ofExcept (Envelope.wrap names b)

/-- The value of stored bytes, in view of an engine's memory. -/
def decoded (m : Memory V) (f : Format α) (key : String) (b : Bytes) : Except Error α := do
  let (names, b) ← Envelope.unwrap b
  if names.isEmpty then f.decode m.config.codec b
  else
    let b ← m.transformers.undoAll key names b
    f.decode m.config.codec b

def decode (f : Format α) (key : String) (b : Bytes) : Action V α := do
  let m ← Action.always Program.memory
  Action.ofExcept (decoded m f key b)

/-- An item of a list or a field of a hash as it is stored. -/
def encodeItem (f : Format α) (a : α) : Action V Bytes := do
  let m ← Action.always Program.memory
  Action.ofExcept (f.encode m.config.codec a)

def decodeItem (f : Format α) (b : Bytes) : Action V α := do
  let m ← Action.always Program.memory
  Action.ofExcept (f.decode m.config.codec b)

/-! ## Values -/

def set (f : Format α) (key : String) (a : α) (life : Option Nat) : Action V Unit := do
  Action.command (.set key (← encode f key a) life)

/-- The value of a key; a key without one is a miss. -/
def get (f : Format α) (key : String) : Action V α := do
  match ← Action.command (.get key) with
  | some b => decode f key b
  | none => throw (.cacheMiss key)

def delete (key : String) : Action V Bool := Action.command (.delete key)

/-- Deletes keys, and counts those that were there. -/
def deleteMany (keys : List String) : Action V Nat := Action.command (.deleteMany keys)

def has (key : String) : Action V Bool := Action.command (.has key)

def expire (key : String) (life : Nat) : Action V Bool := Action.command (.expire key life)

def remaining (key : String) : Action V Remaining := Action.command (.remaining key)

def setIfAbsent (f : Format α) (key : String) (a : α) (life : Option Nat) : Action V Bool := do
  Action.command (.setIfAbsent key (← encode f key a) life)

def setIfPresent (f : Format α) (key : String) (a : α) (life : Option Nat) : Action V Bool := do
  Action.command (.setIfPresent key (← encode f key a) life)

/-- Stores a value if the key has the expected one. Values are compared by their encodings, and the
store then swaps only the very bytes that were compared. -/
def swap (f : Format α) (key : String) (expected a : α) (life : Option Nat) : Action V Bool := do
  match ← Action.command (.get key) with
  | none => return false
  | some kept =>
    let current ← decode f key kept
    if (← encodeItem f current) = (← encodeItem f expected) then
      Action.command (.swap key kept (← encode f key a) life)
    else return false

/-! ## Counters -/

def add (key : String) (delta : Int) : Action V Int := Action.command (.add key delta)

/-- The opposite of a word of 64 bits. The smallest of them has none. -/
def opposite (delta : Int) : Program V Int :=
  Program.word .negate (-delta) ((-delta).bmod (Nat.pow 2 64))

/-- Subtracts from a counter, by adding the opposite. -/
def subtract (key : String) (delta : Int) : Action V Int := do
  add key (← Action.always (opposite delta))

/-! ## Walks -/

/-- The keys of the pages from a cursor on. -/
def pagesFrom (pattern : String) : Nat → Nat → Action V (List String)
  | 0, _ => return []
  | pages + 1, cursor => do
    let (next, keys) ← Action.command (.scan cursor pattern pageSize)
    if next = 0 then return keys
    else return keys ++ (← pagesFrom pattern pages next)

/-- The keys that match a pattern, in increasing order. A page looks at one entry at least, so
there is at most one page more than there are entries. -/
def scanKeys (pattern : String) : Action V (List String) := do
  let entries ← Action.always (Program.lift .extent)
  return (KeySet.ofMembers (← pagesFrom pattern (entries + 1) 0)).keys

/-- Deletes chunks of keys, and counts the keys that were there. -/
def deleteChunks : List (List String) → Action V Nat
  | [] => return 0
  | chunk :: rest => do
    let n ← deleteMany chunk
    return n + (← deleteChunks rest)

/-- Deletes the keys that match a pattern. The walk ends before the first deletion. -/
def deletePattern (pattern : String) : Action V Nat := do
  deleteChunks (chunks pageSize (← scanKeys pattern))

/-! ## Lists, sets and hashes -/

/-- Puts values before a list, one after the other. -/
def pushFront (f : Format α) (key : String) (as : List α) : Action V Nat := do
  Action.command (.pushFront key (← as.mapM (encodeItem f)))

def pushBack (f : Format α) (key : String) (as : List α) : Action V Nat := do
  Action.command (.pushBack key (← as.mapM (encodeItem f)))

def range (f : Format α) (key : String) (start stop : Int) : Action V (List α) := do
  (← Action.command (.range key start stop)).mapM (decodeItem f)

/-- Leaves of a list what lies between two places. -/
def trim (key : String) (start stop : Int) : Action V Unit :=
  Action.command (.trim key start stop)

def length (key : String) : Action V Nat := Action.command (.length key)

def popFront (f : Format α) (key : String) : Action V (Option α) := do
  match ← Action.command (.popFront key) with
  | some b => return some (← decodeItem f b)
  | none => return none

/-- Adds members to a set, and counts those that are new. -/
def addMembers (key : String) (members : List String) : Action V Nat :=
  Action.command (.addMembers key members)

/-- Removes members from a set, and counts those that were there. -/
def removeMembers (key : String) (members : List String) : Action V Nat :=
  Action.command (.removeMembers key members)

def members (key : String) : Action V (List String) := Action.command (.members key)

def hasMember (key member : String) : Action V Bool := Action.command (.hasMember key member)

/-- The members of any of some sets. -/
def union (keys : List String) : Action V (List String) := Action.command (.union keys)

/-- Sets a field of a hash; true if the field is new. -/
def setField (f : Format α) (key field : String) (a : α) : Action V Bool := do
  Action.command (.setField key field (← encodeItem f a))

def field (f : Format α) (key name : String) : Action V (Option α) := do
  match ← Action.command (.field key name) with
  | some b => return some (← decodeItem f b)
  | none => return none

/-- The fields of a hash in the order of their names. -/
def fields (f : Format α) (key : String) : Action V (List (String × α)) := do
  (← Action.command (.fields key)).entries.mapM fun (name, b) =>
    return (name, ← decodeItem f b)

/-- Removes fields of a hash, and counts those that were there. -/
def removeFields (key : String) (names : List String) : Action V Nat :=
  Action.command (.removeFields key names)

/-! ## Batches -/

/-- A command of a batch of typed values. -/
inductive Entry (α : Type) where
  | set (key : String) (a : α) (life : Option Nat)
  | setIfAbsent (key : String) (a : α) (life : Option Nat)
  | setIfPresent (key : String) (a : α) (life : Option Nat)
  /-- A command that needs no encoding. -/
  | plain (step : BatchStep)

def batchStep (f : Format α) : Entry α → Action V BatchStep
  | .set key a life => return .set key (← encode f key a) life
  | .setIfAbsent key a life => return .setIfAbsent key (← encode f key a) life
  | .setIfPresent key a life => return .setIfPresent key (← encode f key a) life
  | .plain step => return step

/-- Sends a batch to the store, unless it is empty. -/
def execute (steps : List BatchStep) (atomic : Bool) : Action V (List BatchReply) :=
  if steps.isEmpty then return [] else Action.command (.execute steps atomic)

/-- Encodes and sends a batch; if an encoding fails, nothing is sent. -/
def batch (f : Format α) (entries : List (Entry α)) (atomic : Bool) :
    Action V (List BatchReply) := do
  execute (← entries.mapM (batchStep f)) atomic

def flush : Action V Unit := Action.command .flush

end CacheLayer.Client
