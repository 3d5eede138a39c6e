/-
Batches of commands. A batch is run command by command; if one fails, every
key it was about to touch gets back the entry that it had before, and the
batch fails with that error.
-/
import CacheLayer.Store.Values

namespace CacheLayer

inductive BatchStep where
  | set (key : String) (b : Bytes) (life : Option Nat)
  | setIfAbsent (key : String) (b : Bytes) (life : Option Nat)
  | setIfPresent (key : String) (b : Bytes) (life : Option Nat)
  | swap (key : String) (expected b : Bytes) (life : Option Nat)
  | delete (key : String)
  | expire (key : String) (life : Nat)
  | add (key : String) (delta : Int)

def BatchStep.key : BatchStep → String
  | .set key _ _ => key
  | .setIfAbsent key _ _ => key
  | .setIfPresent key _ _ => key
  | .swap key _ _ _ => key
  | .delete key => key
  | .expire key _ => key
  | .add key _ => key

inductive BatchReply where
  | done
  | applied (yes : Bool)
  | number (i : Int)
  deriving DecidableEq, Repr

namespace Store

/-- One command of a batch. -/
def step (s : Store) (now : Nat) : BatchStep → Outcome BatchReply
  | .set key b life => (.ok .done, s.set now key b life)
  | .setIfAbsent key b life =>
    let (yes, s) := s.setWhen now false key b life
    (.ok (.applied yes), s)
  | .setIfPresent key b life =>
    let (yes, s) := s.setWhen now true key b life
    (.ok (.applied yes), s)
  | .swap key expected b life =>
    let (yes, s) := s.swap now key expected b life
    (.ok (.applied yes), s)
  | .delete key =>
    let (yes, s) := s.delete now key
    (.ok (.applied yes), s)
  | .expire key life =>
    let (yes, s) := s.expire now key life
    (.ok (.applied yes), s)
  | .add key delta =>
    let (r, s) := s.add now key delta
    (r.map .number, s)

/-- The commands one after the other, up to the first that fails. -/
def steps (s : Store) (now : Nat) : List BatchStep → Outcome (List BatchReply)
  | [] => (.ok [], s)
  | b :: bs =>
    match s.step now b with
    | (.error e, s) => (.error e, s)
    | (.ok reply, s) =>
      let (r, s) := s.steps now bs
      (r.map (reply :: ·), s)

/-- The keys with the entries they have. -/
def snapshot (s : Store) (keys : List String) : List (String × Option Entry) :=
  keys.map fun key => (key, s.entries.get? key)

/-- Gives each key of a snapshot its entry back. -/
def restore (s : Store) (shot : List (String × Option Entry)) : Store :=
  shot.foldl (fun s (key, e?) =>
    match e? with
    | some e => s.put key e
    | none => s.drop key) s

/-- Runs a batch: all of its commands, or none. -/
def execute (s : Store) (now : Nat) (batch : List BatchStep) : Outcome (List BatchReply) :=
  let before := s.snapshot (batch.map BatchStep.key)
  match s.steps now batch with
  | (.error e, s) => (.error e, s.restore before)
  | (.ok replies, s) => (.ok replies, s)

end Store
end CacheLayer
