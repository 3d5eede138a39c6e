/-
Many callers of one strategy, and the workers of its lanes, who take turns in any order: in a move of
`go` a call that is under way makes a single request, so that others can come in between any two of
its requests. The programs are those of the engine. What is added is a record, for each call, of what
its own requests have found out, and of what they have added to the counters (`Findings`).
-/
import CacheLayer.Proofs.Program.Serving
import CacheLayer.Proofs.Strategy.Call
import Mathlib.Logic.Function.Basic

namespace CacheLayer

variable {V : Type}

/-! ## Counters -/

/-- The counters of a strategy. -/
inductive Counter where
  | hits
  | misses
  | writes
  | deletes
  | errors
  deriving DecidableEq

/-- A number for each counter. -/
abbrev Tally := Counter → Nat

namespace Tally

/-- One thing was counted, or nothing. -/
def of (c? : Option Counter) : Tally := fun c => if c? = some c then 1 else 0

def total (t : Tally) : Nat := t .hits + t .misses + t .writes + t .deletes + t .errors

end Tally

def StrategyStats.tally (s : StrategyStats) : Tally
  | .hits => s.hits
  | .misses => s.misses
  | .writes => s.writes
  | .deletes => s.deletes
  | .errors => s.errors

/-- What the strategy in force has counted. -/
def Scene.tally (s : Scene V) : Tally := s.memory.strategy.stats.tally

/-! ## What a call finds out -/

namespace Ask

/-- If the cache is asked for a key: whether the key is live. -/
def isLive? (s : Scene V) : Ask V → Option Bool
  | .command (.get key) => some (s.live? key).isSome
  | _ => none

/-- If a single key is loaded: whether the source answers, with a value or with nothing. -/
def isAnswered? (s : Scene V) : Ask V → Option Bool
  | .request .main (.loadOne key) => some (s.world.request .main (.loadOne key)).1.toBool
  | _ => none

end Ask

namespace Strategy

/-- What the requests of a call have found out so far. -/
structure Findings where
  /-- The key was live when the cache was asked for it. -/
  live : Bool
  /-- The source has answered, with a value or with nothing. -/
  answered : Bool
  /-- By how much the requests have raised the counters. -/
  gained : Tally

/-- What is found out by then, when a request has been made in a scene. -/
def Findings.after (x : Findings) (s : Scene V) (q : Ask V) : Findings where
  live := (q.isLive? s).getD x.live
  answered := (q.isAnswered? s).getD x.answered
  gained c := x.gained c + ((q.perform s).2.tally c - s.tally c)

def Reply.isValue : Reply V → Bool
  | .value _ => true
  | _ => false

def Reply.isFailure : Reply V → Bool
  | .failed _ => true
  | _ => false

namespace Call

/-- The counter that the call is to raise, once. A read is a hit if it has returned a cached value, a
miss if the key was not live and the source has answered, and an error otherwise. -/
def counter? (x : Findings) (reply : Reply V) : Call V → Option Counter
  | .read _ =>
    if x.live && reply.isValue then some .hits
    else if !x.live && x.answered then some .misses
    else some .errors
  | .write _ _ _ => if reply.isFailure then some .errors else some .writes
  | .delete _ => if reply.isFailure then some .errors else some .deletes
  | .has _ | .clear => none

/-- Calls of this kind are counted. -/
def isCounted : Call V → Bool
  | .read _ | .write _ _ _ | .delete _ => true
  | .has _ | .clear => false

end Call

/-! ## Traffic -/

/-- A call that is under way, with the rest of its program. -/
structure Errand (V : Type) where
  call : Call V
  findings : Findings
  rest : Program V (Reply V)

/-- A call that has returned. -/
structure Return (V : Type) where
  call : Call V
  findings : Findings
  reply : Reply V

def Errand.begin (c : Call V) : Errand V := ⟨c, ⟨false, false, .of none⟩, c.program⟩

/-- The counter that the call was to raise. -/
def Return.counter? (r : Return V) : Option Counter := r.call.counter? r.findings r.reply

/-- A strategy at work. -/
structure Traffic (V : Type) where
  scene : Scene V
  /-- The calls that are under way. -/
  errands : List (Errand V)
  /-- The calls that have returned, the latest first. -/
  returns : List (Return V)
  /-- What is left of the turn of each lane's worker. -/
  turns : Nat → Program V Unit

namespace Traffic

/-- What can happen next. -/
inductive Move (V : Type) where
  /-- Somebody makes a call. -/
  | call (c : Call V)
  /-- A call that is under way makes a request, or returns. -/
  | go (i : Nat)
  /-- The worker of a lane makes a request, or begins another turn. -/
  | work (lane : Nat)
  /-- Something else happens that leaves the strategy in force, and the way in which values are
  written. -/
  | outside (w : World V) (m : Memory V)

/-- A strategy is put in force, and its statistics begin. -/
def start (policy : Policy) (life : Option Nat) (capacity : Nat) (w : World V) (m : Memory V) :
    Traffic V where
  scene := ⟨w, install policy life capacity m⟩
  errands := []
  returns := []
  turns := WriteBehind.workerTurn

/-- A call makes a request, unless it has to wait, or it returns. -/
def go (t : Traffic V) (i : Nat) : Traffic V :=
  match t.errands[i]? with
  | none => t
  | some ⟨call, findings, .done reply⟩ =>
    { t with errands := t.errands.eraseIdx i, returns := ⟨call, findings, reply⟩ :: t.returns }
  | some ⟨call, findings, rest⟩ =>
    let (rest', s) := rest.step t.scene
    let findings := (rest.asks? t.scene).elim findings (findings.after t.scene)
    { t with scene := s, errands := t.errands.set i ⟨call, findings, rest'⟩ }

/-- A worker makes a request, unless it has to wait. When its turn has ended, the next one begins. -/
def work (t : Traffic V) (lane : Nat) : Traffic V :=
  match t.turns lane with
  | .done () => { t with turns := Function.update t.turns lane (WriteBehind.workerTurn lane) }
  | turn =>
    let (rest, s) := turn.step t.scene
    { t with scene := s, turns := Function.update t.turns lane rest }

/-- One move. A move that cannot be made changes nothing. -/
def move (t : Traffic V) : Move V → Traffic V
  | .call c => { t with errands := Errand.begin c :: t.errands }
  | .go i => t.go i
  | .work lane => t.work lane
  | .outside w m =>
    let before := t.scene.memory
    { t with scene := ⟨w, { m with strategy := before.strategy, format := before.format }⟩ }

/-- One move after the other. -/
def play (t : Traffic V) (moves : List (Move V)) : Traffic V := moves.foldl move t

end Traffic
end Strategy
end CacheLayer
