/-
The calls that a strategy answers, as data, with the program that each of them
runs and the reply that the caller sees. `Call.plain` is what a plain map from
keys to values, without any cache before it, would reply.
-/
import CacheLayer.Strategy

namespace CacheLayer.Strategy

/-- A call of a strategy. -/
inductive Call (V : Type) where
  | read (key : String)
  | write (key : String) (v : V) (life : Option Nat)
  | delete (key : String)
  /-- Whether the key is in the cache. -/
  | has (key : String)
  /-- Empties the cache. -/
  | clear
  deriving DecidableEq

/-- What a caller sees of a call that has returned. -/
inductive Reply (V : Type) where
  | done
  | value (v : V)
  | truth (yes : Bool)
  | count (n : Nat)
  | failed (e : Error)
  deriving DecidableEq

variable {V α : Type}

/-- The outcome of an action as a reply. -/
def Reply.of (f : α → Reply V) : Except Error α → Reply V
  | .ok a => f a
  | .error e => .failed e

namespace Call

/-- What a call does. -/
def program : Call V → Program V (Reply V)
  | read key => return Reply.of .value (← (Strategy.read key).outcome)
  | write key v life => return Reply.of (fun _ => .done) (← (Strategy.write key v life).outcome)
  | delete key => return Reply.of (fun _ => .done) (← (Strategy.delete key).outcome)
  | has key => return Reply.of .truth (← (Client.has key).outcome)
  | clear => return Reply.of (fun _ => .done) (← Client.flush.outcome)

/-- The change of the source that a call asks for. -/
def change? : Call V → Option (Change V)
  | write key v _ => some ⟨key, some v⟩
  | delete key => some ⟨key, none⟩
  | _ => none

end Call

/-- The reply of a map to the question for a key. -/
def Reply.lookup (key : String) : Option V → Reply V
  | some v => .value v
  | none => .failed (.notFound key)

/-- What a plain map replies to a call, and the map after it. Of what is in the cache it knows
nothing. -/
def Call.plain (rows : KeyMap V) : Call V → Option (Reply V) × KeyMap V
  | read key => (some (Reply.lookup key (rows.get? key)), rows)
  | write key v _ => (some .done, rows.insert key v)
  | delete key => (some .done, rows.erase key)
  | has _ => (none, rows)
  | clear => (some .done, rows)

end CacheLayer.Strategy
