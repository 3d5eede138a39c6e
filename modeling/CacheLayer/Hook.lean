/-
Hooks are called around the reload of a key: before it, after it, and when it
has failed. They are called in the order of priority, up to the first that
fails; its failure ends the phase and is reported under its name.

`Hooks.run` gives the calls it made beside the result, so that the order of
calls can be spoken about.
-/
import CacheLayer.Error
import CacheLayer.Priority

namespace CacheLayer

/-- The moment at which hooks are called. -/
inductive HookPhase (V : Type) where
  | before (key : String)
  | after (key : String) (value : V)
  | failed (key : String) (error : Error)

/-- The moment in words, given the words for values and for errors. -/
def HookPhase.describe {V : Type} (value : V → String) (error : Error → String) :
    HookPhase V → String
  | .before key => "before " ++ key
  | .after key v => "after " ++ key ++ "=" ++ value v
  | .failed key e => "error " ++ key ++ " " ++ error e

/-- The key that the moment is about. -/
def HookPhase.key {V : Type} : HookPhase V → String
  | .before key => key
  | .after key _ => key
  | .failed key _ => key

/-- Someone who wants to be called around reloads. -/
structure Hook (V : Type) where
  name : String
  priority : Int
  /-- Calls of this hook are noted. -/
  noted : Bool
  call : HookPhase V → Except Error Unit

structure HookCall (V : Type) where
  hook : String
  noted : Bool
  phase : HookPhase V

/-- The call in words. -/
def HookCall.describe {V : Type} (value : V → String) (error : Error → String)
    (c : HookCall V) : String :=
  c.hook ++ " " ++ c.phase.describe value error

/-- Hooks in the order of priority. -/
abbrev Hooks (V : Type) := List (Hook V)

namespace Hooks

variable {V : Type}

/-- Registers a hook; others of its name stay. -/
def add (hs : Hooks V) (h : Hook V) : Hooks V :=
  Priority.register Hook.priority hs h

/-- Drops every hook of a name. -/
def remove (hs : Hooks V) (name : String) : Hooks V :=
  hs.filter fun h => h.name != name

/-- Drops every hook of a name, and tells whether there was one. -/
def discard (hs : Hooks V) (name : String) : Bool × Hooks V := Priority.discard Hook.name hs name

def names (hs : Hooks V) : List String := hs.map Hook.name

/-- Calls the hooks for a phase, up to the first that fails. -/
def run (phase : HookPhase V) : Hooks V → List (HookCall V) × Except Error Unit
  | [] => ([], .ok ())
  | h :: hs =>
    let call : HookCall V := ⟨h.name, h.noted, phase⟩
    match h.call phase with
    | .error e => ([call], .error (.hook h.name e.message))
    | .ok () =>
      let (calls, r) := run phase hs
      (call :: calls, r)

end Hooks
end CacheLayer
