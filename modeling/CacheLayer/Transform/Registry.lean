/-
Transformers change payloads on their way into the cache and undo that on the
way back. A registry holds them in the order of priority, each name once.

`applyAll` runs those that want the payload and reports their names; `undoAll`
restores by names in reverse order, whatever else the registry holds by then.
-/
import CacheLayer.Error
import CacheLayer.Priority
import CacheLayer.Text.Utf8

namespace CacheLayer

/-- A step that changes payloads. -/
structure Transformer where
  name : String
  priority : Int
  /-- The step wants this payload of this key. -/
  applies : String → Bytes → Bool
  /-- Changes a payload. The number is used for this payload and no other. -/
  transform : Nat → String → Bytes → Except Error Bytes
  /-- Undoes `transform`. -/
  restore : String → Bytes → Except Error Bytes

namespace Transformer

/-- A step that leaves every payload as it is. -/
def identity (name : String) : Transformer where
  name := name
  priority := 0
  applies _ _ := true
  transform _ _ b := .ok b
  restore _ b := .ok b

/-- The error of a step, attributed to it unless it is attributed already or is the verdict of a
validation. -/
def blame (name : String) : Error → Error
  | .transform inner text => .transform inner text
  | .invalid text => .invalid text
  | e => .transform name e.message

end Transformer

/-- Transformers in the order of priority. -/
abbrev Transformers := List Transformer

namespace Transformers

/-- Registers a transformer in the stead of one of its name. -/
def add (ts : Transformers) (t : Transformer) : Transformers :=
  Priority.register Transformer.priority (ts.filter fun u => u.name != t.name) t

def remove (ts : Transformers) (name : String) : Transformers :=
  ts.filter fun u => u.name != name

/-- Drops the transformer of a name, and tells whether there was one. -/
def discard (ts : Transformers) (name : String) : Bool × Transformers :=
  Priority.discard Transformer.name ts name

def names (ts : Transformers) : List String := ts.map Transformer.name

def find? (ts : Transformers) (name : String) : Option Transformer :=
  List.find? (fun u => u.name == name) ts

/-- Runs the transformers that want the payload, each on what the one before it made. The numbers
from `fresh` on are theirs. -/
def applyAll (fresh : Nat) (key : String) : Transformers → Bytes →
    Except Error (List String × Bytes)
  | [], b => .ok ([], b)
  | t :: ts, b =>
    if t.applies key b then
      match t.transform fresh key b with
      | .error e => .error (Transformer.blame t.name e)
      | .ok b => (applyAll (fresh + 1) key ts b).map fun (names, b) => (t.name :: names, b)
    else applyAll (fresh + 1) key ts b

/-- Restores by names, in the order given. -/
def undo (ts : Transformers) (key : String) : List String → Bytes → Except Error Bytes
  | [], b => .ok b
  | name :: names, b =>
    match ts.find? name with
    | none => .error (.transform name "transformer not registered; cannot restore value")
    | some t =>
      match t.restore key b with
      | .error e => .error (Transformer.blame t.name e)
      | .ok b => undo ts key names b

/-- Restores by the names of what was applied, in the order of application. -/
def undoAll (ts : Transformers) (key : String) (applied : List String) (b : Bytes) :
    Except Error Bytes :=
  ts.undo key applied.reverse b

end Transformers
end CacheLayer
