/-
The JSON form of typed values: records as objects with their fields in order,
an absent optional value as null, a case of a choice by its name, alone or as
the only member of an object that holds the payload.

A reader takes a record also from an array with all its fields, skips members
that the record does not have, refuses a field that comes twice, and lets an
optional field be missing.
-/
import CacheLayer.Datum.Basic
import CacheLayer.Json.Reader
import CacheLayer.Json.Writer

namespace CacheLayer.Datum

open Json (Reader)

/-! ## Writing -/

/-- The name under which a value stands as the key of a map: only texts, characters, numbers and
truth values have one. -/
def keyText? : Datum → Option String
  | .text s => some s
  | .char c => some (String.singleton c)
  | .bool b => some (if b then "true" else "false")
  | .unsigned _ n => some (Text.ofInt n)
  | .signed _ i => some (Text.ofInt i)
  | .bare _ name => some name
  | _ => Option.none

mutual

/-- The compact JSON text of a value, if it has one. -/
def toJson? : Datum → Option Bytes
  | .unit => some (Json.ascii "null")
  | .bool b => some (Json.write (.bool b))
  | .unsigned _ n => some (Json.writeNumber (.natural n))
  | .signed _ i => some (Json.ascii (Text.ofInt i))
  | .char c => some (Json.writeText (String.singleton c))
  | .text s => some (Json.writeText s)
  | .absent => some (Json.ascii "null")
  | .present d => toJson? d
  | .list ds => do return Json.writeArray (← itemsToJson? ds)
  | .pair a b => do return Json.writeArray [← toJson? a, ← toJson? b]
  | .table entries => do return Json.writeObject (← entriesToJson? entries)
  | .record fields => do return Json.writeObject (← fieldsToJson? fields)
  | .bare _ name => some (Json.writeText name)
  | .carrying _ name d => do return Json.writeObject [(name, ← toJson? d)]
  | .any j => some (Json.write j)

def itemsToJson? : List Datum → Option (List Bytes)
  | [] => some []
  | d :: ds => do return (← toJson? d) :: (← itemsToJson? ds)

def entriesToJson? : List (Datum × Datum) → Option (List (String × Bytes))
  | [] => some []
  | (k, d) :: es => do return (← keyText? k, ← toJson? d) :: (← entriesToJson? es)

def fieldsToJson? : List (String × Datum) → Option (List (String × Bytes))
  | [] => some []
  | (name, d) :: fs => do return (name, ← toJson? d) :: (← fieldsToJson? fs)

end

/-! ## Reading -/

/-- An integer within bounds; a real number is none, even if it is whole. -/
def readInteger (holds : Int → Bool) : Reader Int := do
  match ← Json.readNumber with
  | .natural n => if holds n then return n else failure
  | .negative i => if holds i then return i else failure
  | .real _ => failure

/-- A string of one character. -/
def readChar : Reader Char := do
  match (← Json.readText).toList with
  | [c] => return c
  | _ => failure

/-- The first field that was read twice, or a field missing that is not optional, spoils a
record; an optional field that is missing is absent. -/
def assemble (found : List (String × Datum)) : Fields → Option (List (String × Datum))
  | .none => some []
  | .field name s rest => do
    let d ← match found.filter (·.1 == name), s with
      | [(_, d)], _ => some d
      | [], .optional _ => some .absent
      | _, _ => Option.none
    return (name, d) :: (← assemble found rest)

/-- Enters one level of nesting. -/
def deeper {α : Type} (depth : Nat) (r : Nat → Reader α) : Reader α :=
  match depth with
  | 0 => failure
  | depth + 1 => r depth

mutual

/-- Reads a value of a type; `depth` says how many levels of nesting are still allowed. -/
def readJson : Schema → Nat → Reader Datum
  | .unit, _ => do Json.blanks; Json.expect [0x6e, 0x75, 0x6c, 0x6c]; return .unit
  | .bare, _ => do Json.blanks; Json.expect [0x6e, 0x75, 0x6c, 0x6c]; return .unit
  | .bool, _ => do
    Json.blanks
    if (← Json.peek) = some 0x74 then
      Json.expect [0x74, 0x72, 0x75, 0x65]
      return .bool true
    else
      Json.expect [0x66, 0x61, 0x6c, 0x73, 0x65]
      return .bool false
  | .unsigned w, _ => do
    Json.blanks
    let i ← readInteger fun i => decide (0 ≤ i) && w.holdsNat i.toNat
    return .unsigned w i.toNat
  | .signed w, _ => do
    Json.blanks
    return .signed w (← readInteger w.holdsInt)
  | .char, _ => do Json.blanks; return .char (← readChar)
  | .text, _ => do Json.blanks; return .text (← Json.readText)
  | .optional s, depth => do
    Json.blanks
    if (← Json.peek) = some 0x6e then
      Json.expect [0x6e, 0x75, 0x6c, 0x6c]
      return .absent
    else return .present (← readJson s depth)
  | .list s, depth => do
    Json.blanks
    deeper depth fun depth => do return .list (← Json.readArray (readJson s depth))
  | .pair a b, depth => do
    Json.blanks
    deeper depth fun depth => do
      Json.expect [0x5b]
      let x ← readJson a depth
      Json.blanks
      Json.expect [0x2c]
      let y ← readJson b depth
      Json.blanks
      Json.expect [0x5d]
      return .pair x y
  | .table s, depth => do
    Json.blanks
    deeper depth fun depth => do
      return tableOf (← Json.readObject Json.readText fun _ => readJson s depth)
  | .record fields, depth => do
    Json.blanks
    deeper depth fun depth => do
      if (← Json.peek) = some 0x5b then
        let _ ← Json.next
        let ds ← readColumn fields true depth
        Json.blanks
        Json.expect [0x5d]
        return .record ds
      else
        let found ← Json.readObject Json.readText fun name => readMember fields name depth
        match assemble (found.filterMap fun (n, d?) => d?.map (n, ·)) fields with
        | some ds => return .record ds
        | Option.none => failure
  | .choice cases, depth => do
    Json.blanks
    if (← Json.peek) = some 0x7b then
      deeper depth fun depth => do
        let _ ← Json.next
        Json.blanks
        let name ← Json.readText
        Json.blanks
        Json.expect [0x3a]
        let d ← readCase cases 0 name depth
        Json.blanks
        Json.expect [0x7d]
        return d
    else
      let name ← Json.readText
      match bareCase? cases 0 name with
      | some d => return d
      | Option.none => failure
  | .any, depth => do return .any (← Json.readAny depth)

/-- Reads the fields of a record in their order, with commas between them. -/
def readColumn : Fields → Bool → Nat → Reader (List (String × Datum))
  | .none, _, _ => return []
  | .field name s rest, first, depth => do
    Json.blanks
    if !first then Json.expect [0x2c]
    let d ← readJson s depth
    return (name, d) :: (← readColumn rest false depth)

/-- Reads the member of a record, or skips it if the record has none of that name. -/
def readMember : Fields → String → Nat → Reader (Option Datum)
  | .none, _, _ => do
    Json.skip (← get).length.succ
    return Option.none
  | .field name s rest, name', depth => do
    if name = name' then return some (← readJson s depth) else readMember rest name' depth

/-- Reads the payload of the case of a name. -/
def readCase : Fields → Nat → String → Nat → Reader Datum
  | .none, _, _, _ => failure
  | .field name s rest, index, name', depth => do
    if name = name' then
      let d ← readJson s depth
      match s with
      | .bare => return .bare index name
      | _ => return .carrying index name d
    else readCase rest (index + 1) name' depth

/-- The case of a name, which has to be without a payload. -/
def bareCase? : Fields → Nat → String → Option Datum
  | .none, _, _ => Option.none
  | .field name s rest, index, name' =>
    if name = name' then
      match s with
      | .bare => some (.bare index name)
      | _ => Option.none
    else bareCase? rest (index + 1) name'

end

/-- The value of a type that a JSON text shows. -/
def ofJson? (s : Schema) (b : Bytes) : Option Datum :=
  Json.readWholeText (readJson s Json.maxDepth) b

/-- The values have one JSON form. -/
def isSame (a b : Datum) : Bool :=
  match a.toJson?, b.toJson? with
  | some x, some y => x == y
  | _, _ => false

end CacheLayer.Datum
