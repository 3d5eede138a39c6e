/-
Reading JSON texts from bytes. A reader takes what it understands from the
front of the bytes and gives back the rest; `none` says that the text is
malformed. Three strengths of reading stand side by side: a value whose type is
not known in advance (`readAny`), the parts from which typed values are read,
and a value that is skipped because nobody asked for it (`skip`), where only
the outline of the text is checked.

Arrays and objects may be nested up to `maxDepth` levels, except in what is
skipped.
-/
import CacheLayer.Json.Basic
import CacheLayer.Real.Decimal
import CacheLayer.Text.Utf8

namespace CacheLayer.Json

/-- Takes a value from the front of the bytes. -/
abbrev Reader (α : Type) := StateT Bytes Option α

/-- How deep arrays and objects may be nested. -/
def maxDepth : Nat := 127

/-- Drops the blanks at the front. -/
def blanks : Reader Unit := fun b =>
  some ((), b.dropWhile fun c => c == 0x20 || c == 0x0a || c == 0x0d || c == 0x09)

/-- The next byte, without taking it. -/
def peek : Reader (Option UInt8) := fun b => some (b.head?, b)

def next : Reader UInt8
  | [] => none
  | c :: b => some (c, b)

/-- Takes the given bytes. -/
def expect : Bytes → Reader Unit
  | [] => pure ()
  | c :: cs => do
    if (← next) = c then expect cs else failure

/-! ## Strings -/

/-- The value of a hexadecimal digit. -/
def hexValue? (c : UInt8) : Option Nat :=
  if 0x30 ≤ c ∧ c ≤ 0x39 then some (c.toNat - 0x30)
  else if 0x41 ≤ c ∧ c ≤ 0x46 then some (c.toNat - 0x37)
  else if 0x61 ≤ c ∧ c ≤ 0x66 then some (c.toNat - 0x57)
  else none

/-- Four hexadecimal digits at the front. -/
def hex4? : Bytes → Option (Nat × Bytes)
  | a :: b :: c :: d :: rest => do
    let a ← hexValue? a
    let b ← hexValue? b
    let c ← hexValue? c
    let d ← hexValue? d
    return (((a * 16 + b) * 16 + c) * 16 + d, rest)
  | _ => none

/-- The byte that a one-letter escape stands for. -/
def escaped? (c : UInt8) : Option UInt8 :=
  if c = 0x22 || c = 0x5c || c = 0x2f then some c
  else if c = 0x62 then some 0x08
  else if c = 0x66 then some 0x0c
  else if c = 0x6e then some 0x0a
  else if c = 0x72 then some 0x0d
  else if c = 0x74 then some 0x09
  else none

/-- The character of an escape by code unit, which may be the first of a pair. -/
def unit? (n : Nat) (rest : Bytes) : Option (Char × Bytes) :=
  if 0xdc00 ≤ n ∧ n ≤ 0xdfff then none
  else if 0xd800 ≤ n ∧ n ≤ 0xdbff then
    match rest with
    | 0x5c :: 0x75 :: rest => do
      let (m, rest) ← hex4? rest
      if 0xdc00 ≤ m ∧ m ≤ 0xdfff then
        return (Char.ofNat (0x10000 + (n - 0xd800) * 0x400 + (m - 0xdc00)), rest)
      else none
    | _ => none
  else some (Char.ofNat n, rest)

/-- The bytes of a string up to its closing mark, from behind the opening one. `done` holds what
was read before, last byte first; the fuel bounds the number of bytes. -/
def textBytes : Nat → Bytes → Bytes → Option (Bytes × Bytes)
  | 0, _, _ => none
  | _ + 1, _, [] => none
  | fuel + 1, done, c :: b =>
    if c = 0x22 then some (done.reverse, b)
    else if c = 0x5c then
      match b with
      | 0x75 :: b => do
        let (n, b) ← hex4? b
        let (ch, b) ← unit? n b
        textBytes fuel ((Text.utf8 (String.singleton ch)).reverse ++ done) b
      | e :: b => do
        let e ← escaped? e
        textBytes fuel (e :: done) b
      | [] => none
    else if c < 0x20 then none
    else textBytes fuel (c :: done) b

/-- A string, whose bytes have to be UTF-8. -/
def readText : Reader String := fun b =>
  match b with
  | 0x22 :: b => do
    let (bytes, rest) ← textBytes (b.length + 1) [] b
    let s ← Text.ofUtf8? bytes
    return (s, rest)
  | _ => none

/-- Skips a string. Neither UTF-8 nor the pairing of code units is checked. -/
def skipText : Nat → Bytes → Option Bytes
  | 0, _ => none
  | _ + 1, [] => none
  | fuel + 1, c :: b =>
    if c = 0x22 then some b
    else if c = 0x5c then
      match b with
      | 0x75 :: b => do
        let (_, b) ← hex4? b
        skipText fuel b
      | e :: b => do
        let _ ← escaped? e
        skipText fuel b
      | [] => none
    else if c < 0x20 then none
    else skipText fuel b

/-! ## Numbers -/

/-- A number as it is spelled. -/
structure Spelling where
  negative : Bool
  /-- The digits before the point. -/
  whole : List Nat
  /-- The digits behind the point. -/
  fraction : Option (List Nat)
  exponent : Option Int

def isDigit (c : UInt8) : Bool := 0x30 ≤ c && c ≤ 0x39

/-- A run of at least one digit. -/
def readDigits : Reader (List Nat) := fun b =>
  let ds := b.takeWhile isDigit
  if ds.isEmpty then none else some (ds.map fun d => d.toNat - 0x30, b.dropWhile isDigit)

/-- The number that digits spell. -/
def digitsValue (ds : List Nat) : Nat := ds.foldl (fun n d => n * 10 + d) 0

/-- Digits before the point: no nought may stand before another digit. -/
def readWhole : Reader (List Nat) := fun b =>
  match b with
  | 0x30 :: c :: rest => if isDigit c then none else some ([0], c :: rest)
  | b => readDigits b

/-- A number as it is spelled. -/
def readSpelling : Reader Spelling := do
  let negative := (← peek) = some 0x2d
  if negative then let _ ← next
  let whole ← readWhole
  let mut fraction := none
  if (← peek) = some 0x2e then
    let _ ← next
    fraction := some (← readDigits)
  let mut exponent := none
  let mark ← peek
  if mark = some 0x65 || mark = some 0x45 then
    let _ ← next
    let sign ← peek
    if sign = some 0x2b || sign = some 0x2d then let _ ← next
    let e := digitsValue (← readDigits)
    exponent := some (if sign = some 0x2d then -(e : Int) else e)
  return ⟨negative, whole, fraction, exponent⟩

/-- The number of a spelling. A whole number that leaves the 64-bit range, and the negative
zero, are real numbers; beyond all doubles there is none. -/
def Spelling.number? (s : Spelling) : Option Number :=
  let x := Real.takeWhole 0 s.whole
  if s.fraction.isNone && s.exponent.isNone && x.power == 0 && !s.negative then
    some (.natural x.digits)
  else if s.fraction.isNone && s.exponent.isNone && x.power == 0 && 0 < x.digits &&
      x.digits ≤ Nat.pow 2 63 then
    some (.negative (-(x.digits : Int)))
  else
    let x := Real.takeFraction x (s.fraction.getD [])
    (Real.ofDecimal? s.negative ⟨x.digits, x.power + s.exponent.getD 0⟩).map .real

/-- A number. -/
def readNumber : Reader Number := do
  match (← readSpelling).number? with
  | some n => return n
  | none => failure

/-! ## Arrays and objects -/

/-- Items up to the closing bracket, from behind the opening one. The fuel bounds their number. -/
def items {α : Type} (item : Reader α) : Nat → Bool → Reader (List α)
  | 0, _ => failure
  | fuel + 1, first => do
    blanks
    match ← peek with
    | some 0x5d =>
      if first then
        let _ ← next
        return []
      else failure
    | _ =>
      let a ← item
      blanks
      match ← next with
      | 0x2c => return a :: (← items item fuel false)
      | 0x5d => return [a]
      | _ => failure

/-- An array, from its opening bracket on. -/
def readArray {α : Type} (item : Reader α) : Reader (List α) := do
  expect [0x5b]
  items item (← get).length.succ true

/-- Members up to the closing brace, from behind the opening one. -/
def members {α : Type} (name : Reader String) (value : String → Reader α) :
    Nat → Bool → Reader (List (String × α))
  | 0, _ => failure
  | fuel + 1, first => do
    blanks
    match ← peek with
    | some 0x7d =>
      if first then
        let _ ← next
        return []
      else failure
    | _ =>
      let n ← name
      blanks
      expect [0x3a]
      let a ← value n
      blanks
      match ← next with
      | 0x2c => return (n, a) :: (← members name value fuel false)
      | 0x7d => return [(n, a)]
      | _ => failure

/-- An object, from its opening brace on, its members in the order of the text. -/
def readObject {α : Type} (name : Reader String) (value : String → Reader α) :
    Reader (List (String × α)) := do
  expect [0x7b]
  members name value (← get).length.succ true

/-! ## Values of any type -/

/-- A value that nests nothing. -/
def readScalar : Reader Json := do
  match ← peek with
  | some 0x6e => expect [0x6e, 0x75, 0x6c, 0x6c]; return .null
  | some 0x74 => expect [0x74, 0x72, 0x75, 0x65]; return .bool true
  | some 0x66 => expect [0x66, 0x61, 0x6c, 0x73, 0x65]; return .bool false
  | some 0x22 => return .text (← readText)
  | _ => return .number (← readNumber)

/-- A value of any type; `depth` says how many levels of nesting are still allowed. -/
def readAny : Nat → Reader Json
  | 0 => do
    blanks
    readScalar
  | depth + 1 => do
    blanks
    match ← peek with
    | some 0x5b => return .array (← readArray (readAny depth))
    | some 0x7b =>
      let ms ← readObject readText fun _ => readAny depth
      return .object (ms.foldl (fun acc (n, j) => addMember acc n j) [])
    | _ => readScalar

/-- Skips a value; the fuel bounds the nesting. -/
def skip : Nat → Reader Unit
  | 0 => failure
  | fuel + 1 => do
    blanks
    match ← peek with
    | some 0x6e => expect [0x6e, 0x75, 0x6c, 0x6c]
    | some 0x74 => expect [0x74, 0x72, 0x75, 0x65]
    | some 0x66 => expect [0x66, 0x61, 0x6c, 0x73, 0x65]
    | some 0x22 => skipString
    | some 0x5b => let _ ← readArray (skip fuel)
    | some 0x7b => let _ ← readObject (do skipString; return "") fun _ => skip fuel
    | _ => let _ ← readSpelling
where
  /-- Skips a string from its opening mark on. -/
  skipString : Reader Unit := do
    expect [0x22]
    let b ← get
    match skipText (b.length + 1) b with
    | some rest => set rest
    | none => failure

/-- Reads a whole text: nothing but blanks may follow the value. -/
def readWholeText {α : Type} (r : Reader α) (b : Bytes) : Option α :=
  match (do let a ← r; blanks; return a : Reader α) b with
  | some (a, []) => some a
  | _ => none

/-- The value that a whole text shows. -/
def parse? (b : Bytes) : Option Json := readWholeText (readAny maxDepth) b

end CacheLayer.Json
