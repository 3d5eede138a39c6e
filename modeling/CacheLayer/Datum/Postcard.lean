/-
The postcard form of typed values, a compact form that does not describe
itself: integers of more than one byte as groups of seven bits, lowest group
first; signed ones folded so that small distances from zero stay small; texts
and lists behind their length, cases of a choice behind their number, options
behind a byte that says whether there is a value. Records and pairs are their
parts one after the other.

Reading takes a value from the front and leaves what follows alone. A value of
a type not known in advance can be written, but not be read back.
-/
import CacheLayer.Datum.Basic
import CacheLayer.Text.Utf8

namespace CacheLayer.Datum.Postcard

/-! ## Integers -/

/-- Groups of seven bits, lowest first; every byte but the last has its top bit set. -/
def varint (n : Nat) : Bytes :=
  if n < 128 then [UInt8.ofNat n] else UInt8.ofNat (128 + n % 128) :: varint (n / 128)

/-- The most bytes that a number of `bits` bits takes. -/
def varintBytes (bits : Nat) : Nat := (bits + 6) / 7

/-- Reads groups of seven bits, at most `fuel` of them, for a number below `2^bits`; the groups
read so far reach up to `place` and are worth `acc`. -/
def readGroups (bits : Nat) : Nat → Nat → Nat → Bytes → Option (Nat × Bytes)
  | 0, _, _, _ => none
  | _ + 1, _, _, [] => none
  | fuel + 1, place, acc, c :: b =>
    let acc := acc + (c.toNat % 128) * Nat.pow 2 place
    if c.toNat < 128 then
      if acc < Nat.pow 2 bits then some (acc, b) else none
    else readGroups bits fuel (place + 7) acc b

/-- Reads a number below `2^bits`. -/
def readVarint (bits : Nat) (b : Bytes) : Option (Nat × Bytes) :=
  readGroups bits (varintBytes bits) 0 0 b

/-- Zero, minus one, one, minus two, … as zero, one, two, three, … -/
def fold (i : Int) : Nat :=
  if i < 0 then (-2 * i - 1).toNat else (2 * i).toNat

/-- The integer that was folded to `n`. -/
def unfold (n : Nat) : Int :=
  if n % 2 = 0 then n / 2 else -((n : Int) / 2) - 1

/-! ## Writing -/

/-- A text behind the length of its bytes. -/
def writeText (s : String) : Bytes :=
  let b := Text.utf8 s
  varint b.length ++ b

/-- The eight bytes of a word, lowest first. -/
def word (n : UInt64) : Bytes :=
  (List.range 8).map fun i => (n >>> (UInt64.ofNat (8 * i))).toUInt8

mutual

def writeAny : Json → Bytes
  | .null => []
  | .bool b => [if b then 1 else 0]
  | .number (.natural n) => varint n
  | .number (.negative i) => varint (fold i)
  | .number (.real bits) => word bits
  | .text s => writeText s
  | .array items => varint items.length ++ writeItems items
  | .object members => varint members.length ++ writeMembers members

def writeItems : List Json → Bytes
  | [] => []
  | j :: js => writeAny j ++ writeItems js

def writeMembers : List (String × Json) → Bytes
  | [] => []
  | (name, j) :: js => writeText name ++ writeAny j ++ writeMembers js

end

mutual

def write : Datum → Bytes
  | .unit => []
  | .bool b => [if b then 1 else 0]
  | .unsigned .w8 n => [UInt8.ofNat n]
  | .unsigned _ n => varint n
  | .signed .w8 i => [UInt8.ofNat (i % 256).toNat]
  | .signed _ i => varint (fold i)
  | .char c => writeText (String.singleton c)
  | .text s => writeText s
  | .absent => [0]
  | .present d => 1 :: write d
  | .list ds => varint ds.length ++ writeAll ds
  | .pair a b => write a ++ write b
  | .table entries => varint entries.length ++ writeEntries entries
  | .record fields => writeFields fields
  | .bare index _ => varint index
  | .carrying index _ d => varint index ++ write d
  | .any j => writeAny j

def writeAll : List Datum → Bytes
  | [] => []
  | d :: ds => write d ++ writeAll ds

def writeEntries : List (Datum × Datum) → Bytes
  | [] => []
  | (k, d) :: es => write k ++ write d ++ writeEntries es

def writeFields : List (String × Datum) → Bytes
  | [] => []
  | (_, d) :: fs => write d ++ writeFields fs

end

/-! ## Reading -/

/-- Takes a value from the front of the bytes. -/
abbrev Reader (α : Type) := StateT Bytes Option α

def next : Reader UInt8
  | [] => none
  | c :: b => some (c, b)

/-- Takes a number below `2^bits`. -/
def number (bits : Nat) : Reader Nat := readVarint bits

/-- Takes so many bytes. -/
def block (n : Nat) : Reader Bytes := fun b =>
  if b.length < n then none else some (b.take n, b.drop n)

/-- Takes a text behind its length. -/
def readText : Reader String := do
  let n ← number 64
  match Text.ofUtf8? (← block n) with
  | some s => return s
  | none => failure

/-- Takes a character: the first of a text of at most four bytes. -/
def readChar : Reader Char := do
  let n ← number 64
  if 4 < n then failure
  match Text.ofUtf8? (← block n) with
  | some s =>
    match s.toList with
    | c :: _ => return c
    | [] => failure
  | none => failure

/-- Takes `n` values one after the other. -/
def several {α : Type} (r : Reader α) : Nat → Reader (List α)
  | 0 => return []
  | n + 1 => do return (← r) :: (← several r n)

/-- A byte that is zero or one. -/
def flag : Reader Bool := do
  let c ← next
  if c = 0 then return false
  else if c = 1 then return true
  else failure

mutual

def read : Schema → Reader Datum
  | .unit => return .unit
  | .bare => return .unit
  | .bool => do return .bool (← flag)
  | .unsigned .w8 => do return .unsigned .w8 (← next).toNat
  | .unsigned w => do return .unsigned w (← number w.bits)
  | .signed .w8 => do return .signed .w8 (Int.bmod (← next).toNat 256)
  | .signed w => do return .signed w (unfold (← number w.bits))
  | .char => do return .char (← readChar)
  | .text => do return .text (← readText)
  | .optional s => do
    if ← flag then return .present (← read s) else return .absent
  | .list s => do
    let n ← number 64
    return .list (← several (read s) n)
  | .pair a b => do return .pair (← read a) (← read b)
  | .table s => do
    let n ← number 64
    return tableOf (← several (do return (← readText, ← read s)) n)
  | .record fields => do return .record (← readFields fields)
  | .choice cases => do
    let index ← number 32
    readCase cases index index
  | .any => failure

def readFields : Fields → Reader (List (String × Datum))
  | .none => return []
  | .field name s rest => do
    let d ← read s
    return (name, d) :: (← readFields rest)

/-- Takes the payload of the case with a number, counted from here on. -/
def readCase : Fields → Nat → Nat → Reader Datum
  | .none, _, _ => failure
  | .field name s _, index, 0 => do
    let d ← read s
    match s with
    | .bare => return .bare index name
    | _ => return .carrying index name d
  | .field _ _ rest, index, place + 1 => readCase rest index place

end

/-- The value of a type at the front of the bytes. -/
def ofBytes? (s : Schema) (b : Bytes) : Option Datum :=
  (read s b).map (·.1)

end CacheLayer.Datum.Postcard
