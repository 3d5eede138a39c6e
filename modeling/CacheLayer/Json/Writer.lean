/-
JSON texts in their compact form: no blanks, members in the order in which
they stand, and in strings only the escapes that JSON demands.
-/
import CacheLayer.Json.Basic
import CacheLayer.Real.Decimal
import CacheLayer.Text.Numeral
import CacheLayer.Text.Utf8

namespace CacheLayer.Json

/-- The ASCII characters of a text as bytes. -/
def ascii (s : String) : Bytes := Text.utf8 s

def hexDigit (n : Nat) : UInt8 :=
  if n < 10 then UInt8.ofNat (48 + n) else UInt8.ofNat (87 + n)

/-- How a byte of a string is written. -/
def escapeByte (b : UInt8) : Bytes :=
  if b = 0x22 then [0x5c, 0x22]
  else if b = 0x5c then [0x5c, 0x5c]
  else if b = 0x08 then [0x5c, 0x62]
  else if b = 0x09 then [0x5c, 0x74]
  else if b = 0x0a then [0x5c, 0x6e]
  else if b = 0x0c then [0x5c, 0x66]
  else if b = 0x0d then [0x5c, 0x72]
  else if b < 0x20 then
    [0x5c, 0x75, 0x30, 0x30, hexDigit (b.toNat / 16), hexDigit (b.toNat % 16)]
  else [b]

/-- A string between its quotation marks. -/
def writeText (s : String) : Bytes :=
  0x22 :: (Text.utf8 s).flatMap escapeByte ++ [0x22]

/-- A number. A double that is not finite has no JSON form and is written as null. -/
def writeNumber : Number → Bytes
  | .natural n => ascii (Text.ofInt n)
  | .negative i => ascii (Text.ofInt i)
  | .real bits =>
    if (bits >>> 52).toNat % 2048 = 2047 then ascii "null" else ascii (Real.text bits)

/-- Pieces with commas between them. -/
def commas : List Bytes → Bytes
  | [] => []
  | [b] => b
  | b :: bs => b ++ 0x2c :: commas bs

/-- Pieces between square brackets. -/
def writeArray (items : List Bytes) : Bytes :=
  0x5b :: commas items ++ [0x5d]

/-- Named pieces between braces. -/
def writeObject (members : List (String × Bytes)) : Bytes :=
  0x7b :: commas (members.map fun (name, b) => writeText name ++ 0x3a :: b) ++ [0x7d]

mutual

/-- The compact text of a value. -/
def write : Json → Bytes
  | .null => ascii "null"
  | .bool true => ascii "true"
  | .bool false => ascii "false"
  | .number n => writeNumber n
  | .text s => writeText s
  | .array items => writeArray (writeItems items)
  | .object members => writeObject (writeMembers members)

def writeItems : List Json → List Bytes
  | [] => []
  | j :: js => write j :: writeItems js

def writeMembers : List (String × Json) → List (String × Bytes)
  | [] => []
  | (name, j) :: js => (name, write j) :: writeMembers js

end

end CacheLayer.Json
