/-
Decimal numerals as they stand in settings and counters: an optional sign and
at least one of the digits 0 to 9. A numeral is read from the left, and the
first thing wrong with it is what is reported, so a numeral that has grown too
large is refused for that even if a letter follows.
-/

namespace CacheLayer.Text

/-- Why a text is not a numeral of the wanted range. -/
inductive NumeralFault where
  | empty
  | badDigit
  | tooLarge
  | tooSmall
  deriving Repr, DecidableEq

/-- The words a setting's error uses for the fault. -/
def NumeralFault.message : NumeralFault → String
  | .empty => "cannot parse integer from empty string"
  | .badDigit => "invalid digit found in string"
  | .tooLarge => "number too large to fit in target type"
  | .tooSmall => "number too small to fit in target type"

/-- The value of a digit. -/
def digit? (c : Char) : Option Nat :=
  if '0' ≤ c ∧ c ≤ '9' then some (c.toNat - '0'.toNat) else none

/-- Reads digits after a part worth `acc`, refusing with `beyond` once the worth passes `limit`. -/
def readDigits (limit : Nat) (beyond : NumeralFault) (acc : Nat) :
    List Char → Except NumeralFault Nat
  | [] => .ok acc
  | c :: cs =>
    match digit? c with
    | none => .error .badDigit
    | some d =>
      if acc * 10 + d ≤ limit then readDigits limit beyond (acc * 10 + d) cs else .error beyond

/-- Reads a numeral without a minus sign, at most `limit`. -/
def readNat (limit : Nat) (s : String) : Except NumeralFault Nat :=
  match s.toList with
  | [] => .error .empty
  | ['+'] => .error .badDigit
  | '+' :: cs => readDigits limit .tooLarge 0 cs
  | cs => readDigits limit .tooLarge 0 cs

/-- The largest counter. -/
def maxInt64 : Int := Int.pow 2 63 - 1

/-- The smallest counter. -/
def minInt64 : Int := -Int.pow 2 63

/-- The number lies in the range of a signed 64-bit word. -/
def fitsInt64 (i : Int) : Bool :=
  decide (minInt64 ≤ i) && decide (i ≤ maxInt64)

/-- Reads a numeral in the range of a signed 64-bit word. -/
def readInt64 (s : String) : Except NumeralFault Int :=
  match s.toList with
  | [] => .error .empty
  | ['+'] => .error .badDigit
  | ['-'] => .error .badDigit
  | '+' :: cs => (readDigits (Nat.pow 2 63 - 1) .tooLarge 0 cs).map Int.ofNat
  | '-' :: cs => (readDigits (Nat.pow 2 63) .tooSmall 0 cs).map fun n => -(n : Int)
  | cs => (readDigits (Nat.pow 2 63 - 1) .tooLarge 0 cs).map Int.ofNat

/-- The numeral of a number with leading zeros up to a width. -/
def padded (width n : Nat) : String :=
  let s := toString n
  String.ofList (List.replicate (width - s.length) '0') ++ s

/-- The canonical numeral of an integer: no plus sign, no leading zero. -/
def ofInt (i : Int) : String :=
  match i with
  | .ofNat n => String.ofList (Nat.toDigits 10 n)
  | .negSucc n => String.ofList ('-' :: Nat.toDigits 10 (n + 1))

end CacheLayer.Text
