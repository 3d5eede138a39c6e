/-
The block cipher AES with keys of 256 bits. A block is sixteen bytes, column by
column. The substitution of bytes is computed from its definition: the inverse
in the field of 256 elements, followed by an affine map.
-/
import CacheLayer.Text.Utf8

namespace CacheLayer.Cipher

/-- Twice an element of the field. -/
def double (a : UInt8) : UInt8 :=
  if a &&& 0x80 = 0 then a <<< 1 else (a <<< 1) ^^^ 0x1b

/-- The product of two elements of the field: `a` times the lowest bits of `b`. -/
def product : Nat → UInt8 → UInt8 → UInt8
  | 0, _, _ => 0
  | n + 1, a, b =>
    (if b &&& 1 = 1 then a else 0) ^^^ product n (double a) (b >>> 1)

def times (a b : UInt8) : UInt8 := product 8 a b

/-- The inverse of an element, its 254th power; zero stays zero. -/
def inverse (a : UInt8) : UInt8 :=
  let a2 := times a a
  let a4 := times a2 a2
  let a8 := times a4 a4
  let a16 := times a8 a8
  let a32 := times a16 a16
  let a64 := times a32 a32
  let a128 := times a64 a64
  times a128 (times a64 (times a32 (times a16 (times a8 (times a4 a2)))))

/-- A byte turned to the left. -/
def turn (b : UInt8) (n : UInt8) : UInt8 := (b <<< n) ||| (b >>> (8 - n))

/-- The substitution of each byte. -/
def substitution : Array UInt8 :=
  (Array.range 256).map fun n =>
    let b := inverse (UInt8.ofNat n)
    b ^^^ turn b 1 ^^^ turn b 2 ^^^ turn b 3 ^^^ turn b 4 ^^^ 0x63

def substitute (b : UInt8) : UInt8 := substitution.getD b.toNat 0

def xor (a b : Bytes) : Bytes := List.zipWith (· ^^^ ·) a b

/-! ## Round keys -/

/-- The next words of the key schedule. `words` holds the words so far, last one first. -/
def extend : Nat → UInt8 → List Bytes → List Bytes
  | 0, _, words => words
  | fuel + 1, constant, words =>
    let i := words.length
    let previous := words.headD []
    let before := words.getD 7 []
    let (step, constant) :=
      if i % 8 = 0 then
        let turned := (previous.drop 1 ++ previous.take 1).map substitute
        (xor turned [constant, 0, 0, 0], double constant)
      else if i % 8 = 4 then (previous.map substitute, constant)
      else (previous, constant)
    extend fuel constant (xor before step :: words)

/-- Cuts bytes into pieces of `n`, so many of them. -/
def pieces (n : Nat) : Nat → Bytes → List Bytes
  | 0, _ => []
  | count + 1, b => b.take n :: pieces n count (b.drop n)

/-- The fifteen round keys of a key of 32 bytes. -/
def roundKeys (key : Bytes) : List Bytes :=
  pieces 16 15 (extend 52 1 (pieces 4 8 key).reverse).reverse.flatten

/-! ## Rounds -/

/-- The place from which each byte comes when the rows are shifted. -/
def shiftedFrom : List Nat := [0, 5, 10, 15, 4, 9, 14, 3, 8, 13, 2, 7, 12, 1, 6, 11]

/-- Substitutes the bytes and shifts the rows. -/
def substituteAndShift (block : Bytes) : Bytes :=
  let a := block.toArray
  shiftedFrom.map fun i => substitute (a.getD i 0)

def mixColumn (a b c d : UInt8) : Bytes :=
  let all := a ^^^ b ^^^ c ^^^ d
  [a ^^^ all ^^^ double (a ^^^ b), b ^^^ all ^^^ double (b ^^^ c),
   c ^^^ all ^^^ double (c ^^^ d), d ^^^ all ^^^ double (d ^^^ a)]

def mixColumns : Bytes → Bytes
  | a :: b :: c :: d :: rest => mixColumn a b c d ++ mixColumns rest
  | _ => []

/-- The rounds with the keys that are left; the last one does not mix. -/
def rounds (block : Bytes) : List Bytes → Bytes
  | [] => block
  | [key] => xor (substituteAndShift block) key
  | key :: keys => rounds (xor (mixColumns (substituteAndShift block)) key) keys

/-- Enciphers one block with the given round keys. -/
def encipher (keys : List Bytes) (block : Bytes) : Bytes :=
  match keys with
  | [] => block
  | key :: keys => rounds (xor block key) keys

end CacheLayer.Cipher
