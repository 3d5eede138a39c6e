/-
Authenticated encryption by AES in counter mode with the tag of the Galois
mode. A text is added to a key stream of enciphered counters; the tag is a
polynomial in the cipher bytes over the field of 2^128 elements, evaluated at a
secret point. `open?` gives the text back only if the tag fits.

Elements of the field are numbers whose highest bit is the constant term.
-/
import CacheLayer.Cipher.Aes

namespace CacheLayer.Cipher

/-- The number that bytes write with the highest byte first. -/
def toNumber (b : Bytes) : Nat := b.foldl (fun n c => n * 256 + c.toNat) 0

/-- The lowest `n` bytes of a number, the highest byte first. -/
def ofNumber (n : Nat) (v : Nat) : Bytes :=
  (List.range n).map fun i => UInt8.ofNat (v / Nat.pow 256 (n - 1 - i) % 256)

/-- The product in the field: `x` is read from its highest bit on, and `v` is the other factor,
multiplied by the variable once per bit. -/
def fieldProduct : Nat → Nat → Nat → Nat → Nat
  | 0, _, _, z => z
  | n + 1, x, v, z =>
    let z := if x.testBit n then z ^^^ v else z
    let v := if v.testBit 0 then (v >>> 1) ^^^ (0xe1 <<< 120) else v >>> 1
    fieldProduct n x v z

/-- The polynomial whose coefficients are the blocks of `b`, at the point `h`. -/
def evaluate (h : Nat) (blocks : List Bytes) : Nat :=
  blocks.foldl (fun y block => fieldProduct 128 (y ^^^ toNumber block) h 0) 0

/-- Cuts bytes into blocks of sixteen, the last filled up with zeros. -/
def blocks (b : Bytes) : List Bytes :=
  (pieces 16 ((b.length + 15) / 16) b).map fun p => p ++ List.replicate (16 - p.length) 0

/-- The counter block with number `i`. -/
def counterBlock (nonce : Bytes) (i : Nat) : Bytes := nonce ++ ofNumber 4 i

/-- Adds the key stream, whose blocks are numbered from two on. Applied twice it gives the text
back. -/
def addStream (keys : List Bytes) (nonce text : Bytes) : Bytes :=
  let stream := (List.range ((text.length + 15) / 16)).flatMap fun i =>
    encipher keys (counterBlock nonce (i + 2))
  xor text stream

def tag (keys : List Bytes) (nonce cipher : Bytes) : Bytes :=
  let h := toNumber (encipher keys (List.replicate 16 0))
  let sizes := ofNumber 8 0 ++ ofNumber 8 (8 * cipher.length)
  xor (ofNumber 16 (evaluate h (blocks cipher ++ [sizes]))) (encipher keys (counterBlock nonce 1))

/-- The cipher bytes of a text, followed by their tag. -/
def close (keys : List Bytes) (nonce text : Bytes) : Bytes :=
  let cipher := addStream keys nonce text
  cipher ++ tag keys nonce cipher

/-- The text of cipher bytes that are followed by their tag. -/
def open? (keys : List Bytes) (nonce sealed : Bytes) : Option Bytes :=
  if sealed.length < 16 then none
  else
    let cipher := sealed.take (sealed.length - 16)
    if sealed.drop (sealed.length - 16) = tag keys nonce cipher then
      some (addStream keys nonce cipher)
    else none

end CacheLayer.Cipher
