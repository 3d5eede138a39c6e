/-
Bits in the order of deflate streams: within a byte from the lowest bit up.
Numbers are stored with their lowest bit first, Huffman codes with their
highest.
-/
import CacheLayer.Text.Utf8

namespace CacheLayer.Gzip

/-- Bits still to be read: `count` bits held back from a byte, then whole bytes. -/
structure BitSource where
  held : Nat
  count : Nat
  rest : Bytes

namespace BitSource

/-- The bits of a sequence of bytes. -/
def ofBytes (b : Bytes) : BitSource := ⟨0, 0, b⟩

def bit (s : BitSource) : Option (Nat × BitSource) :=
  if 0 < s.count then some (s.held % 2, ⟨s.held / 2, s.count - 1, s.rest⟩)
  else
    match s.rest with
    | [] => none
    | c :: rest => some (c.toNat % 2, ⟨c.toNat / 2, 7, rest⟩)

/-- Takes a number of `n` bits, lowest bit first. -/
def number : Nat → BitSource → Option (Nat × BitSource)
  | 0, s => some (0, s)
  | n + 1, s => do
    let (b, s) ← s.bit
    let (rest, s) ← number n s
    return (b + 2 * rest, s)

/-- Gives up the bits left of the current byte. -/
def align (s : BitSource) : BitSource := ⟨0, 0, s.rest⟩

end BitSource

/-- Bits that have been written: the finished bytes, last one first, and the bits of the byte under
way. -/
structure BitSink where
  done : Bytes
  held : Nat
  count : Nat

namespace BitSink

def empty : BitSink := ⟨[], 0, 0⟩

def bit (s : BitSink) (b : Nat) : BitSink :=
  let held := s.held + b * Nat.pow 2 s.count
  if s.count = 7 then ⟨UInt8.ofNat held :: s.done, 0, 0⟩ else ⟨s.done, held, s.count + 1⟩

/-- Writes a number of `n` bits, lowest bit first. -/
def number : Nat → Nat → BitSink → BitSink
  | 0, _, s => s
  | n + 1, v, s => number n (v / 2) (s.bit (v % 2))

/-- Writes a code of `n` bits, highest bit first. -/
def code : Nat → Nat → BitSink → BitSink
  | 0, _, s => s
  | n + 1, v, s => code n v (s.bit (v / Nat.pow 2 n % 2))

/-- All bytes, the last one filled up with noughts. -/
def bytes (s : BitSink) : Bytes :=
  (if s.count = 0 then s.done else UInt8.ofNat s.held :: s.done).reverse

end BitSink
end CacheLayer.Gzip
