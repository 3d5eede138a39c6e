/-
Decompression of deflate streams. A stream is a sequence of blocks, each either
stored as it is or written with Huffman codes for literals, match lengths and
match distances; a match repeats what was written that many bytes before, where
noughts stand ahead of the first byte.

A code is given by the lengths of its words alone. It has to be complete, unless
it has no word or a single one of one bit.
-/
import CacheLayer.Gzip.Bits
import CacheLayer.Gzip.Tables

namespace CacheLayer.Gzip

/-! ## Codes -/

/-- A Huffman code: how many words have each length from one to fifteen, and the symbols ordered by
their words. -/
structure Code where
  counts : List Nat
  symbols : Array Nat

/-- The code in which symbol `i` has a word of length `lengths[i]`, and none if that is zero. -/
def Code.ofLengths? (lengths : List Nat) : Option Code :=
  let counts := (List.range 15).map fun i => lengths.count (i + 1)
  let longer := (counts.drop 1).foldl (· + ·) 0
  let space := (List.range 15).foldl
    (fun total i => total + counts.getD i 0 * Nat.pow 2 (15 - (i + 1))) 0
  if space ≠ Nat.pow 2 15 ∧ (0 < longer ∨ 1 < counts.headD 0) then none
  else
    let numbered := lengths.zip (List.range lengths.length)
    let symbols := (List.range 15).flatMap fun i =>
      (numbered.filter (·.1 == i + 1)).map (·.2)
    some ⟨counts, symbols.toArray⟩

/-- Reads bits until they form a word. `word` is what was read so far, `first` the first word of
this length and `index` the number of shorter words. -/
def Code.walk (symbols : Array Nat) : List Nat → Nat → Nat → Nat → BitSource →
    Option (Nat × BitSource)
  | [], _, _, _, _ => none
  | count :: counts, word, first, index, s => do
    let (b, s) ← s.bit
    let word := word + b
    if word < first + count then
      let symbol ← symbols[index + (word - first)]?
      return (symbol, s)
    else walk symbols counts (2 * word) (2 * (first + count)) (index + count) s

/-- Reads the symbol of the next word. -/
def Code.read (c : Code) (s : BitSource) : Option (Nat × BitSource) :=
  Code.walk c.symbols c.counts 0 0 0 s

/-! ## Blocks -/

/-- The byte that stands `distance` bytes before the end, a nought ahead of the first byte. -/
def byteBack (distance : Nat) (out : Array UInt8) : UInt8 :=
  if out.size < distance then 0 else out.getD (out.size - distance) 0

/-- Repeats `length` bytes that begin `distance` bytes before the end. -/
def repeatBack : Nat → Nat → Array UInt8 → Array UInt8
  | 0, _, out => out
  | length + 1, distance, out => repeatBack length distance (out.push (byteBack distance out))

/-- The symbols of a block up to its end. -/
def readSymbols (literals distances : Code) : Nat → Array UInt8 → BitSource →
    Option (Array UInt8 × BitSource)
  | 0, _, _ => none
  | fuel + 1, out, s => do
    let (symbol, s) ← literals.read s
    if symbol < 256 then readSymbols literals distances fuel (out.push (UInt8.ofNat symbol)) s
    else if symbol = 256 then return (out, s)
    else
      let (base, extra) ← lengthRows[symbol - 257]?
      let (more, s) ← s.number extra
      let (symbol, s) ← distances.read s
      let (near, extra) ← distanceRows[symbol]?
      let (far, s) ← s.number extra
      readSymbols literals distances fuel (repeatBack (base + more) (near + far) out) s

/-- Reads the code lengths of a block: words of the code-length code, of which three repeat the
length before or a run of noughts. `done` holds what was read, last length first. -/
def readLengths (code : Code) (total : Nat) : Nat → List Nat → BitSource →
    Option (List Nat × BitSource)
  | 0, _, _ => none
  | fuel + 1, done, s =>
    if done.length = total then some (done.reverse, s)
    else if total < done.length then none
    else do
      let (symbol, s) ← code.read s
      if symbol < 16 then readLengths code total fuel (symbol :: done) s
      else if symbol = 16 then
        let last ← done.head?
        let (n, s) ← s.number 2
        readLengths code total fuel (List.replicate (3 + n) last ++ done) s
      else if symbol = 17 then
        let (n, s) ← s.number 3
        readLengths code total fuel (List.replicate (3 + n) 0 ++ done) s
      else
        let (n, s) ← s.number 7
        readLengths code total fuel (List.replicate (11 + n) 0 ++ done) s

/-- Reads so many numbers of three bits. -/
def readTriples : Nat → BitSource → Option (List Nat × BitSource)
  | 0, s => some ([], s)
  | n + 1, s => do
    let (x, s) ← s.number 3
    let (xs, s) ← readTriples n s
    return (x :: xs, s)

/-- Reads the two codes that a block describes. -/
def readCodes (s : BitSource) : Option (Code × Code × BitSource) := do
  let (literalCount, s) ← s.number 5
  let (distanceCount, s) ← s.number 5
  let (orderCount, s) ← s.number 4
  if 29 < literalCount ∨ 29 < distanceCount then none
  let (triples, s) ← readTriples (orderCount + 4) s
  let placed := lengthOrder.zip triples
  let lengths := (List.range 19).map fun i => (placed.lookup i).getD 0
  let code ← Code.ofLengths? lengths
  let total := literalCount + 257 + (distanceCount + 1)
  let (all, s) ← readLengths code total (total + 1) [] s
  let literals ← Code.ofLengths? (all.take (literalCount + 257))
  let distances ← Code.ofLengths? (all.drop (literalCount + 257))
  return (literals, distances, s)

/-- The bytes of a stored block. -/
def readStored (out : Array UInt8) (s : BitSource) : Option (Array UInt8 × BitSource) := do
  let s := s.align
  match s.rest with
  | a :: b :: c :: d :: rest =>
    let length := a.toNat + 256 * b.toNat
    if c.toNat + 256 * d.toNat ≠ 65535 - length ∨ rest.length < length then none
    else some (out ++ (rest.take length).toArray, .ofBytes (rest.drop length))
  | _ => none

/-- Blocks up to the one marked as the last. -/
def readBlocks : Nat → Array UInt8 → BitSource → Option (Array UInt8 × BitSource)
  | 0, _, _ => none
  | fuel + 1, out, s => do
    let (last, s) ← s.number 1
    let (kind, s) ← s.number 2
    let symbols := 8 * s.rest.length + 9
    let (out, s) ←
      if kind = 0 then readStored out s
      else if kind = 1 then do
        let literals ← Code.ofLengths? fixedLengths
        let distances ← Code.ofLengths? (fixedDistances ++ [5, 5])
        readSymbols literals distances symbols out s
      else if kind = 2 then do
        let (literals, distances, s) ← readCodes s
        readSymbols literals distances symbols out s
      else none
    if last = 1 then return (out, s) else readBlocks fuel out s

/-- Decompresses a deflate stream and gives back what follows it. -/
def inflate? (b : Bytes) : Option (Bytes × Bytes) := do
  let (out, s) ← readBlocks (8 * b.length + 1) #[] (.ofBytes b)
  return (out.toList, s.rest)

end CacheLayer.Gzip
