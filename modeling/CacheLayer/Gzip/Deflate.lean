/-
Compression into deflate streams: one block with the fixed codes, in which
repetitions are written as matches; at level zero, blocks that store the data
as it is.

The search for a match is only a proposal. Whatever it proposes is compared
byte by byte before it is used (`matchLength`), so the stream says what the
data say.
-/
import CacheLayer.Gzip.Bits
import CacheLayer.Gzip.Tables
import Std.Data.HashMap

namespace CacheLayer.Gzip

/-- A piece of the data: a byte, or a repetition of what stands `distance` bytes before. -/
inductive Piece where
  | literal (b : UInt8)
  | repetition (length distance : Nat)

/-- How far the data at two places agree, up to `fuel` bytes. -/
def matchLength (data : Array UInt8) : Nat → Nat → Nat → Nat
  | 0, _, _ => 0
  | fuel + 1, i, j =>
    if i < data.size ∧ j < data.size ∧ data.getD i 0 = data.getD j 0 then
      matchLength data fuel (i + 1) (j + 1) + 1
    else 0

/-- The best repetition for the place `i` among earlier places. -/
def bestMatch (data : Array UInt8) (i : Nat) (places : List Nat) : Nat × Nat :=
  places.foldl (fun (length, distance) j =>
    if j < i ∧ i - j ≤ 32768 then
      let n := matchLength data 258 i j
      if length < n then (n, i - j) else (length, distance)
    else (length, distance)) (0, 0)

/-- Three bytes as a number, by which earlier places are looked up. -/
def trigram (data : Array UInt8) (i : Nat) : Nat :=
  (data.getD i 0).toNat + 256 * (data.getD (i + 1) 0).toNat + 65536 * (data.getD (i + 2) 0).toNat

/-- Splits the data from place `i` on into pieces, trying `effort` earlier places at each. -/
def split (data : Array UInt8) (effort : Nat) (seen : Std.HashMap Nat (List Nat)) (i : Nat) :
    List Piece :=
  if h : i < data.size then
    let key := trigram data i
    let places := seen.getD key []
    let seen := seen.insert key ((i :: places).take effort)
    let (length, distance) := bestMatch data i places
    if hl : 3 ≤ length then .repetition length distance :: split data effort seen (i + length)
    else .literal data[i] :: split data effort seen (i + 1)
  else []
termination_by data.size - i

/-- The row of a table whose range a number lies in: its place, its start and its bits. -/
def row (rows : List (Nat × Nat)) (n : Nat) : Nat × Nat × Nat :=
  let fitting := (rows.zip (List.range rows.length)).filter fun ((start, _), _) => start ≤ n
  match fitting.getLast? with
  | some ((start, bits), place) => (place, start, bits)
  | none => (0, 0, 0)

/-- The word of a literal or length symbol in the fixed code, and its length. -/
def fixedWord (symbol : Nat) : Nat × Nat :=
  if symbol < 144 then (0x30 + symbol, 8)
  else if symbol < 256 then (0x190 + (symbol - 144), 9)
  else if symbol < 280 then (symbol - 256, 7)
  else (0xc0 + (symbol - 280), 8)

/-- Writes a piece with the fixed codes. -/
def writePiece (s : BitSink) : Piece → BitSink
  | .literal b =>
    let (word, n) := fixedWord b.toNat
    s.code n word
  | .repetition length distance =>
    let (place, start, bits) := row lengthRows length
    let (word, n) := fixedWord (257 + place)
    let s := (s.code n word).number bits (length - start)
    let (place, start, bits) := row distanceRows distance
    (s.code 5 place).number bits (distance - start)

/-- A stored block. -/
def storedBlock (last : Bool) (b : Bytes) : Bytes :=
  let n := b.length
  let complement := 65535 - n
  (if last then 1 else 0) :: UInt8.ofNat (n % 256) :: UInt8.ofNat (n / 256) ::
    UInt8.ofNat (complement % 256) :: UInt8.ofNat (complement / 256) :: b

def store (b : Bytes) : Bytes :=
  if b.length ≤ 65535 then storedBlock true b
  else storedBlock false (b.take 65535) ++ store (b.drop 65535)
termination_by b.length
decreasing_by simp only [List.length_drop]; omega

/-- Compresses data; a higher level tries harder to find repetitions. -/
def deflate (level : Nat) (b : Bytes) : Bytes :=
  if level = 0 then store b
  else
    let start := (BitSink.empty.number 1 1).number 2 1
    let pieces := split b.toArray level ∅ 0
    let s := pieces.foldl writePiece start
    let (word, n) := fixedWord 256
    (s.code n word).bytes

end CacheLayer.Gzip
