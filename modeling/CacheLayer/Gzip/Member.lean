/-
Gzip members: a header, a deflate stream, and the checksum and length of the
data. A reader takes the first member and ignores what comes after it.
-/
import CacheLayer.Gzip.Checksum
import CacheLayer.Gzip.Deflate
import CacheLayer.Gzip.Inflate

namespace CacheLayer.Gzip

/-- The four bytes of a word, lowest first. -/
def word4 (n : UInt32) : Bytes :=
  [n.toUInt8, (n >>> 8).toUInt8, (n >>> 16).toUInt8, (n >>> 24).toUInt8]

/-- The header of a member without name, time or comment. -/
def plainHeader : Bytes := [0x1f, 0x8b, 8, 0, 0, 0, 0, 0, 0, 0xff]

/-- Compresses data into one member. -/
def compress (level : Nat) (b : Bytes) : Bytes :=
  plainHeader ++ deflate level b ++ word4 (checksum b) ++ word4 (UInt32.ofNat b.length)

/-- What follows a text that ends with a zero byte. -/
def afterZero? (b : Bytes) : Option Bytes :=
  match b.dropWhile (· != 0) with
  | [] => none
  | _ :: rest => some rest

/-- Skips the optional parts of a header, as its flags announce them. `whole` is the member from
its first byte on, over whose header the header's own checksum goes. -/
def skipOptions? (whole : Bytes) (flags : UInt8) (b : Bytes) : Option Bytes := do
  let b ← if flags &&& 4 = 0 then some b
    else match b with
      | lo :: hi :: rest =>
        let n := lo.toNat + 256 * hi.toNat
        if rest.length < n then none else some (rest.drop n)
      | _ => none
  let b ← if flags &&& 8 = 0 then some b else afterZero? b
  let b ← if flags &&& 16 = 0 then some b else afterZero? b
  if flags &&& 2 = 0 then some b
  else match b with
    | lo :: hi :: rest =>
      let sum := checksum (whole.take (whole.length - b.length))
      if lo.toNat + 256 * hi.toNat = sum.toNat % 65536 then some rest else none
    | _ => none

/-- What follows the header. -/
def skipHeader? (b : Bytes) : Option Bytes :=
  match b with
  | 0x1f :: 0x8b :: 8 :: flags :: _ :: _ :: _ :: _ :: _ :: _ :: rest =>
    if flags &&& 0xe0 = 0 then skipOptions? b flags rest else none
  | _ => none

/-- The data of the first member. -/
def decompress? (b : Bytes) : Option Bytes := do
  let body ← skipHeader? b
  let (data, rest) ← inflate? body
  if rest.length < 8 then none
  else if rest.take 8 = word4 (checksum data) ++ word4 (UInt32.ofNat data.length) then some data
  else none

end CacheLayer.Gzip
