/-
The checksum of gzip members: the remainder of the data, read as a polynomial
over two elements with the lowest bit of each byte first, by the polynomial
0xedb88320, complemented before and after.
-/
import CacheLayer.Text.Utf8

namespace CacheLayer.Gzip

/-- One bit of the division. -/
def divideBit (c : UInt32) : UInt32 :=
  if c &&& 1 = 1 then (c >>> 1) ^^^ 0xedb88320 else c >>> 1

/-- The remainders of the single bytes. -/
def remainders : Array UInt32 :=
  (Array.range 256).map fun n => (List.range 8).foldl (fun c _ => divideBit c) (UInt32.ofNat n)

/-- The checksum of a sequence of bytes. -/
def checksum (b : Bytes) : UInt32 :=
  let step (c : UInt32) (x : UInt8) : UInt32 :=
    remainders.getD ((c ^^^ x.toUInt32) &&& 0xff).toNat 0 ^^^ (c >>> 8)
  b.foldl step 0xffffffff ^^^ 0xffffffff

end CacheLayer.Gzip
