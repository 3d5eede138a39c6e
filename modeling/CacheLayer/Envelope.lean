/-
The envelope around a payload that transformers have changed. It names them,
so that a reader can undo their work in reverse order:

    magic "CENV", count (one byte), then per name its length (one byte) and
    its UTF-8 bytes, then the payload.

A payload that nothing changed is kept bare. `unwrap` tells the two apart by
the magic alone: bytes that begin otherwise, or are too few to hold a count,
are bare.
-/
import CacheLayer.Error
import CacheLayer.Text.Utf8

namespace CacheLayer.Envelope

/-- The four bytes an envelope begins with. -/
def magic : Bytes := [0x43, 0x45, 0x4e, 0x56]

/-- The most names, and the most bytes of a name. -/
def limit : Nat := 255

/-- The names of an envelope, each behind its length. -/
def sealNames : List String → Except Error Bytes
  | [] => .ok []
  | name :: names =>
    let bytes := Text.utf8 name
    if bytes.length > limit then
      .error (.encoding ("Transformer name too long: " ++ name))
    else
      (sealNames names).map fun rest => UInt8.ofNat bytes.length :: bytes ++ rest

/-- Puts a payload into an envelope that names the transformers applied to it, in the order of
their application; without any, the payload stays bare. -/
def wrap (names : List String) (payload : Bytes) : Except Error Bytes :=
  if names.isEmpty then .ok payload
  else if names.length > limit then
    .error (.encoding ("Too many transformers in envelope: " ++ toString names.length))
  else
    (sealNames names).map fun header =>
      magic ++ UInt8.ofNat names.length :: header ++ payload

/-- Reads `count` names and gives back what follows them. -/
def openNames : Nat → Bytes → Except Error (List String × Bytes)
  | 0, b => .ok ([], b)
  | _ + 1, [] => .error (.decoding "Truncated transform envelope")
  | count + 1, len :: b =>
    if b.length < len.toNat then .error (.decoding "Truncated transformer name")
    else
      match Text.ofUtf8? (b.take len.toNat) with
      | none => .error (.decoding "transformer name is not UTF-8")
      | some name => (openNames count (b.drop len.toNat)).map fun (names, rest) =>
          (name :: names, rest)

/-- The names in an envelope and its payload; bare bytes have no names and are all payload. -/
def unwrap (b : Bytes) : Except Error (List String × Bytes) :=
  if b.take 4 = magic then
    match b.drop 4 with
    | [] => .ok ([], b)
    | count :: rest => openNames count.toNat rest
  else .ok ([], b)

end CacheLayer.Envelope
