/-
The transformers that come with the cache: compression, encryption, validation,
and the restriction of any of them to payloads that pass a test.
-/
import CacheLayer.Cipher.Sealed
import CacheLayer.Gzip.Member
import CacheLayer.Transform.Registry

namespace CacheLayer.Transformer

/-- Compresses payloads of at least `minSize` bytes; levels above nine act as nine. -/
def compression (level minSize : Nat) (priority : Int) : Transformer where
  name := "compression"
  priority := priority
  applies _ b := minSize ≤ b.length
  transform _ _ b := .ok (Gzip.compress (min level 9) b)
  restore _ b :=
    match Gzip.decompress? b with
    | some b => .ok b
    | none => .error (.decoding "gzip decompression failed")

/-- The usual priority of compression. -/
def compressionPriority : Int := 10

/-- The usual priority of encryption, behind compression. -/
def encryptionPriority : Int := 20

/-- The usual priority of validation, before all else. -/
def validationPriority : Int := -10

/-- Compression with the usual settings. -/
def usualCompression : Transformer := compression 6 1024 compressionPriority

def nonceLength : Nat := 12

/-- Encrypts payloads under a key of 32 bytes. The nonce goes before the cipher bytes. -/
def encryption (key : Bytes) (priority : Int) : Except Error Transformer :=
  if key.length = 32 then
    let keys := Cipher.roundKeys key
    .ok {
      name := "encryption"
      priority := priority
      applies := fun _ _ => true
      transform := fun fresh _ b =>
        let nonce := Cipher.ofNumber nonceLength fresh
        .ok (nonce ++ Cipher.close keys nonce b)
      restore := fun _ b =>
        if b.length < nonceLength then .error (.decoding "ciphertext shorter than nonce")
        else
          match Cipher.open? keys (b.take nonceLength) (b.drop nonceLength) with
          | some b => .ok b
          | none => .error (.decoding "decryption failed: aead::Error") }
  else
    .error (.config ("encryption key must be 32 bytes, got " ++ toString key.length))

/-- Lets a payload pass only if it is small enough and passes a test. -/
def validation (maxSize : Option Nat) (accept : Option (String → Bytes → Bool))
    (priority : Int) : Transformer where
  name := "validation"
  priority := priority
  applies _ _ := true
  transform _ key b :=
    if maxSize.any (· < b.length) then
      .error (.invalid ("value for " ++ key ++ " is " ++ toString b.length ++
        " bytes, limit is " ++ toString (maxSize.getD 0)))
    else if accept.all fun p => p key b then .ok b
    else .error (.invalid ("value for " ++ key ++ " rejected by predicate"))
  restore _ b := .ok b

/-- The transformer, but only for payloads that pass a test. It keeps its name, so what it made is
restored by it even after the test has changed. -/
def restrictTo (t : Transformer) (test : String → Bytes → Bool) : Transformer :=
  { t with applies := fun key b => test key b && t.applies key b }

/-- The transformer, but only for keys that begin with a text. -/
def forKeysFrom (t : Transformer) (start : String) : Transformer :=
  t.restrictTo fun key _ => start.isPrefixOf key

end CacheLayer.Transformer
