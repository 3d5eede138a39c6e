/-
The two encodings of stored values, and formats: how the values of one type
are written and read under each of them. The engine works with any format; the
format of typed values (`Format.ofSchema`) is the one that requests use.
-/
import CacheLayer.Error
import CacheLayer.Datum.JsonForm
import CacheLayer.Datum.Postcard
import CacheLayer.Text.Blank

namespace CacheLayer

inductive Codec where
  | json
  | postcard
  deriving DecidableEq, Repr, Inhabited

namespace Codec

def name : Codec → String
  | .json => "json"
  | .postcard => "postcard"

/-- The codec of a name, in capital or small letters. -/
def parse (s : String) : Except Error Codec :=
  let s := Text.lower s
  if s = "json" then .ok .json
  else if s = "postcard" then .ok .postcard
  else .error (.config ("Unknown codec: " ++ s))

end Codec

/-- How values of a type become bytes and come back. -/
structure Format (α : Type) where
  encode : Codec → α → Except Error Bytes
  decode : Codec → Bytes → Except Error α

namespace Format

/-- What is encoded can be decoded to the same value. -/
def Faithful {α : Type} (f : Format α) : Prop :=
  ∀ c a b, f.encode c a = .ok b → f.decode c b = .ok a

/-- The format of typed values. -/
def ofSchema (s : Schema) : Format Datum where
  encode
    | .json, d =>
      match d.toJson? with
      | some b => .ok b
      | none => .error (.encoding "key must be a string")
    | .postcard, d => .ok (Datum.Postcard.write d)
  decode
    | .json, b =>
      match Datum.ofJson? s b with
      | some d => .ok d
      | none => .error (.decoding "malformed JSON")
    | .postcard, b =>
      match Datum.Postcard.ofBytes? s b with
      | some d => .ok d
      | none => .error (.decoding "malformed postcard bytes")

/-- The format of truth values, as markers hold them. -/
def flag : Format Bool where
  encode c b := (ofSchema .bool).encode c (.bool b)
  decode c b := do
    match ← (ofSchema .bool).decode c b with
    | .bool b => return b
    | _ => throw (.decoding "not a truth value")

end Format
end CacheLayer
