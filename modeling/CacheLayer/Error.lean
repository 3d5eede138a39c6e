/-
What can go wrong, by cause. `Error.message` is the one place that words it.
A miss is an expected answer rather than a failure: callers ask `isMiss` and
turn to the source.
-/

namespace CacheLayer

inductive Error where
  /-- The key is absent from the cache, or its entry has expired. -/
  | cacheMiss (key : String)
  /-- A value could not be written as bytes. -/
  | encoding (text : String)
  /-- Stored bytes could not be read as a value. -/
  | decoding (text : String)
  /-- The source failed to load or to store. -/
  | source (text : String)
  /-- The source has no value for the key. -/
  | notFound (key : String)
  /-- A value was rejected by the source's check or by a validation step. -/
  | invalid (text : String)
  /-- A deletion still failed at its last attempt. -/
  | retriesExhausted (attempts : Nat) (text : String)
  /-- The store is out of reach, or refused a command. -/
  | backend (text : String)
  /-- The key holds a value of another type than the command works on. -/
  | wrongType (key : String)
  /-- A setting is malformed or cannot be used. -/
  | config (text : String)
  /-- A hook ended the chain of hooks. -/
  | hook (name : String) (text : String)
  /-- A transformer failed to transform or to restore a payload. -/
  | transform (name : String) (text : String)
  deriving Repr, DecidableEq, Inhabited

namespace Error

/-- The failure says only that the key is not in the cache. -/
def isMiss : Error → Bool
  | .cacheMiss _ => true
  | _ => false

/-- The failure in words. -/
def message : Error → String
  | .cacheMiss key => "Cache miss: " ++ key
  | .encoding text => "Serialization error: " ++ text
  | .decoding text => "Deserialization error: " ++ text
  | .source text => "Data source error: " ++ text
  | .notFound key => "Not found in data source: " ++ key
  | .invalid text => "Validation error: " ++ text
  | .retriesExhausted attempts text =>
    "Retries exhausted after " ++ toString attempts ++ " attempts: " ++ text
  | .backend text => "Backend error: " ++ text
  | .wrongType key => "Wrong value type for key: " ++ key
  | .config text => "Configuration error: " ++ text
  | .hook name text => "Hook '" ++ name ++ "' failed: " ++ text
  | .transform name text => "Transformer '" ++ name ++ "' failed: " ++ text

end Error
end CacheLayer
