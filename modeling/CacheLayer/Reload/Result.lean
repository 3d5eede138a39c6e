/-
The outcome of a reload of many keys. A key that could not be reloaded does not
end the reload; it is listed with its error.
-/
import CacheLayer.Error

namespace CacheLayer

/-- What became of the keys of a reload. -/
structure ReloadResult where
  /-- How many keys were reloaded. -/
  reloaded : Nat := 0
  /-- How many were not. -/
  failed : Nat := 0
  /-- The keys that were not, in their order, with the reasons. -/
  errors : List (String × Error) := []
  deriving DecidableEq, Repr, Inhabited

namespace ReloadResult

/-- Every key was reloaded. -/
def isSuccess (r : ReloadResult) : Bool := r.failed == 0

/-- One more key was reloaded. -/
def succeed (r : ReloadResult) : ReloadResult := { r with reloaded := r.reloaded + 1 }

/-- One more key was not reloaded. -/
def fail (r : ReloadResult) (key : String) (e : Error) : ReloadResult :=
  { r with failed := r.failed + 1, errors := r.errors ++ [(key, e)] }

/-- Two results, one after the other. -/
def merge (r s : ReloadResult) : ReloadResult :=
  ⟨r.reloaded + s.reloaded, r.failed + s.failed, r.errors ++ s.errors⟩

end ReloadResult
end CacheLayer
