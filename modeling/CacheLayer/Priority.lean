/-
Registries kept in the order of priority: lower numbers come first, and of two
entries with one number the one that was registered earlier. Registering sorts
anew with a stable sort, so the list is always the stable sort of what was
registered, in order of registration.
-/

namespace CacheLayer.Priority

/-- The stable sort by ascending priority. -/
def sort {α : Type} (priority : α → Int) (entries : List α) : List α :=
  entries.mergeSort fun a b => priority a ≤ priority b

/-- Registers an entry behind the others. -/
def register {α : Type} (priority : α → Int) (entries : List α) (a : α) : List α :=
  sort priority (entries ++ [a])

/-- Drops the entries of a name, and tells whether anything was dropped. -/
def discard {α : Type} (nameOf : α → String) (entries : List α) (name : String) : Bool × List α :=
  let rest := entries.filter fun a => nameOf a != name
  (rest.length != entries.length, rest)

end CacheLayer.Priority
