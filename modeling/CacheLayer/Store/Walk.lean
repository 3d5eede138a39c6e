/-
Walking through the keys page by page. A walk starts at cursor zero; each page
gives the cursor of the next one, until zero comes back. A cursor remembers the
last key that its walk has passed, so deletions between pages never shift other
keys out of the walk. It serves once, and an unknown cursor ends the walk.
-/
import CacheLayer.Glob.Match
import CacheLayer.Store.Basic

namespace CacheLayer.Store

/-- The live keys that come after a key, or all of them. -/
def keysAfter (s : Store) (now : Nat) (after : Option String) : List String :=
  match after with
  | none => s.liveKeys now
  | some last => (s.liveKeys now).filter fun k => last < k

/-- The store in which a cursor is closed, and the key it had reached. -/
def closeCursor (s : Store) (cursor : Nat) : Option String × Store :=
  ((s.cursors.find? (·.1 == cursor)).map (·.2),
    { s with cursors := s.cursors.filter (·.1 != cursor) })

/-- A page that looks at `count` more keys, at least one, and shows those that match. -/
def page (s : Store) (now : Nat) (after : Option String) (pattern : String) (count : Nat) :
    (Nat × List String) × Store :=
  let rest := s.keysAfter now after
  let seen := rest.take (max count 1)
  let shown := seen.filter (Glob.accepts pattern)
  match seen.getLast? with
  | some last =>
    if seen.length < rest.length then
      let id := s.opened + 1
      ((id, shown), { s with cursors := (id, last) :: s.cursors, opened := id })
    else ((0, shown), s)
  | none => ((0, shown), s)

/-- The page at a cursor, with the cursor of the next page. -/
def scan (s : Store) (now : Nat) (cursor : Nat) (pattern : String) (count : Nat) :
    (Nat × List String) × Store :=
  if cursor = 0 then s.page now none pattern count
  else
    match s.closeCursor cursor with
    | (some last, s) => s.page now (some last) pattern count
    | (none, s) => ((0, []), s)

/-- The pages of a walk from a cursor on; after each page something is done to the store. At most so
many pages are asked for. -/
def pagesFrom (now : Nat) (pattern : String) (count : Nat) (between : List String → Store → Store) :
    Nat → Nat → Store → List (List String) × Store
  | 0, _, s => ([], s)
  | pages + 1, cursor, s =>
    let ((next, keys), s) := s.scan now cursor pattern count
    let s := between keys s
    if next = 0 then ([keys], s)
    else
      let (rest, s) := pagesFrom now pattern count between pages next s
      (keys :: rest, s)

/-- The pages of a whole walk during which no key is added: a page passes one key at least. -/
def walk (s : Store) (now : Nat) (pattern : String) (count : Nat)
    (between : List String → Store → Store) : List (List String) × Store :=
  pagesFrom now pattern count between (s.entries.size + 1) 0 s

end CacheLayer.Store
