/-
Matching keys against glob patterns: `*` stands for any piece of the key, `?`
for any character, `[...]` for a character of a class, and a backslash takes
the character after it as it is.

A pattern falls into segments between its stars. The first segment has to
match at the start of the key; every later one is searched for from the place
where the star before it stands, and the first place that fits is kept for
good (`search`). Nothing is lost by that, since a star that comes later can
stand for whatever an earlier one could.
-/

namespace CacheLayer.Glob

/-! ## Classes -/

/-- `c` lies between two ends, given in either order. -/
def between (a b c : Char) : Bool :=
  if a ≤ b then a ≤ c && c ≤ b else b ≤ c && c ≤ a

/-- Reads the members of a class up to its bracket: whether `c` is among them (or `hit` was
set before) and the pattern after the bracket, `none` if the bracket is missing. -/
def classBody (c : Char) (hit : Bool) : List Char → Option (Bool × List Char)
  | [] => none
  | ']' :: p => some (hit, p)
  | '\\' :: e :: p => classBody c (hit || e == c) p
  | a :: '-' :: b :: p =>
    if b = ']' then classBody c (hit || a == c) ('-' :: b :: p)
    else classBody c (hit || between a b c) p
  | a :: p => classBody c (hit || a == c) p

/-- Reads a class from behind its opening bracket: whether `c` belongs to it, and the pattern
after it. -/
def classStep (c : Char) : List Char → Option (Bool × List Char)
  | '^' :: p => (classBody c false p).map fun (hit, rest) => (!hit, rest)
  | p => classBody c false p

theorem classBody_length {c : Char} {hit hit' : Bool} {p rest : List Char}
    (h : classBody c hit p = some (hit', rest)) : rest.length < p.length := by
  fun_induction classBody c hit p <;>
    first
    | (simp only [Option.some.injEq, Prod.mk.injEq] at h; simp [← h.2])
    | (rename_i ih; have := ih h; simp only [List.length_cons] at this ⊢; omega)
    | simp at h

theorem classStep_length {c : Char} {hit : Bool} {p rest : List Char}
    (h : classStep c p = some (hit, rest)) : rest.length < p.length := by
  unfold classStep at h
  split at h
  · obtain ⟨⟨hit', rest'⟩, hb, he⟩ := Option.map_eq_some_iff.1 h
    simp only [Prod.mk.injEq] at he
    have := classBody_length hb
    rw [← he.2, List.length_cons]
    omega
  · exact classBody_length h

/-! ## Segments -/

/-- Lets the first sign of a pattern, which is not a star, take the character `c`: the pattern
after it, or `none` if `c` does not fit. -/
def take (c : Char) : List Char → Option (List Char)
  | [] => none
  | '?' :: p => some p
  | '[' :: p =>
    match classStep c p with
    | some (true, rest) => some rest
    | _ => none
  | '\\' :: e :: p => if e = c then some p else none
  | d :: p => if d = c then some p else none

theorem take_length {c : Char} {p rest : List Char} (h : take c p = some rest) :
    rest.length < p.length := by
  unfold take at h
  split at h
  · simp at h
  · simp only [Option.some.injEq] at h
    simp [← h]
  · split at h
    · rename_i hc
      simp only [Option.some.injEq] at h
      have := classStep_length hc
      rw [← h, List.length_cons]
      omega
    · simp at h
  · split at h
    · simp only [Option.some.injEq] at h
      simp only [← h, List.length_cons]
      omega
    · simp at h
  · split at h
    · simp only [Option.some.injEq] at h
      simp [← h]
    · simp at h

/-- How the match of one segment ends. -/
inductive End where
  /-- Pattern and key ended together. -/
  | both
  /-- The segment ended at a star, with these left of the pattern and of the key. -/
  | star (p k : List Char)
  /-- The segment does not stand at this place of the key. -/
  | mismatch

/-- Matches the first segment of a pattern at the start of a key. -/
def segment : List Char → List Char → End
  | '*' :: p, k => .star p k
  | [], [] => .both
  | _, [] => .mismatch
  | p, c :: k =>
    match take c p with
    | some p' => segment p' k
    | none => .mismatch

theorem segment_star_length {p k p' k' : List Char} (h : segment p k = .star p' k') :
    p'.length < p.length := by
  fun_induction segment p k with
  | case1 p k =>
    simp only [End.star.injEq] at h
    simp [h.1]
  | case2 => simp at h
  | case3 => simp at h
  | case4 p c k _ q hq ih =>
    have := ih h
    have := take_length hq
    omega
  | case5 => simp at h

/-- Finds the first place in the key from which the pattern matches to the end. -/
def search (p k : List Char) : Bool :=
  match _h : segment p k with
  | .both => true
  | .star p' k' => search p' k'
  | .mismatch =>
    match k with
    | [] => false
    | _ :: k => search p k
termination_by (p.length, k.length)
decreasing_by
  · exact Prod.Lex.left _ _ (segment_star_length _h)
  · exact Prod.Lex.right _ (by simp)

/-- The pattern matches the key, both given by their characters. -/
def matchesChars (p k : List Char) : Bool :=
  match segment p k with
  | .both => true
  | .star p' k' => search p' k'
  | .mismatch => false

/-- The key matches the glob pattern. -/
def accepts (pattern key : String) : Bool :=
  matchesChars pattern.toList key.toList

end CacheLayer.Glob
