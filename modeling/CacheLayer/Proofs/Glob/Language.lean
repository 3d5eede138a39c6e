/-
The language of a glob pattern. A pattern is a list of tokens, read from the
left; a key belongs to it if it falls into consecutive pieces that fit the
tokens one by one.

The matcher keeps only the last star that it has passed. No match is lost by
that: a segment takes one character for each of its tokens, so wherever else
the segment could stand, it would leave a later part of the key to the star
behind it, and what that star can cover from there it can cover from here
(`covers_star_append`).

Main statement: `accepts_iff_covers`.
-/
import CacheLayer.Glob.Match
import Mathlib.Data.List.Forall2

namespace CacheLayer.Glob

/-! ## Tokens -/

/-- What a class lists. -/
inductive Member where
  | one (c : Char)
  | range (a b : Char)

/-- The character is one of the member's; the ends of a range stand in either order. -/
def Member.Holds (c : Char) : Member → Prop
  | one d => c = d
  | range a b => (a ≤ c ∧ c ≤ b) ∨ (b ≤ c ∧ c ≤ a)

instance (c : Char) : (m : Member) → Decidable (m.Holds c)
  | .one d => inferInstanceAs (Decidable (c = d))
  | .range a b => inferInstanceAs (Decidable ((a ≤ c ∧ c ≤ b) ∨ (b ≤ c ∧ c ≤ a)))

inductive Token where
  | star
  | any
  | literal (c : Char)
  | oneOf (members : List Member)
  | noneOf (members : List Member)
  /-- A bracket that opens a class without an end. -/
  | unclosed

/-- The piece of a key fits the token. -/
def Token.Fits : Token → List Char → Prop
  | star, _ => True
  | any, piece => ∃ c, piece = [c]
  | literal c, piece => piece = [c]
  | oneOf ms, piece => ∃ c, piece = [c] ∧ ∃ m ∈ ms, m.Holds c
  | noneOf ms, piece => ∃ c, piece = [c] ∧ ¬ ∃ m ∈ ms, m.Holds c
  | unclosed, _ => False

/-- Puts a member before those that were read behind it. -/
def withMember (m : Member) (r : Option (List Member × List Char)) :
    Option (List Member × List Char) :=
  r.map fun (ms, rest) => (m :: ms, rest)

/-- Reads the members of a class up to its bracket, and the pattern after it. -/
def readMembers : List Char → Option (List Member × List Char)
  | [] => none
  | ']' :: p => some ([], p)
  | '\\' :: e :: p => withMember (.one e) (readMembers p)
  | a :: '-' :: b :: p =>
    if b = ']' then withMember (.one a) (readMembers ('-' :: b :: p))
    else withMember (.range a b) (readMembers p)
  | a :: p => withMember (.one a) (readMembers p)

/-- Reads a class from behind its opening bracket, and the pattern after it. -/
def readClass : List Char → Option (Token × List Char)
  | '^' :: p => (readMembers p).map fun (ms, rest) => (.noneOf ms, rest)
  | p => (readMembers p).map fun (ms, rest) => (.oneOf ms, rest)

/-- The token that begins with a character, and the pattern after it. -/
def readToken : Char → List Char → Token × List Char
  | '*', p => (.star, p)
  | '?', p => (.any, p)
  | '[', p => (readClass p).getD (.unclosed, [])
  | '\\', e :: p => (.literal e, p)
  | d, p => (.literal d, p)

theorem readMembers_length {p rest : List Char} {ms : List Member}
    (h : readMembers p = some (ms, rest)) : rest.length < p.length := by
  fun_induction readMembers p generalizing ms rest with
  | case1 => cases h
  | case2 p =>
    cases h
    exact Nat.lt_succ_self _
  | case3 e p ih | case4 a p _ _ ih | case5 a b p _ _ _ ih | case6 a p _ _ _ ih =>
    obtain ⟨⟨ms', rest'⟩, hread, heq⟩ := Option.map_eq_some_iff.1 h
    cases heq
    have := ih hread
    simp only [List.length_cons] at this ⊢
    omega

theorem readClass_length {p rest : List Char} {t : Token} (h : readClass p = some (t, rest)) :
    rest.length < p.length := by
  unfold readClass at h
  split at h
  · obtain ⟨⟨ms, rest'⟩, hread, heq⟩ := Option.map_eq_some_iff.1 h
    cases heq
    exact Nat.lt_succ_of_lt (readMembers_length hread)
  · obtain ⟨⟨ms, rest'⟩, hread, heq⟩ := Option.map_eq_some_iff.1 h
    cases heq
    exact readMembers_length hread

theorem readToken_length (d : Char) (p : List Char) : (readToken d p).2.length ≤ p.length := by
  unfold readToken
  split
  · exact Nat.le_refl _
  · exact Nat.le_refl _
  · cases h : readClass _ with
    | none => exact Nat.zero_le _
    | some r => exact Nat.le_of_lt (readClass_length h)
  · exact Nat.le_succ _
  · exact Nat.le_refl _

/-- The tokens of a pattern. -/
def tokens : List Char → List Token
  | [] => []
  | d :: p => (readToken d p).1 :: tokens (readToken d p).2
termination_by p => p.length
decreasing_by exact Nat.lt_succ_of_le (readToken_length d p)

/-- The key falls into consecutive pieces that fit the tokens one by one. -/
def Covers (ts : List Token) (k : List Char) : Prop :=
  ∃ pieces : List (List Char), pieces.flatten = k ∧ List.Forall₂ Token.Fits ts pieces

/-! ## Keys that tokens cover -/

variable {t : Token} {ts : List Token} {c d : Char} {k p q : List Char}

theorem covers_nil_iff : Covers [] k ↔ k = [] := by
  constructor
  · rintro ⟨pieces, rfl, h⟩
    cases h
    rfl
  · rintro rfl
    exact ⟨[], rfl, .nil⟩

theorem covers_cons_iff :
    Covers (t :: ts) k ↔ ∃ piece rest, k = piece ++ rest ∧ t.Fits piece ∧ Covers ts rest := by
  constructor
  · rintro ⟨pieces, rfl, h⟩
    cases h with
    | cons ht hts => exact ⟨_, _, List.flatten_cons, ht, _, rfl, hts⟩
  · rintro ⟨piece, rest, rfl, ht, pieces, rfl, hts⟩
    exact ⟨piece :: pieces, List.flatten_cons, .cons ht hts⟩

/-- Every token but a star stands for one character. -/
theorem Token.Fits.exists_eq {piece : List Char} (h : t.Fits piece) (hne : t ≠ .star) :
    ∃ c, piece = [c] := by
  cases t with
  | star => exact absurd rfl hne
  | any => exact h
  | literal c => exact ⟨c, h⟩
  | oneOf ms => exact ⟨h.choose, h.choose_spec.1⟩
  | noneOf ms => exact ⟨h.choose, h.choose_spec.1⟩
  | unclosed => exact h.elim

theorem not_covers_cons_nil (hne : t ≠ .star) : ¬ Covers (t :: ts) [] := by
  intro h
  obtain ⟨piece, rest, heq, hfits, -⟩ := covers_cons_iff.1 h
  obtain ⟨c, rfl⟩ := hfits.exists_eq hne
  cases heq

theorem covers_cons_cons_iff (hne : t ≠ .star) :
    Covers (t :: ts) (c :: k) ↔ t.Fits [c] ∧ Covers ts k := by
  rw [covers_cons_iff]
  constructor
  · rintro ⟨piece, rest, heq, hfits, hrest⟩
    obtain ⟨c', rfl⟩ := hfits.exists_eq hne
    cases heq
    exact ⟨hfits, hrest⟩
  · rintro ⟨hfits, hrest⟩
    exact ⟨[c], k, rfl, hfits, hrest⟩

theorem covers_star_of_covers (h : Covers ts k) : Covers (.star :: ts) k :=
  covers_cons_iff.2 ⟨[], k, rfl, trivial, h⟩

theorem covers_star_append (x : List Char) (h : Covers (.star :: ts) k) :
    Covers (.star :: ts) (x ++ k) := by
  obtain ⟨piece, rest, rfl, -, hrest⟩ := covers_cons_iff.1 h
  exact covers_cons_iff.2 ⟨x ++ piece, rest, (List.append_assoc ..).symm, trivial, hrest⟩

theorem covers_star_cons_iff :
    Covers (.star :: ts) (c :: k) ↔ Covers ts (c :: k) ∨ Covers (.star :: ts) k := by
  constructor
  · intro h
    obtain ⟨piece, rest, heq, -, hrest⟩ := covers_cons_iff.1 h
    cases piece with
    | nil => exact .inl (heq ▸ hrest)
    | cons c' piece =>
      cases heq
      exact .inr (covers_cons_iff.2 ⟨piece, rest, rfl, trivial, hrest⟩)
  · rintro (h | h)
    · exact covers_star_of_covers h
    · exact covers_star_append [c] h

/-! ## One token against one character -/

theorem between_iff {a b : Char} : between a b c = true ↔ (Member.range a b).Holds c := by
  unfold between Member.Holds
  split
  · next hab =>
    simp only [Bool.and_eq_true, decide_eq_true_eq]
    refine ⟨.inl, fun h => h.elim id fun ⟨hb, ha⟩ => ?_⟩
    exact ⟨Char.le_trans hab hb, Char.le_trans ha hab⟩
  · next hab =>
    simp only [Bool.and_eq_true, decide_eq_true_eq]
    exact ⟨.inr, fun h => h.elim (fun ⟨ha, hb⟩ => absurd (Char.le_trans ha hb) hab) id⟩

/-- The answers of the matcher about the members that follow one. -/
theorem map_withMember (c : Char) (hit : Bool) (m : Member) (r : Option (List Member × List Char)) :
    (withMember m r).map (fun (ms, rest) => (hit || ms.any fun m => m.Holds c, rest)) =
      r.map fun (ms, rest) =>
        ((hit || decide (m.Holds c)) || ms.any fun m => m.Holds c, rest) := by
  cases r with
  | none => rfl
  | some r => simp [withMember, Bool.or_assoc]

theorem decide_one (c d : Char) : decide ((Member.one d).Holds c) = (d == c) := by
  rw [Bool.eq_iff_iff, decide_eq_true_iff, beq_iff_eq]
  exact eq_comm

theorem decide_range (c a b : Char) : decide ((Member.range a b).Holds c) = between a b c := by
  rw [Bool.eq_iff_iff, between_iff, decide_eq_true_iff]

/-- The matcher reads the members of a class one after the other and asks each of them. -/
theorem classBody_eq (c : Char) (hit : Bool) (p : List Char) :
    classBody c hit p =
      (readMembers p).map fun (ms, rest) => (hit || ms.any fun m => m.Holds c, rest) := by
  fun_induction classBody c hit p with
  | case1 => rfl
  | case2 hit p => simp only [readMembers, Option.map_some, List.any_nil, Bool.or_false]
  | case3 hit e p ih => rw [ih, readMembers, map_withMember, decide_one]
  | case4 hit a p hclose hescape ih =>
    rw [ih, readMembers, if_pos rfl, map_withMember, decide_one]
    all_goals assumption
  | case5 hit a b p hclose hescape hb ih =>
    rw [ih, readMembers, if_neg hb, map_withMember, decide_range]
    all_goals assumption
  | case6 hit a p hclose hescape hdash ih =>
    rw [ih, readMembers, map_withMember, decide_one]
    all_goals assumption

@[simp] theorem fits_any : Token.any.Fits [c] := ⟨c, rfl⟩

@[simp] theorem fits_literal_iff : (Token.literal d).Fits [c] ↔ d = c := by
  simp [Token.Fits, eq_comm]

@[simp] theorem fits_oneOf_iff {ms : List Member} :
    (Token.oneOf ms).Fits [c] ↔ ∃ m ∈ ms, m.Holds c := by
  simp [Token.Fits]

@[simp] theorem fits_noneOf_iff {ms : List Member} :
    (Token.noneOf ms).Fits [c] ↔ ¬ ∃ m ∈ ms, m.Holds c := by
  simp [Token.Fits]

/-- The matcher finds a character in a class if that fits the class as a token. -/
theorem classStep_eq_some_iff :
    classStep c p = some (true, q) ↔ ∃ t, readClass p = some (t, q) ∧ t.Fits [c] := by
  fun_cases readClass p with
  | case1 p =>
    rw [classStep, classBody_eq]
    rcases readMembers p with _ | ⟨ms, rest⟩ <;> simp [and_comm]
  | case2 p hcaret =>
    rw [classStep, classBody_eq]
    · rcases readMembers p with _ | ⟨ms, rest⟩ <;> simp [and_comm]
    · exact hcaret

theorem readClass_ne_star (h : readClass p = some (t, q)) : t ≠ .star := by
  unfold readClass at h
  split at h <;>
  · obtain ⟨⟨ms, rest⟩, hread, heq⟩ := Option.map_eq_some_iff.1 h
    cases heq
    rintro ⟨⟩

theorem readToken_ne_star (hne : d ≠ '*') : (readToken d p).1 ≠ .star := by
  fun_cases readToken d p with
  | case1 => exact absurd rfl hne
  | case3 =>
    cases h : readClass p with
    | none => rintro ⟨⟩
    | some r => exact readClass_ne_star h
  | case2 | case4 | case5 => rintro ⟨⟩

/-- Outside of stars, the matcher takes a character if that fits the next token. -/
theorem take_eq_some_iff (hne : d ≠ '*') :
    take c (d :: p) = some q ↔ (readToken d p).1.Fits [c] ∧ (readToken d p).2 = q := by
  fun_cases readToken d p with
  | case1 => exact absurd rfl hne
  | case2 => simp [take]
  | case3 =>
    have hclass : take c ('[' :: p) = some q ↔ classStep c p = some (true, q) := by
      rw [take]
      rcases classStep c p with _ | ⟨_ | _, rest⟩ <;> simp
    rw [hclass, classStep_eq_some_iff]
    cases readClass p with
    | none => simp [Token.Fits]
    | some r =>
      obtain ⟨t, rest⟩ := r
      simp [and_comm]
  | case4 e p => simp [take]
  | case5 p h₁ h₂ h₃ h₄ => simp [take]

/-! ## Segments -/

/-- What the end of a segment tells about the pattern and the key that it began with. -/
def End.Tells (p k : List Char) : End → Prop
  | .both => Covers (tokens p) k
  | .star p' k' =>
    ∃ taken, k = taken ++ k' ∧ (Covers (.star :: tokens p') k' → Covers (tokens p) k) ∧
      ∀ key, Covers (tokens p) key →
        ∃ x rest, key = x ++ rest ∧ x.length = taken.length ∧ Covers (.star :: tokens p') rest
  | .mismatch => ¬ Covers (tokens p) k

theorem tokens_nil : tokens [] = [] := by
  rw [tokens]

theorem tokens_cons (d : Char) (p : List Char) :
    tokens (d :: p) = (readToken d p).1 :: tokens (readToken d p).2 := by
  rw [tokens]

/-- A character that the matcher takes stands for the first token of the pattern. -/
theorem End.Tells.cons {e : End} (hne : d ≠ '*') (htake : take c (d :: p) = some q)
    (h : e.Tells q k) : e.Tells (d :: p) (c :: k) := by
  obtain ⟨hfits, rfl⟩ := (take_eq_some_iff hne).1 htake
  have hstar : (readToken d p).1 ≠ .star := readToken_ne_star hne
  cases e with
  | both =>
    simp only [Tells, tokens_cons, covers_cons_cons_iff hstar] at h ⊢
    exact ⟨hfits, h⟩
  | mismatch =>
    simp only [Tells, tokens_cons, covers_cons_cons_iff hstar] at h ⊢
    exact fun hcovers => h hcovers.2
  | star p' k' =>
    obtain ⟨taken, rfl, hback, hall⟩ := h
    refine ⟨c :: taken, rfl, fun hcovers => ?_, fun key hkey => ?_⟩
    · rw [tokens_cons, covers_cons_cons_iff hstar]
      exact ⟨hfits, hback hcovers⟩
    · rw [tokens_cons] at hkey
      cases key with
      | nil => exact absurd hkey (not_covers_cons_nil hstar)
      | cons c' key =>
        obtain ⟨-, hrest⟩ := (covers_cons_cons_iff hstar).1 hkey
        obtain ⟨x, rest, rfl, hlength, hcovers⟩ := hall key hrest
        exact ⟨c' :: x, rest, rfl, congrArg (· + 1) hlength, hcovers⟩

theorem tells_segment (p k : List Char) : (segment p k).Tells p k := by
  fun_induction segment p k with
  | case1 p k =>
    refine ⟨[], rfl, ?_, fun key hkey => ⟨[], key, rfl, rfl, ?_⟩⟩
    · rw [tokens_cons]
      exact id
    · rw [tokens_cons] at hkey
      exact hkey
  | case2 =>
    rw [End.Tells, tokens_nil, covers_nil_iff]
  | case3 p hstar hnil =>
    cases p with
    | nil => exact absurd rfl hnil
    | cons d p =>
      have hne : d ≠ '*' := by rintro rfl; exact hstar p rfl
      rw [End.Tells, tokens_cons]
      exact not_covers_cons_nil (readToken_ne_star hne)
  | case4 p c k hstar q hq ih =>
    cases p with
    | nil => cases hq
    | cons d p =>
      have hne : d ≠ '*' := by rintro rfl; exact hstar p rfl
      exact ih.cons hne hq
  | case5 p c k hstar hnone =>
    cases p with
    | nil =>
      rw [End.Tells, tokens_nil, covers_nil_iff]
      rintro ⟨⟩
    | cons d p =>
      have hne : d ≠ '*' := by rintro rfl; exact hstar p rfl
      intro hcovers
      rw [tokens_cons, covers_cons_cons_iff (readToken_ne_star hne)] at hcovers
      have := (take_eq_some_iff hne).2 ⟨hcovers.1, rfl⟩
      rw [hnone] at this
      cases this

/-! ## Searching -/

/-- What comes behind a segment can be sought from where the segment stands first: another place
of the segment leaves a later part of the key to the star behind it. -/
theorem covers_star_segment {p' k' : List Char} (h : segment p k = .star p' k') :
    Covers (.star :: tokens p) k ↔ Covers (.star :: tokens p') k' := by
  obtain ⟨taken, rfl, hback, hall⟩ : (End.star p' k').Tells p k := h ▸ tells_segment p k
  constructor
  · intro hcovers
    obtain ⟨before, key, heq, -, hkey⟩ := covers_cons_iff.1 hcovers
    obtain ⟨x, rest, rfl, hlength, hrest⟩ := hall key hkey
    have hlengths := congrArg List.length heq
    simp only [List.length_append] at hlengths
    have hsuffix : rest <:+ taken ++ k' := ⟨before ++ x, by rw [heq, List.append_assoc]⟩
    obtain ⟨between, rfl⟩ : rest <:+ k' :=
      List.suffix_of_suffix_length_le hsuffix (List.suffix_append taken k') (by omega)
    exact covers_star_append between hrest
  · exact fun hcovers => covers_star_of_covers (hback hcovers)

/-- The search finds out whether the pattern covers the key from some place on. -/
theorem search_iff (p k : List Char) : search p k = true ↔ Covers (.star :: tokens p) k := by
  fun_induction search p k with
  | case1 p k h =>
    have hcovers : End.both.Tells p k := h ▸ tells_segment p k
    exact iff_of_true rfl (covers_star_of_covers hcovers)
  | case2 p k p' k' h ih => exact ih.trans (covers_star_segment h).symm
  | case3 p h =>
    have hcovers : End.mismatch.Tells p [] := h ▸ tells_segment p []
    refine iff_of_false Bool.false_ne_true fun hstar => hcovers ?_
    obtain ⟨piece, rest, heq, -, hrest⟩ := covers_cons_iff.1 hstar
    rwa [(List.append_eq_nil_iff.1 heq.symm).2] at hrest
  | case4 p c k h ih =>
    have hcovers : End.mismatch.Tells p (c :: k) := h ▸ tells_segment p (c :: k)
    rw [ih, covers_star_cons_iff]
    exact (or_iff_right hcovers).symm

theorem matchesChars_iff (p k : List Char) : matchesChars p k = true ↔ Covers (tokens p) k := by
  have htells := tells_segment p k
  unfold matchesChars
  cases h : segment p k with
  | both =>
    rw [h] at htells
    exact iff_of_true rfl htells
  | mismatch =>
    rw [h] at htells
    exact iff_of_false Bool.false_ne_true htells
  | star p' k' =>
    rw [h] at htells
    obtain ⟨taken, rfl, hback, hall⟩ := htells
    refine (search_iff p' k').trans ⟨hback, fun hkey => ?_⟩
    obtain ⟨x, rest, heq, hlength, hrest⟩ := hall _ hkey
    rwa [(List.append_inj heq hlength.symm).2]

/-- **A key is accepted exactly if it belongs to the language of the pattern:** it falls into
consecutive pieces, one for each token, that fit the tokens. -/
theorem accepts_iff_covers (pattern key : String) :
    accepts pattern key = true ↔
      ∃ pieces : List (List Char), pieces.flatten = key.toList ∧
        List.Forall₂ Token.Fits (tokens pattern.toList) pieces :=
  matchesChars_iff pattern.toList key.toList

/-! ## Beginnings -/

/-- The character stands for itself in a pattern. -/
def IsPlain (c : Char) : Prop := c ≠ '*' ∧ c ≠ '?' ∧ c ≠ '[' ∧ c ≠ '\\'

theorem readToken_plain (h : IsPlain d) : readToken d p = (.literal d, p) := by
  obtain ⟨hstar, hany, hclass, hescape⟩ := h
  fun_cases readToken d p with
  | case1 => exact absurd rfl hstar
  | case2 => exact absurd rfl hany
  | case3 => exact absurd rfl hclass
  | case4 => exact absurd rfl hescape
  | case5 => rfl

/-- Plain text with a star behind it matches what begins with the text. -/
theorem accepts_beginning {start : List Char} (hplain : ∀ c ∈ start, IsPlain c)
    {pattern key : String} (hpattern : pattern.toList = start ++ ['*']) :
    accepts pattern key = true ↔ start <+: key.toList := by
  unfold accepts
  rw [matchesChars_iff, hpattern]
  generalize key.toList = k
  clear hpattern
  induction start generalizing k with
  | nil =>
    have hend : Covers (tokens []) [] := tokens_nil ▸ covers_nil_iff.2 rfl
    rw [List.nil_append, tokens_cons]
    refine iff_of_true (covers_cons_iff.2 ⟨k, [], ?_, trivial, hend⟩) List.nil_prefix
    exact (List.append_nil k).symm
  | cons d start ih =>
    obtain ⟨hd, hstart⟩ : IsPlain d ∧ ∀ c ∈ start, IsPlain c := by simpa using hplain
    rw [List.cons_append, tokens_cons, readToken_plain hd]
    cases k with
    | nil => exact iff_of_false (not_covers_cons_nil (by rintro ⟨⟩)) (by simp)
    | cons c k =>
      rw [covers_cons_cons_iff (by rintro ⟨⟩), ih hstart, fits_literal_iff, List.cons_prefix_cons]

end CacheLayer.Glob
