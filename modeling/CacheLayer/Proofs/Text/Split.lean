/-
Words with commas between them. A text is cut at every comma and nowhere else, so its pieces are the
only ones that are free of commas and make it up again with commas between them (`splitChars_eq_iff`).
The words are these pieces without the blanks around them, in order, the empty ones left out
(`words_eq_iff`).
-/
import CacheLayer.Text.Split

namespace CacheLayer.Text

variable {sep : Char} {cs : List Char} {pieces : List (List Char)}

theorem splitChars_eq_splitOn (sep : Char) (cs : List Char) : splitChars sep cs = cs.splitOn sep := by
  induction cs with
  | nil => exact (List.splitOn_nil sep).symm
  | cons c cs ih =>
    rw [splitChars, ih, List.splitOn_cons_eq_if_modifyHead]
    cases h : cs.splitOn sep with
    | nil => exact absurd h (List.splitOn_ne_nil sep cs)
    | cons piece pieces => by_cases hc : c = sep <;> simp [hc]

/-- No piece has the separator in it. -/
theorem not_mem_splitChars (sep : Char) (cs : List Char) : ∀ p ∈ splitChars sep cs, sep ∉ p := by
  induction cs with
  | nil => simp [splitChars]
  | cons c cs ih =>
    rw [splitChars]
    cases hrest : splitChars sep cs with
    | nil =>
      rw [splitChars_eq_splitOn] at hrest
      exact absurd hrest (List.splitOn_ne_nil sep cs)
    | cons first rest =>
      rw [hrest] at ih
      obtain ⟨hfirst, hlater⟩ := List.forall_mem_cons.1 ih
      by_cases hc : c = sep
      · simp only [if_pos hc]
        exact List.forall_mem_cons.2 ⟨by simp, ih⟩
      · simp only [if_neg hc]
        exact List.forall_mem_cons.2 ⟨by simp [Ne.symm hc, hfirst], hlater⟩

/-- The pieces are the only ones free of the separator that make up the text with separators between
them. -/
theorem splitChars_eq_iff : splitChars sep cs = pieces ↔
    pieces ≠ [] ∧ (∀ p ∈ pieces, sep ∉ p) ∧ cs = [sep].intercalate pieces := by
  constructor
  · rintro rfl
    refine ⟨?_, not_mem_splitChars sep cs, ?_⟩
    · rw [splitChars_eq_splitOn]
      exact List.splitOn_ne_nil sep cs
    · rw [splitChars_eq_splitOn, List.intercalate_splitOn]
  · rintro ⟨hne, hfree, rfl⟩
    rw [splitChars_eq_splitOn, List.splitOn_intercalate sep hfree hne]

/-- The words are the pieces of the text between its commas, in order and without the blanks around
them, except those of which nothing is left. -/
def AreWords (s : String) (ws : List String) : Prop :=
  ∃ pieces : List (List Char), pieces ≠ [] ∧ (∀ p ∈ pieces, ',' ∉ p) ∧
    s.toList = [','].intercalate pieces ∧
    ws = (pieces.map fun p => String.ofList (trimChars p)).filter (· ≠ "")

theorem words_eq_iff {s : String} {ws : List String} : words s = ws ↔ AreWords s ws := by
  have hkept (pieces : List (List Char)) :
      (pieces.map trimChars).filterMap (fun cs => if cs.isEmpty then none else some (String.ofList cs))
        = (pieces.map fun p => String.ofList (trimChars p)).filter (· ≠ "") := by
    induction pieces with
    | nil => rfl
    | cons p pieces ih =>
      cases hp : trimChars p with
      | nil => simpa [hp] using ih
      | cons c rest =>
        have hne : String.ofList (c :: rest) ≠ "" := by simp
        simpa [hp, hne] using ih
  unfold words AreWords
  rw [hkept]
  constructor
  · rintro rfl
    obtain ⟨hne, hfree, hmade⟩ := splitChars_eq_iff.1 (rfl : splitChars ',' s.toList = _)
    exact ⟨_, hne, hfree, hmade, rfl⟩
  · rintro ⟨pieces, hne, hfree, hmade, rfl⟩
    rw [splitChars_eq_iff.2 ⟨hne, hfree, hmade⟩]

end CacheLayer.Text
