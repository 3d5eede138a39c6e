/-
Lists of words with a sign between them, as one setting holds several keys.
-/
import CacheLayer.Text.Blank

namespace CacheLayer.Text

/-- The pieces between the occurrences of a character; there is always at least one. -/
def splitChars (sep : Char) : List Char → List (List Char)
  | [] => [[]]
  | c :: cs =>
    match splitChars sep cs with
    | [] => [[c]]
    | piece :: pieces => if c = sep then [] :: piece :: pieces else (c :: piece) :: pieces

/-- The pieces between commas, without the blanks around them, and without those that are then
empty. -/
def words (s : String) : List String :=
  ((splitChars ',' s.toList).map trimChars).filterMap fun cs =>
    if cs.isEmpty then none else some (String.ofList cs)

end CacheLayer.Text
