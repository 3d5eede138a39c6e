/-
Blank characters: those with the Unicode property White_Space. Settings are
read with the blanks at both ends dropped (`trim`), counters are too.
-/

namespace CacheLayer.Text

/-- The character has the property White_Space. -/
def isBlank (c : Char) : Bool :=
  let n := c.toNat
  (9 ≤ n && n ≤ 13) || n == 0x20 || n == 0x85 || n == 0xa0 || n == 0x1680 ||
    (0x2000 ≤ n && n ≤ 0x200a) || n == 0x2028 || n == 0x2029 || n == 0x202f ||
    n == 0x205f || n == 0x3000

/-- A list of characters without the blanks at its two ends. -/
def trimChars (cs : List Char) : List Char :=
  ((cs.dropWhile isBlank).reverse.dropWhile isBlank).reverse

/-- A text without the blanks at its two ends. -/
def trim (s : String) : String :=
  String.ofList (trimChars s.toList)

/-- Small letters for the capital letters A to Z; every other character stays. -/
def lower (s : String) : String :=
  String.ofList (s.toList.map Char.toLower)

end CacheLayer.Text
