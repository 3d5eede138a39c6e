/-
The numerals of counters, told by their form. A text that a counter can hold is a
numeral, that is an optional sign and at least one digit, with blanks around it;
what it spells is read from its digits alone (`Spells`, `Reads`). `counter?` finds
a number in bytes exactly if they read as it (`counter?_eq_some_iff`), and the
canonical text of a number in range reads as that number (`reads_toString`).
-/
import CacheLayer.Store.Values

namespace CacheLayer.Text

variable {i : Int} {cs ds : List Char}

/-! ## Words of 64 bits -/

theorem fitsInt64_iff :
    fitsInt64 i = true ↔ -9223372036854775808 ≤ i ∧ i ≤ 9223372036854775807 := by
  have hmin : minInt64 = -9223372036854775808 := rfl
  have hmax : maxInt64 = 9223372036854775807 := rfl
  rw [fitsInt64, hmin, hmax, Bool.and_eq_true, decide_eq_true_eq, decide_eq_true_eq]

/-! ## Digits -/

/-- At least one digit, and nothing else. -/
def IsDigits (ds : List Char) : Prop := ds ≠ [] ∧ ∀ c ∈ ds, c.isDigit = true

/-- The number that digits make up. -/
def worth (ds : List Char) : Nat := Nat.ofDigitChars 10 ds 0

theorem digit?_of_isDigit {c : Char} (h : c.isDigit = true) :
    digit? c = some (c.toNat - '0'.toNat) := by
  obtain ⟨hlow, hhigh⟩ := Char.isDigit_iff_toNat.1 h
  exact if_pos ⟨hlow, hhigh⟩

theorem digit?_of_not_isDigit {c : Char} (h : ¬ c.isDigit = true) : digit? c = none := by
  refine if_neg fun hc => h ?_
  exact Char.isDigit_iff_toNat.2 hc

theorem le_ofDigitChars (n : Nat) (cs : List Char) : n ≤ Nat.ofDigitChars 10 cs n := by
  induction cs generalizing n with
  | nil => simp
  | cons c cs ih =>
    rw [Nat.ofDigitChars_cons]
    have hrest := ih (10 * n + (c.toNat - '0'.toNat))
    omega

/-- Digits are read to the number that they make up, unless that is beyond the limit. -/
theorem readDigits_eq_ok_iff {limit : Nat} {beyond : NumeralFault} {acc n : Nat}
    (hacc : acc ≤ limit) :
    readDigits limit beyond acc cs = .ok n ↔
      (∀ c ∈ cs, c.isDigit = true) ∧ Nat.ofDigitChars 10 cs acc = n ∧ n ≤ limit := by
  induction cs generalizing acc with
  | nil =>
    simp only [readDigits, Nat.ofDigitChars_nil, Except.ok.injEq]
    constructor
    · rintro rfl
      exact ⟨by simp, rfl, hacc⟩
    · rintro ⟨-, rfl, -⟩
      rfl
  | cons c cs ih =>
    by_cases hc : c.isDigit = true
    · have hstep : acc * 10 + (c.toNat - '0'.toNat) = 10 * acc + (c.toNat - '0'.toNat) := by omega
      simp only [readDigits, digit?_of_isDigit hc, hstep, Nat.ofDigitChars_cons, List.forall_mem_cons,
        hc, true_and]
      by_cases hle : 10 * acc + (c.toNat - '0'.toNat) ≤ limit
      · rw [if_pos hle, ih hle]
      · have hgrown := le_ofDigitChars (10 * acc + (c.toNat - '0'.toNat)) cs
        rw [if_neg hle]
        constructor
        · rintro ⟨⟩
        · rintro ⟨-, rfl, hn⟩
          omega
    · simp only [readDigits, digit?_of_not_isDigit hc, List.forall_mem_cons, hc]
      simp

/-! ## Numerals -/

/-- The characters are a numeral of the number: an optional sign and at least one digit. -/
inductive Spells : List Char → Int → Prop where
  | bare {ds : List Char} (h : IsDigits ds) : Spells ds (worth ds)
  | plus {ds : List Char} (h : IsDigits ds) : Spells ('+' :: ds) (worth ds)
  | minus {ds : List Char} (h : IsDigits ds) : Spells ('-' :: ds) (-(worth ds : Int))

/-- The character can stand in a numeral. -/
def IsMark (c : Char) : Prop := c.isDigit = true ∨ c = '+' ∨ c = '-'

theorem IsMark.not_isBlank {c : Char} (h : IsMark c) : isBlank c = false := by
  rcases h with h | rfl | rfl
  · obtain ⟨hlow, hhigh⟩ := Char.isDigit_iff_toNat.1 h
    have hzero : '0'.toNat = 48 := rfl
    have hnine : '9'.toNat = 57 := rfl
    simp [isBlank]
    omega
  · rfl
  · rfl

theorem Spells.isMark (h : Spells cs i) : ∀ c ∈ cs, IsMark c := by
  cases h with
  | bare hds => exact fun c hc => .inl (hds.2 c hc)
  | plus hds =>
    exact List.forall_mem_cons.2 ⟨.inr (.inl rfl), fun c hc => .inl (hds.2 c hc)⟩
  | minus hds =>
    exact List.forall_mem_cons.2 ⟨.inr (.inr rfl), fun c hc => .inl (hds.2 c hc)⟩

/-- A digit is no sign. -/
theorem ne_sign_of_isDigit {c : Char} (h : c.isDigit = true) : c ≠ '+' ∧ c ≠ '-' := by
  constructor <;> rintro rfl <;> cases h

theorem not_spells_nil : ¬ Spells [] i := by
  rintro ⟨hne, -⟩
  exact hne rfl

theorem spells_plus_iff : Spells ('+' :: ds) i ↔ IsDigits ds ∧ (worth ds : Int) = i := by
  constructor
  · intro h
    cases h with
    | bare h => exact absurd rfl (ne_sign_of_isDigit (h.2 _ List.mem_cons_self)).1
    | plus h => exact ⟨h, rfl⟩
  · rintro ⟨h, rfl⟩
    exact .plus h

theorem spells_minus_iff : Spells ('-' :: ds) i ↔ IsDigits ds ∧ -(worth ds : Int) = i := by
  constructor
  · intro h
    cases h with
    | bare h => exact absurd rfl (ne_sign_of_isDigit (h.2 _ List.mem_cons_self)).2
    | minus h => exact ⟨h, rfl⟩
  · rintro ⟨h, rfl⟩
    exact .minus h

theorem spells_bare_iff {c : Char} (hplus : c ≠ '+') (hminus : c ≠ '-') :
    Spells (c :: cs) i ↔ IsDigits (c :: cs) ∧ (worth (c :: cs) : Int) = i := by
  constructor
  · intro h
    cases h with
    | bare h => exact ⟨h, rfl⟩
    | plus h => exact absurd rfl hplus
    | minus h => exact absurd rfl hminus
  · rintro ⟨h, rfl⟩
    exact .bare h

/-! ## Reading numerals -/

/-- Digits are read with a sign, unless the number is out of range. -/
theorem map_readDigits_eq_ok_iff {limit : Nat} {beyond : NumeralFault} {f : Nat → Int}
    (hne : ds ≠ []) (hrange : ∀ n, n ≤ limit ↔ fitsInt64 (f n) = true) :
    (readDigits limit beyond 0 ds).map f = .ok i ↔
      (IsDigits ds ∧ f (worth ds) = i) ∧ fitsInt64 i = true := by
  have hread (n : Nat) : readDigits limit beyond 0 ds = .ok n ↔
      (∀ c ∈ ds, c.isDigit = true) ∧ worth ds = n ∧ n ≤ limit :=
    readDigits_eq_ok_iff (Nat.zero_le limit)
  cases hr : readDigits limit beyond 0 ds with
  | error e =>
    refine ⟨by rintro ⟨⟩, ?_⟩
    rintro ⟨⟨hds, rfl⟩, hfits⟩
    have hok := (hread (worth ds)).2 ⟨hds.2, rfl, (hrange _).2 hfits⟩
    rw [hr] at hok
    cases hok
  | ok n =>
    obtain ⟨hds, rfl, hle⟩ := (hread n).1 hr
    simp only [Except.map, Except.ok.injEq]
    constructor
    · rintro rfl
      exact ⟨⟨⟨hne, hds⟩, rfl⟩, (hrange _).1 hle⟩
    · exact fun h => h.1.2

theorem le_iff_fits (n : Nat) : n ≤ 9223372036854775807 ↔ fitsInt64 (Int.ofNat n) = true := by
  rw [fitsInt64_iff, Int.ofNat_eq_natCast]
  omega

theorem le_iff_fits_neg (n : Nat) : n ≤ 9223372036854775808 ↔ fitsInt64 (-(n : Int)) = true := by
  rw [fitsInt64_iff]
  omega

theorem readInt64_plus {s : String} {d : Char} (hs : s.toList = '+' :: d :: ds) :
    readInt64 s = (readDigits 9223372036854775807 .tooLarge 0 (d :: ds)).map Int.ofNat := by
  simp only [readInt64, hs]

theorem readInt64_minus {s : String} {d : Char} (hs : s.toList = '-' :: d :: ds) :
    readInt64 s = Except.map (fun n : Nat => -(n : Int))
      (readDigits 9223372036854775808 .tooSmall 0 (d :: ds)) := by
  have hpow : Nat.pow 2 63 = 9223372036854775808 := rfl
  simp only [readInt64, hs, hpow]
  cases readDigits 9223372036854775808 .tooSmall 0 (d :: ds) <;> rfl

theorem readInt64_bare {s : String} {c : Char} (hplus : c ≠ '+') (hminus : c ≠ '-')
    (hs : s.toList = c :: cs) :
    readInt64 s = (readDigits 9223372036854775807 .tooLarge 0 (c :: cs)).map Int.ofNat := by
  simp only [readInt64, hs]
  split
  · next heq => cases heq
  · next heq => cases heq; exact absurd rfl hplus
  · next heq => cases heq; exact absurd rfl hminus
  · next heq => cases heq; exact absurd rfl hplus
  · next heq => cases heq; exact absurd rfl hminus
  · rfl

/-- A number is read exactly if the text spells it and it is in range. -/
theorem readInt64_eq_ok_iff {s : String} :
    readInt64 s = .ok i ↔ Spells s.toList i ∧ fitsInt64 i = true := by
  cases hs : s.toList with
  | nil =>
    have hempty : readInt64 s = .error .empty := by simp only [readInt64, hs]
    simp [hempty, not_spells_nil]
  | cons c cs =>
    by_cases hplus : c = '+'
    · subst hplus
      rw [spells_plus_iff]
      cases cs with
      | nil =>
        have hlone : readInt64 s = .error .badDigit := by simp only [readInt64, hs]
        simp [hlone, IsDigits]
      | cons d ds =>
        rw [readInt64_plus hs]
        exact map_readDigits_eq_ok_iff (by simp) le_iff_fits
    · by_cases hminus : c = '-'
      · subst hminus
        rw [spells_minus_iff]
        cases cs with
        | nil =>
          have hlone : readInt64 s = .error .badDigit := by simp only [readInt64, hs]
          simp [hlone, IsDigits]
        | cons d ds =>
          rw [readInt64_minus hs]
          exact map_readDigits_eq_ok_iff (by simp) le_iff_fits_neg
      · rw [spells_bare_iff hplus hminus, readInt64_bare hplus hminus hs]
        exact map_readDigits_eq_ok_iff (by simp) le_iff_fits

/-! ## Numerals without a minus sign -/

/-- The characters are a numeral of the number: digits, with or without a plus sign. -/
def SpellsNat (cs : List Char) (n : Nat) : Prop :=
  ∃ ds, IsDigits ds ∧ worth ds = n ∧ (cs = ds ∨ cs = '+' :: ds)

theorem readNat_digits {limit n : Nat} (hne : ds ≠ []) :
    readDigits limit .tooLarge 0 ds = .ok n ↔ (IsDigits ds ∧ worth ds = n) ∧ n ≤ limit := by
  rw [readDigits_eq_ok_iff (Nat.zero_le limit)]
  exact ⟨fun ⟨hds, hn, hle⟩ => ⟨⟨⟨hne, hds⟩, hn⟩, hle⟩, fun ⟨⟨⟨_, hds⟩, hn⟩, hle⟩ => ⟨hds, hn, hle⟩⟩

/-- A number is read exactly if the text is a numeral of it and it is in range. -/
theorem readNat_eq_ok_iff {limit n : Nat} {s : String} :
    readNat limit s = .ok n ↔ SpellsNat s.toList n ∧ n ≤ limit := by
  cases hs : s.toList with
  | nil =>
    have hempty : readNat limit s = .error .empty := by simp only [readNat, hs]
    simp [hempty, SpellsNat, IsDigits]
  | cons c cs =>
    by_cases hplus : c = '+'
    · subst hplus
      have hspells : SpellsNat ('+' :: cs) n ↔ IsDigits cs ∧ worth cs = n := by
        constructor
        · rintro ⟨ds, hds, hn, rfl | heq⟩
          · exact absurd rfl (ne_sign_of_isDigit (hds.2 _ List.mem_cons_self)).1
          · cases heq
            exact ⟨hds, hn⟩
        · rintro ⟨hds, hn⟩
          exact ⟨cs, hds, hn, .inr rfl⟩
      rw [hspells]
      cases cs with
      | nil =>
        have hlone : readNat limit s = .error .badDigit := by simp only [readNat, hs]
        simp [hlone, IsDigits]
      | cons d ds =>
        have hread : readNat limit s = readDigits limit .tooLarge 0 (d :: ds) := by
          simp only [readNat, hs]
        rw [hread, readNat_digits (by simp)]
    · have hspells : SpellsNat (c :: cs) n ↔ IsDigits (c :: cs) ∧ worth (c :: cs) = n := by
        constructor
        · rintro ⟨ds, hds, hn, rfl | heq⟩
          · exact ⟨hds, hn⟩
          · exact absurd (List.cons.inj heq).1 hplus
        · rintro ⟨hds, hn⟩
          exact ⟨_, hds, hn, .inl rfl⟩
      have hread : readNat limit s = readDigits limit .tooLarge 0 (c :: cs) := by
        simp only [readNat, hs]
        split
        · next heq => cases heq
        · next heq => cases heq; exact absurd rfl hplus
        · next heq => cases heq; exact absurd rfl hplus
        · rfl
      rw [hspells, hread, readNat_digits (by simp)]

/-! ## Blanks -/

/-- Only blanks. -/
def IsBlanks (cs : List Char) : Prop := ∀ c ∈ cs, isBlank c = true

theorem dropWhile_blanks {before body : List Char} (h : IsBlanks before)
    (hbody : ∀ c ∈ body.head?, isBlank c = false) :
    (before ++ body).dropWhile isBlank = body := by
  induction before with
  | nil =>
    cases body with
    | nil => rfl
    | cons c body =>
      have hc : isBlank c = false := hbody c rfl
      simp [hc]
  | cons c before ih =>
    obtain ⟨hc, hrest⟩ := List.forall_mem_cons.1 h
    simp [hc, ih hrest]

/-- The blanks at both ends are dropped, and no more. -/
theorem trimChars_append {before body after : List Char} (hbefore : IsBlanks before)
    (hafter : IsBlanks after) (hbody : ∀ c ∈ body, isBlank c = false) :
    trimChars (before ++ body ++ after) = body := by
  have hafter' : IsBlanks after.reverse := fun c hc => hafter c (List.mem_reverse.1 hc)
  have hback : (after.reverse ++ body.reverse).dropWhile isBlank = body.reverse :=
    dropWhile_blanks hafter' fun c hc =>
      hbody c (List.mem_reverse.1 (List.mem_of_mem_head? hc))
  unfold trimChars
  rw [List.append_assoc]
  cases body with
  | nil =>
    have hall : IsBlanks (before ++ after) := fun c hc =>
      (List.mem_append.1 hc).elim (hbefore c) (hafter c)
    have hnone : (before ++ after ++ []).dropWhile isBlank = [] := dropWhile_blanks hall (by simp)
    rw [List.append_nil] at hnone
    simp [hnone]
  | cons c body =>
    have hfront : (before ++ (c :: body ++ after)).dropWhile isBlank = c :: body ++ after :=
      dropWhile_blanks hbefore fun c' hc' => by
        obtain rfl : c = c' := by simpa using hc'
        exact hbody c List.mem_cons_self
    rw [hfront, List.reverse_append, hback, List.reverse_reverse]

/-- What is trimmed off are blanks. -/
theorem exists_trimChars (cs : List Char) :
    ∃ before after, IsBlanks before ∧ IsBlanks after ∧ cs = before ++ trimChars cs ++ after := by
  have hblank {l : List Char} : IsBlanks (l.takeWhile isBlank) := fun c hc =>
    List.all_eq_true.1 List.all_takeWhile c hc
  refine ⟨cs.takeWhile isBlank, (((cs.dropWhile isBlank).reverse).takeWhile isBlank).reverse,
    hblank, fun c hc => hblank c (List.mem_reverse.1 hc), ?_⟩
  unfold trimChars
  rw [List.append_assoc, ← List.reverse_append, List.takeWhile_append_dropWhile,
    List.reverse_reverse, List.takeWhile_append_dropWhile]

/-! ## Counters -/

/-- The bytes are a text of a numeral of the number, with blanks around it, and the number is in
range. -/
def Reads (b : Bytes) (i : Int) : Prop :=
  fitsInt64 i = true ∧ ∃ before numeral after, IsBlanks before ∧ IsBlanks after ∧
    Spells numeral i ∧ b = utf8 (String.ofList (before ++ numeral ++ after))

/-- A counter is found in bytes exactly if they read as its number. -/
theorem counter?_eq_some_iff {b : Bytes} : Store.counter? b = some i ↔ Reads b i := by
  have hread {s : String} : (readInt64 (trim s)).toOption = some i ↔
      Spells (trimChars s.toList) i ∧ fitsInt64 i = true := by
    have htrim : (trim s).toList = trimChars s.toList := String.toList_ofList
    rw [← htrim, ← readInt64_eq_ok_iff]
    cases readInt64 (trim s) <;> simp [Except.toOption]
  unfold Store.counter?
  constructor
  · intro h
    obtain ⟨s, hs, hi⟩ := Option.bind_eq_some_iff.1 h
    obtain ⟨hspells, hfits⟩ := hread.1 hi
    obtain ⟨before, after, hbefore, hafter, heq⟩ := exists_trimChars s.toList
    refine ⟨hfits, before, trimChars s.toList, after, hbefore, hafter, hspells, ?_⟩
    rw [← heq, String.ofList_toList, utf8_of_ofUtf8? hs]
  · rintro ⟨hfits, before, numeral, after, hbefore, hafter, hspells, rfl⟩
    have htrim : trimChars (before ++ numeral ++ after) = numeral :=
      trimChars_append hbefore hafter fun c hc => (hspells.isMark c hc).not_isBlank
    refine Option.bind_eq_some_iff.2 ⟨_, ofUtf8?_utf8 _, hread.2 ?_⟩
    rw [String.toList_ofList, htrim]
    exact ⟨hspells, hfits⟩

theorem isDigits_toDigits (n : Nat) : IsDigits (Nat.toDigits 10 n) :=
  ⟨Nat.toDigits_ne_nil, fun _ hc => Nat.isDigit_of_mem_toDigits (by decide) (by decide) hc⟩

theorem worth_toDigits (n : Nat) : worth (Nat.toDigits 10 n) = n := Nat.ofDigitChars_ten_toDigits

/-- The text of a counter is the usual one of its number. -/
theorem counterBytes_eq (i : Int) : Store.counterBytes i = utf8 (toString i) := by
  have htext : ofInt i = toString i := by
    cases i with
    | ofNat n => exact Nat.repr_eq_ofList_toDigits.symm
    | negSucc n =>
      have hminus : toString (Int.negSucc n) = "-" ++ Nat.repr (n + 1) := rfl
      rw [hminus, Nat.repr_eq_ofList_toDigits]
      exact @String.ofList_append ['-'] _
  rw [Store.counterBytes, htext]

/-- The usual text of a number in range reads as that number. -/
theorem reads_toString (h : fitsInt64 i = true) : Reads (utf8 (toString i)) i := by
  rw [← counterBytes_eq]
  refine ⟨h, [], (ofInt i).toList, [], by simp [IsBlanks], by simp [IsBlanks], ?_, by
    simp [Store.counterBytes]⟩
  cases i with
  | ofNat n =>
    have hspells := Spells.bare (isDigits_toDigits n)
    rw [worth_toDigits] at hspells
    simpa [ofInt] using hspells
  | negSucc n =>
    have hspells := Spells.minus (isDigits_toDigits (n + 1))
    rw [worth_toDigits] at hspells
    simpa [ofInt, Int.negSucc_eq] using hspells

end CacheLayer.Text
