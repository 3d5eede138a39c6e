/-
Instants that have been written are instants. The digits of each part are read
back as its number (`number?_digits`), the date is one of the calendar
(`isDate_dateAfter`), and what is left of the text behind the parts is nothing,
so the text of every time whose year an instant can have is accepted.

Main statement: `isInstant_ofMillis`.
-/
import CacheLayer.Proofs.Text.Numeral
import CacheLayer.Text.Timestamp

namespace CacheLayer.Text.Timestamp

variable {width n : Nat} {ds cs rest : List Char} {mark : Char}

/-! ## Digits -/

theorem foldl_digits (ds : List Char) (acc : Nat) :
    ds.foldl (fun n c => n * 10 + (c.toNat - '0'.toNat)) acc = Nat.ofDigitChars 10 ds acc := by
  induction ds generalizing acc with
  | nil => rfl
  | cons c ds ih => rw [List.foldl_cons, ih, Nat.ofDigitChars_cons, Nat.mul_comm]

/-- Digits are read as their number, if there is room for them all and none comes behind them
where there is room for more. -/
theorem number?_digits (hds : IsDigits ds) (hroom : ds.length ≤ width)
    (hend : ds.length = width ∨ ∀ c ∈ rest.head?, c.isDigit = false) :
    number? width (ds ++ rest) = some (worth ds, rest) := by
  have htake : ((ds ++ rest).take width).takeWhile Char.isDigit = ds := by
    rw [List.take_append, List.take_of_length_le hroom, List.takeWhile_append_of_pos hds.2]
    have hnone : (rest.take (width - ds.length)).takeWhile Char.isDigit = [] := by
      rcases hend with hfull | hend
      · simp [hfull]
      · cases rest with
        | nil => simp
        | cons c rest =>
          have hc : c.isDigit = false := hend c rfl
          cases width - ds.length <;> simp [hc]
    rw [hnone, List.append_nil]
  have hne : ds.isEmpty = false := by simpa using hds.1
  simp only [number?, htake, hne, Bool.false_eq_true, if_false, foldl_digits, List.drop_left]
  rfl

theorem toList_toString (n : Nat) : (toString n).toList = Nat.toDigits 10 n := by
  rw [Nat.toString_eq_ofList_toDigits, String.toList_ofList]

/-- The numeral of a number in a width is made of digits, and has that number. -/
theorem padded_digits (width n : Nat) :
    IsDigits (padded width n).toList ∧ worth (padded width n).toList = n := by
  have hlist : (padded width n).toList =
      List.replicate (width - (toString n).length) '0' ++ Nat.toDigits 10 n := by
    simp only [padded, String.toList_append, String.toList_ofList, toList_toString]
  obtain ⟨hne, hall⟩ := isDigits_toDigits n
  rw [hlist]
  refine ⟨⟨by simp [hne], fun c hc => ?_⟩, ?_⟩
  · rcases List.mem_append.1 hc with hzero | hdigit
    · rw [List.eq_of_mem_replicate hzero]
      rfl
    · exact hall c hdigit
  · rw [worth, Nat.ofDigitChars_append, Nat.ofDigitChars_replicate_zero, Nat.mul_zero]
    exact worth_toDigits n

theorem length_padded (hwidth : 0 < width) (hn : n < Nat.pow 10 width) :
    (padded width n).toList.length = width := by
  have hle := (Nat.length_toDigits_le_iff (by decide) hwidth).2 hn
  simp only [padded, String.toList_append, String.toList_ofList, List.length_append,
    List.length_replicate, ← String.length_toList, toList_toString]
  omega

/-! ## Parts -/

theorem skipBlanks_cons (h : isBlank mark = false) : skipBlanks (mark :: cs) = mark :: cs := by
  simp [skipBlanks, h]

theorem skipBlanks_digits (hds : IsDigits ds) : skipBlanks (ds ++ rest) = ds ++ rest := by
  obtain ⟨hne, hall⟩ := hds
  cases ds with
  | nil => exact absurd rfl hne
  | cons c ds => exact skipBlanks_cons (IsMark.not_isBlank (.inl (hall c List.mem_cons_self)))

/-- Two digits behind a mark are read as their number. -/
theorem part?_padded (hmark : isBlank mark = false) (hn : n < 100) :
    part? mark (mark :: ((padded 2 n).toList ++ rest)) = some (n, rest) := by
  obtain ⟨hdigits, hworth⟩ := padded_digits 2 n
  have hlength : (padded 2 n).toList.length = 2 := length_padded (by decide) hn
  have hmarked : mark? [mark] (mark :: ((padded 2 n).toList ++ rest)) =
      some ((padded 2 n).toList ++ rest) := if_pos (List.mem_singleton_self mark)
  rw [part?, skipBlanks_cons hmark, hmarked, Option.bind_eq_bind, Option.bind_some,
    skipBlanks_digits hdigits, number?_digits hdigits (Nat.le_of_eq hlength) (.inl hlength), hworth]

/-- A year is read as it is written. -/
theorem year?_yearText (year : Nat) (rest : List Char) :
    year? (skipBlanks ((yearText year).toList ++ '-' :: rest)) =
      some ((year : Int), '-' :: rest) := by
  unfold yearText
  by_cases hshort : year ≤ 9999
  · obtain ⟨hdigits, hworth⟩ := padded_digits 4 year
    have hlength : (padded 4 year).toList.length = 4 :=
      length_padded (by decide) (Nat.lt_succ_of_le hshort)
    have hnumber : number? 4 ((padded 4 year).toList ++ '-' :: rest) =
        some (worth (padded 4 year).toList, '-' :: rest) :=
      number?_digits hdigits (Nat.le_of_eq hlength) (.inl hlength)
    have hsign {c : Char} (hc : c = '+' ∨ c = '-') {cs : List Char} :
        (padded 4 year).toList ++ '-' :: rest ≠ c :: cs := by
      intro heq
      cases hlist : (padded 4 year).toList with
      | nil => exact hdigits.1 hlist
      | cons d ds =>
        have hd := ne_sign_of_isDigit (hdigits.2 d (hlist ▸ List.mem_cons_self))
        rw [hlist] at heq
        obtain rfl := (List.cons.inj heq).1
        exact hc.elim hd.1 hd.2
    rw [if_pos hshort, skipBlanks_digits hdigits]
    unfold year?
    split
    · next heq => exact absurd heq (hsign (.inr rfl))
    · next heq => exact absurd heq (hsign (.inl rfl))
    · rw [hnumber, hworth]
      rfl
  · have hnumber : number? (Nat.toDigits 10 year ++ '-' :: rest).length
        (Nat.toDigits 10 year ++ '-' :: rest) = some (year, '-' :: rest) := by
      rw [number?_digits (isDigits_toDigits year) (by simp) (.inr (by simp)), worth_toDigits]
    rw [if_neg hshort, String.toList_append, toList_toString]
    show (number? (Nat.toDigits 10 year ++ '-' :: rest).length
      (Nat.toDigits 10 year ++ '-' :: rest)).map _ = _
    rw [hnumber]
    rfl

/-! ## Dates -/

/-- The numbers are a date of the calendar. -/
def IsDate (date : Nat × Nat × Nat) : Prop :=
  1 ≤ date.2.1 ∧ date.2.1 ≤ 12 ∧ 1 ≤ date.2.2 ∧ date.2.2 ≤ daysIn date.1 date.2.1

theorem daysIn_bounds (year : Int) (month : Nat) :
    28 ≤ daysIn year month ∧ daysIn year month ≤ 31 := by
  unfold daysIn
  repeat' split
  all_goals omega

theorem isDate_dateAfter (steps : Nat) {year month days : Nat} (hlow : 1 ≤ month)
    (hhigh : month ≤ 12) : IsDate (dateAfter steps year month days) := by
  induction steps generalizing year month days with
  | zero =>
    have hdays := daysIn_bounds year month
    refine ⟨hlow, hhigh, Nat.le_refl 1, ?_⟩
    show 1 ≤ daysIn year month
    omega
  | succ steps ih =>
    rw [dateAfter]
    split
    · next hdays => exact ⟨hlow, hhigh, by simp, hdays⟩
    split
    · exact ih (by omega) (by omega)
    · exact ih (by decide) (by decide)

theorem IsDate.month_lt {year month day : Nat} (h : IsDate (year, month, day)) : month < 100 :=
  Nat.lt_of_le_of_lt h.2.1 (by decide)

theorem IsDate.day_lt {year month day : Nat} (h : IsDate (year, month, day)) : day < 100 :=
  Nat.lt_of_le_of_lt (Nat.le_trans h.2.2.2 (daysIn_bounds year month).2) (by decide)

/-- A date is read as it is written. -/
theorem date?_written {year month day : Nat} (h : IsDate (year, month, day)) (rest : List Char) :
    date? ((yearText year).toList ++ '-' :: ((padded 2 month).toList ++
      '-' :: ((padded 2 day).toList ++ rest))) = some (⟨year, month, day⟩, rest) := by
  have hdash : isBlank '-' = false := by decide
  have hguard : guard (1 ≤ month ∧ month ≤ 12 ∧ 1 ≤ day ∧ day ≤ daysIn year month) =
      some () := if_pos h
  unfold date?
  rw [year?_yearText, Option.bind_eq_bind, Option.bind_some]
  dsimp only
  rw [part?_padded hdash h.month_lt, Option.bind_eq_bind, Option.bind_some]
  dsimp only
  rw [part?_padded hdash h.day_lt, Option.bind_eq_bind, Option.bind_some]
  dsimp only
  rw [hguard]
  rfl

/-! ## Times of day -/

/-- A time of day is read as it is written, and a fraction of a second behind it is dropped. -/
theorem time?_written {hour minute second : Nat} (hhour : hour < 24) (hminute : minute < 60)
    (hsecond : second < 60) {fraction : List Char}
    (hfraction : fraction = [] ∨ ∃ ds, IsDigits ds ∧ fraction = '.' :: ds) :
    time? ((padded 2 hour).toList ++ ':' :: ((padded 2 minute).toList ++
      ':' :: ((padded 2 second).toList ++ (fraction ++ ['Z'])))) =
        some (hour * 3600 + minute * 60 + second, ['Z']) := by
  obtain ⟨hdigits, hworth⟩ := padded_digits 2 hour
  have hlength : (padded 2 hour).toList.length = 2 :=
    length_padded (by decide) (Nat.lt_trans hhour (by decide))
  have hguard : guard (hour < 24 ∧ minute < 60 ∧ second ≤ 60) = some () :=
    if_pos ⟨hhour, hminute, Nat.le_of_lt hsecond⟩
  have hleap : min second 59 = second := by omega
  have hcolon : isBlank ':' = false := by decide
  unfold time?
  rw [skipBlanks_digits hdigits, number?_digits hdigits (Nat.le_of_eq hlength) (.inl hlength),
    hworth, Option.bind_eq_bind, Option.bind_some]
  dsimp only
  rw [part?_padded hcolon (Nat.lt_trans hminute (by decide)), Option.bind_eq_bind,
    Option.bind_some]
  dsimp only
  rw [part?_padded hcolon (Nat.lt_trans hsecond (by decide)), Option.bind_some]
  dsimp only
  rw [hguard, hleap]
  rcases hfraction with rfl | ⟨ds, hds, rfl⟩
  · rfl
  · have hnumber : number? (ds ++ ['Z']).length (ds ++ ['Z']) = some (worth ds, ['Z']) :=
      number?_digits hds (by simp) (.inr (by simp))
    show (number? (ds ++ ['Z']).length (ds ++ ['Z'])).bind _ = _
    rw [hnumber]
    rfl

/-! ## Instants -/

/-- The year of the instant after so many milliseconds. -/
def yearOf (ms : Nat) : Nat := (dateAfter (ms / 1000 / 86400 + 1) 1970 1 (ms / 1000 / 86400)).1

theorem exists_date (ms : Nat) :
    ∃ year month day, dateAfter (ms / 1000 / 86400 + 1) 1970 1 (ms / 1000 / 86400) =
      (year, month, day) ∧ IsDate (year, month, day) ∧ yearOf ms = year := by
  have hvalid : IsDate (dateAfter (ms / 1000 / 86400 + 1) 1970 1 (ms / 1000 / 86400)) :=
    isDate_dateAfter _ (by decide) (by decide)
  rcases hdate : dateAfter (ms / 1000 / 86400 + 1) 1970 1 (ms / 1000 / 86400)
    with ⟨year, month, day⟩
  exact ⟨year, month, day, rfl, hdate ▸ hvalid, congrArg Prod.fst hdate⟩

/-- The fraction of a second as it is written. -/
def fractionOf (ms : Nat) : List Char :=
  if ms % 1000 = 0 then [] else '.' :: (padded 3 (ms % 1000)).toList

theorem toList_ofMillis {ms year month day : Nat}
    (h : dateAfter (ms / 1000 / 86400 + 1) 1970 1 (ms / 1000 / 86400) = (year, month, day)) :
    (ofMillis ms).toList =
      (yearText year).toList ++ '-' :: ((padded 2 month).toList ++ '-' :: ((padded 2 day).toList ++
        'T' :: ((padded 2 (ms / 1000 / 3600 % 24)).toList ++
          ':' :: ((padded 2 (ms / 1000 / 60 % 60)).toList ++
            ':' :: ((padded 2 (ms / 1000 % 60)).toList ++ (fractionOf ms ++ ['Z'])))))) := by
  have hfraction : (if ms % 1000 = 0 then "" else "." ++ padded 3 (ms % 1000)).toList =
      fractionOf ms := by
    unfold fractionOf
    split <;> simp
  have hdash : "-".toList = ['-'] := rfl
  have hcolon : ":".toList = [':'] := rfl
  have htee : "T".toList = ['T'] := rfl
  have hzed : "Z".toList = ['Z'] := rfl
  simp only [ofMillis, h, String.toList_append, hfraction, hdash, hcolon, htee, hzed,
    List.append_assoc, List.cons_append, List.nil_append]

theorem length_yearText {year : Nat} (h : isYear year = true) :
    (yearText year).toList.length ≤ 7 := by
  have hyear : year ≤ 262142 := by
    simp only [isYear, Bool.and_eq_true, decide_eq_true_eq] at h
    omega
  unfold yearText
  split
  · next hshort =>
    rw [length_padded (by decide) (Nat.lt_succ_of_le hshort)]
    decide
  · have hdigits : (Nat.toDigits 10 year).length ≤ 6 :=
      (Nat.length_toDigits_le_iff (by decide) (by decide)).2
        (Nat.lt_of_le_of_lt hyear (by decide))
    simp only [String.toList_append, List.length_append, toList_toString]
    exact Nat.add_le_add_left hdigits 1

theorem length_fractionOf (ms : Nat) : (fractionOf ms).length ≤ 4 := by
  unfold fractionOf
  split
  · exact Nat.zero_le 4
  · have hthree : (padded 3 (ms % 1000)).toList.length = 3 :=
      length_padded (by decide) (Nat.mod_lt ms (by decide))
    exact Nat.succ_le_succ (Nat.le_of_eq hthree)

/-- The text of a time is short. -/
theorem length_ofMillis {ms : Nat} (h : isYear (yearOf ms) = true) :
    (ofMillis ms).toList.length ≤ 27 := by
  obtain ⟨year, month, day, hdate, hvalid, hyearOf⟩ := exists_date ms
  have hyear := length_yearText (hyearOf ▸ h)
  have hfraction := length_fractionOf ms
  have htwo {n : Nat} (hn : n < 100) : (padded 2 n).toList.length = 2 := length_padded (by decide) hn
  rw [toList_ofMillis hdate]
  simp only [List.length_append, List.length_cons, List.length_nil, htwo hvalid.month_lt,
    htwo hvalid.day_lt, htwo (Nat.lt_trans (Nat.mod_lt _ (by decide : 24 > 0)) (by decide)),
    htwo (Nat.lt_trans (Nat.mod_lt _ (by decide : 60 > 0)) (by decide))]
  omega

/-- Where all parts can be read, and the year is one that instants can have, the text is an instant. -/
theorem isInstant_of_read {text : String} {date : Date} {time : Nat} {offset : Int}
    {cs₁ cs₂ cs₃ : List Char} (hdate : date? text.toList = some (date, cs₁))
    (hmark : mark? ['T', 't', ' '] cs₁ = some cs₂) (htime : time? cs₂ = some (time, cs₃))
    (hoffset : offset? (skipBlanks cs₃) = some (offset, []))
    (hyear : isYear date.year = true ∧ isYear (universalYear date time offset) = true) :
    isInstant text = true := by
  unfold isInstant
  rw [hdate]
  show (Option.bind (mark? ['T', 't', ' '] cs₁) _ == some []) = true
  rw [hmark]
  show (Option.bind (time? cs₂) _ == some []) = true
  rw [htime]
  show (Option.bind (offset? (skipBlanks cs₃)) _ == some []) = true
  rw [hoffset]
  have hguard : guard (isYear date.year = true ∧
      isYear (universalYear date time offset) = true) = some () := if_pos hyear
  show (Option.bind (guard _) _ == some []) = true
  rw [hguard]
  rfl

/-- **The text of a time is an instant**, if its year is one that instants can have. -/
theorem isInstant_ofMillis {ms : Nat} (h : isYear (yearOf ms) = true) :
    isInstant (ofMillis ms) = true := by
  obtain ⟨year, month, day, hdate, hvalid, hyearOf⟩ := exists_date ms
  rw [hyearOf] at h
  have hfraction : fractionOf ms = [] ∨ ∃ ds, IsDigits ds ∧ fractionOf ms = '.' :: ds := by
    unfold fractionOf
    split
    · exact .inl rfl
    · exact .inr ⟨_, (padded_digits 3 _).1, rfl⟩
  generalize htime : ms / 1000 / 3600 % 24 * 3600 + ms / 1000 / 60 % 60 * 60 + ms / 1000 % 60 = time
  have hsame : universalYear ⟨year, month, day⟩ time 0 = year := by
    unfold universalYear
    rw [if_neg (by omega), if_neg (by omega)]
  have hdateRead := date?_written hvalid ('T' :: ((padded 2 (ms / 1000 / 3600 % 24)).toList ++
    ':' :: ((padded 2 (ms / 1000 / 60 % 60)).toList ++
      ':' :: ((padded 2 (ms / 1000 % 60)).toList ++ (fractionOf ms ++ ['Z'])))))
  have htimeRead := time?_written (Nat.mod_lt (ms / 1000 / 3600) (by decide : 24 > 0))
    (Nat.mod_lt (ms / 1000 / 60) (by decide : 60 > 0)) (Nat.mod_lt (ms / 1000) (by decide : 60 > 0))
    hfraction
  rw [htime] at htimeRead
  have hoffset : offset? (skipBlanks ['Z']) = some (0, []) := by decide
  rw [← toList_ofMillis hdate] at hdateRead
  exact isInstant_of_read hdateRead rfl htimeRead hoffset ⟨h, hsame.symm ▸ h⟩

end CacheLayer.Text.Timestamp
