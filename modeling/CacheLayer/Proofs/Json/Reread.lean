/-
What has been written as JSON is read back. A reader takes just the bytes of a
value and leaves what comes behind them (`Reads`), as long as that cannot belong
to the value (`Ends`): a number goes on with every digit that follows. Strings
are told byte by byte, each with its escape; numbers by their digits; objects by
their members, one after the other.

Main statements: `readText_writeText`, `readNumber_natural`, `reads_writeObject`.
-/
import CacheLayer.Proofs.Json.Lead
import CacheLayer.Proofs.Text.Numeral
import Mathlib.Data.List.Forall2

namespace CacheLayer.Json

variable {α β : Type} {n fuel : Nat} {c : UInt8} {b rest : Bytes} {ds : List Char}

/-- What may come behind a value: nothing, a comma or a closing mark. -/
def Ends (rest : Bytes) : Prop := ∀ c ∈ rest.head?, c ∈ [0x2c, 0x5d, 0x7d]

/-- The reader takes just these bytes, and takes them for the value. -/
def Reads (r : Reader α) (b : Bytes) (a : α) : Prop :=
  ∀ rest, Ends rest → r (b ++ rest) = some (a, rest)

/-- A reader goes on behind what it has taken. -/
theorem bind_of_reads {r : Reader α} {f : α → Reader β} {a : α} (h : r b = some (a, rest)) :
    (r >>= f) b = f a rest := by
  show Option.bind (r b) _ = _
  rw [h]
  rfl

/-! ## Strings -/

theorem hexValue?_hexDigit : ∀ n < 16, hexValue? (hexDigit n) = some n := by decide

theorem hex4?_control (hn : n < 32) (rest : Bytes) :
    hex4? (0x30 :: 0x30 :: hexDigit (n / 16) :: hexDigit (n % 16) :: rest) = some (n, rest) := by
  have hzero : hexValue? 0x30 = some 0 := by decide
  have hhigh := hexValue?_hexDigit (n / 16) (by omega)
  have hlow := hexValue?_hexDigit (n % 16) (by omega)
  have hsum : ((0 * 16 + 0) * 16 + n / 16) * 16 + n % 16 = n := by omega
  simp only [hex4?, hzero, hhigh, hlow, Option.bind_eq_bind, Option.bind_some, hsum]
  rfl

theorem utf8_control : ∀ n < 32, Text.utf8 (String.singleton (Char.ofNat n)) = [UInt8.ofNat n] := by
  decide +kernel

/-- An escape by code unit stands for a control character. -/
theorem textBytes_unit (hc : c < 0x20) (fuel : Nat) (done rest : Bytes) :
    textBytes (fuel + 1) done (0x5c :: 0x75 :: 0x30 :: 0x30 :: hexDigit (c.toNat / 16) ::
      hexDigit (c.toNat % 16) :: rest) = textBytes fuel (c :: done) rest := by
  have hn : c.toNat < 32 := UInt8.lt_iff_toNat_lt.1 hc
  have hunit : unit? c.toNat rest = some (Char.ofNat c.toNat, rest) := by
    unfold unit?
    rw [if_neg (by omega), if_neg (by omega)]
  show (hex4? (0x30 :: 0x30 :: hexDigit (c.toNat / 16) :: hexDigit (c.toNat % 16) :: rest) >>=
    fun p => unit? p.1 p.2 >>= fun q =>
      textBytes fuel ((Text.utf8 (String.singleton q.1)).reverse ++ done) q.2) = _
  rw [hex4?_control hn]
  show (unit? c.toNat rest >>= fun q =>
    textBytes fuel ((Text.utf8 (String.singleton q.1)).reverse ++ done) q.2) = _
  rw [hunit]
  show textBytes fuel ((Text.utf8 (String.singleton (Char.ofNat c.toNat))).reverse ++ done) rest = _
  rw [utf8_control _ hn, UInt8.ofNat_toNat]
  rfl

/-- A byte is read back from the way it is written. -/
theorem textBytes_escapeByte (fuel : Nat) (done : Bytes) (c : UInt8) (rest : Bytes) :
    textBytes (fuel + 1) done (escapeByte c ++ rest) = textBytes fuel (c :: done) rest := by
  by_cases hletter : c ∈ [0x22, 0x5c, 0x08, 0x09, 0x0a, 0x0c, 0x0d]
  · simp only [List.mem_cons, List.not_mem_nil, or_false] at hletter
    rcases hletter with rfl | rfl | rfl | rfl | rfl | rfl | rfl <;> rfl
  · simp only [List.mem_cons, List.not_mem_nil, or_false, not_or] at hletter
    obtain ⟨hquote, hback, h8, h9, ha, hc, hd⟩ := hletter
    simp only [escapeByte, hquote, hback, h8, h9, ha, hc, hd, if_false]
    by_cases hlow : c < 0x20
    · rw [if_pos hlow]
      exact textBytes_unit hlow fuel done rest
    · rw [if_neg hlow, List.singleton_append, textBytes.eq_def]
      simp only [hquote, hback, hlow, if_false]

theorem length_escapeByte_pos (c : UInt8) : 0 < (escapeByte c).length := by
  unfold escapeByte
  repeat' split
  all_goals simp

/-- The bytes of a string are read back up to its closing mark. -/
theorem textBytes_flatMap (bytes done : Bytes) (hfuel : bytes.length < fuel) (rest : Bytes) :
    textBytes fuel done (bytes.flatMap escapeByte ++ 0x22 :: rest) =
      some (done.reverse ++ bytes, rest) := by
  induction bytes generalizing done fuel with
  | nil =>
    obtain ⟨fuel, rfl⟩ : ∃ more, fuel = more + 1 := ⟨fuel - 1, by simp at hfuel; omega⟩
    rw [List.append_nil]
    rfl
  | cons c bytes ih =>
    obtain ⟨fuel, rfl⟩ : ∃ more, fuel = more + 1 := ⟨fuel - 1, by simp at hfuel; omega⟩
    rw [List.flatMap_cons, List.append_assoc, textBytes_escapeByte,
      ih _ (Nat.lt_of_succ_lt_succ hfuel), List.reverse_cons, List.append_assoc]
    rfl

theorem length_le_flatMap (bytes : Bytes) : bytes.length ≤ (bytes.flatMap escapeByte).length := by
  induction bytes with
  | nil => exact Nat.le_refl 0
  | cons c bytes ih =>
    have hc := length_escapeByte_pos c
    simp only [List.flatMap_cons, List.length_append, List.length_cons]
    omega

/-- A string that has been written is read back. -/
theorem readText_writeText (s : String) (rest : Bytes) :
    readText (writeText s ++ rest) = some (s, rest) := by
  have hfuel : (Text.utf8 s).length <
      ((Text.utf8 s).flatMap escapeByte ++ 0x22 :: rest).length + 1 := by
    have hlength := length_le_flatMap (Text.utf8 s)
    simp only [List.length_append, List.length_cons]
    omega
  have hsplit : writeText s ++ rest =
      0x22 :: ((Text.utf8 s).flatMap escapeByte ++ 0x22 :: rest) := by simp [writeText]
  rw [hsplit]
  show (textBytes _ [] ((Text.utf8 s).flatMap escapeByte ++ 0x22 :: rest) >>= fun p =>
    Text.ofUtf8? p.1 >>= fun s => some (s, p.2)) = _
  rw [textBytes_flatMap _ [] hfuel]
  show (Text.ofUtf8? (Text.utf8 s) >>= fun s => some (s, rest)) = _
  rw [Text.ofUtf8?_utf8]
  rfl

/-! ## Natural numbers -/

/-- Digits as bytes. -/
def digitBytes (ds : List Char) : Bytes := ds.map fun c => c.val.toUInt8

theorem utf8_digits (h : ∀ c ∈ ds, c.isDigit = true) :
    Text.utf8 (String.ofList ds) = digitBytes ds := by
  rw [utf8_ofList]
  induction ds with
  | nil => rfl
  | cons c ds ih =>
    obtain ⟨hc, hds⟩ := List.forall_mem_cons.1 h
    rw [List.flatMap_cons, ih hds, (digit_byte hc).1]
    rfl

theorem isDigit_digitBytes (h : ∀ c ∈ ds, c.isDigit = true) :
    ∀ d ∈ digitBytes ds, isDigit d = true := by
  intro d hd
  obtain ⟨c, hc, rfl⟩ := List.mem_map.1 hd
  obtain ⟨-, hbyte, hlow, hhigh⟩ := digit_byte (h c hc)
  simp only [isDigit, Bool.and_eq_true, decide_eq_true_eq, UInt8.le_iff_toNat_le, hbyte]
  exact ⟨hlow, hhigh⟩

theorem map_digitBytes (h : ∀ c ∈ ds, c.isDigit = true) :
    (digitBytes ds).map (fun d => d.toNat - 0x30) = ds.map fun c => c.toNat - '0'.toNat := by
  rw [digitBytes, List.map_map]
  refine List.map_congr_left fun c hc => ?_
  rw [Function.comp_apply, (digit_byte (h c hc)).2.1]
  rfl

/-- Digits of a number of at most 64 bits are all taken. -/
theorem takeWhole_eq {kept : Nat}
    (h : Nat.ofDigitChars 10 ds kept < Nat.pow 2 64) :
    Real.takeWhole kept (ds.map fun c => c.toNat - '0'.toNat) =
      ⟨Nat.ofDigitChars 10 ds kept, 0⟩ := by
  induction ds generalizing kept with
  | nil => rfl
  | cons c ds ih =>
    have hle := Text.le_ofDigitChars (10 * kept + (c.toNat - '0'.toNat)) ds
    rw [Nat.ofDigitChars_cons] at h ⊢
    have hstep : kept * 10 + (c.toNat - '0'.toNat) = 10 * kept + (c.toNat - '0'.toNat) := by omega
    rw [List.map_cons, Real.takeWhole, hstep, if_pos (by omega), ih h]

theorem not_isDigit_of_ends (h : Ends rest) : ∀ c ∈ rest.head?, isDigit c = false := by
  intro c hc
  have hmem := h c hc
  simp only [List.mem_cons, List.not_mem_nil, or_false] at hmem
  rcases hmem with rfl | rfl | rfl <;> rfl

theorem readDigits_digitBytes (hds : Text.IsDigits ds)
    (hrest : ∀ c ∈ rest.head?, isDigit c = false) :
    readDigits (digitBytes ds ++ rest) = some (ds.map fun c => c.toNat - '0'.toNat, rest) := by
  have hall := isDigit_digitBytes hds.2
  have hnone : rest.takeWhile isDigit = [] ∧ rest.dropWhile isDigit = rest := by
    cases rest with
    | nil => exact ⟨rfl, rfl⟩
    | cons c rest => simp [hrest c rfl]
  have htake : (digitBytes ds ++ rest).takeWhile isDigit = digitBytes ds := by
    rw [List.takeWhile_append_of_pos hall, hnone.1, List.append_nil]
  have hdrop : (digitBytes ds ++ rest).dropWhile isDigit = rest := by
    rw [List.dropWhile_append_of_pos hall, hnone.2]
  have hne : (digitBytes ds).isEmpty = false := by
    simpa [digitBytes] using hds.1
  simp only [readDigits, htake, hdrop, hne, Bool.false_eq_true, if_false]
  rw [map_digitBytes hds.2]

/-- A number whose digits are followed by the end of a value is just its digits. -/
theorem readSpelling_digits {whole : List Nat} (hminus : b.head? ≠ some 0x2d)
    (hwhole : readWhole b = some (whole, rest)) (hrest : Ends rest) :
    readSpelling b = some (⟨false, whole, none, none⟩, rest) := by
  have hpeek (b : Bytes) : peek b = some (b.head?, b) := rfl
  have hmark {m : UInt8} (hm : m ∉ ([0x2c, 0x5d, 0x7d] : Bytes)) : rest.head? ≠ some m := by
    intro hhead
    exact hm (hrest m hhead)
  unfold readSpelling
  rw [bind_of_reads (hpeek b), if_neg hminus]
  show (readWhole >>= _) b = _
  rw [bind_of_reads hwhole]
  show (peek >>= _) rest = _
  rw [bind_of_reads (hpeek rest), if_neg (hmark (by decide))]
  show (peek >>= _) rest = _
  rw [bind_of_reads (hpeek rest)]
  simp only [hminus, hmark (m := 0x65) (by decide), hmark (m := 0x45) (by decide), decide_false,
    Bool.or_false, Bool.false_eq_true, if_false]
  rfl

/-- A number begins with a digit, and not with a nought unless it is zero. -/
theorem exists_toDigits (n : Nat) :
    ∃ c cs, Nat.toDigits 10 n = c :: cs ∧ c.isDigit = true ∧ (c = '0' → n = 0) := by
  induction n using Nat.strongRecOn with
  | ind n ih =>
    by_cases hlt : n < 10
    · refine ⟨Nat.digitChar n, [], Nat.toDigits_of_lt_base hlt, ?_⟩
      exact (by decide : ∀ n < 10, (Nat.digitChar n).isDigit = true ∧
        (Nat.digitChar n = '0' → n = 0)) n hlt
    · obtain ⟨c, cs, hdigits, hdigit, hzero⟩ := ih (n / 10) (by omega)
      refine ⟨c, cs ++ [Nat.digitChar (n % 10)], ?_, hdigit, fun hc => ?_⟩
      · rw [Nat.toDigits_of_base_le (by decide) (by omega), hdigits, List.cons_append]
      · have := hzero hc
        omega

theorem byte_eq {c : Char} {d : UInt8} (h : c.isDigit = true) (hd : c.val.toUInt8 = d) :
    c.toNat = d.toNat := by
  rw [← hd, (digit_byte h).2.1]

theorem readWhole_toDigits (n : Nat) (hrest : ∀ c ∈ rest.head?, isDigit c = false) :
    readWhole (digitBytes (Nat.toDigits 10 n) ++ rest) =
      some ((Nat.toDigits 10 n).map fun c => c.toNat - '0'.toNat, rest) := by
  have hread := readDigits_digitBytes (Text.isDigits_toDigits n) hrest
  by_cases hzero : n = 0
  · subst hzero
    cases rest with
    | nil => exact hread
    | cons c rest =>
      show (if isDigit c = true then none else some ([0], c :: rest)) = _
      rw [hrest c rfl]
      rfl
  · obtain ⟨c, cs, hdigits, hdigit, hnought⟩ := exists_toDigits n
    rw [hdigits] at hread ⊢
    have hne : c.val.toUInt8 ≠ 0x30 := by
      intro heq
      exact hzero (hnought (Char.toNat_inj.1 (byte_eq hdigit heq)))
    refine Eq.trans ?_ hread
    unfold readWhole
    split
    · next heq => exact absurd (List.cons.inj heq).1 hne
    · rfl

/-- A natural number of at most 64 bits is read back. -/
theorem readNumber_natural (hn : n < Nat.pow 2 64) (hrest : Ends rest) :
    readNumber (writeNumber (.natural n) ++ rest) = some (.natural n, rest) := by
  have hdigits := Text.isDigits_toDigits n
  have hwrite : writeNumber (.natural n) = digitBytes (Nat.toDigits 10 n) := utf8_digits hdigits.2
  have hwhole := readWhole_toDigits n (not_isDigit_of_ends hrest)
  have hworth : Nat.ofDigitChars 10 (Nat.toDigits 10 n) 0 = n := Text.worth_toDigits n
  have htake := takeWhole_eq (hworth.symm ▸ hn)
  rw [hworth] at htake
  have hminus : (digitBytes (Nat.toDigits 10 n) ++ rest).head? ≠ some 0x2d := by
    obtain ⟨c, cs, heq, hdigit, -⟩ := exists_toDigits n
    rw [heq]
    intro hhead
    have hbyte := byte_eq hdigit (Option.some.inj hhead)
    have hlow := (digit_byte hdigit).2.2.1
    rw [hbyte] at hlow
    exact absurd hlow (by decide)
  rw [hwrite, readNumber, bind_of_reads (readSpelling_digits hminus hwhole hrest)]
  simp only [Spelling.number?, htake]
  rfl

/-! ## Objects -/

theorem blanks_cons (b : Bytes) (h : c ∉ ([0x20, 0x0a, 0x0d, 0x09] : Bytes)) :
    blanks (c :: b) = some ((), c :: b) := by
  simp only [List.mem_cons, List.not_mem_nil, or_false, not_or] at h
  simp [blanks, h]

theorem blanks_of_leads (h : Leads b) (rest : Bytes) : blanks (b ++ rest) = some ((), b ++ rest) := by
  obtain ⟨c, b, rfl, hc⟩ := h
  refine blanks_cons (b ++ rest) fun hblank => ?_
  simp only [List.mem_cons, List.not_mem_nil, or_false] at hblank
  rcases hblank with rfl | rfl | rfl | rfl <;> exact absurd hc (by decide)

theorem ends_cons (b : Bytes) (h : c ∈ ([0x2c, 0x5d, 0x7d] : Bytes)) : Ends (c :: b) := by
  intro d hd
  cases hd
  exact h

/-- A name and the value behind it are read back as a member. -/
theorem members_step {value : String → Reader α} {name : String} {b : Bytes} {a : α}
    (h : Reads (value name) b a) (fuel : Nat) (first : Bool) (hc : c = 0x2c ∨ c = 0x7d)
    (rest : Bytes) :
    members readText value (fuel + 1) first (writeText name ++ 0x3a :: (b ++ c :: rest)) =
      (if c = 0x2c then (do return (name, a) :: (← members readText value fuel false) : Reader _)
        else return [(name, a)]) rest := by
  have hends : Ends (c :: rest) := ends_cons rest (by rcases hc with rfl | rfl <;> decide)
  have hafter : blanks (c :: rest) = some ((), c :: rest) :=
    blanks_cons rest (by rcases hc with rfl | rfl <;> decide)
  have hbefore : blanks (writeText name ++ 0x3a :: (b ++ c :: rest)) =
      some ((), writeText name ++ 0x3a :: (b ++ c :: rest)) := blanks_cons _ (by decide)
  have hcolon : blanks (0x3a :: (b ++ c :: rest)) = some ((), 0x3a :: (b ++ c :: rest)) :=
    blanks_cons _ (by decide)
  have hexpect : expect [0x3a] (0x3a :: (b ++ c :: rest)) = some ((), b ++ c :: rest) := rfl
  have hnext : next (c :: rest) = some (c, rest) := rfl
  have hpeek : peek (writeText name ++ 0x3a :: (b ++ c :: rest)) =
      some (some 0x22, writeText name ++ 0x3a :: (b ++ c :: rest)) := rfl
  rw [members, bind_of_reads hbefore, bind_of_reads hpeek]
  show (readText >>= _) _ = _
  rw [bind_of_reads (readText_writeText name _), bind_of_reads hcolon, bind_of_reads hexpect,
    bind_of_reads (h _ hends), bind_of_reads hafter, bind_of_reads hnext]
  rcases hc with rfl | rfl <;> rfl

theorem commas_cons (b : Bytes) {bs : List Bytes} (h : bs ≠ []) :
    commas (b :: bs) = b ++ 0x2c :: commas bs := by
  cases bs with
  | nil => exact absurd rfl h
  | cons b' bs => rfl

/-- The member of an object as it is written. -/
def memberBytes (m : String × Bytes) : Bytes := writeText m.1 ++ 0x3a :: m.2

/-- The bytes of a member are read as the value under its name. -/
def ReadsMember (value : String → Reader α) (m : String × Bytes) (v : String × α) : Prop :=
  v.1 = m.1 ∧ Reads (value m.1) m.2 v.2

variable {value : String → Reader α} {ms : List (String × Bytes)} {vs : List (String × α)}

/-- Members are read back one after the other, up to the closing brace. -/
theorem members_commas (h : List.Forall₂ (ReadsMember value) ms vs) (hne : ms ≠ [])
    (hfuel : ms.length ≤ fuel) (first : Bool) (rest : Bytes) :
    members readText value fuel first (commas (ms.map memberBytes) ++ 0x7d :: rest) =
      some (vs, rest) := by
  induction h generalizing fuel first with
  | nil => exact absurd rfl hne
  | @cons m v ms vs hm hms ih =>
    obtain ⟨name, b⟩ := m
    obtain ⟨name', a⟩ := v
    obtain ⟨hname, hreads⟩ := hm
    obtain rfl : name' = name := hname
    obtain ⟨fuel, rfl⟩ : ∃ more, fuel = more + 1 := ⟨fuel - 1, by simp at hfuel; omega⟩
    cases ms with
    | nil =>
      cases hms
      have hstep := members_step hreads fuel first (.inr rfl) rest
      simp only [List.map_cons, List.map_nil, commas, memberBytes, List.append_assoc,
        List.cons_append]
      exact hstep
    | cons m ms =>
      have hrest := ih (by simp) (Nat.le_of_succ_le_succ hfuel) false
      have hstep := members_step hreads fuel first (.inl rfl)
        (commas ((m :: ms).map memberBytes) ++ 0x7d :: rest)
      rw [if_pos rfl, bind_of_reads hrest] at hstep
      rw [List.map_cons, commas_cons _ (by simp), memberBytes]
      simp only [List.append_assoc, List.cons_append] at hstep ⊢
      exact hstep

theorem length_le_commas (ms : List (String × Bytes)) :
    ms.length ≤ (commas (ms.map memberBytes)).length := by
  induction ms with
  | nil => exact Nat.zero_le _
  | cons m ms ih =>
    cases ms with
    | nil =>
      simp only [List.map_cons, List.map_nil, commas, memberBytes, List.length_append,
        List.length_cons, List.length_nil]
      omega
    | cons m' ms =>
      rw [List.map_cons, commas_cons _ (by simp)]
      simp only [List.length_append, List.length_cons] at ih ⊢
      omega

/-- An object is read back by its members. -/
theorem reads_writeObject (h : List.Forall₂ (ReadsMember value) ms vs) :
    Reads (readObject readText value) (writeObject ms) vs := by
  intro rest _
  have hwrite : writeObject ms ++ rest = 0x7b :: (commas (ms.map memberBytes) ++ 0x7d :: rest) := by
    simp only [writeObject, List.cons_append, List.append_assoc]
    rfl
  have hopen : expect [0x7b] (writeObject ms ++ rest) =
      some ((), commas (ms.map memberBytes) ++ 0x7d :: rest) := by
    rw [hwrite]
    rfl
  rw [readObject, bind_of_reads hopen]
  show members readText value _ true (commas (ms.map memberBytes) ++ 0x7d :: rest) = _
  cases ms with
  | nil =>
    cases h
    rfl
  | cons m ms =>
    have hlength := length_le_commas (m :: ms)
    refine members_commas h (by simp) ?_ true rest
    simp only [List.length_append, List.length_cons] at hlength ⊢
    omega

end CacheLayer.Json
