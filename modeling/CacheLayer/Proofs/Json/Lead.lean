/-
How JSON texts begin: with a quotation mark, a bracket, a brace, a minus sign, a
digit, or the first letter of `null`, `true` or `false`. The typed values come
with every kind of number, so what is proved here of digits goes down to the
decimal texts of doubles.

Main statement: `leads_toJson`.
-/
import CacheLayer.Datum.JsonForm

namespace CacheLayer

namespace Json

/-- A value of a JSON text begins with this byte. -/
def IsLead (c : UInt8) : Prop :=
  c ∈ [0x22, 0x2d, 0x5b, 0x66, 0x6e, 0x74, 0x7b] ∨ 0x30 ≤ c ∧ c ≤ 0x39

instance (c : UInt8) : Decidable (IsLead c) := inferInstanceAs (Decidable (_ ∨ _))

/-- The bytes begin as a value of a JSON text does. -/
def Leads (b : Bytes) : Prop := ∃ c rest, b = c :: rest ∧ IsLead c

theorem leads_cons {c : UInt8} (rest : Bytes) (h : IsLead c) : Leads (c :: rest) :=
  ⟨c, rest, rfl, h⟩

/-! ## Numbers -/

/-- The characters begin as a number does. -/
def BeginsNumber (l : List Char) : Prop := ∃ c cs, l = c :: cs ∧ (c = '-' ∨ c.isDigit = true)

theorem utf8_ofList (l : List Char) :
    Text.utf8 (String.ofList l) = l.flatMap String.utf8EncodeChar := by
  rw [Text.utf8, String.toByteArray_ofList, List.utf8Encode]
  simp

/-- A digit is written as one byte, its number. -/
theorem digit_byte {c : Char} (h : c.isDigit = true) :
    String.utf8EncodeChar c = [c.val.toUInt8] ∧ c.val.toUInt8.toNat = c.toNat ∧
      48 ≤ c.toNat ∧ c.toNat ≤ 57 := by
  have hbounds : 48 ≤ c.val.toNat ∧ c.val.toNat ≤ 57 := by
    simpa [Char.isDigit, UInt32.le_iff_toNat_le] using h
  have hsize : c.utf8Size = 1 := by
    rw [Char.utf8Size_eq_one_iff, UInt32.le_iff_toNat_le]
    exact Nat.le_trans hbounds.2 (by decide)
  refine ⟨String.utf8EncodeChar_eq_singleton hsize, ?_, hbounds⟩
  rw [UInt32.toNat_toUInt8]
  exact Nat.mod_eq_of_lt (by omega)

theorem utf8EncodeChar_digit {c : Char} (h : c.isDigit = true) :
    ∃ d : UInt8, String.utf8EncodeChar c = [d] ∧ IsLead d := by
  obtain ⟨hencode, htoNat, hlow, hhigh⟩ := digit_byte h
  refine ⟨c.val.toUInt8, hencode, .inr ⟨?_, ?_⟩⟩
  · rw [UInt8.le_iff_toNat_le, htoNat]
    exact hlow
  · rw [UInt8.le_iff_toNat_le, htoNat]
    exact hhigh

theorem leads_utf8 {l : List Char} (h : BeginsNumber l) : Leads (Text.utf8 (String.ofList l)) := by
  obtain ⟨c, cs, rfl, hc⟩ := h
  rw [utf8_ofList, List.flatMap_cons]
  rcases hc with rfl | hdigit
  · exact leads_cons _ (by decide)
  · obtain ⟨d, hd, hlead⟩ := utf8EncodeChar_digit hdigit
    rw [hd]
    exact leads_cons _ hlead

theorem beginsNumber_digits (n : Nat) : BeginsNumber (Nat.toDigits 10 n) := by
  cases h : Nat.toDigits 10 n with
  | nil => exact absurd h Nat.toDigits_ne_nil
  | cons c cs =>
    have hmem : c ∈ Nat.toDigits 10 n := h ▸ List.mem_cons_self
    exact ⟨c, cs, rfl, .inr (Nat.isDigit_of_mem_toDigits (by decide) (by decide) hmem)⟩

theorem BeginsNumber.append {l : List Char} (h : BeginsNumber l) (rest : List Char) :
    BeginsNumber (l ++ rest) := by
  obtain ⟨c, cs, rfl, hc⟩ := h
  exact ⟨c, cs ++ rest, rfl, hc⟩

theorem BeginsNumber.take {l : List Char} (h : BeginsNumber l) {n : Nat} (hn : 0 < n) :
    BeginsNumber (l.take n) := by
  obtain ⟨c, cs, rfl, hc⟩ := h
  cases n with
  | zero => cases hn
  | succ n => exact ⟨c, cs.take n, rfl, hc⟩

theorem leads_ofInt (i : Int) : Leads (ascii (Text.ofInt i)) := by
  cases i with
  | ofNat n => exact leads_utf8 (beginsNumber_digits n)
  | negSucc n => exact leads_utf8 ⟨'-', _, rfl, .inl rfl⟩

theorem BeginsNumber.signed {body : List Char} (h : BeginsNumber body) (negative : Bool) :
    BeginsNumber ((if negative then ['-'] else []) ++ body) := by
  cases negative with
  | true => exact ⟨'-', body, rfl, .inl rfl⟩
  | false => exact h

/-- The text of a double begins with its sign or a digit, in each of its forms. -/
theorem leads_real (bits : UInt64) : Leads (ascii (Real.text bits)) := by
  unfold Real.text
  simp only
  split
  · exact leads_utf8 (BeginsNumber.signed ⟨'0', ['.', '0'], rfl, .inr rfl⟩ _)
  · generalize Real.shortest (Real.decode bits) = x
    have hdigits := beginsNumber_digits x.digits
    refine leads_utf8 (BeginsNumber.signed ?_ _)
    split
    · exact (hdigits.append _).append _
    split
    · next hpoint =>
      simp only [Bool.and_eq_true, decide_eq_true_eq] at hpoint
      exact (hdigits.take (by omega)).append _
    split
    · exact ⟨'0', _, rfl, .inr rfl⟩
    · exact ((hdigits.take Nat.one_pos).append _).append _

theorem leads_writeNumber (n : Number) : Leads (writeNumber n) := by
  cases n with
  | natural n => exact leads_ofInt n
  | negative i => exact leads_ofInt i
  | real bits =>
    change Leads (if _ then ascii "null" else ascii (Real.text bits))
    split
    · exact ⟨0x6e, [0x75, 0x6c, 0x6c], rfl, by decide⟩
    · exact leads_real bits

/-! ## Values -/

theorem leads_writeText (s : String) : Leads (writeText s) := leads_cons _ (by decide)

theorem leads_writeArray (items : List Bytes) : Leads (writeArray items) := leads_cons _ (by decide)

theorem leads_writeObject (members : List (String × Bytes)) : Leads (writeObject members) :=
  leads_cons _ (by decide)

theorem leads_write (j : Json) : Leads (write j) := by
  cases j with
  | null => exact ⟨0x6e, [0x75, 0x6c, 0x6c], rfl, by decide⟩
  | bool b =>
    cases b with
    | true => exact ⟨0x74, [0x72, 0x75, 0x65], rfl, by decide⟩
    | false => exact ⟨0x66, [0x61, 0x6c, 0x73, 0x65], rfl, by decide⟩
  | number n => exact leads_writeNumber n
  | text s => exact leads_writeText s
  | array items => exact leads_writeArray _
  | object members => exact leads_writeObject _

end Json

/-- The JSON text of a typed value begins as a JSON value does. -/
theorem Datum.leads_toJson {b : Bytes} : ∀ {d : Datum}, d.toJson? = some b → Json.Leads b
  | .unit, h => by
    cases h
    exact Json.leads_write .null
  | .bool x, h => by
    cases h
    exact Json.leads_write (.bool x)
  | .unsigned _ n, h => by
    cases h
    exact Json.leads_writeNumber (.natural n)
  | .signed _ i, h => by
    cases h
    exact Json.leads_ofInt i
  | .char c, h => by
    cases h
    exact Json.leads_writeText _
  | .text s, h => by
    cases h
    exact Json.leads_writeText s
  | .absent, h => by
    cases h
    exact Json.leads_write .null
  | .present d, h => leads_toJson (d := d) h
  | .list ds, h => by
    obtain ⟨pieces, -, hb⟩ := Option.bind_eq_some_iff.1 h
    cases hb
    exact Json.leads_writeArray _
  | .pair x y, h => by
    obtain ⟨first, -, hrest⟩ := Option.bind_eq_some_iff.1 h
    obtain ⟨second, -, hb⟩ := Option.bind_eq_some_iff.1 hrest
    cases hb
    exact Json.leads_writeArray _
  | .table entries, h => by
    obtain ⟨pieces, -, hb⟩ := Option.bind_eq_some_iff.1 h
    cases hb
    exact Json.leads_writeObject _
  | .record fields, h => by
    obtain ⟨pieces, -, hb⟩ := Option.bind_eq_some_iff.1 h
    cases hb
    exact Json.leads_writeObject _
  | .bare _ name, h => by
    cases h
    exact Json.leads_writeText name
  | .carrying _ name d, h => by
    obtain ⟨pieces, -, hb⟩ := Option.bind_eq_some_iff.1 h
    cases hb
    exact Json.leads_writeObject _
  | .any j, h => by
    cases h
    exact Json.leads_write j

end CacheLayer
