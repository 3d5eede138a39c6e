/-
Envelopes opened again. What `wrap` has put into an envelope, `unwrap` finds in
it (`unwrap_wrap`). Bare bytes are told from an envelope by the magic alone, so
they come back whole unless they happen to look like one
(`unwrap_eq_bare_iff`).
-/
import CacheLayer.Envelope

namespace CacheLayer.Envelope

variable {names : List String} {b header payload : Bytes}

theorem exists_of_map_eq_ok {α β : Type} {r : Except Error α} {f : α → β} {y : β}
    (h : r.map f = .ok y) : ∃ x, r = .ok x ∧ f x = y := by
  cases r with
  | error e => cases h
  | ok x => exact ⟨x, rfl, Except.ok.inj h⟩

/-! ## Names -/

theorem sealNames_cons {name : String} (h : (Text.utf8 name).length ≤ limit) :
    sealNames (name :: names) =
      (sealNames names).map fun rest =>
        UInt8.ofNat (Text.utf8 name).length :: Text.utf8 name ++ rest := by
  simp only [sealNames, Nat.not_lt.2 h, if_false]

theorem toNat_ofNat {n : Nat} (h : n ≤ limit) : (UInt8.ofNat n).toNat = n :=
  UInt8.toNat_ofNat_of_lt' (Nat.lt_succ_of_le h)

theorem exists_sealNames (h : ∀ name ∈ names, (Text.utf8 name).length ≤ limit) :
    ∃ header, sealNames names = .ok header := by
  induction names with
  | nil => exact ⟨[], rfl⟩
  | cons name names ih =>
    obtain ⟨hname, hnames⟩ := List.forall_mem_cons.1 h
    obtain ⟨rest, hrest⟩ := ih hnames
    exact ⟨_, by rw [sealNames_cons hname, hrest]; rfl⟩

theorem openNames_sealNames (h : sealNames names = .ok header) :
    openNames names.length (header ++ payload) = .ok (names, payload) := by
  induction names generalizing header with
  | nil =>
    obtain rfl : [] = header := Except.ok.inj h
    rfl
  | cons name names ih =>
    by_cases hlong : (Text.utf8 name).length > limit
    · simp only [sealNames, hlong, if_true] at h
      cases h
    · have hname : (Text.utf8 name).length ≤ limit := Nat.not_lt.1 hlong
      rw [sealNames_cons hname] at h
      obtain ⟨rest, hrest, rfl⟩ := exists_of_map_eq_ok h
      simp [openNames, toNat_ofNat hname, ih hrest, Text.ofUtf8?_utf8, Except.map]

/-- What is behind the names is no longer than what the names were read from. -/
theorem openNames_length {count : Nat} (h : openNames count b = .ok (names, payload)) :
    payload.length ≤ b.length := by
  fun_induction openNames count b generalizing names with
  | case1 b =>
    cases h
    exact Nat.le_refl _
  | case2 => cases h
  | case3 => cases h
  | case4 => cases h
  | case5 count len b hlen name hname ih =>
    obtain ⟨⟨names', payload'⟩, hrest, heq⟩ := exists_of_map_eq_ok h
    cases heq
    have := ih hrest
    rw [List.length_drop] at this
    rw [List.length_cons]
    omega

/-! ## Envelopes -/

/-- The bytes begin as an envelope does: with the magic and a count. -/
def LooksSealed (b : Bytes) : Prop := ∃ count rest, b = magic ++ count :: rest

theorem unwrap_sealed (count : UInt8) (rest : Bytes) :
    unwrap (magic ++ count :: rest) = openNames count.toNat rest := rfl

theorem unwrap_of_not_looksSealed (h : ¬ LooksSealed b) : unwrap b = .ok ([], b) := by
  unfold unwrap
  split
  · next hmagic =>
    split
    · rfl
    · next count rest hrest =>
      exact absurd ⟨count, rest, by rw [← hmagic, ← hrest, List.take_append_drop]⟩ h
  · rfl

/-- Bytes come back bare exactly if they do not look like an envelope. -/
theorem unwrap_eq_bare_iff : unwrap b = .ok ([], b) ↔ ¬ LooksSealed b := by
  refine ⟨?_, unwrap_of_not_looksSealed⟩
  rintro h ⟨count, rest, rfl⟩
  rw [unwrap_sealed] at h
  have hlength := openNames_length h
  simp [magic] at hlength
  omega

theorem wrap_eq (hsome : names ≠ []) (hmany : names.length ≤ limit) (payload : Bytes) :
    wrap names payload = (sealNames names).map fun header =>
      magic ++ UInt8.ofNat names.length :: header ++ payload := by
  simp [wrap, hsome, Nat.not_lt.2 hmany]

/-- Names that fit, at least one and not too many, are put before the payload. -/
theorem exists_wrap (hsome : names ≠ []) (hmany : names.length ≤ limit)
    (hlong : ∀ name ∈ names, (Text.utf8 name).length ≤ limit) (payload : Bytes) :
    ∃ b, wrap names payload = .ok b := by
  obtain ⟨header, hheader⟩ := exists_sealNames hlong
  exact ⟨_, by rw [wrap_eq hsome hmany, hheader]; rfl⟩

/-- The names and the payload of an envelope are found in it. -/
theorem unwrap_wrap (hsome : names ≠ []) (h : wrap names payload = .ok b) :
    unwrap b = .ok (names, payload) := by
  by_cases hmany : names.length ≤ limit
  · rw [wrap_eq hsome hmany] at h
    obtain ⟨header, hheader, rfl⟩ := exists_of_map_eq_ok h
    rw [List.append_assoc, List.cons_append, unwrap_sealed, toNat_ofNat hmany]
    exact openNames_sealNames hheader
  · simp [wrap, hsome, Nat.not_le.1 hmany] at h

end CacheLayer.Envelope
