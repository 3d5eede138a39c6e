/-
The layout of envelopes, as a relation between names, a payload and bytes. It is
read off the bytes alone: a count, then each name behind its length, then the
payload. `unwrap` opens exactly the bytes that are laid out so and refuses all
others that look like an envelope, however short they are cut; `wrap` writes
this layout and no other, so an envelope is the only one of its names and its
payload.

Main statement: `unwrap_exact`.
-/
import CacheLayer.Proofs.Envelope

namespace CacheLayer.Envelope

variable {name : String} {names : List String} {b header payload : Bytes} {count : Nat}

/-- The bytes are these names, each behind a byte that tells its length, and then the payload. -/
inductive Lists : List String → Bytes → Bytes → Prop where
  | none {payload : Bytes} : Lists [] payload payload
  | name {name : String} {names : List String} {len : UInt8} {b payload : Bytes}
    (hlen : len.toNat = (Text.utf8 name).length) (more : Lists names payload b) :
    Lists (name :: names) payload (len :: Text.utf8 name ++ b)

/-- The bytes are an envelope of these names and this payload. -/
def LaidOut (names : List String) (payload b : Bytes) : Prop :=
  ∃ count rest, b = magic ++ count :: rest ∧ count.toNat = names.length ∧
    Lists names payload rest

/-- The names fit into an envelope: they are not too many, and none is too long. -/
structure Fits (names : List String) : Prop where
  many : names.length ≤ 255
  long : ∀ name ∈ names, (Text.utf8 name).length ≤ 255

/-! ## Names -/

theorem openNames_of_lists (h : Lists names payload b) :
    openNames names.length b = .ok (names, payload) := by
  induction h with
  | none => rfl
  | name hlen more ih => simp [openNames, hlen, Text.ofUtf8?_utf8, ih, Except.map]

theorem lists_of_openNames (h : openNames count b = .ok (names, payload)) :
    count = names.length ∧ Lists names payload b := by
  fun_induction openNames count b generalizing names with
  | case1 b =>
    cases h
    exact ⟨rfl, .none⟩
  | case2 => cases h
  | case3 => cases h
  | case4 => cases h
  | case5 count len b hlen name hname ih =>
    obtain ⟨⟨names', payload'⟩, hrest, heq⟩ := exists_of_map_eq_ok h
    cases heq
    obtain ⟨hcount, hlists⟩ := ih hrest
    have hbytes : Text.utf8 name = b.take len.toNat := Text.utf8_of_ofUtf8? hname
    have hfits : len.toNat = (Text.utf8 name).length := by
      rw [hbytes, List.length_take]
      omega
    have hsplit : b = Text.utf8 name ++ b.drop len.toNat := by
      rw [hbytes, List.take_append_drop]
    rw [hsplit]
    exact ⟨congrArg (· + 1) hcount, .name hfits hlists⟩

/-- Reading names fails in no other way than that the bytes cannot be read. -/
theorem openNames_error {e : Error} (h : openNames count b = .error e) :
    ∃ text, e = .decoding text := by
  fun_induction openNames count b with
  | case1 => cases h
  | case2 | case3 | case4 =>
    cases h
    exact ⟨_, rfl⟩
  | case5 count len b hlen name hname ih =>
    cases hrest : openNames count (b.drop len.toNat) with
    | ok rest => rw [hrest] at h; cases h
    | error e' =>
      rw [hrest] at h
      obtain rfl : e' = e := Except.error.inj h
      exact ih hrest

theorem lists_of_sealNames (h : sealNames names = .ok header) (payload : Bytes) :
    Lists names payload (header ++ payload) :=
  (lists_of_openNames (openNames_sealNames h)).2

theorem sealNames_of_lists (h : Lists names payload b) :
    ∃ header, sealNames names = .ok header ∧ header ++ payload = b := by
  induction h with
  | none => exact ⟨[], rfl, rfl⟩
  | @name name names len b payload hlen more ih =>
    obtain ⟨header, hheader, rfl⟩ := ih
    have hfits : (Text.utf8 name).length ≤ limit := hlen ▸ Nat.le_of_lt_succ len.toNat_lt
    refine ⟨len :: Text.utf8 name ++ header, ?_, by simp⟩
    rw [sealNames_cons hfits, hheader, ← hlen, UInt8.ofNat_toNat]
    rfl

/-- A name that is too long cannot be sealed. -/
theorem sealNames_error (hmem : name ∈ names) (hlong : limit < (Text.utf8 name).length) :
    ∃ text, sealNames names = .error (.encoding text) := by
  induction names with
  | nil => cases hmem
  | cons first names ih =>
    by_cases hfirst : limit < (Text.utf8 first).length
    · exact ⟨"Transformer name too long: " ++ first, by simp [sealNames, hfirst]⟩
    · have hrest : name ∈ names :=
        (List.mem_cons.1 hmem).resolve_left fun heq => hfirst (heq ▸ hlong)
      obtain ⟨text, htext⟩ := ih hrest
      exact ⟨text, by rw [sealNames_cons (Nat.not_lt.1 hfirst), htext]; rfl⟩

/-! ## Envelopes -/

theorem looksSealed_iff : LooksSealed b ↔ 5 ≤ b.length ∧ magic <+: b := by
  constructor
  · rintro ⟨count, rest, rfl⟩
    exact ⟨by simp [magic], List.prefix_append _ _⟩
  · rintro ⟨hlength, ⟨_ | ⟨count, rest⟩, rfl⟩⟩
    · simp [magic] at hlength
    · exact ⟨count, rest, rfl⟩

/-- Among the bytes that look like an envelope, those are opened that are laid out as one. -/
theorem unwrap_eq_ok_iff (h : LooksSealed b) :
    unwrap b = .ok (names, payload) ↔ LaidOut names payload b := by
  obtain ⟨count, rest, rfl⟩ := h
  rw [unwrap_sealed]
  constructor
  · intro hopen
    obtain ⟨hcount, hlists⟩ := lists_of_openNames hopen
    exact ⟨count, rest, rfl, hcount, hlists⟩
  · rintro ⟨count', rest', heq, hcount, hlists⟩
    obtain ⟨rfl, rfl⟩ : count = count' ∧ rest = rest' := by simpa using heq
    rw [hcount]
    exact openNames_of_lists hlists

/-- The others of them are refused. -/
theorem unwrap_error (h : LooksSealed b) (hnot : ∀ names payload, ¬ LaidOut names payload b) :
    ∃ text, unwrap b = .error (.decoding text) := by
  cases hopen : unwrap b with
  | ok opened => exact absurd ((unwrap_eq_ok_iff h).1 hopen) (hnot opened.1 opened.2)
  | error e =>
    obtain ⟨count, rest, rfl⟩ := h
    obtain ⟨text, rfl⟩ := openNames_error hopen
    exact ⟨text, rfl⟩

theorem laidOut_of_wrap (hsome : names ≠ []) (h : wrap names payload = .ok b) :
    LaidOut names payload b := by
  by_cases hmany : names.length ≤ limit
  · rw [wrap_eq hsome hmany] at h
    obtain ⟨header, hheader, rfl⟩ := exists_of_map_eq_ok h
    refine ⟨UInt8.ofNat names.length, header ++ payload, by simp, toNat_ofNat hmany, ?_⟩
    exact lists_of_sealNames hheader payload
  · simp [wrap, hsome, Nat.not_le.1 hmany] at h

/-- Names and a payload have one envelope. -/
theorem wrap_of_laidOut (hsome : names ≠ []) (h : LaidOut names payload b) :
    wrap names payload = .ok b := by
  obtain ⟨count, rest, rfl, hcount, hlists⟩ := h
  obtain ⟨header, hheader, rfl⟩ := sealNames_of_lists hlists
  have hmany : names.length ≤ limit := hcount ▸ Nat.le_of_lt_succ count.toNat_lt
  rw [wrap_eq hsome hmany, hheader, ← hcount, UInt8.ofNat_toNat]
  simp [Except.map]

theorem wrap_error (h : ¬ Fits names) : ∃ text, wrap names payload = .error (.encoding text) := by
  have hsome : names ≠ [] := by
    rintro rfl
    exact h ⟨Nat.zero_le _, by simp⟩
  by_cases hmany : names.length ≤ limit
  · by_cases hlong : ∃ name ∈ names, limit < (Text.utf8 name).length
    · obtain ⟨name, hmem, hname⟩ := hlong
      obtain ⟨text, htext⟩ := sealNames_error hmem hname
      exact ⟨text, by rw [wrap_eq hsome hmany, htext]; rfl⟩
    · refine absurd ⟨hmany, fun name hmem => Nat.not_lt.1 fun hname => ?_⟩ h
      exact hlong ⟨name, hmem, hname⟩
  · refine ⟨"Too many transformers in envelope: " ++ toString names.length, ?_⟩
    simp [wrap, hsome, Nat.not_le.1 hmany]

/-- **Envelopes are opened exactly as they are laid out.** Bytes that are fewer than five or do not
begin with the magic are bare. Of the others, those that are the envelope of some names and a
payload give just these, and all that are no envelope are refused as unreadable. Names that fit are
put into an envelope that gives them back with the payload, names that do not fit are refused, and
whatever names are found in bytes, sealing them again gives the same bytes. -/
theorem unwrap_exact :
    (∀ b : Bytes, (b.length < 5 ∨ ¬ magic <+: b) → unwrap b = .ok ([], b)) ∧
    (∀ b : Bytes, 5 ≤ b.length → magic <+: b →
      (∀ names payload, unwrap b = .ok (names, payload) ↔ LaidOut names payload b) ∧
      ((∀ names payload, ¬ LaidOut names payload b) →
        ∃ text, unwrap b = .error (.decoding text))) ∧
    (∀ names payload, names ≠ [] → Fits names →
      ∃ b, wrap names payload = .ok b ∧ LaidOut names payload b ∧
        unwrap b = .ok (names, payload)) ∧
    (∀ names payload, ¬ Fits names → ∃ text, wrap names payload = .error (.encoding text)) ∧
    ∀ b names payload, unwrap b = .ok (names, payload) → names ≠ [] →
      wrap names payload = .ok b := by
  refine ⟨fun b hbare => ?_, fun b hlength hmagic => ?_, fun names payload hsome hfits => ?_,
    fun names payload hnot => wrap_error hnot, fun b names payload hopen hsome => ?_⟩
  · refine unwrap_of_not_looksSealed fun hlooks => ?_
    obtain ⟨hlength, hmagic⟩ := looksSealed_iff.1 hlooks
    exact hbare.elim (Nat.not_lt.2 hlength) (absurd hmagic)
  · have hlooks := looksSealed_iff.2 ⟨hlength, hmagic⟩
    exact ⟨fun names payload => unwrap_eq_ok_iff hlooks, unwrap_error hlooks⟩
  · obtain ⟨b, hb⟩ := exists_wrap hsome hfits.many hfits.long payload
    exact ⟨b, hb, laidOut_of_wrap hsome hb, unwrap_wrap hsome hb⟩
  · by_cases hlooks : LooksSealed b
    · exact wrap_of_laidOut hsome ((unwrap_eq_ok_iff hlooks).1 hopen)
    · rw [unwrap_of_not_looksSealed hlooks] at hopen
      cases hopen
      exact absurd rfl hsome

/-- Two names before a payload of one byte. -/
def twoNames : Bytes := magic ++ [2, 1, 0x78, 2, 0xc3, 0xa9, 7]

/-- An envelope of two names, one of them outside of ASCII, is opened and sealed again; cut within
the second name it is refused, and cut within the magic it is bare. -/
theorem unwrap_exact_twoNames :
    unwrap twoNames = .ok (["x", "é"], [7]) ∧ wrap ["x", "é"] [7] = .ok twoNames ∧
      unwrap (twoNames.take 3) = .ok ([], twoNames.take 3) ∧
      (∃ text, unwrap (twoNames.take 9) = .error (.decoding text)) ∧
      ∃ text, wrap (List.replicate 256 "x") [7] = .error (.encoding text) := by
  obtain ⟨hbare, hlooks, -, hunfit, hback⟩ := unwrap_exact
  have hlaid : LaidOut ["x", "é"] [7] twoNames :=
    ⟨2, _, rfl, rfl, .name (by decide +kernel) (.name (by decide +kernel) .none)⟩
  have hopen := ((hlooks twoNames (by decide) (List.prefix_append _ _)).1 _ _).2 hlaid
  refine ⟨hopen, hback _ _ _ hopen (List.cons_ne_nil _ _), hbare _ (.inl (by decide)), ?_, ?_⟩
  · refine (hlooks (twoNames.take 9) (by decide) ⟨[2, 1, 0x78, 2, 0xc3], rfl⟩).2 ?_
    rintro names payload ⟨count, rest, heq, hcount, hlists⟩
    obtain ⟨rfl, rfl⟩ : 2 = count ∧ [1, 0x78, 2, 0xc3] = rest := by
      simpa [twoNames, magic] using heq
    have hx : Text.ofUtf8? [0x78] = some "x" := by decide +kernel
    have hcut : openNames 2 [1, 0x78, 2, 0xc3] =
        .error (.decoding "Truncated transformer name") := by
      simp [openNames, hx, Except.map]
    have hnames := openNames_of_lists hlists
    rw [← hcount] at hnames
    cases hcut.symm.trans hnames
  · refine hunfit _ [7] fun hfits => ?_
    have hmany := hfits.many
    rw [List.length_replicate] at hmany
    omega

end CacheLayer.Envelope
