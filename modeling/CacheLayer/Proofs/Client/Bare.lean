/-
Values that no transformer has changed. They are stored as the codec wrote them,
and are read back as such unless these bytes look like an envelope. No JSON text
does, since none begins with the first byte of the magic. Postcard's bytes can:
a text of 67 bytes has that byte for its length, and may go on with the rest.

Main statements: `decode_encode_bare` and, for such a text,
`not_decode_encode_bare`.
-/
import CacheLayer.Proofs.Client.Coding
import CacheLayer.Proofs.Envelope
import CacheLayer.Proofs.Json.Lead
import CacheLayer.Transform.Standard

namespace CacheLayer

/-- What begins as a JSON value does is no envelope. -/
theorem Json.Leads.not_looksSealed {b : Bytes} (h : Json.Leads b) : ¬ Envelope.LooksSealed b := by
  rintro ⟨count, rest, rfl⟩
  obtain ⟨c, tail, heq, hlead⟩ := h
  obtain rfl : c = 0x43 := (List.cons.inj heq).1.symm
  revert hlead
  decide

theorem Format.not_looksSealed_json {schema : Schema} {d : Datum} {b : Bytes}
    (h : (Format.ofSchema schema).encode .json d = .ok b) : ¬ Envelope.LooksSealed b := by
  cases hjson : d.toJson? with
  | none =>
    simp only [Format.ofSchema, hjson] at h
    cases h
  | some text =>
    simp only [Format.ofSchema, hjson] at h
    cases h
    exact (Datum.leads_toJson hjson).not_looksSealed

/-- Transformers that do not want a payload leave it as it is. -/
theorem Transformers.applyAll_none {ts : Transformers} {key : String} {b : Bytes} (fresh : Nat)
    (h : ∀ t ∈ ts, t.applies key b = false) : ts.applyAll fresh key b = .ok ([], b) := by
  induction ts generalizing fresh with
  | nil => rfl
  | cons t ts ih =>
    obtain ⟨ht, hts⟩ := List.forall_mem_cons.1 h
    rw [applyAll, ht]
    exact ih (fresh + 1) hts

namespace Client

variable {V α : Type} {key : String} {plain : Bytes}

/-- What no transformer wants is stored as the codec wrote it. -/
theorem coded_bare {m : Memory V} {f : Format α} {a : α} (fresh : Nat)
    (hplain : f.encode m.config.codec a = .ok plain)
    (hnone : ∀ t ∈ m.transformers, t.applies key plain = false) :
    coded m f fresh key a = .ok plain := by
  simp [coded, hplain, Transformers.applyAll_none fresh hnone, Envelope.wrap, bind, Except.bind]

theorem decoded_bare (m : Memory V) (f : Format α) (key : String)
    (h : Envelope.unwrap plain = .ok ([], plain)) :
    decoded m f key plain = f.decode m.config.codec plain := by
  simp [decoded, h, bind, Except.bind]

/-! ## Short texts under postcard -/

/-- Postcard puts the length of a short text before it as one byte. -/
def shortForm (text : String) : Bytes := UInt8.ofNat (Text.utf8 text).length :: Text.utf8 text

theorem encode_short {text : String} (h : (Text.utf8 text).length < 128) :
    (Format.ofSchema .text).encode .postcard (.text text) = .ok (shortForm text) := by
  refine congrArg Except.ok ?_
  rw [Datum.Postcard.write, Datum.Postcard.writeText, Datum.Postcard.varint, if_pos h]
  rfl

theorem ofBytes?_short {text : String} (h : (Text.utf8 text).length < 128) :
    Datum.Postcard.ofBytes? .text (shortForm text) = some (.text text) := by
  unfold shortForm
  generalize hn : (Text.utf8 text).length = n at h
  have hbyte : (UInt8.ofNat n).toNat = n := UInt8.toNat_ofNat_of_lt' (Nat.lt_trans h (by decide))
  have hnumber : Datum.Postcard.number 64 (UInt8.ofNat n :: Text.utf8 text) =
      some (n, Text.utf8 text) := by
    have hfits : n < Nat.pow 2 64 := Nat.lt_trans h (by decide)
    simp [Datum.Postcard.number, Datum.Postcard.readVarint, Datum.Postcard.varintBytes,
      Datum.Postcard.readGroups, hbyte, h, hfits, Nat.mod_eq_of_lt h]
  have hblock : Datum.Postcard.block n (Text.utf8 text) = some (Text.utf8 text, []) := by
    simp [Datum.Postcard.block, ← hn]
  have htext : Datum.Postcard.readText (UInt8.ofNat n :: Text.utf8 text) = some (text, []) := by
    simp only [Datum.Postcard.readText, bind, StateT.bind, hnumber, Option.bind_some, hblock,
      Text.ofUtf8?_utf8]
    rfl
  simp only [Datum.Postcard.ofBytes?, Datum.Postcard.read, bind, StateT.bind, htext]
  rfl

theorem decode_short {text : String} (h : (Text.utf8 text).length < 128) :
    (Format.ofSchema .text).decode .postcard (shortForm text) = .ok (.text text) := by
  simp only [Format.ofSchema, ofBytes?_short h]

/-- An engine that writes postcard and compresses long values. -/
def postcardScene : Scene Datum :=
  ⟨.start default, { Memory.blank (.ofSchema .text) { codec := .postcard } with
    transformers := [.usualCompression] }⟩

/-- A text of 67 bytes, a length that postcard writes as the first byte of the magic. -/
def plainText : String := String.ofList (List.replicate 67 'x')

/-- What is read in the place of `lookalike`. -/
def hidden : String := String.ofList (List.replicate 62 'x')

/-- A text whose postcard form is the magic, a count of no names, and the postcard form of another
text. -/
def lookalike : String := "ENV\x00>" ++ hidden

/-- A text of that length whose postcard form is the magic, a count of one name, and that name. -/
def mislabelled : String := "ENV\x01\x01x" ++ String.ofList (List.replicate 61 'x')

theorem unwrap_lookalike :
    Envelope.unwrap (shortForm lookalike) = .ok ([], shortForm hidden) := by
  have hsealed : shortForm lookalike = Envelope.magic ++ 0 :: shortForm hidden := by decide +kernel
  rw [hsealed]
  rfl

theorem unwrap_mislabelled :
    Envelope.unwrap (shortForm mislabelled) = .ok (["x"], List.replicate 61 0x78) := by
  have hsealed : shortForm mislabelled =
      Envelope.magic ++ 1 :: 1 :: 0x78 :: List.replicate 61 0x78 := by decide +kernel
  have hname : Text.ofUtf8? [0x78] = some "x" := by decide +kernel
  simp [hsealed, Envelope.unwrap_sealed, Envelope.openNames, hname, Except.map]

/-- Nothing is compressed that is as short as these. -/
theorem short_spared {text : String} (h : (Text.utf8 text).length < 128) :
    ∀ t ∈ postcardScene.memory.transformers, t.applies "k" (shortForm text) = false := by
  intro t ht
  obtain rfl : t = .usualCompression := List.mem_singleton.1 ht
  refine decide_eq_false (Nat.not_le.2 ?_)
  rw [shortForm, List.length_cons]
  omega

theorem run_encode_short {text : String} (h : (Text.utf8 text).length < 128) :
    ((encode (.ofSchema .text) "k" (.text text)).outcome.run postcardScene).1 =
      .ok (shortForm text) := by
  rw [run_encode]
  exact coded_bare _ (encode_short h) (short_spared h)

/-! ## Reading back -/

/-- **A value that is stored bare is read back bare, unless its bytes look like an envelope,** which
those of JSON never do. -/
theorem decode_encode_bare {f : Format α} {a : α} {s : Scene V}
    (hplain : f.encode s.memory.config.codec a = .ok plain)
    (hnone : ∀ t ∈ s.memory.transformers, t.applies key plain = false) :
    ((encode f key a).outcome.run s).1 = .ok plain ∧
    (∀ schema d, (Format.ofSchema schema).encode .json d = .ok plain →
      Envelope.unwrap plain = .ok ([], plain)) ∧
    (Envelope.unwrap plain = .ok ([], plain) ↔ ¬ Envelope.LooksSealed plain) ∧
    (Envelope.unwrap plain = .ok ([], plain) →
      ((decode f key plain).outcome.run s).1 = f.decode s.memory.config.codec plain) := by
  refine ⟨?_, fun schema d hjson => ?_, Envelope.unwrap_eq_bare_iff, decoded_bare s.memory _ key⟩
  · rw [run_encode]
    exact coded_bare _ hplain hnone
  · exact Envelope.unwrap_of_not_looksSealed (Format.not_looksSealed_json hjson)

/-- A text of that length is not taken for an envelope. -/
theorem decode_encode_bare_plainText :
    ((encode (.ofSchema .text) "k" (.text plainText)).outcome.run postcardScene).1 =
        .ok (shortForm plainText) ∧
      ((decode (.ofSchema .text) "k" (shortForm plainText)).outcome.run postcardScene).1 =
        .ok (.text plainText) := by
  have hlength : (Text.utf8 plainText).length < 128 := by decide +kernel
  obtain ⟨hstored, -, hbare, hread⟩ :=
    decode_encode_bare (s := postcardScene) (encode_short hlength)
      (short_spared hlength)
  have hhead : (shortForm plainText).take 4 = [0x43, 0x78, 0x78, 0x78] := by decide +kernel
  have hopen : ¬ Envelope.LooksSealed (shortForm plainText) := by
    rintro ⟨count, rest, h⟩
    rw [h] at hhead
    cases hhead
  exact ⟨hstored, (hread (hbare.2 hopen)).trans (decode_short hlength)⟩

/-- Not every bare value is read back: of one text a part is read, of the other nothing, since the
name found in it is not registered. -/
theorem not_decode_encode_bare :
    (Format.ofSchema .text).encode .postcard (.text lookalike) = .ok (shortForm lookalike) ∧
      (Format.ofSchema .text).decode .postcard (shortForm lookalike) = .ok (.text lookalike) ∧
      (∀ t ∈ postcardScene.memory.transformers, t.applies "k" (shortForm lookalike) = false) ∧
      ((encode (.ofSchema .text) "k" (.text lookalike)).outcome.run postcardScene).1 =
        .ok (shortForm lookalike) ∧
      Envelope.unwrap (shortForm lookalike) = .ok ([], shortForm hidden) ∧
      ((decode (.ofSchema .text) "k" (shortForm lookalike)).outcome.run postcardScene).1 =
        .ok (.text hidden) ∧
      hidden ≠ lookalike ∧
      ((encode (.ofSchema .text) "k" (.text mislabelled)).outcome.run postcardScene).1 =
        .ok (shortForm mislabelled) ∧
      ((decode (.ofSchema .text) "k" (shortForm mislabelled)).outcome.run postcardScene).1 =
        .error (.transform "x" "transformer not registered; cannot restore value") := by
  have hlength : (Text.utf8 lookalike).length < 128 := by decide +kernel
  have hlong : (Text.utf8 mislabelled).length < 128 := by decide +kernel
  refine ⟨encode_short hlength, decode_short hlength, short_spared hlength,
    run_encode_short hlength, unwrap_lookalike, ?_, by decide +kernel, run_encode_short hlong, ?_⟩
  · simp only [run_decode, decoded, unwrap_lookalike, bind, Except.bind]
    exact decode_short (by decide +kernel)
  · simp only [run_decode, decoded, unwrap_mislabelled, bind, Except.bind]
    rfl

end Client
end CacheLayer
