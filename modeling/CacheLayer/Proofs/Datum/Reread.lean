/-
Typed values that are read back as they were written, in both forms. Texts and
unsigned numbers are; and so is a record if its fields are and no two of them
have the same name.

Main statement: `Format.decode_ofSchema`, with `RereadsJson.record` and
`Postcard.Rereads.record`.
-/
import CacheLayer.Codec
import CacheLayer.Proofs.Json.Reread

namespace CacheLayer

namespace Fields

/-- The parts of a record are named as its fields are, and stand to their types as `P` says. -/
inductive Match (P : Schema → Datum → Prop) : Fields → List (String × Datum) → Prop where
  | none : Match P .none []
  | field {name : String} {s : Schema} {d : Datum} {rest : Fields} {ds : List (String × Datum)}
      (h : P s d) (hrest : Match P rest ds) : Match P (.field name s rest) ((name, d) :: ds)

/-- The type of the first field of a name. -/
def type? (name : String) : Fields → Option Schema
  | .none => Option.none
  | .field name' s rest => if name' = name then some s else rest.type? name

variable {P : Schema → Datum → Prop} {fields : Fields} {ds : List (String × Datum)}

theorem Match.map_fst (h : fields.Match P ds) : ds.map Prod.fst = fields.names := by
  induction h with
  | none => rfl
  | field _ _ ih => rw [List.map_cons, ih, names]

/-- Where names are distinct, each part has the type that is found by its name. -/
theorem Match.type?_of_mem (h : fields.Match P ds) (hnodup : fields.names.Nodup) :
    ∀ m ∈ ds, ∃ s, fields.type? m.1 = some s ∧ P s m.2 := by
  induction h with
  | none => simp
  | @field name s d rest ds hd hrest ih =>
    obtain ⟨hnot, hnodup⟩ := List.nodup_cons.1 hnodup
    refine List.forall_mem_cons.2 ⟨⟨s, by simp [type?], hd⟩, fun m hm => ?_⟩
    obtain ⟨s', hs', hP⟩ := ih hnodup m hm
    have hne : name ≠ m.1 := by
      intro hname
      exact hnot (hname ▸ hrest.map_fst ▸ List.mem_map_of_mem hm)
    exact ⟨s', by simp [type?, hne, hs'], hP⟩

end Fields

namespace Datum

open Json (Reader Reads bind_of_reads)

variable {s : Schema} {d : Datum} {fields : Fields} {ds : List (String × Datum)} {depth : Nat}

/-! ## JSON -/

/-- The value has a JSON form that is read back as the value, where it is nested no deeper than
`depth` says. -/
def RereadsJson (depth : Nat) (s : Schema) (d : Datum) : Prop :=
  ∃ b, d.toJson? = some b ∧ Reads (readJson s depth) b d

theorem rereadsJson_text (depth : Nat) (t : String) : RereadsJson depth .text (.text t) := by
  refine ⟨Json.writeText t, rfl, fun rest _ => ?_⟩
  rw [readJson, bind_of_reads (Json.blanks_of_leads (Json.leads_writeText t) rest),
    bind_of_reads (Json.readText_writeText t rest)]
  rfl

theorem rereadsJson_unsigned (depth : Nat) {w : Width} {n : Nat} (h : w.holdsNat n = true) :
    RereadsJson depth (.unsigned w) (.unsigned w n) := by
  have hn : n < Nat.pow 2 64 := by
    have hlt : n < Nat.pow 2 w.bits := of_decide_eq_true h
    have hle : Nat.pow 2 w.bits ≤ Nat.pow 2 64 := by cases w <;> decide
    omega
  refine ⟨Json.writeNumber (.natural n), rfl, fun rest hrest => ?_⟩
  have hread : readInteger (fun i => decide (0 ≤ i) && w.holdsNat i.toNat)
      (Json.writeNumber (.natural n) ++ rest) = some ((n : Int), rest) := by
    rw [readInteger, bind_of_reads (Json.readNumber_natural hn hrest)]
    simp only [Int.toNat_natCast, h, Int.natCast_nonneg, decide_true, Bool.and_self, if_true]
    rfl
  rw [readJson, bind_of_reads (Json.blanks_of_leads (Json.leads_writeNumber _) rest),
    bind_of_reads hread]
  rfl

/-- The member of a field is read by the type of that field. -/
theorem readMember_of_type? {name : String} : ∀ {fields : Fields}, fields.type? name = some s →
    readMember fields name depth = do return some (← readJson s depth)
  | .none, h => by cases h
  | .field name' s' rest, h => by
    rw [readMember]
    by_cases hname : name' = name
    · rw [Fields.type?, if_pos hname] at h
      cases h
      rw [if_pos hname]
    · rw [Fields.type?, if_neg hname] at h
      rw [if_neg hname, readMember_of_type? h]

/-- Fields that have been found once each make up the record. -/
theorem assemble_eq {P : Schema → Datum → Prop} {found : List (String × Datum)}
    (h : fields.Match P ds) (hfound : ∀ m ∈ ds, found.filter (·.1 == m.1) = [m]) :
    assemble found fields = some ds := by
  induction h with
  | none => rfl
  | @field name s d rest ds hd hrest ih =>
    obtain ⟨hm, hds⟩ := List.forall_mem_cons.1 hfound
    have hname : found.filter (fun m => m.1 == name) = [(name, d)] := hm
    unfold assemble
    rw [hname, ih hds]
    rfl

theorem filter_name {ds : List (String × Datum)} (hnodup : (ds.map Prod.fst).Nodup) :
    ∀ m ∈ ds, ds.filter (·.1 == m.1) = [m] := by
  induction ds with
  | nil => simp
  | cons m ds ih =>
    obtain ⟨hnot, hnodup⟩ := List.nodup_cons.1 hnodup
    refine List.forall_mem_cons.2 ⟨?_, fun m' hm' => ?_⟩
    · have hnone : ds.filter (·.1 == m.1) = [] := by
        refine List.filter_eq_nil_iff.2 fun m' hm' heq => hnot ?_
        exact beq_iff_eq.1 heq ▸ List.mem_map_of_mem hm'
      rw [List.filter_cons_of_pos (by simp), hnone]
    · have hne : (m.1 == m'.1) = false := by
        refine beq_false_of_ne fun heq => hnot ?_
        exact heq ▸ List.mem_map_of_mem hm'
      rw [List.filter_cons_of_neg (by simp [hne]), ih hnodup m' hm']

/-- The members of a record are written, and read back each by the type of its field. -/
theorem exists_members {ds : List (String × Datum)}
    (h : ∀ m ∈ ds, ∃ s, fields.type? m.1 = some s ∧ RereadsJson depth s m.2) :
    ∃ ms, fieldsToJson? ds = some ms ∧ List.Forall₂
      (Json.ReadsMember fun name => readMember fields name depth) ms
      (ds.map fun m => (m.1, some m.2)) := by
  induction ds with
  | nil => exact ⟨[], rfl, .nil⟩
  | cons m ds ih =>
    obtain ⟨⟨s, hs, b, hb, hreads⟩, hds⟩ := List.forall_mem_cons.1 h
    obtain ⟨ms, hms, hall⟩ := ih hds
    obtain ⟨name, d⟩ := m
    refine ⟨(name, b) :: ms, ?_, .cons ⟨rfl, fun rest hrest => ?_⟩ hall⟩
    · rw [fieldsToJson?, hb, hms]
      rfl
    · show readMember fields name depth (b ++ rest) = _
      rw [readMember_of_type? hs, bind_of_reads (hreads rest hrest)]
      rfl

/-- **A record is read back if its fields are**, where no two of them have the same name. -/
theorem RereadsJson.record (h : fields.Match (RereadsJson depth) ds) (hnodup : fields.names.Nodup) :
    RereadsJson (depth + 1) (.record fields) (.record ds) := by
  obtain ⟨ms, hms, hall⟩ := exists_members (h.type?_of_mem hnodup)
  refine ⟨Json.writeObject ms, ?_, fun rest hrest => ?_⟩
  · rw [toJson?, hms]
    rfl
  · have hpeek : Json.peek (Json.writeObject ms ++ rest) =
        some (some 0x7b, Json.writeObject ms ++ rest) := rfl
    have hread := Json.reads_writeObject hall rest hrest
    have hfound : (ds.map fun m => (m.1, some m.2)).filterMap
        (fun m : String × Option Datum => m.2.map (m.1, ·)) = ds := by
      rw [List.filterMap_map]
      exact (List.filterMap_congr fun m _ => rfl).trans List.filterMap_some
    rw [readJson, bind_of_reads (Json.blanks_of_leads (Json.leads_writeObject ms) rest)]
    show (Json.peek >>= _) _ = _
    rw [bind_of_reads hpeek]
    show (Json.readObject _ _ >>= _) _ = _
    rw [bind_of_reads hread, hfound,
      assemble_eq h (filter_name (h.map_fst ▸ hnodup))]
    rfl


/-! ## Postcard -/

namespace Postcard

variable {α β : Type} {bits n : Nat} {b : Bytes}

/-- The reader takes just these bytes, and takes them for the value, whatever comes behind them. -/
def Takes (r : Reader α) (b : Bytes) (a : α) : Prop := ∀ rest, r (b ++ rest) = some (a, rest)

theorem Takes.pure (a : α) : Takes (pure a : Reader α) [] a := fun _ => rfl

/-- What is read one after the other has been written one after the other. -/
theorem Takes.bind {r : Reader α} {f : α → Reader β} {b' : Bytes} {a : α} {x : β}
    (h : Takes r b a) (h' : Takes (f a) b' x) : Takes (r >>= f) (b ++ b') x := by
  intro rest
  rw [List.append_assoc, bind_of_reads (h (b' ++ rest)), h']

/-- A reader and then a value of what it has read. -/
theorem Takes.map {r : Reader α} {f : α → Reader β} {a : α} {x : β} (h : Takes r b a)
    (h' : Takes (f a) [] x) : Takes (r >>= f) b x := by
  have hboth := h.bind h'
  rwa [List.append_nil] at hboth

/-- A last group is read at its place. -/
theorem readGroups_last {place acc : Nat} (fuel : Nat) (hlast : n < 128)
    (hbits : acc + n * Nat.pow 2 place < Nat.pow 2 bits) (rest : Bytes) :
    readGroups bits (fuel + 1) place acc (varint n ++ rest) =
      some (acc + n * Nat.pow 2 place, rest) := by
  have hbyte : (UInt8.ofNat n).toNat = n :=
    UInt8.toNat_ofNat_of_lt' (Nat.lt_trans hlast (by decide))
  rw [varint, if_pos hlast, List.singleton_append, readGroups]
  simp only [hbyte, Nat.mod_eq_of_lt hlast, hlast, hbits, if_true]

/-- Groups of seven bits are read back, as long as they are no more than the reader takes. -/
theorem readGroups_varint (fuel place acc n : Nat) (hfuel : n < Nat.pow 128 (fuel + 1))
    (hbits : acc + n * Nat.pow 2 place < Nat.pow 2 bits) (rest : Bytes) :
    readGroups bits (fuel + 1) place acc (varint n ++ rest) =
      some (acc + n * Nat.pow 2 place, rest) := by
  induction fuel generalizing place acc n with
  | zero => exact readGroups_last 0 hfuel hbits rest
  | succ fuel ih =>
    by_cases hlast : n < 128
    · exact readGroups_last (fuel + 1) hlast hbits rest
    · have hmod : n % 128 < 128 := Nat.mod_lt n (by decide)
      have hbyte : (UInt8.ofNat (128 + n % 128)).toNat = 128 + n % 128 :=
        UInt8.toNat_ofNat_of_lt' (Nat.lt_of_lt_of_le (Nat.add_lt_add_left hmod 128) (by decide))
      have hgroup : (128 + n % 128) % 128 = n % 128 := by omega
      have hmore : ¬ 128 + n % 128 < 128 := by omega
      have hplace : acc + n % 128 * Nat.pow 2 place + n / 128 * Nat.pow 2 (place + 7) =
          acc + n * Nat.pow 2 place := by
        have hpow : Nat.pow 2 (place + 7) = 128 * Nat.pow 2 place :=
          (Nat.pow_add 2 place 7).trans (Nat.mul_comm _ _)
        rw [hpow, Nat.add_assoc, ← Nat.mul_assoc, ← Nat.add_mul, Nat.mul_comm (n / 128),
          Nat.mod_add_div]
      have hfewer : n / 128 < Nat.pow 128 (fuel + 1) := by
        have hpow : Nat.pow 128 (fuel + 2) = Nat.pow 128 (fuel + 1) * 128 := rfl
        rw [hpow] at hfuel
        exact Nat.div_lt_of_lt_mul (Nat.mul_comm _ _ ▸ hfuel)
      rw [varint, if_neg hlast, List.cons_append, readGroups]
      simp only [hbyte, hgroup, hmore, if_false]
      rw [ih (place + 7) _ (n / 128) hfewer (hplace ▸ hbits), hplace]

/-- A number of at most 64 bits is read back. -/
theorem takes_varint {w : Width} (h : w.holdsNat n = true) : Takes (number w.bits) (varint n) n := by
  have hn : n < Nat.pow 2 w.bits := of_decide_eq_true h
  have hfuel : Nat.pow 2 w.bits ≤ Nat.pow 128 (varintBytes w.bits) := by cases w <;> decide
  have hpos : varintBytes w.bits = varintBytes w.bits - 1 + 1 := by cases w <;> rfl
  intro rest
  have hzero : 0 + n * Nat.pow 2 0 = n := by
    show 0 + n * 1 = n
    omega
  rw [number, readVarint, hpos, readGroups_varint _ 0 0 n (hpos ▸ Nat.lt_of_lt_of_le hn hfuel)
    (hzero.symm ▸ hn), hzero]

theorem takes_block (b : Bytes) : Takes (block b.length) b b := by
  intro rest
  have hlength : ¬ (b ++ rest).length < b.length := by simp
  rw [block, if_neg hlength, List.take_left, List.drop_left]

/-- The value is read back from its form, whatever comes behind it. -/
abbrev Rereads (s : Schema) (d : Datum) : Prop := Takes (read s) (write d) d

/-- A text whose length is a number of at most 64 bits is read back. -/
theorem rereads_text {t : String} (h : Width.w64.holdsNat (Text.utf8 t).length = true) :
    Rereads .text (.text t) := by
  have htext : Takes readText (writeText t) t := by
    refine (takes_varint h).bind ((takes_block (Text.utf8 t)).map ?_)
    rw [Text.ofUtf8?_utf8]
    exact .pure t
  rw [Rereads, read]
  exact htext.map (.pure _)

theorem rereads_unsigned {w : Width} (h : w.holdsNat n = true) :
    Rereads (.unsigned w) (.unsigned w n) := by
  cases w with
  | w8 =>
    have hn : n < 256 := of_decide_eq_true h
    have hnext : Takes next [UInt8.ofNat n] (UInt8.ofNat n) := fun rest => rfl
    rw [Rereads, read, write]
    refine hnext.map ?_
    rw [UInt8.toNat_ofNat_of_lt' hn]
    exact .pure _
  | w16 | w32 | w64 =>
    rw [Rereads, read, write]
    · exact (takes_varint h).map (.pure _)
    all_goals simp

/-- **A record is read back if its fields are.** -/
theorem Rereads.record (h : fields.Match Rereads ds) : Rereads (.record fields) (.record ds) := by
  have hfields : Takes (readFields fields) (writeFields ds) ds := by
    induction h with
    | none => exact .pure []
    | field hd _ ih =>
      rw [readFields, writeFields]
      exact hd.bind (ih.map (.pure _))
  rw [Rereads, read, write]
  exact hfields.map (.pure _)

end Postcard

end Datum

/-- A value that is read back from both of its forms is encoded and decoded as itself. -/
theorem Format.decode_ofSchema {s : Schema} {d : Datum}
    (hjson : Datum.RereadsJson Json.maxDepth s d) (hpostcard : Datum.Postcard.Rereads s d)
    (c : Codec) :
    ∃ b, (ofSchema s).encode c d = .ok b ∧ (ofSchema s).decode c b = .ok d := by
  cases c with
  | json =>
    obtain ⟨b, hb, hreads⟩ := hjson
    have hread := hreads [] (by simp [Json.Ends])
    rw [List.append_nil] at hread
    have hwhole : Datum.ofJson? s b = some d := by
      rw [Datum.ofJson?, Json.readWholeText, Json.bind_of_reads hread]
      rfl
    exact ⟨b, by simp only [ofSchema, hb], by simp only [ofSchema, hwhole]⟩
  | postcard =>
    have hread := hpostcard []
    rw [List.append_nil] at hread
    have hfront : Datum.Postcard.ofBytes? s (Datum.Postcard.write d) = some d := by
      rw [Datum.Postcard.ofBytes?, hread]
      rfl
    exact ⟨_, rfl, by simp only [ofSchema, hfront]⟩

end CacheLayer
