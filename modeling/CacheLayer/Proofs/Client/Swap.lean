/-
Swapping a value for another one if the key holds what is expected. The client compares values, by
their encodings, and the store compares bytes. The two agree: what the client has compared is what
the key still holds, whatever transformers have made of it (`run_swap_meets`). An entry is as
expected, or it is not, or it baffles the client (`compare_cases`), and each of these comes to
something else.

Main statement: `swap_exact`.
-/
import CacheLayer.Proofs.Client.Misses

namespace CacheLayer.Client

variable {V α : Type} {s : Scene V} {f : Format α} {key : String} {expected a : α}
  {life : Option Nat} {b : Bytes} {e : Error}

/-! ## Comparing -/

/-- The key holds these bytes, and they decode to a value that is encoded like the expected one. -/
def Meets (s : Scene V) (f : Format α) (key : String) (expected : α) (b : Bytes) : Prop :=
  ∃ d current plain, s.live? key = some ⟨.bytes b, d⟩ ∧
    decoded s.memory f key b = .ok current ∧
    f.encode s.memory.config.codec current = .ok plain ∧
    f.encode s.memory.config.codec expected = .ok plain

/-- The key holds bytes that decode to a value that is encoded otherwise than the expected one. -/
def Differs (s : Scene V) (f : Format α) (key : String) (expected : α) : Prop :=
  ∃ b d current plain wanted, s.live? key = some ⟨.bytes b, d⟩ ∧
    decoded s.memory f key b = .ok current ∧
    f.encode s.memory.config.codec current = .ok plain ∧
    f.encode s.memory.config.codec expected = .ok wanted ∧ plain ≠ wanted

/-- Why what the key holds cannot be compared with the expected value. -/
inductive Baffles (s : Scene V) (f : Format α) (key : String) (expected : α) : Error → Prop where
  | otherType {entry : CacheLayer.Entry} (hlive : s.live? key = some entry)
    (h : ∀ b, entry.value ≠ .bytes b) : Baffles s f key expected (.wrongType key)
  | unreadable {b : Bytes} {d : Option Nat} {e : Error} (hlive : s.live? key = some ⟨.bytes b, d⟩)
    (h : decoded s.memory f key b = .error e) : Baffles s f key expected e
  | unwritable {b : Bytes} {d : Option Nat} {current : α} {e : Error}
    (hlive : s.live? key = some ⟨.bytes b, d⟩) (hcurrent : decoded s.memory f key b = .ok current)
    (h : f.encode s.memory.config.codec current = .error e) : Baffles s f key expected e
  | unexpected {b plain : Bytes} {d : Option Nat} {current : α} {e : Error}
    (hlive : s.live? key = some ⟨.bytes b, d⟩) (hcurrent : decoded s.memory f key b = .ok current)
    (hplain : f.encode s.memory.config.codec current = .ok plain)
    (h : f.encode s.memory.config.codec expected = .error e) : Baffles s f key expected e

theorem compare_cases (s : Scene V) (f : Format α) (key : String) (expected : α) :
    s.live? key = none ∨ (∃ b, Meets s f key expected b) ∨ Differs s f key expected ∨
      ∃ e, Baffles s f key expected e := by
  cases hlive : s.live? key with
  | none => exact .inl rfl
  | some entry =>
    refine .inr ?_
    obtain ⟨value, d⟩ := entry
    cases value with
    | bytes b =>
      cases hcurrent : decoded s.memory f key b with
      | error e => exact .inr (.inr ⟨e, .unreadable hlive hcurrent⟩)
      | ok current =>
        cases hplain : f.encode s.memory.config.codec current with
        | error e => exact .inr (.inr ⟨e, .unwritable hlive hcurrent hplain⟩)
        | ok plain =>
          cases hwanted : f.encode s.memory.config.codec expected with
          | error e => exact .inr (.inr ⟨e, .unexpected hlive hcurrent hplain hwanted⟩)
          | ok wanted =>
            by_cases hsame : plain = wanted
            · exact .inl ⟨b, d, current, plain, hlive, hcurrent, hplain, hsame ▸ hwanted⟩
            · exact .inr (.inl ⟨b, d, current, plain, wanted, hlive, hcurrent, hplain, hwanted,
                hsame⟩)
    | _ => exact .inr (.inr ⟨_, .otherType hlive (by rintro b ⟨⟩)⟩)

/-! ## Swapping -/

theorem run_encodeItem (f : Format α) (a : α) (s : Scene V) :
    (encodeItem f a).outcome.run s = (f.encode s.memory.config.codec a, s) := rfl

/-- The key is looked up first, which only purges it. -/
theorem run_lookUp (hget : s.world.scripts .get = []) (key : String) :
    (Action.command (.get key) : Action V (Option Bytes)).outcome.run s =
      (match s.live? key with
        | none => .ok none
        | some e =>
          match e.value with
          | .bytes b => .ok (some b)
          | _ => .error (.wrongType key),
        s.withStore (s.world.store.purge s.world.now key)) := by
  rw [Action.run_unscripted hget, Store.run_get]
  rfl

/-- A swap of the very bytes that a key holds takes place. -/
theorem run_swap_held {b : Bytes} {d : Option Nat} {store : Store} {now : Nat}
    (h : store.live? now key = some ⟨.bytes b, d⟩) (new : Bytes) (life : Option Nat) :
    (Store.Call.swap key b new life).run now store = (.ok true, store.set now key new life) := by
  have hpurged : store.purge now key = store := Store.purge_eq_self h
  have hentry : store.entries.get? key = some ⟨.bytes b, d⟩ := Store.get?_of_live? h
  change Store.Call.sure (store.swap now key b new life) = _
  simp only [Store.swap, hpurged, hentry, if_true]
  rfl

/-- The scene in which the numbers for an encoding have been drawn. -/
def drawnFor (s : Scene V) (f : Format α) (a : α) : Scene V :=
  { s with world := { s.world with drawn := freshAfter s.memory f s.world.drawn a } }

theorem run_swap_gone (hget : s.world.scripts .get = []) (hlive : s.live? key = none) :
    (swap f key expected a life).outcome.run s =
      (.ok false, s.withStore (s.world.store.purge s.world.now key)) := by
  have hasked := run_lookUp hget key
  rw [hlive] at hasked
  exact Action.run_bind_ok hasked

theorem run_lookUp_bytes (hget : s.world.scripts .get = []) {d : Option Nat}
    (hlive : s.live? key = some ⟨.bytes b, d⟩) :
    (Action.command (.get key) : Action V (Option Bytes)).outcome.run s = (.ok (some b), s) := by
  rw [run_lookUp hget, hlive, Store.purge_eq_self hlive]
  rfl

/-- A value as expected is swapped for the new one, if that can be encoded. -/
theorem run_swap_meets (hget : s.world.scripts .get = []) (hswap : s.world.scripts .swap = [])
    (h : Meets s f key expected b) (a : α) (life : Option Nat) :
    (swap f key expected a life).outcome.run s =
      match coded s.memory f s.world.drawn key a with
      | .error e => (.error e, drawnFor s f a)
      | .ok new =>
        (.ok true, (drawnFor s f a).withStore (s.world.store.set s.world.now key new life)) := by
  obtain ⟨d, current, plain, hlive, hcurrent, hplain, hwanted⟩ := h
  have hdecode : (decode f key b).outcome.run s = (.ok current, s) := by rw [run_decode, hcurrent]
  have hencode : (encodeItem f current).outcome.run s = (.ok plain, s) := by
    rw [run_encodeItem, hplain]
  have hencode' : (encodeItem f expected).outcome.run s = (.ok plain, s) := by
    rw [run_encodeItem, hwanted]
  refine (Action.run_bind_ok (run_lookUp_bytes hget hlive)).trans ?_
  refine (Action.run_bind_ok hdecode).trans ((Action.run_bind_ok hencode).trans ?_)
  refine (Action.run_bind_ok hencode').trans ?_
  rw [if_pos rfl]
  have hcoded := run_encode f key a s
  cases hnew : coded s.memory f s.world.drawn key a with
  | error e =>
    rw [hnew] at hcoded
    exact Action.run_bind_error hcoded
  | ok new =>
    rw [hnew] at hcoded
    have hscript : (drawnFor s f a).world.scripts .swap = [] := hswap
    refine (Action.run_bind_ok hcoded).trans ((Action.run_unscripted hscript).trans ?_)
    exact congrArg (fun r => (r.1, (drawnFor s f a).withStore r.2)) (run_swap_held hlive new life)

theorem run_swap_differs (hget : s.world.scripts .get = []) (h : Differs s f key expected) :
    (swap f key expected a life).outcome.run s = (.ok false, s) := by
  obtain ⟨b, d, current, plain, wanted, hlive, hcurrent, hplain, hwanted, hother⟩ := h
  have hdecode : (decode f key b).outcome.run s = (.ok current, s) := by rw [run_decode, hcurrent]
  have hencode : (encodeItem f current).outcome.run s = (.ok plain, s) := by
    rw [run_encodeItem, hplain]
  have hencode' : (encodeItem f expected).outcome.run s = (.ok wanted, s) := by
    rw [run_encodeItem, hwanted]
  refine (Action.run_bind_ok (run_lookUp_bytes hget hlive)).trans ?_
  refine (Action.run_bind_ok hdecode).trans ((Action.run_bind_ok hencode).trans ?_)
  refine (Action.run_bind_ok hencode').trans ?_
  rw [if_neg hother]
  rfl

theorem run_swap_baffles (hget : s.world.scripts .get = []) (h : Baffles s f key expected e) :
    (swap f key expected a life).outcome.run s = (.error e, s) := by
  cases h with
  | @otherType entry hlive h =>
    obtain ⟨value, d⟩ := entry
    have hasked := run_lookUp hget key
    rw [hlive, Store.purge_eq_self hlive] at hasked
    refine Action.run_bind_error (hasked.trans ?_)
    cases value with
    | bytes b => exact absurd rfl (h b)
    | _ => rfl
  | unreadable hlive h =>
    refine (Action.run_bind_ok (run_lookUp_bytes hget hlive)).trans ?_
    exact Action.run_bind_error (by rw [run_decode, h])
  | unwritable hlive hcurrent h =>
    refine (Action.run_bind_ok (run_lookUp_bytes hget hlive)).trans ?_
    refine (Action.run_bind_ok (by rw [run_decode, hcurrent])).trans ?_
    exact Action.run_bind_error (by rw [run_encodeItem, h])
  | unexpected hlive hcurrent hplain h =>
    refine (Action.run_bind_ok (run_lookUp_bytes hget hlive)).trans ?_
    refine (Action.run_bind_ok (by rw [run_decode, hcurrent])).trans ?_
    refine (Action.run_bind_ok (by rw [run_encodeItem, hplain])).trans ?_
    exact Action.run_bind_error (by rw [run_encodeItem, h])

/-! ## What a swap comes to -/

/-- What a swap answers, and the scene that it leaves. -/
inductive Swapping (s : Scene V) (f : Format α) (key : String) (expected a : α)
    (life : Option Nat) : Except Error Bool → Scene V → Prop where
  | gone (h : s.live? key = none) :
    Swapping s f key expected a life (.ok false)
      (s.withStore (s.world.store.purge s.world.now key))
  | differs (h : Differs s f key expected) : Swapping s f key expected a life (.ok false) s
  | baffles {e : Error} (h : Baffles s f key expected e) :
    Swapping s f key expected a life (.error e) s
  | uncoded {b : Bytes} {e : Error} (h : Meets s f key expected b)
    (hcoded : coded s.memory f s.world.drawn key a = .error e) :
    Swapping s f key expected a life (.error e) (drawnFor s f a)
  | swapped {b new : Bytes} (h : Meets s f key expected b)
    (hcoded : coded s.memory f s.world.drawn key a = .ok new) :
    Swapping s f key expected a life (.ok true)
      ((drawnFor s f a).withStore (s.world.store.set s.world.now key new life))

section

variable (hget : s.world.scripts .get = []) (hswap : s.world.scripts .swap = []) (f : Format α)
  (key : String) (expected a : α) (life : Option Nat)

include hget hswap

theorem swapping : Swapping s f key expected a life
    ((swap f key expected a life).outcome.run s).1
    ((swap f key expected a life).outcome.run s).2 := by
  rcases compare_cases s f key expected with hlive | ⟨b, hmeets⟩ | hdiffers | ⟨e, hbaffles⟩
  · rw [run_swap_gone hget hlive]
    exact .gone hlive
  · rw [run_swap_meets hget hswap hmeets]
    cases hcoded : coded s.memory f s.world.drawn key a with
    | error e => exact .uncoded hmeets hcoded
    | ok new => exact .swapped hmeets hcoded
  · rw [run_swap_differs hget hdiffers]
    exact .differs hdiffers
  · rw [run_swap_baffles hget hbaffles]
    exact .baffles hbaffles

theorem swap_eq_true_iff :
    ((swap f key expected a life).outcome.run s).1 = .ok true ↔
      (∃ b, Meets s f key expected b) ∧
        ∃ new, coded s.memory f s.world.drawn key a = .ok new := by
  constructor
  · intro hr
    have hswapping := swapping hget hswap f key expected a life
    rw [hr] at hswapping
    generalize ((swap f key expected a life).outcome.run s).2 = t at hswapping
    cases hswapping with
    | swapped h hcoded => exact ⟨⟨_, h⟩, _, hcoded⟩
  · rintro ⟨⟨b, hmeets⟩, new, hcoded⟩
    rw [run_swap_meets hget hswap hmeets, hcoded]

theorem swap_eq_false_iff :
    ((swap f key expected a life).outcome.run s).1 = .ok false ↔
      s.live? key = none ∨ Differs s f key expected := by
  constructor
  · intro hr
    have hswapping := swapping hget hswap f key expected a life
    rw [hr] at hswapping
    generalize ((swap f key expected a life).outcome.run s).2 = t at hswapping
    cases hswapping with
    | gone h => exact .inl h
    | differs h => exact .inr h
  · rintro (hlive | hdiffers)
    · rw [run_swap_gone hget hlive]
    · rw [run_swap_differs hget hdiffers]

theorem swap_eq_error_iff (e : Error) :
    ((swap f key expected a life).outcome.run s).1 = .error e ↔
      Baffles s f key expected e ∨
        (∃ b, Meets s f key expected b) ∧ coded s.memory f s.world.drawn key a = .error e := by
  constructor
  · intro hr
    have hswapping := swapping hget hswap f key expected a life
    rw [hr] at hswapping
    generalize ((swap f key expected a life).outcome.run s).2 = t at hswapping
    cases hswapping with
    | baffles h => exact .inl h
    | uncoded h hcoded => exact .inr ⟨⟨_, h⟩, hcoded⟩
  · rintro (hbaffles | ⟨⟨b, hmeets⟩, hcoded⟩)
    · rw [run_swap_baffles hget hbaffles]
    · rw [run_swap_meets hget hswap hmeets, hcoded]

end

/-- A swap that does not take place leaves every key as it was. -/
theorem Swapping.alike {r : Except Error Bool} {t : Scene V}
    (h : Swapping s f key expected a life r t) (hr : r ≠ .ok true) : s.Alike t := by
  cases h with
  | gone h => exact ⟨rfl, fun other => Store.live?_purge _ _ _ (Nat.le_refl _) key other⟩
  | differs h => exact .refl s
  | baffles h => exact .refl s
  | uncoded h hcoded => exact ⟨rfl, fun _ => rfl⟩
  | swapped h hcoded => exact absurd rfl hr

/-- **A swap takes place exactly if the key holds what is expected.** It answers yes exactly if the
key holds live bytes, these decode to a value that is encoded like the expected one, and the new
value can be encoded; then the key holds an encoding of the new value, with the given life, and all
other keys hold what they held. It answers no exactly if the key is not live or its value is encoded
otherwise. It fails exactly if the key holds another type of value, bytes that cannot be decoded or
a value that cannot be encoded, or if the expected value or, where it is to be stored, the new one
cannot be encoded. Unless it answers yes, nothing changes. -/
theorem swap_exact (hget : s.world.scripts .get = []) (hswap : s.world.scripts .swap = [])
    (f : Format α) (key : String) (expected a : α) (life : Option Nat) :
    ∃ r t, (swap f key expected a life).outcome.run s = (r, t) ∧
      (r = .ok true ↔ (∃ b, Meets s f key expected b) ∧
        ∃ new, coded s.memory f s.world.drawn key a = .ok new) ∧
      (r = .ok true → ∃ new, coded s.memory f s.world.drawn key a = .ok new ∧
        t.world.store.entries.get? key = some ⟨.bytes new, life.map (s.world.now + ·)⟩ ∧
        ∀ other, other ≠ key →
          t.world.store.entries.get? other = s.world.store.entries.get? other) ∧
      (r = .ok false ↔ s.live? key = none ∨ Differs s f key expected) ∧
      (∀ e, r = .error e ↔ Baffles s f key expected e ∨
        (∃ b, Meets s f key expected b) ∧ coded s.memory f s.world.drawn key a = .error e) ∧
      (r ≠ .ok true → s.Alike t) ∧ t.memory = s.memory ∧ t.world.now = s.world.now := by
  have hswapping := swapping hget hswap f key expected a life
  have htrue := swap_eq_true_iff hget hswap f key expected a life
  have hfalse := swap_eq_false_iff hget hswap f key expected a life
  have herror := swap_eq_error_iff hget hswap f key expected a life
  generalize (swap f key expected a life).outcome.run s = x at hswapping htrue hfalse herror ⊢
  obtain ⟨r, t⟩ := x
  refine ⟨r, t, rfl, htrue, ?_, hfalse, herror, hswapping.alike, ?_⟩
  · rintro rfl
    cases hswapping with
    | swapped h hcoded =>
      exact ⟨_, hcoded, Store.entries_set_self _ _ _ _ _, fun other hother =>
        Store.entries_set_other _ _ _ _ hother⟩
  · cases hswapping <;> exact ⟨rfl, rfl⟩

/-- Puts its number behind a payload, and takes it off again. -/
def salt : Transformer where
  name := "salt"
  priority := 0
  applies _ _ := true
  transform fresh _ b := .ok (b ++ [UInt8.ofNat fresh])
  restore _ b := .ok b.dropLast

/-- A salted number: the magic, one name of four bytes, the number and its salt. -/
def salty (v number : UInt8) : Bytes :=
  [0x43, 0x45, 0x4e, 0x56, 1, 4, 0x73, 0x61, 0x6c, 0x74, v, number]

/-- An engine that salts what it stores has stored a number, and there is a list. -/
def salted : Scene UInt8 :=
  ((do
    set byteFormat "k" 7 none
    Action.command (.pushBack "l" [[1]]) : Action UInt8 Nat).outcome.run
      ⟨.start default, { byteMemory with transformers := [salt] }⟩).2

/-- The number is swapped although the expected one would be stored otherwise by now; another number
than the expected one stays, and a list cannot be compared. -/
theorem swap_exact_salted :
    coded salted.memory byteFormat salted.world.drawn "k" 7 = .ok (salty 7 1) ∧
    (∃ t, (swap byteFormat "k" 7 9 (some 20)).outcome.run salted = (.ok true, t) ∧
      salted.world.store.entries.get? "k" = some ⟨.bytes (salty 7 0), none⟩ ∧
      t.world.store.entries.get? "k" = some ⟨.bytes (salty 9 1), some 20⟩) ∧
    (∃ t, (swap byteFormat "k" 8 9 none).outcome.run salted = (.ok false, t) ∧ salted.Alike t) ∧
    ∃ t, (swap byteFormat "l" 7 9 none).outcome.run salted = (.error (.wrongType "l"), t) ∧
      salted.Alike t := by
  have hheld : salted.live? "k" = some ⟨.bytes (salty 7 0), none⟩ := rfl
  have hread : decoded salted.memory byteFormat "k" (salty 7 0) = .ok 7 := rfl
  refine ⟨rfl, ?_, ?_, ?_⟩
  · obtain ⟨r, t, hrun, hiff, hkept, -⟩ :=
      swap_exact (s := salted) rfl rfl byteFormat "k" 7 9 (some 20)
    obtain rfl : r = .ok true := hiff.mpr ⟨⟨_, _, _, _, hheld, hread, rfl, rfl⟩, salty 9 1, rfl⟩
    obtain ⟨new, hnew, hentry, -⟩ := hkept rfl
    obtain rfl : salty 9 1 = new := Except.ok.inj hnew
    exact ⟨t, hrun, rfl, hentry⟩
  · obtain ⟨r, t, hrun, -, -, hiff, -, halike, -⟩ :=
      swap_exact (s := salted) rfl rfl byteFormat "k" 8 9 none
    obtain rfl : r = .ok false :=
      hiff.mpr (.inr ⟨_, _, _, _, _, hheld, hread, rfl, rfl, by decide⟩)
    exact ⟨t, hrun, halike (by rintro ⟨⟩)⟩
  · have hlist : salted.live? "l" = some ⟨.list [[1]], none⟩ := rfl
    obtain ⟨r, t, hrun, -, -, -, hiff, halike, -⟩ :=
      swap_exact (s := salted) rfl rfl byteFormat "l" 7 9 none
    obtain rfl : r = .error (.wrongType "l") :=
      (hiff _).mpr (.inl (.otherType hlist (by rintro b ⟨⟩)))
    exact ⟨t, hrun, halike (by rintro ⟨⟩)⟩

end CacheLayer.Client
