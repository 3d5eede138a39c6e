/-
The variables that settings are read from, in the order in which they are read: what each one is called,
which texts it takes and what they mean, and which part of the settings it fills. Parts of two variables
have nothing in common, and all parts together are the settings but for three (`ext_part`).

`Reads` says what a text means without a reader: numerals by their digits, names by what they name, keys
by the pieces between commas. A variable's reader finds just that (`reader_eq_ok_iff`).
-/
import CacheLayer.Config.Environment
import CacheLayer.Proofs.Text.Numeral
import CacheLayer.Proofs.Text.Split
import Mathlib.Data.List.Nodup

namespace CacheLayer.Environment

/-- A variable, named for the setting that it gives. -/
inductive Variable where
  | policy
  | defaultLife
  | queueCapacity
  | codec
  | reloadMode
  | reloadLife
  | reloadBatch
  | reloadRetries
  | reloadDelay
  | interval
  | warmUp
  | warmUpKeys
  | deletionBatch
  | deletionRetries
  | deletionDelay
  | maxEvents
  deriving DecidableEq, Repr

namespace Variable

/-- All variables in the order in which they are read. -/
def all : List Variable :=
  [.policy, .defaultLife, .queueCapacity, .codec, .reloadMode, .reloadLife, .reloadBatch,
    .reloadRetries, .reloadDelay, .interval, .warmUp, .warmUpKeys, .deletionBatch, .deletionRetries,
    .deletionDelay, .maxEvents]

theorem mem_all (v : Variable) : v ∈ all := by
  cases v <;> decide

/-- What the name ends in. -/
def name : Variable → String
  | policy => "STRATEGY"
  | defaultLife => "DEFAULT_TTL_SECS"
  | queueCapacity => "WRITE_BEHIND_CAPACITY"
  | codec => "CODEC"
  | reloadMode => "RELOAD_STRATEGY"
  | reloadLife => "RELOAD_TTL_SECS"
  | reloadBatch => "RELOAD_BATCH_SIZE"
  | reloadRetries => "RELOAD_MAX_RETRIES"
  | reloadDelay => "RELOAD_RETRY_DELAY_MS"
  | interval => "RELOAD_INTERVAL_SECS"
  | warmUp => "WARM_UP"
  | warmUpKeys => "WARM_UP_KEYS"
  | deletionBatch => "INVALIDATION_BATCH_SIZE"
  | deletionRetries => "INVALIDATION_MAX_RETRIES"
  | deletionDelay => "INVALIDATION_RETRY_DELAY_MS"
  | maxEvents => "MAX_EVENTS"

/-- No two variables share a name. -/
theorem name_inj {v w : Variable} (h : v.name = w.name) : v = w :=
  List.inj_on_of_nodup_map (by decide : (all.map name).Nodup) (mem_all v) (mem_all w) h

/-! ## Values -/

/-- What a variable's text is read as. -/
abbrev Raw : Variable → Type
  | policy => Policy
  | codec => Codec
  | reloadMode => ReloadMode
  | warmUp => Bool
  | warmUpKeys => List String
  | _ => Nat

/-- What a variable gives to the settings: an interval also says whether reloads are scheduled. -/
abbrev Part : Variable → Type
  | policy => Policy
  | defaultLife | reloadLife => Option Nat
  | codec => Codec
  | reloadMode => ReloadMode
  | interval => Bool × Nat
  | warmUp => Bool
  | warmUpKeys => List String
  | _ => Nat

/-- The part of the settings that a variable fills. -/
def part : (v : Variable) → EngineConfig → v.Part
  | policy, c => c.policy
  | defaultLife, c => c.defaultLife
  | queueCapacity, c => c.queueCapacity
  | codec, c => c.codec
  | reloadMode, c => c.reload.mode
  | reloadLife, c => c.reload.life
  | reloadBatch, c => c.reload.batchSize
  | reloadRetries, c => c.reload.maxRetries
  | reloadDelay, c => c.reload.retryDelay
  | interval, c => (c.reload.scheduled, c.reload.interval)
  | warmUp, c => c.reload.warmUp
  | warmUpKeys, c => c.reload.warmUpKeys
  | deletionBatch, c => c.invalidation.batchSize
  | deletionRetries, c => c.invalidation.maxRetries
  | deletionDelay, c => c.invalidation.retryDelay
  | maxEvents, c => c.invalidation.maxEvents

/-- What a text that was read gives to the settings. -/
def meaning : (v : Variable) → v.Raw → v.Part
  | defaultLife | reloadLife => life
  | interval => fun seconds => (decide (0 < seconds), seconds * 1000)
  | policy | codec | reloadMode | warmUp | warmUpKeys | queueCapacity | reloadBatch | reloadRetries
  | reloadDelay | deletionBatch | deletionRetries | deletionDelay | maxEvents => id

/-- The settings with the part of a variable given anew, if it is set. -/
def keep : (v : Variable) → Option v.Raw → EngineConfig → EngineConfig
  | policy, a, c => { c with policy := a.getD c.policy }
  | defaultLife, a, c => { c with defaultLife := (a.map life).getD c.defaultLife }
  | queueCapacity, a, c => { c with queueCapacity := a.getD c.queueCapacity }
  | codec, a, c => { c with codec := a.getD c.codec }
  | reloadMode, a, c => { c with reload := { c.reload with mode := a.getD c.reload.mode } }
  | reloadLife, a, c =>
    { c with reload := { c.reload with life := (a.map life).getD c.reload.life } }
  | reloadBatch, a, c =>
    { c with reload := { c.reload with batchSize := a.getD c.reload.batchSize } }
  | reloadRetries, a, c =>
    { c with reload := { c.reload with maxRetries := a.getD c.reload.maxRetries } }
  | reloadDelay, a, c =>
    { c with reload := { c.reload with retryDelay := a.getD c.reload.retryDelay } }
  | interval, a, c =>
    { c with reload := { c.reload with
      scheduled := (a.map fun n => decide (0 < n)).getD c.reload.scheduled
      interval := (a.map (· * 1000)).getD c.reload.interval } }
  | warmUp, a, c => { c with reload := { c.reload with warmUp := a.getD c.reload.warmUp } }
  | warmUpKeys, a, c =>
    { c with reload := { c.reload with warmUpKeys := a.getD c.reload.warmUpKeys } }
  | deletionBatch, a, c =>
    { c with invalidation := { c.invalidation with batchSize := a.getD c.invalidation.batchSize } }
  | deletionRetries, a, c =>
    { c with invalidation := { c.invalidation with maxRetries := a.getD c.invalidation.maxRetries } }
  | deletionDelay, a, c =>
    { c with invalidation := { c.invalidation with retryDelay := a.getD c.invalidation.retryDelay } }
  | maxEvents, a, c =>
    { c with invalidation := { c.invalidation with maxEvents := a.getD c.invalidation.maxEvents } }

theorem part_keep_self (v : Variable) (a : Option v.Raw) (c : EngineConfig) :
    v.part (v.keep a c) = (a.map v.meaning).getD (v.part c) := by
  cases v <;> cases a <;> rfl

/-- Giving the part of one variable leaves those of all others. -/
theorem part_keep_other {v w : Variable} (h : w ≠ v) (a : Option v.Raw) (c : EngineConfig) :
    w.part (v.keep a c) = w.part c := by
  cases v <;> cases w <;> first | rfl | exact absurd rfl h

/-! ## Texts -/

/-- Reads the text of a variable. -/
def reader : (v : Variable) → String → Except String v.Raw
  | policy => fun text => named Policy.parse (Text.trim text)
  | codec => fun text => named Codec.parse (Text.trim text)
  | reloadMode => fun text => named ReloadMode.parse (Text.trim text)
  | warmUp => fun text => flag (Text.trim text)
  | warmUpKeys => fun text => .ok (Text.words text)
  | reloadRetries | deletionRetries => fun text => number maxRetries (Text.trim text)
  | defaultLife | queueCapacity | reloadLife | reloadBatch | reloadDelay | interval | deletionBatch
  | deletionDelay | maxEvents => fun text => number maxWord (Text.trim text)

/-- A text is a numeral of a number up to a limit, with blanks around it. -/
def IsNumeral (limit : Nat) (text : String) (n : Nat) : Prop :=
  Text.SpellsNat (Text.trim text).toList n ∧ n ≤ limit

/-- A text gives this to the settings. A life of no seconds is none at all, and only an interval that
takes time switches scheduled reloads on. -/
def Reads : (v : Variable) → String → v.Part → Prop
  | policy => fun text p => Policy.parse (Text.trim text) = .ok p
  | codec => fun text c => Codec.parse (Text.trim text) = .ok c
  | reloadMode => fun text m => ReloadMode.parse (Text.trim text) = .ok m
  | warmUp => fun text b =>
    Text.trim text = "true" ∧ b = true ∨ Text.trim text = "false" ∧ b = false
  | warmUpKeys => Text.AreWords
  | defaultLife | reloadLife => fun text life =>
    IsNumeral maxWord text 0 ∧ life = none ∨
      ∃ seconds, IsNumeral maxWord text seconds ∧ 0 < seconds ∧ life = some (seconds * 1000)
  | interval => fun text part =>
    ∃ seconds, IsNumeral maxWord text seconds ∧ part.2 = seconds * 1000 ∧ (part.1 = true ↔ 0 < seconds)
  | reloadRetries | deletionRetries => IsNumeral maxRetries
  | queueCapacity | reloadBatch | reloadDelay | deletionBatch | deletionDelay | maxEvents =>
    IsNumeral maxWord

theorem number_eq_ok_iff {limit n : Nat} {text : String} :
    number limit (Text.trim text) = .ok n ↔ IsNumeral limit text n := by
  unfold number IsNumeral
  rw [← Text.readNat_eq_ok_iff]
  cases Text.readNat limit (Text.trim text) <;> simp [Except.mapError]

theorem named_eq_ok_iff {α : Type} {parse : String → Except Error α} {text : String} {a : α} :
    named parse text = .ok a ↔ parse text = .ok a := by
  unfold named
  cases parse text <;> simp [Except.mapError]

theorem flag_eq_ok_iff {text : String} {b : Bool} :
    flag text = .ok b ↔ text = "true" ∧ b = true ∨ text = "false" ∧ b = false := by
  unfold flag
  split
  · next h => simp [h, eq_comm]
  · split
    · next h => simp [h, eq_comm]
    · next htrue hfalse => simp [htrue, hfalse]

theorem life_iff {text : String} {a : Option Nat} :
    (∃ seconds, number maxWord (Text.trim text) = .ok seconds ∧ life seconds = a) ↔
      IsNumeral maxWord text 0 ∧ a = none ∨
        ∃ seconds, IsNumeral maxWord text seconds ∧ 0 < seconds ∧ a = some (seconds * 1000) := by
  simp only [number_eq_ok_iff]
  constructor
  · rintro ⟨seconds, hseconds, rfl⟩
    by_cases hzero : seconds = 0
    · subst hzero
      exact .inl ⟨hseconds, rfl⟩
    · exact .inr ⟨seconds, hseconds, by omega, if_neg hzero⟩
  · rintro (⟨hzero, rfl⟩ | ⟨seconds, hseconds, hpos, rfl⟩)
    · exact ⟨0, hzero, rfl⟩
    · exact ⟨seconds, hseconds, if_neg (by omega)⟩

theorem interval_iff {text : String} {a : Bool × Nat} :
    (∃ seconds, number maxWord (Text.trim text) = .ok seconds ∧
      (decide (0 < seconds), seconds * 1000) = a) ↔
    ∃ seconds, IsNumeral maxWord text seconds ∧ a.2 = seconds * 1000 ∧
      (a.1 = true ↔ 0 < seconds) := by
  simp only [number_eq_ok_iff]
  constructor
  · rintro ⟨seconds, hseconds, rfl⟩
    exact ⟨seconds, hseconds, rfl, decide_eq_true_iff⟩
  · rintro ⟨seconds, hseconds, hinterval, hscheduled⟩
    refine ⟨seconds, hseconds, Prod.ext ?_ hinterval.symm⟩
    rw [Bool.eq_iff_iff, decide_eq_true_iff, hscheduled]

/-- A reader finds what the text gives, and fails if it gives nothing. -/
theorem reader_eq_ok_iff {v : Variable} {text : String} {a : v.Part} :
    (∃ raw, v.reader text = .ok raw ∧ v.meaning raw = a) ↔ v.Reads text a := by
  have hplain {β : Type} {r : Except String β} {b : β} :
      (∃ raw, r = .ok raw ∧ id raw = b) ↔ r = .ok b := by simp
  cases v with
  | policy | codec | reloadMode => exact hplain.trans named_eq_ok_iff
  | warmUp => exact hplain.trans flag_eq_ok_iff
  | warmUpKeys =>
    refine hplain.trans (Iff.trans ?_ Text.words_eq_iff)
    simp [reader]
  | defaultLife | reloadLife => exact life_iff
  | interval => exact interval_iff
  | queueCapacity | reloadBatch | reloadRetries | reloadDelay | deletionBatch | deletionRetries
  | deletionDelay | maxEvents => exact hplain.trans number_eq_ok_iff

theorem reader_eq_error_iff {v : Variable} {text : String} :
    (∃ why, v.reader text = .error why) ↔ ∀ a, ¬ v.Reads text a := by
  constructor
  · rintro ⟨why, hwhy⟩ a ha
    obtain ⟨raw, hraw, -⟩ := reader_eq_ok_iff.2 ha
    rw [hwhy] at hraw
    cases hraw
  · intro h
    cases hread : v.reader text with
    | error why => exact ⟨why, rfl⟩
    | ok raw => exact absurd (reader_eq_ok_iff.1 ⟨raw, hread, rfl⟩) (h _)

end Variable

/-- The settings that no variable gives. -/
def rest (c : EngineConfig) : Bool × Nat × Bool :=
  (c.reload.lazyLoading, c.reload.warmUpConcurrency, c.invalidation.recordEvents)

theorem rest_keep (v : Variable) (a : Option v.Raw) (c : EngineConfig) :
    rest (v.keep a c) = rest c := by
  cases v <;> rfl

/-- The settings of these parts. -/
def assemble (parts : (v : Variable) → v.Part) (rest : Bool × Nat × Bool) : EngineConfig where
  policy := parts .policy
  defaultLife := parts .defaultLife
  queueCapacity := parts .queueCapacity
  codec := parts .codec
  reload := {
    mode := parts .reloadMode
    life := parts .reloadLife
    batchSize := parts .reloadBatch
    maxRetries := parts .reloadRetries
    retryDelay := parts .reloadDelay
    lazyLoading := rest.1
    scheduled := (parts .interval).1
    interval := (parts .interval).2
    warmUp := parts .warmUp
    warmUpKeys := parts .warmUpKeys
    warmUpConcurrency := rest.2.1 }
  invalidation := {
    batchSize := parts .deletionBatch
    maxRetries := parts .deletionRetries
    retryDelay := parts .deletionDelay
    maxEvents := parts .maxEvents
    recordEvents := rest.2.2 }

theorem assemble_part (c : EngineConfig) : assemble (fun v => v.part c) (rest c) = c := rfl

/-- Settings are the same if all their parts are, and what no variable gives. -/
theorem ext_part {c c' : EngineConfig} (h : ∀ v : Variable, v.part c = v.part c')
    (hrest : rest c = rest c') : c = c' := by
  rw [← assemble_part c, ← assemble_part c', funext h, hrest]

end CacheLayer.Environment
