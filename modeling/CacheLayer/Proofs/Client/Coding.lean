/-
What the typed client does when it runs alone. Encoding is a function of the
memory and of the next fresh number (`coded`), so `run_set`, `run_get` and their
like say in one equation which command of the store is carried out and what the
caller gets.
-/
import CacheLayer.Client
import CacheLayer.Proofs.Program.Along

namespace CacheLayer.Client

variable {V α : Type}

/-- The bytes under which a value is stored, when the numbers from `fresh` on are free. -/
def coded (m : Memory V) (f : Format α) (fresh : Nat) (key : String) (a : α) :
    Except Error Bytes := do
  let b ← f.encode m.config.codec a
  let (names, b) ← m.transformers.applyAll fresh key b
  Envelope.wrap names b

/-- The first number that is free after an encoding. -/
def freshAfter (m : Memory V) (f : Format α) (fresh : Nat) (a : α) : Nat :=
  match f.encode m.config.codec a with
  | .ok _ => fresh + m.transformers.length
  | .error _ => fresh

/-- Encoding looks at memory and draws fresh numbers. -/
theorem each_encode {Q : Ask V → Prop} (hmemory : Q (.update id)) (hdraw : ∀ count, Q (.draw count))
    (f : Format α) (key : String) (a : α) :
    (encode f key a : Action V Bytes).outcome.Each Q :=
  Program.each_then (Program.each_always (Program.each_lift hmemory)) fun _ =>
    Program.each_then (Program.each_pure _) fun _ =>
    Program.each_then (Program.each_always (Program.each_lift (hdraw _))) fun _ =>
    Program.each_then (Program.each_pure _) fun _ => Program.each_pure _

theorem each_set {Q : Ask V → Prop} (hmemory : Q (.update id)) (hdraw : ∀ count, Q (.draw count))
    {key : String} (hset : ∀ b life, Q (.command (.set key b life))) (f : Format α) (a : α)
    (life : Option Nat) : (set f key a life : Action V Unit).outcome.Each Q :=
  Program.each_then (each_encode hmemory hdraw f key a) fun _ => Program.each_lift (hset _ _)

/-- A look-up asks the store and looks at memory. -/
theorem each_get {Q : Ask V → Prop} (hmemory : Q (.update id)) {key : String}
    (hget : Q (.command (.get key))) (f : Format α) :
    (get f key : Action V α).outcome.Each Q := by
  refine Program.each_then (Program.each_lift hget) fun kept => ?_
  cases kept with
  | none => exact Program.each_pure _
  | some b =>
    exact Program.each_then (Program.each_always (Program.each_lift hmemory)) fun _ =>
      Program.each_pure _

theorem run_encode (f : Format α) (key : String) (a : α) (s : Scene V) :
    (encode f key a).outcome.run s =
      (coded s.memory f s.world.drawn key a,
        { s with world := { s.world with drawn := freshAfter s.memory f s.world.drawn a } }) := by
  unfold encode coded freshAfter
  simp only [Action.outcome_bind, Program.run_bind, Action.run_always, Program.run_memory,
    Action.andThen_ok, Action.run_ofExcept]
  cases f.encode s.memory.config.codec a with
  | error e => rfl
  | ok b =>
    simp only [Action.andThen_ok, Action.outcome_bind, Program.run_bind, Action.run_always,
      Program.run_draw, Action.run_ofExcept]
    simp only [bind, Except.bind]
    cases s.memory.transformers.applyAll s.world.drawn key b <;> rfl

theorem run_decode (f : Format α) (key : String) (b : Bytes) (s : Scene V) :
    (decode f key b).outcome.run s = (decoded s.memory f key b, s) := rfl

theorem run_decodeItem (f : Format α) (b : Bytes) (s : Scene V) :
    (decodeItem f b).outcome.run s = (f.decode s.memory.config.codec b, s) := rfl

theorem run_set (f : Format α) (key : String) (a : α) (life : Option Nat) (s : Scene V) :
    (set f key a life).outcome.run s =
      let w := { s.world with drawn := freshAfter s.memory f s.world.drawn a }
      match coded s.memory f s.world.drawn key a with
      | .ok b => ((w.command (.set key b life)).1,
          { s with world := (w.command (.set key b life)).2 })
      | .error e => (.error e, { s with world := w }) := by
  rw [set, Action.outcome_bind, Program.run_bind, run_encode]
  cases coded s.memory f s.world.drawn key a <;> rfl

theorem run_get (f : Format α) (key : String) (s : Scene V) :
    (get f key).outcome.run s =
      ((s.world.command (.get key)).1.bind fun
        | some b => decoded s.memory f key b
        | none => .error (.cacheMiss key),
        { s with world := (s.world.command (.get key)).2 }) := by
  rw [get, Action.outcome_bind, Program.run_bind, Action.outcome_command, Program.run_command]
  cases (s.world.command (.get key)).1 with
  | error e => rfl
  | ok found => cases found <;> rfl

theorem run_delete (key : String) (s : Scene V) :
    (delete key).outcome.run s =
      ((s.world.command (.delete key)).1,
        { s with world := (s.world.command (.delete key)).2 }) := rfl

theorem run_has (key : String) (s : Scene V) :
    (has key).outcome.run s =
      ((s.world.command (.has key)).1, { s with world := (s.world.command (.has key)).2 }) := rfl

theorem run_flush (s : Scene V) :
    Program.run (Action.outcome (V := V) flush) s =
      ((s.world.command .flush).1, { s with world := (s.world.command .flush).2 }) := rfl

/-- What is encoded for a key is read back as the value, whatever numbers are drawn meanwhile. -/
def Codes (m : Memory V) (key : String) (v : V) : Prop :=
  ∀ fresh, ∃ b, coded m m.format fresh key v = .ok b ∧ decoded m m.format key b = .ok v

theorem Codes.steps {m : Memory V} {key : String} {v : V} (h : Codes m key v) :
    ∃ plain, m.format.encode m.config.codec v = .ok plain ∧
      ∀ fresh, ∃ x b, m.transformers.applyAll fresh key plain = .ok x ∧
        Envelope.wrap x.1 x.2 = .ok b ∧ decoded m m.format key b = .ok v := by
  unfold Codes coded at h
  cases hplain : m.format.encode m.config.codec v with
  | error e =>
    obtain ⟨b, hb, -⟩ := h 0
    rw [hplain] at hb
    cases hb
  | ok plain =>
    refine ⟨plain, rfl, fun fresh => ?_⟩
    obtain ⟨b, hb, hd⟩ := h fresh
    rw [hplain] at hb
    cases hx : m.transformers.applyAll fresh key plain with
    | error e => simp [bind, Except.bind, hx] at hb
    | ok x => exact ⟨x, b, rfl, by simpa [bind, Except.bind, hx] using hb, hd⟩

/-- The entry holds bytes of a value. -/
def Holds (m : Memory V) (key : String) (e : CacheLayer.Entry) (v : V) : Prop :=
  ∃ b, e.value = .bytes b ∧ decoded m m.format key b = .ok v

/-- Bytes as values, each stored as it is. -/
def byteFormat : Format UInt8 where
  encode _ v := .ok [v]
  decode
    | _, [v] => .ok v
    | _, _ => .error (.decoding "not one byte")

/-- A memory in which bytes are stored as they are. -/
def byteMemory : Memory UInt8 := Memory.blank byteFormat {}

theorem codes_byte {m : Memory UInt8} (hf : m.format = byteFormat) (ht : m.transformers = [])
    (key : String) (v : UInt8) : Codes m key v := by
  intro fresh
  refine ⟨[v], ?_, ?_⟩
  · simp [coded, hf, ht, byteFormat, Transformers.applyAll, Envelope.wrap, bind, Except.bind]
  · simp [decoded, hf, byteFormat, Envelope.unwrap, Envelope.magic, bind, Except.bind]

end CacheLayer.Client
