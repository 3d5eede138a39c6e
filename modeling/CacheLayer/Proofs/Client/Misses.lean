/-
When a look-up is a miss. What is stored under a key is read in steps: the store is asked, the
envelope is opened, the transformers undo their work, the payload is decoded. A step may fail with
any error, also with one that reads like a miss, but what it fails with is worded anew on its way to
the caller: as a failure to decode (`Format.ofSerializer`), or as the failure of a transformer
(`Transformer.blame`). So a look-up is a miss exactly if the key is not live (`isMiss_found_iff`).
-/
import CacheLayer.Proofs.Client.Coding
import CacheLayer.Proofs.Store.Entries
import CacheLayer.Proofs.Program.Serving

namespace CacheLayer

variable {V α : Type}

/-! ## Formats -/

/-- How values of a type are written and read under an encoding; a failure is a text of whatever has
failed. -/
structure Serializer (α : Type) where
  write : Codec → α → Except String Bytes
  read : Codec → Bytes → Except String α

/-- The serializer of typed values. -/
def Serializer.ofSchema (s : Schema) : Serializer Datum where
  write
    | .json, d =>
      match d.toJson? with
      | some b => .ok b
      | none => .error "key must be a string"
    | .postcard, d => .ok (Datum.Postcard.write d)
  read
    | .json, b =>
      match Datum.ofJson? s b with
      | some d => .ok d
      | none => .error "malformed JSON"
    | .postcard, b =>
      match Datum.Postcard.ofBytes? s b with
      | some d => .ok d
      | none => .error "malformed postcard bytes"

namespace Format

/-- The format of a serializer: what it fails with becomes a failure to encode or to decode. -/
def ofSerializer (z : Serializer α) : Format α where
  encode c a := (z.write c a).mapError .encoding
  decode c b := (z.read c b).mapError .decoding

/-- The format that requests use is one of these. -/
theorem ofSchema_eq (s : Schema) : ofSchema s = ofSerializer (.ofSchema s) := by
  have hencode : (ofSchema s).encode = (ofSerializer (.ofSchema s)).encode := by
    funext c d
    cases c with
    | json =>
      simp only [ofSchema, ofSerializer, Serializer.ofSchema]
      cases d.toJson? <;> rfl
    | postcard => rfl
  have hdecode : (ofSchema s).decode = (ofSerializer (.ofSchema s)).decode := by
    funext c b
    cases c with
    | json =>
      simp only [ofSchema, ofSerializer, Serializer.ofSchema]
      cases Datum.ofJson? s b <;> rfl
    | postcard =>
      simp only [ofSchema, ofSerializer, Serializer.ofSchema]
      cases Datum.Postcard.ofBytes? s b <;> rfl
  exact (Format.mk.injEq ..).mpr ⟨hencode, hdecode⟩

variable {z : Serializer α} {c : Codec} {b : Bytes} {e : Error}

theorem not_isMiss_decode (h : (ofSerializer z).decode c b = .error e) : e.isMiss = false := by
  unfold ofSerializer at h
  simp only at h
  cases hread : z.read c b with
  | ok a =>
    rw [hread] at h
    cases h
  | error text =>
    rw [hread] at h
    cases h
    rfl

end Format

/-! ## Transformers and envelopes -/

theorem Transformer.not_isMiss_blame (name : String) (e : Error) :
    (Transformer.blame name e).isMiss = false := by
  cases e <;> rfl

theorem Transformers.not_isMiss_undo {ts : Transformers} {key : String} {names : List String}
    {b : Bytes} {e : Error} (h : ts.undo key names b = .error e) : e.isMiss = false := by
  induction names generalizing b with
  | nil => cases h
  | cons name names ih =>
    unfold undo at h
    cases hfind : ts.find? name with
    | none =>
      rw [hfind] at h
      cases h
      rfl
    | some t =>
      rw [hfind] at h
      simp only at h
      cases hrestore : t.restore key b with
      | error e' =>
        rw [hrestore] at h
        cases h
        exact Transformer.not_isMiss_blame t.name e'
      | ok b' =>
        rw [hrestore] at h
        exact ih h

namespace Envelope

theorem not_isMiss_openNames {count : Nat} {b : Bytes} {e : Error}
    (h : openNames count b = .error e) : e.isMiss = false := by
  induction count generalizing b with
  | zero => cases h
  | succ count ih =>
    cases b with
    | nil =>
      cases h
      rfl
    | cons len b =>
      unfold openNames at h
      split at h
      · cases h
        rfl
      · cases hname : Text.ofUtf8? (b.take len.toNat) with
        | none =>
          rw [hname] at h
          cases h
          rfl
        | some name =>
          rw [hname] at h
          simp only at h
          cases hrest : openNames count (b.drop len.toNat) with
          | ok x =>
            rw [hrest] at h
            cases h
          | error e' =>
            rw [hrest] at h
            cases h
            exact ih hrest

theorem not_isMiss_unwrap {b : Bytes} {e : Error} (h : unwrap b = .error e) : e.isMiss = false := by
  unfold unwrap at h
  split at h
  · split at h
    · cases h
    · exact not_isMiss_openNames h
  · cases h

end Envelope

/-! ## Look-ups -/

namespace Client

variable {m : Memory V} {z : Serializer α} {key : String} {b : Bytes}

theorem not_isMiss_decoded {e : Error} (h : decoded m (.ofSerializer z) key b = .error e) :
    e.isMiss = false := by
  unfold decoded at h
  cases hunwrap : Envelope.unwrap b with
  | error e' =>
    rw [hunwrap] at h
    cases h
    exact Envelope.not_isMiss_unwrap hunwrap
  | ok x =>
    rw [hunwrap] at h
    simp only [bind, Except.bind] at h
    split at h
    · exact Format.not_isMiss_decode h
    · cases hundo : m.transformers.undoAll key x.1 x.2 with
      | error e' =>
        rw [hundo] at h
        cases h
        exact Transformers.not_isMiss_undo hundo
      | ok payload =>
        rw [hundo] at h
        exact Format.not_isMiss_decode h

/-- What a look-up gives, in view of what the key holds. -/
def found (m : Memory V) (f : Format α) (key : String) : Option CacheLayer.Entry → Except Error α
  | none => .error (.cacheMiss key)
  | some e =>
    match e.value with
    | .bytes b => decoded m f key b
    | _ => .error (.wrongType key)

theorem not_isMiss_found {entry : CacheLayer.Entry} {e : Error}
    (h : found m (.ofSerializer z) key (some entry) = .error e) : e.isMiss = false := by
  unfold found at h
  obtain ⟨value, deadline⟩ := entry
  cases value with
  | bytes b => exact not_isMiss_decoded h
  | _ =>
    cases h
    rfl

/-- A look-up is a miss exactly if the key is not live, whatever the steps of reading fail with. -/
theorem isMiss_found_iff {e? : Option CacheLayer.Entry} :
    (∃ e, found m (.ofSerializer z) key e? = .error e ∧ e.isMiss = true) ↔ e? = none := by
  cases e? with
  | none => exact ⟨fun _ => rfl, fun _ => ⟨.cacheMiss key, rfl, rfl⟩⟩
  | some entry =>
    refine ⟨?_, fun h => by cases h⟩
    rintro ⟨e, he, hmiss⟩
    rw [not_isMiss_found he] at hmiss
    cases hmiss

/-- Bytes as values, each stored as it is. -/
def byteSerializer : Serializer UInt8 where
  write _ v := .ok [v]
  read
    | _, [v] => .ok v
    | _, _ => .error "not one byte"

theorem byteFormat_eq : byteFormat = .ofSerializer byteSerializer := by
  have hdecode : byteFormat.decode = (Format.ofSerializer byteSerializer).decode := by
    funext c b
    cases b with
    | nil => rfl
    | cons v b => cases b <;> rfl
  exact (Format.mk.injEq ..).mpr ⟨rfl, hdecode⟩

end Client

/-! ## Asking the store -/

theorem Store.run_get (s : Store) (now : Nat) (key : String) :
    (Call.get key).run now s = ((match s.live? now key with
      | none => .ok none
      | some e =>
        match e.value with
        | .bytes b => .ok (some b)
        | _ => .error (.wrongType key)), s.purge now key) := by
  refine Prod.ext ?_ (s.snd_get now key)
  change (s.get now key).1 = _
  unfold Store.get
  simp only [get?_purge_self]
  cases s.live? now key with
  | none => rfl
  | some e =>
    obtain ⟨value, deadline⟩ := e
    cases value <;> rfl

/-- A command that is not scripted to fail is carried out. -/
theorem World.command_unscripted {w : World V} {c : Store.Call} (h : w.scripts c.method = []) :
    w.command c = ((c.run w.now w.store).1, { w with store := (c.run w.now w.store).2 }) := by
  simp [World.command, nextFault, h]

theorem Action.run_unscripted {s : Scene V} {c : Store.Call} (h : s.world.scripts c.method = []) :
    (command c : Action V c.Reply).outcome.run s =
      ((c.run s.world.now s.world.store).1, s.withStore (c.run s.world.now s.world.store).2) := by
  rw [outcome_command, Program.run_command, World.command_unscripted h]
  rfl

/-- **A look-up**, unless the store fails: it gives what the key holds, and does nothing but purge
the key. -/
theorem Client.run_get_found {s : Scene V} (h : s.world.scripts .get = []) (f : Format α)
    (key : String) :
    (get f key).outcome.run s = (found s.memory f key (s.live? key),
      s.withStore (s.world.store.purge s.world.now key)) := by
  rw [run_get, World.command_unscripted h, Store.run_get]
  unfold Scene.live?
  cases s.world.store.live? s.world.now key with
  | none => rfl
  | some e =>
    obtain ⟨value, deadline⟩ := e
    cases value <;> rfl

namespace World

variable {w : World V}

/-- When a look-up fails, the store does not call that a miss. -/
def Candid (w : World V) : Prop := ∀ e, some e ∈ w.scripts .get → e.isMiss = false

theorem candid_command (h : w.Candid) (c : Store.Call) : (w.command c).2.Candid := by
  intro e he
  rw [scripts_command] at he
  exact h e (nextFault_subset _ _ _ he)

/-- The store says that it has nothing for a key only if the key is not live. -/
theorem command_get_cases (h : w.Candid) (key : String) :
    (∃ e, (w.command (.get key)).1 = .error e ∧ e.isMiss = false) ∨
      ((w.command (.get key)).1 = .ok none ∧ w.store.live? w.now key = none) ∨
      ∃ b e, (w.command (.get key)).1 = .ok (some b) ∧ w.store.live? w.now key = some e := by
  unfold command
  rcases hfault : nextFault w.scripts (Store.Call.get key).method with ⟨fault, scripts⟩
  cases fault with
  | some e => exact .inl ⟨e, rfl, h e (mem_of_nextFault (congrArg Prod.fst hfault))⟩
  | none =>
    simp only [Store.run_get]
    cases hlive : w.store.live? w.now key with
    | none => exact .inr (.inl ⟨rfl, rfl⟩)
    | some e =>
      obtain ⟨value, deadline⟩ := e
      cases value with
      | bytes b => exact .inr (.inr ⟨b, _, rfl, rfl⟩)
      | _ => exact .inl ⟨_, rfl, rfl⟩

end World
end CacheLayer
