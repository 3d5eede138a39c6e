/-
The pipeline of transformers undone. Encoding records which transformers changed
a payload; decoding restores by these names, last one first, in whatever registry
there is by then. It takes no more than that each name still stands for a
transformer that undoes the one that was applied: the tests that decided which
ones applied are not asked again.

Main statement: `decode_encode`.
-/
import CacheLayer.Proofs.Client.Coding
import CacheLayer.Proofs.Envelope
import CacheLayer.Proofs.Transform.Registry
import CacheLayer.Transform.Standard

namespace CacheLayer

/-- What `t` makes of a payload of this key, `u` restores. -/
def Transformer.Undoes (key : String) (u t : Transformer) : Prop :=
  ∀ fresh b b', t.transform fresh key b = .ok b' → u.restore key b' = .ok b

namespace Transformers

variable {ts later : Transformers} {key name : String} {names names' : List String}
  {b b' b'' : Bytes}

/-! ## Restoring by names -/

/-- One after the other, the transformers of these names restore a payload to another one. -/
inductive Restores (ts : Transformers) (key : String) : List String → Bytes → Bytes → Prop where
  | none {b : Bytes} : Restores ts key [] b b
  | one {t : Transformer} {names : List String} {b b' b'' : Bytes} (ht : t ∈ ts)
    (hrestore : t.restore key b = .ok b') (more : Restores ts key names b' b'') :
    Restores ts key (t.name :: names) b b''

theorem Restores.append (h : Restores ts key names b b') (h' : Restores ts key names' b' b'') :
    Restores ts key (names ++ names') b b'' := by
  induction h with
  | none => exact h'
  | one ht hrestore more ih => exact .one ht hrestore (ih h')

/-- Undoing goes on with what has been restored. -/
theorem undo_append (hts : ts.names.Nodup) (h : Restores ts key names b b')
    (names' : List String) : ts.undo key (names ++ names') b = ts.undo key names' b' := by
  induction h with
  | none => rfl
  | one ht hrestore more ih =>
    rw [List.cons_append, undo, find?_of_mem hts ht]
    simp only [hrestore]
    exact ih

theorem undo_of_restores (hts : ts.names.Nodup) (h : Restores ts key names b b') :
    ts.undo key names b = .ok b' := by
  simpa [undo] using undo_append hts h []

theorem undo_missing (h : name ∉ ts.names) (names : List String) (b : Bytes) :
    ts.undo key (name :: names) b =
      .error (.transform name "transformer not registered; cannot restore value") := by
  rw [undo, find?_eq_none h]

/-- Nothing is restored by names of which one is missing. -/
theorem undo_ne_ok (hmem : name ∈ names) (h : name ∉ ts.names) :
    ts.undo key names b ≠ .ok b' := by
  induction names generalizing b with
  | nil => cases hmem
  | cons other names ih =>
    by_cases hother : name = other
    · subst hother
      rw [undo_missing h]
      rintro ⟨⟩
    · have hrest : name ∈ names := (List.mem_cons.1 hmem).resolve_left hother
      unfold undo
      split
      · rintro ⟨⟩
      · split
        · rintro ⟨⟩
        · exact ih hrest

/-- What has been applied is restored in reverse order, if each name stands for a transformer that
undoes the one that was applied. -/
theorem restores_of_applyAll {fresh : Nat} (h : applyAll fresh key ts b = .ok (names, b'))
    (hlater : ∀ t ∈ ts, t.name ∈ names → ∃ u ∈ later, u.name = t.name ∧ u.Undoes key t) :
    Restores later key names.reverse b' b := by
  induction ts generalizing fresh b names with
  | nil =>
    cases h
    exact .none
  | cons t ts ih =>
    by_cases happlies : t.applies key b = true
    · cases htransform : t.transform fresh key b with
      | error e => simp [applyAll, happlies, htransform] at h
      | ok c =>
        simp only [applyAll, happlies, htransform, if_true] at h
        obtain ⟨⟨names', b''⟩, hrest, heq⟩ := Envelope.exists_of_map_eq_ok h
        cases heq
        obtain ⟨u, hu, hname, hundoes⟩ := hlater t List.mem_cons_self List.mem_cons_self
        rw [List.reverse_cons, ← hname]
        refine (ih hrest fun t' ht' hmem => ?_).append (.one hu (hundoes _ _ _ htransform) .none)
        exact hlater t' (List.mem_cons_of_mem _ ht') (List.mem_cons_of_mem _ hmem)
    · simp only [applyAll, happlies] at h
      exact ih h fun t' ht' => hlater t' (List.mem_cons_of_mem _ ht')

end Transformers

namespace Client

open Transformers

variable {V α : Type} {f : Format α} {key : String} {a : α}

/-- Bytes in an envelope are restored by its names and then decoded. -/
theorem decoded_sealed {m : Memory V} {names : List String} {b payload : Bytes}
    (hsome : names ≠ []) (h : Envelope.wrap names payload = .ok b) :
    decoded m f key b =
      (m.transformers.undo key names.reverse payload).bind fun b => f.decode m.config.codec b := by
  have hempty : names.isEmpty = false := by simpa using hsome
  simp [decoded, Envelope.unwrap_wrap hsome h, hempty, undoAll, bind, Except.bind]

/-- **The pipeline is undone, whatever has become of the registry.** Of a value that transformers
have changed, and any edits of the registry after that: if each applied name still stands for a
transformer that undoes the one that was applied, the value is read back. If one of the names is
missing, no value is given back; and if those that came after it can be restored, the error names
it. -/
theorem decode_encode {s : Scene V} {before : List Edit} {names : List String}
    {plain payload : Bytes} (hreached : s.memory.transformers = edited [] before)
    (hplain : f.encode s.memory.config.codec a = .ok plain)
    (hback : f.decode s.memory.config.codec plain = .ok a)
    (happlied : s.memory.transformers.applyAll s.world.drawn key plain = .ok (names, payload))
    (hsome : names ≠ []) (hmany : names.length ≤ 255)
    (hlong : ∀ name ∈ names, (Text.utf8 name).length ≤ 255) :
    ∃ stored, ((encode f key a).outcome.run s).1 = .ok stored ∧
      ∀ (s' : Scene V) (after : List Edit), s'.memory.config.codec = s.memory.config.codec →
        s'.memory.transformers = edited s.memory.transformers after →
        ((∀ t ∈ s.memory.transformers, t.name ∈ names →
            ∃ u ∈ s'.memory.transformers, u.name = t.name ∧ u.Undoes key t) →
          ((decode f key stored).outcome.run s').1 = .ok a) ∧
        (∀ name ∈ names, name ∉ s'.memory.transformers.names →
          ∀ v, ((decode f key stored).outcome.run s').1 ≠ .ok v) ∧
        ∀ first name last b, names = first ++ name :: last →
          Restores s'.memory.transformers key last.reverse payload b →
          name ∉ s'.memory.transformers.names →
          ((decode f key stored).outcome.run s').1 =
            .error (.transform name "transformer not registered; cannot restore value") := by
  obtain ⟨stored, hstored⟩ := Envelope.exists_wrap hsome hmany hlong payload
  refine ⟨stored, ?_, fun s' after hcodec hafter => ?_⟩
  · simp [run_encode, coded, hplain, happlied, hstored, bind, Except.bind]
  have hnodup : s'.memory.transformers.names.Nodup := by
    rw [hafter, hreached]
    exact nodup_names_edited after (nodup_names_edited before List.nodup_nil)
  rw [run_decode, decoded_sealed hsome hstored, hcodec]
  refine ⟨fun hlater => ?_, fun name hmem hmissing v => ?_, ?_⟩
  · rw [undo_of_restores hnodup (restores_of_applyAll happlied hlater)]
    exact hback
  · cases hundo : s'.memory.transformers.undo key names.reverse payload with
    | error e => rintro ⟨⟩
    | ok b => exact absurd hundo (undo_ne_ok (List.mem_reverse.2 hmem) hmissing)
  · rintro first name last b rfl hrestores hmissing
    rw [List.reverse_append, List.reverse_cons, List.append_assoc, undo_append hnodup hrestores,
      List.singleton_append, undo_missing hmissing]
    rfl

/-- Puts a byte behind a payload, and takes it off again. -/
def mark (name : String) (priority : Int) (byte : UInt8) : Transformer where
  name := name
  priority := priority
  applies _ _ := true
  transform _ _ b := .ok (b ++ [byte])
  restore _ b :=
    if b.getLast? = some byte then .ok b.dropLast else .error (.decoding "no mark")

theorem undoes_mark {t u : Transformer} {byte : UInt8} (key : String)
    (ht : t.transform = (mark "" 0 byte).transform) (hu : u.restore = (mark "" 0 byte).restore) :
    u.Undoes key t := by
  intro fresh b b' h
  rw [ht] at h
  obtain rfl : b ++ [byte] = b' := Except.ok.inj h
  simp [hu, mark]

/-- A mark that only payloads of one byte get. -/
def firstMark : Transformer := (mark "first" 1 7).restrictTo fun _ b => b.length == 1

def secondMark : Transformer := mark "second" 5 8

/-- An engine with two marks. -/
def marked : Scene UInt8 :=
  ⟨.start default, { byteMemory with transformers := edited [] [.add firstMark, .add secondMark] }⟩

def afterEdits (s : Scene UInt8) (es : List Edit) : Scene UInt8 :=
  { s with memory := { s.memory with transformers := edited s.memory.transformers es } }

/-- The second mark is no longer wanted by any payload and goes before all else, the first one is
replaced, and there is another transformer. -/
def marksChanged : List Edit :=
  [.retune "second" (-3) fun _ _ => false, .add (mark "first" 9 7), .add (.identity "other")]

theorem transformers_marked : marked.memory.transformers = [firstMark, secondMark] := by
  have hone : Transformers.add [] firstMark = [firstMark] := List.mergeSort_singleton _
  have htwo : Transformers.add [firstMark] secondMark = [firstMark, secondMark] :=
    List.mergeSort_of_pairwise (by simp [firstMark, secondMark, mark, Transformer.restrictTo])
  change Transformers.add (Transformers.add [] firstMark) secondMark = _
  rw [hone, htwo]

/-- Both marks are taken off by what has become of the registry; without the first one, the value
is not given back. -/
theorem decode_encode_marked :
    ∃ stored, ((encode byteFormat "k" 5).outcome.run marked).1 = .ok stored ∧
      ((decode byteFormat "k" stored).outcome.run (afterEdits marked marksChanged)).1 = .ok 5 ∧
      ((decode byteFormat "k" stored).outcome.run (afterEdits marked [.remove "first"])).1 =
        .error (.transform "first" "transformer not registered; cannot restore value") := by
  have happlied : marked.memory.transformers.applyAll marked.world.drawn "k" [5] =
      .ok (["first", "second"], [5, 7, 8]) := by
    rw [transformers_marked]
    rfl
  have hlong : ∀ name ∈ ["first", "second"], (Text.utf8 name).length ≤ 255 := by decide
  obtain ⟨stored, hstored, hdecode⟩ := decode_encode (f := byteFormat) rfl rfl rfl happlied
    (List.cons_ne_nil _ _) (by decide) hlong
  obtain ⟨hback, -⟩ := hdecode (afterEdits marked marksChanged) marksChanged rfl rfl
  obtain ⟨-, -, hmissing⟩ := hdecode (afterEdits marked [.remove "first"]) [.remove "first"] rfl rfl
  refine ⟨stored, hstored, hback ?_, hmissing [] "first" ["second"] [5, 7] rfl ?_ ?_⟩
  · rw [transformers_marked]
    intro t ht _
    have hmarks : t = firstMark ∨ t = secondMark := by simpa using ht
    change ∃ u ∈ edited marked.memory.transformers marksChanged, _
    rw [transformers_marked]
    rcases hmarks with rfl | rfl
    · refine ⟨mark "first" 9 7, ?_, rfl, undoes_mark _ rfl rfl⟩
      exact mem_add_iff.2 (.inl ⟨mem_add_iff.2 (.inr rfl), by decide⟩)
    · refine ⟨retuned "second" (-3) (fun _ _ => false) secondMark, ?_, rfl, undoes_mark _ rfl rfl⟩
      have hmem : secondMark ∈ [firstMark, secondMark] := by simp
      refine mem_add_iff.2 (.inl ⟨mem_add_iff.2 (.inl ⟨?_, by decide⟩), by decide⟩)
      exact List.mem_map_of_mem hmem
  · change Restores (edited marked.memory.transformers [.remove "first"]) _ _ _ _
    rw [transformers_marked]
    exact .one (t := secondMark) (List.mem_singleton_self _) rfl .none
  · change "first" ∉ (edited marked.memory.transformers [.remove "first"]).names
    rw [transformers_marked]
    decide

end Client
end CacheLayer
