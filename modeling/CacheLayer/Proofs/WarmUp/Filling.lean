/-
What a warm-up does to the cache. Its chunks are loaded at the same time, so that their batches reach
the store in any order and at any times. Of that order only this is left: a key holds what one of the
batches gave it, as of the time of that batch, or else what it held (`Program.Course.filled`). The
result is the same up to the order of the errors, since it is added up from the fates of the chunks
(`legs_of_load`).
-/
import CacheLayer.Proofs.Program.Gathering
import CacheLayer.Proofs.WarmUp.Chunk
import CacheLayer.Proofs.WarmUp.Flag

namespace CacheLayer

variable {V α : Type} {s t : Scene V} {log : List (Exchange V)} {m : Memory V}

/-! ## Times -/

/-- Everything is said while the program runs. -/
theorem Program.Course.times {p : Program V α} {r : α} (h : p.Course s log r t) :
    s.world.now ≤ t.world.now ∧ ∀ e ∈ log, s.world.now ≤ e.time ∧ e.time ≤ t.world.now := by
  induction h with
  | done a s => exact ⟨Nat.le_refl _, List.forall_mem_nil _⟩
  | ask hget rest ih =>
    have hle := Ask.now_le_of_mayGet hget
    refine ⟨Nat.le_trans hle ih.1, List.forall_mem_cons.2 ⟨⟨Nat.le_refl _, ?_⟩, fun e he => ?_⟩⟩
    · exact Nat.le_trans hle ih.1
    · exact (ih.2 e he).imp_left (Nat.le_trans hle)

theorem mem_said_sent {time : Nat} {c : Store.Call} (h : Event.sent time c ∈ said log) :
    ∃ r, ⟨time, .command c, r⟩ ∈ log := by
  obtain ⟨⟨time', q, a⟩, hmem, hevent⟩ := List.mem_filterMap.1 h
  cases q <;> simp only [Exchange.event?, Option.some.injEq, reduceCtorEq] at hevent
  cases hevent
  exact ⟨a, hmem⟩

/-! ## Batches that set keys -/

/-- The entry that a command of a batch makes. -/
def BatchStep.given? (time : Nat) : BatchStep → Option (String × Entry)
  | .set key b life => some (key, .born (.bytes b) life time)
  | _ => none

/-- The entries that a batch makes. -/
def Event.given : Event V → List (String × Entry)
  | .sent time (.execute steps _) => steps.filterMap (BatchStep.given? time)
  | _ => []

/-- What is sent to the store, if anything, is a batch that sets keys. -/
def Event.Fills (life : Option Nat) : Event V → Prop
  | .sent _ c => ∃ puts : List (String × Bytes),
      c = .execute (puts.map fun p => .set p.1 p.2 life) false
  | _ => True

theorem Event.given_sets (puts : List (String × Bytes)) (life : Option Nat) (time : Nat) :
    (Event.sent time (.execute (puts.map fun p => .set p.1 p.2 life) false) : Event V).given =
      puts.map fun p => (p.1, .born (.bytes p.2) life time) := by
  rw [Event.given, List.filterMap_map]
  exact congrFun List.filterMap_eq_map puts

/-- A key has been given an entry, or it has been given none. -/
theorem Store.lastGiven_cases (given : List (String × Entry)) (key : String) :
    (∃ e, Store.lastGiven given key = some e ∧ (key, e) ∈ given) ∨
      Store.lastGiven given key = none ∧ ∀ e, (key, e) ∉ given := by
  unfold Store.lastGiven
  cases hlast : (given.filter (·.1 == key)).getLast? with
  | some p =>
    obtain ⟨hmem, hkey⟩ := List.mem_filter.1 (List.mem_of_getLast? hlast)
    obtain rfl : p.1 = key := eq_of_beq hkey
    exact .inl ⟨p.2, rfl, hmem⟩
  | none =>
    refine .inr ⟨rfl, fun e hmem => ?_⟩
    have hnone := List.getLast?_eq_none_iff.1 hlast
    exact List.filter_eq_nil_iff.1 hnone (key, e) hmem (by simp)

theorem Ask.filled_of_mayGet {q : Ask V} {a : Answer q} (hs : s.world.Steady)
    (hget : q.MayGet s a t) {life : Option Nat}
    (hfills : ∀ e ∈ said [⟨s.world.now, q, a⟩], e.Fills life) (key : String) : t.live? key =
      ((Store.lastGiven ((said [⟨s.world.now, q, a⟩]).flatMap Event.given) key).or
        (s.live? key)).filter fun e => !e.isDead t.world.now := by
  cases q with
  | command c =>
    obtain ⟨puts, rfl⟩ := hfills _ List.mem_cons_self
    obtain ⟨-, rfl, hsaid⟩ := Action.course_command hs (.ask hget (.done _ _))
    obtain ⟨-, -, hlive⟩ := Store.run_execute_sets puts life false s.world.store s.world.now
    rw [hsaid, List.flatMap_singleton, Event.given_sets]
    exact hlive key
  | _ => exact Ask.live?_of_mayGet (by rintro c ⟨⟩) hget key

/-- A program that sends nothing but batches that set keys: each key holds what it was given last, or
else what it held. -/
theorem Program.Course.filled {p : Program V α} {r : α} (h : p.Course s log r t)
    (hs : s.world.Steady) {life : Option Nat} (hfills : ∀ e ∈ said log, e.Fills life)
    (key : String) : t.live? key =
      ((Store.lastGiven ((said log).flatMap Event.given) key).or (s.live? key)).filter
        fun e => !e.isDead t.world.now := by
  induction h with
  | done a s => exact Store.live?_later _ (Nat.le_refl _) _
  | @ask q next s u t a log r hget rest ih =>
    rw [said_cons] at hfills ⊢
    obtain ⟨hfirst, hrest⟩ := List.forall_mem_append.1 hfills
    rw [ih (Ask.steady_of_mayGet hs hget) hrest, Ask.filled_of_mayGet hs hget hfirst,
      List.flatMap_append, Store.lastGiven_append]
    cases Store.lastGiven ((said log).flatMap Event.given) key with
    | some e => rfl
    | none => exact Store.filter_later rest.times.1 _

namespace Reload

/-! ## Legs in any order -/

/-- What a leg sends to the store is one batch that sets keys. -/
theorem Leg.fills (leg : Leg V) (m : Memory V) : ∀ e ∈ leg.events m, e.Fills m.reload.life := by
  intro e he
  rcases List.mem_append.1 he with he | he
  · rcases List.mem_append.1 he with he | he
    · obtain ⟨answer, -, rfl⟩ := List.mem_map.1 he
      trivial
    · obtain ⟨v, -, rfl⟩ := List.mem_map.1 he
      trivial
  · unfold sent at he
    split at he
    · cases he
    · obtain rfl := List.mem_singleton.1 he
      exact ⟨leg.fates.puts, rfl⟩

theorem Leg.given_events (leg : Leg V) (m : Memory V) :
    (leg.events m).flatMap Event.given = leg.given m.reload.life := by
  have hasked : (leg.answers.map fun answer =>
      (.asked m.reloadSource (.loadBatch leg.keys) answer : Event V)).flatMap Event.given = [] := by
    rw [List.flatMap_map]
    exact List.flatMap_eq_nil_iff.2 fun answer _ => rfl
  have hjudged : (leg.fates.verdicts m.reloadSource).flatMap Event.given = [] := by
    rw [Fates.verdicts, List.flatMap_map]
    exact List.flatMap_eq_nil_iff.2 fun v _ => rfl
  rw [Leg.events, List.flatMap_append, List.flatMap_append, hasked, hjudged, Leg.given, sent]
  cases leg.fates.puts with
  | nil => rfl
  | cons p puts => exact (List.append_nil _).trans (Event.given_sets (p :: puts) _ _)

theorem total_legs (legs : List (Leg V)) :
    WarmUp.total (legs.map fun leg => .ok leg.fates.result) =
      .ok (Fates.result (legs.flatMap Leg.fates)) := by
  induction legs with
  | nil => rfl
  | cons leg legs ih =>
    rw [List.map_cons, WarmUp.total, ih, List.flatMap_cons, Fates.result_append]
    rfl

end Reload

namespace WarmUp

open Reload

/-- Chunks that go their own ways have legs. -/
theorem legs_of_dialogues {P : Exchange V → Prop} (hP : ∀ e, P e → e.Heard m)
    {keys : List (List String)} {parts : List (List (Exchange V) × Except Error ReloadResult)}
    (h : List.Forall₂ (fun keys part =>
      (loadChunk false keys).outcome.Dialogue P part.1 part.2) keys parts) :
    ∃ legs : List (Leg V), List.Forall₂ (fun keys leg => leg.Warms m keys) keys legs ∧
      parts.map Prod.snd = legs.map (fun leg => .ok leg.fates.result) ∧
      ∀ e, (∃ part ∈ parts, e ∈ said part.1) ↔ ∃ leg ∈ legs, e ∈ leg.events m := by
  induction h with
  | nil => exact ⟨[], .nil, rfl, by simp⟩
  | cons hfirst hrest ih =>
    obtain ⟨leg, hwarms, hresult, hsaid⟩ := dialogue_loadChunk hP hfirst
    obtain ⟨legs, hlegs, hresults, hevents⟩ := ih
    refine ⟨leg :: legs, .cons hwarms hlegs, ?_, fun e => ?_⟩
    · rw [List.map_cons, List.map_cons, hresult, hresults]
    · simp [hsaid, hevents]

/-- The chunks of a warm-up have their legs. The result adds them up in the order in which they
ended, and nothing else is said to the source or to the store. -/
theorem legs_of_load (hs : s.world.Steady) {keys : List String} {r : Except Error ReloadResult}
    (h : (load keys).outcome.Course s log r t) :
    ∃ legs order : List (Leg V),
      List.Forall₂ (fun part leg => leg.Warms s.memory part)
        (chunks s.memory.reload.batchSize keys) legs ∧
      order.Perm legs ∧ r = .ok (Fates.result (order.flatMap Leg.fates)) ∧
      ∀ e, e ∈ said log ↔ ∃ leg ∈ legs, e ∈ leg.events s.memory := by
  have hheard := h.heard hs (onlyReads_load keys)
  obtain ⟨log₁, hrest, rfl⟩ := Action.course_memory_then h
  obtain ⟨log₂, results, u, log₃, hgather, htotal, rfl⟩ := Action.course_always_then hrest
  obtain ⟨rfl, rfl, rfl⟩ := htotal.of_pure
  rw [List.append_nil] at hheard
  obtain ⟨parts, hparts, hresults, hevents⟩ := Program.gathers_gather (fun _ _ => trivial)
    (hgather.dialogue fun e he => hheard e (List.mem_cons_of_mem _ he))
  obtain ⟨legs, hlegs, hsnd, hsaid⟩ :=
    legs_of_dialogues (fun _ he => he) (List.forall₂_map_left_iff.1 hparts)
  -- The results stand in the order in which the chunks have ended, and so may the legs.
  rw [hsnd] at hresults
  obtain ⟨order, hsame, horder⟩ := List.perm_comp_forall₂ hresults
    (List.forall₂_map_left_iff.2 (List.forall₂_same.2 fun leg _ => rfl) :
      List.Forall₂ (fun r leg => r = .ok leg.fates.result)
        (legs.map fun leg => (.ok leg.fates.result : Except Error ReloadResult)) legs)
  obtain rfl : results = order.map fun leg => .ok leg.fates.result := by
    rw [← List.forall₂_map_right_iff, List.forall₂_eq_eq_eq] at hsame
    exact hsame
  refine ⟨legs, order, hlegs, horder, total_legs order, fun e => ?_⟩
  rw [← hsaid, ← hevents, List.append_nil]
  rfl

end WarmUp
end CacheLayer
