/-
Every run of an interplay is sound: whatever moves are made, in which order, the
two sides stand in some phases at which the record is valid, and from which the
rest of their programs can be walked through. Each move takes one of the sides
by a `Step` from its phase to another, or nothing comes of it (`Proceeds`).
-/
import CacheLayer.Proofs.WriteBehind.Walk

namespace CacheLayer.WriteBehind

variable {V α : Type} {i : Nat} {original : KeyMap V} {side : Side} {ph : Phases V}

/-- The caller may stand there when it is at the request. -/
def Phase.IsAt (q : Request V) : Phase V → Prop
  | idle => False
  | begun r | ending r | shutting r _ | closing r _ | deserted r | closed r _ => r = q
  | _ => True

/-- The caller's request, if it is at one, can be walked through from its phase. -/
def CallerGoesOn (original : KeyMap V) (p : Interplay V) (φ : Phase V) : Prop :=
  match p.request with
  | none => φ = .idle
  | some (q, program) => p.record.history.wish? = q.change? ∧ φ.IsAt q ∧
      Walks p.lane original .caller program (fun reply φ => φ.Concludes q reply) φ

/-- The interplay is in good order. -/
structure Going (original : KeyMap V) (ph : Phases V) (p : Interplay V) : Prop where
  valid : Valid p.lane original ph p.record
  caller : CallerGoesOn original p (ph .caller)
  worker : Walks p.lane original .worker p.turn (fun _ φ => φ = .resting ∨ φ = .gone) (ph .worker)

namespace Interplay

/-- What is seen of the interplay. -/
def sight (p : Interplay V) : Sight V := p.record.sight p.lane

/-- Nothing comes of it if the side is to take a step. -/
def isHeldUp (p : Interplay V) : Side → Bool
  | .caller =>
    match p.request with
    | none => true
    | some (_, .done _) => false
    | some (_, .ask q _) => q.hasToWait p.record.scene
  | .worker =>
    match p.turn with
    | .done () => true
    | .ask q _ => q.hasToWait p.record.scene

/-- The side that acts in a move. -/
def actor? (p : Interplay V) : Move V → Option Side
  | .ask _ => if p.request.isNone && p.record.scene.memory.usesLane p.lane then some .caller else none
  | .go side => if p.isHeldUp side then none else some side
  | _ => none

variable {p : Interplay V}

theorem actor?_held (h : p.isHeldUp side = true) : p.actor? (.go side) = none := if_pos h

theorem actor?_free (h : p.isHeldUp side = false) : p.actor? (.go side) = some side :=
  if_neg (by rw [h]; exact Bool.false_ne_true)

theorem isHeldUp_caller {r : Request V} {q : Ask V} {next : Answer q → Program V (Strategy.Reply V)}
    (hr : p.request = some (r, .ask q next)) :
    p.isHeldUp .caller = q.hasToWait p.record.scene := by
  simp only [isHeldUp, hr]

theorem isHeldUp_worker {q : Ask V} {next : Answer q → Program V Unit}
    (hturn : p.turn = .ask q next) : p.isHeldUp .worker = q.hasToWait p.record.scene := by
  simp only [isHeldUp, hturn]

end Interplay

/-- The side that acts takes a step, and if none does nothing changes. -/
def Proceeds (ph : Phases V) (x : Sight V) (ph' : Phases V) (x' : Sight V) : Option Side → Prop
  | some side => ∃ φ, ph' = Function.update ph side φ ∧ Step side (ph side) x φ x'
  | none => ph' = ph ∧ x' = x

/-! ## Steps -/

theorem step_walks {r : Record V} {q : Ask V} {next : Answer q → Program V α}
    {P : α → Phase V → Prop} (hr : Valid i original ph r)
    (hw : Walks i original side (.ask q next) P (ph side)) (hwait : q.hasToWait r.scene = false) :
    ∃ φ, Valid i original (Function.update ph side φ) (r.step i side (.ask q next)).2 ∧
      Step side (ph side) (r.sight i) φ ((r.step i side (.ask q next)).2.sight i) ∧
      Walks i original side (r.step i side (.ask q next)).1 P φ := by
  obtain ⟨φ, hadvances, hw'⟩ := hw.2 ph r rfl hr hwait
  rw [Record.step_ready hwait]
  exact ⟨φ, hr.advance hadvances rfl, hadvances.step, hw'⟩

/-- The event is one that a step of a program makes happen. -/
def Event.isStep : Event V → Bool
  | .asked _ | .replied _ _ => false
  | _ => true

theorem isStep_of_observe {h : History V} {before after : Lane V} {q : Ask V} {a : Answer q}
    {e : Event V} (he : observe side h before after q a = some e) : e.isStep = true := by
  cases q with
  | update f =>
    cases side with
    | caller =>
      simp only [observe, changed] at he
      split at he
      · obtain ⟨c, _, rfl⟩ := Option.map_eq_some_iff.1 he
        rfl
      · cases he
    | worker =>
      simp only [observe, changed] at he
      split at he
      · obtain ⟨x, _, rfl⟩ := Option.map_eq_some_iff.1 he
        rfl
      · cases he
  | request id c =>
    cases id with
    | main =>
      cases c with
      | loadOne key | store key v | remove key =>
        cases he
        rfl
      | _ => cases he
    | other j => cases he
  | _ => cases he

/-- A step of a program adds at most one event, which is neither a request nor a reply. -/
theorem history_step (r : Record V) (program : Program V α) :
    (r.step i side program).2.history = r.history ∨
      ∃ e : Event V, e.isStep = true ∧ (r.step i side program).2.history = e :: r.history := by
  cases program with
  | done a => exact .inl rfl
  | ask q next =>
    cases hwait : q.hasToWait r.scene with
    | true => exact .inl (by rw [Record.step_waiting hwait])
    | false =>
      have hstep : (r.step i side (.ask q next)).2.history =
          (observe side r.history (r.scene.memory.lane i) ((q.perform r.scene).2.memory.lane i) q
            (q.perform r.scene).1).toList ++ r.history := by
        rw [Record.step_ready hwait]
        rfl
      rw [hstep]
      cases he : observe side r.history (r.scene.memory.lane i)
          ((q.perform r.scene).2.memory.lane i) q (q.perform r.scene).1 with
      | none => exact .inl rfl
      | some e => exact .inr ⟨e, isStep_of_observe he, rfl⟩

theorem asked_of_step {r : Record V} {program : Program V α} {q : Request V}
    (h : .asked q ∈ (r.step i side program).2.history) : .asked q ∈ r.history := by
  rcases history_step r program with hsame | ⟨e, he, hstep⟩
  · rwa [hsame] at h
  · rw [hstep] at h
    rcases List.mem_cons.1 h with rfl | h
    · cases he
    · exact h

theorem wish?_step (r : Record V) (program : Program V α) :
    (r.step i side program).2.history.wish? = r.history.wish? := by
  rcases history_step r program with hsame | ⟨e, he, hstep⟩
  · rw [hsame]
  · rw [hstep]
    cases e <;> first | rfl | cases he

/-- A step of a program does not take the caller to another request. -/
theorem Step.isAt {φ φ' : Phase V} {x x' : Sight V} {q : Request V} (hs : Step .caller φ x φ' x')
    (hφ : φ.IsAt q) (hhistory : x'.history = x.history ∨
      ∃ e : Event V, e.isStep = true ∧ x'.history = e :: x.history) : φ'.IsAt q := by
  cases hs with
  | quiet | loaded | toEnding | toShutting | shut | already | flushed | halted | discard => exact hφ
  | asked => cases hφ
  | replied =>
    rcases hhistory with hsame | ⟨e, he, hcons⟩
    · exact absurd hsame (List.cons_ne_self _ _)
    · obtain ⟨rfl, -⟩ := List.cons.inj hcons
      cases he
  | _ => trivial

theorem Going.goCaller {p : Interplay V} (h : Going original ph p) :
    ∃ ph', Going original ph' p.goCaller ∧
      Proceeds ph p.sight ph' p.goCaller.sight (p.actor? (.go .caller)) := by
  have hcaller := h.caller
  unfold Interplay.goCaller
  cases hq : p.request with
  | none =>
    rw [Interplay.actor?_held (by simp only [Interplay.isHeldUp, hq])]
    exact ⟨ph, h, rfl, rfl⟩
  | some request =>
    obtain ⟨q, program⟩ := request
    rw [CallerGoesOn, hq] at hcaller
    obtain ⟨hwish, hat, hwalk⟩ := hcaller
    cases program with
    | done reply =>
      rw [Interplay.actor?_free (by simp only [Interplay.isHeldUp, hq])]
      refine ⟨Function.update ph .caller .idle, ⟨⟨h.valid.inRange, ?_⟩, rfl, h.worker⟩,
        .idle, rfl, .replied hwalk⟩
      exact h.valid.sound.replied hwalk
    | ask ask next =>
      have hheld := Interplay.isHeldUp_caller hq
      cases hwait : ask.hasToWait p.record.scene with
      | true =>
        rw [Interplay.actor?_held (hheld.trans hwait)]
        simp only [Record.step_waiting hwait]
        exact ⟨ph, ⟨h.valid, ⟨hwish, hat, hwalk⟩, h.worker⟩, rfl, rfl⟩
      | false =>
        rw [Interplay.actor?_free (hheld.trans hwait)]
        obtain ⟨φ, hvalid, hstep, hwalk'⟩ := step_walks h.valid hwalk hwait
        refine ⟨Function.update ph .caller φ, ⟨hvalid, ⟨?_, ?_⟩, h.worker⟩, φ, rfl, hstep⟩
        · exact (wish?_step p.record (Program.ask ask next)).trans hwish
        · rw [Function.update_self]
          exact ⟨hstep.isAt hat (history_step p.record (Program.ask ask next)), hwalk'⟩

theorem Going.goWorker {p : Interplay V} (h : Going original ph p) :
    ∃ ph', Going original ph' p.goWorker ∧
      Proceeds ph p.sight ph' p.goWorker.sight (p.actor? (.go .worker)) := by
  have hworker := h.worker
  unfold Interplay.goWorker
  cases hturn : p.turn with
  | done a =>
    rw [Interplay.actor?_held (by simp only [Interplay.isHeldUp, hturn])]
    rw [hturn] at hworker
    change ∃ ph', Going original ph' (if (p.record.scene.memory.lane p.lane).ended then p
      else { p with turn := workerTurn p.lane }) ∧ _
    split
    · exact ⟨ph, h, rfl, rfl⟩
    -- a turn that has ended rests, or the worker has left and the lane says so
    · next hended =>
      have hresting : ph .worker = .resting := by
        rcases hworker with hφ | hφ
        · exact hφ
        · exact absurd (h.valid.sound.gate.ended.2 hφ) hended
      refine ⟨ph, ⟨h.valid, h.caller, ?_⟩, rfl, rfl⟩
      rw [hresting]
      exact walks_workerTurn
  | ask q next =>
    rw [hturn] at hworker
    have hheld := Interplay.isHeldUp_worker hturn
    cases hwait : q.hasToWait p.record.scene with
    | true =>
      rw [Interplay.actor?_held (hheld.trans hwait)]
      simp only [Record.step_waiting hwait]
      exact ⟨ph, ⟨h.valid, h.caller, hworker⟩, rfl, rfl⟩
    | false =>
      rw [Interplay.actor?_free (hheld.trans hwait)]
      obtain ⟨φ, hvalid, hstep, hwalk⟩ := step_walks h.valid hworker hwait
      refine ⟨Function.update ph .worker φ, ⟨hvalid, ?_, ?_⟩, φ, rfl, hstep⟩
      · have hcaller := h.caller
        unfold CallerGoesOn at hcaller ⊢
        cases hq : p.request with
        | none =>
          rw [hq] at hcaller
          simpa [hq] using hcaller
        | some request =>
          rw [hq] at hcaller
          obtain ⟨hwish, hat, hwalk'⟩ := hcaller
          refine ⟨(wish?_step p.record (Program.ask q next)).trans hwish, ?_⟩
          rw [Function.update_of_ne (by decide)]
          exact ⟨hat, hwalk'⟩
      · rw [Function.update_self]
        exact hwalk

/-! ## Moves and runs -/

theorem Interplay.sight_outside (p : Interplay V) (w : World V) (m : Memory V) :
    (p.move (.outside w m)).sight = p.sight := by
  have hrows : ∀ rows : KeyMap V,
      (w.onSource .main fun source => { source with rows := rows }).rows = rows := by
    intro rows
    simp [World.rows, World.onSource, World.onSite]
  simp [Interplay.move, Interplay.inScene, Interplay.sight, Record.sight, hrows, Memory.usesLane,
    Memory.lane]

/-- **A move is a step of the side that acts in it.** -/
theorem Going.move {p : Interplay V} (h : Going original ph p) (mv : Move V) :
    ∃ ph', Going original ph' (p.move mv) ∧
      Proceeds ph p.sight ph' (p.move mv).sight (p.actor? mv) := by
  cases mv with
  | ask q =>
    simp only [Interplay.move, Interplay.actor?]
    cases hfree : p.request.isNone && p.record.scene.memory.usesLane p.lane with
    | false => exact ⟨ph, h, rfl, rfl⟩
    | true =>
      obtain ⟨hnone, huses⟩ := Bool.and_eq_true_iff.1 hfree
      have hidle : ph .caller = .idle := by
        have hcaller := h.caller
        rwa [CallerGoesOn, Option.isNone_iff_eq_none.1 hnone] at hcaller
      refine ⟨Function.update ph .caller (.begun q), ⟨⟨h.valid.inRange, ?_⟩, ⟨rfl, ?_⟩, h.worker⟩,
        .begun q, rfl, ?_⟩
      · exact h.valid.sound.asked hidle huses q
      · rw [Function.update_self]
        exact ⟨rfl, walks_request_program q⟩
      · rw [hidle]
        exact .asked huses q
  | go side =>
    cases side with
    | caller => exact h.goCaller
    | worker => exact h.goWorker
  | later ms => exact ⟨ph, ⟨⟨h.valid.inRange, h.valid.sound⟩, h.caller, h.worker⟩, rfl, rfl⟩
  | outside w m =>
    have hsight := p.sight_outside w m
    refine ⟨ph, ⟨⟨h.valid.inRange, ?_⟩, h.caller, h.worker⟩, rfl, hsight⟩
    have hsound : Sound original ph p.sight := h.valid.sound
    rw [← hsight] at hsound
    exact hsound

/-- Where the sides stand before anything has happened. -/
def Phases.start : Phases V
  | .caller => .idle
  | .worker => .resting

theorem Phases.hands_start : (Phases.start : Phases V).hands = fun _ => none := by
  funext side
  cases side <;> rfl

theorem going_start (life : Option Nat) (capacity : Nat) (w : World V) (m : Memory V) :
    Going w.rows .start (Interplay.start life capacity w m) := by
  have hlane : (Strategy.install .writeBehind life capacity m).lane m.lanes.length =
      Lane.fresh capacity := by
    simp [Strategy.install, Memory.lane]
  have hsound : Sound w.rows .start ((Interplay.start life capacity w m).record.sight m.lanes.length) := by
    refine ⟨?_, ?_, ?_⟩
    · rw [Phases.hands_start]
      simp only [Record.sight, Interplay.start, hlane]
      exact Ledger.start w.rows capacity
    · simp only [Record.sight, Interplay.start, hlane]
      exact Gate.start capacity
    · refine ⟨?_, ?_, trivial, ?_, ?_, ?_⟩
      · intro side hd hhd
        cases side <;> cases hhd
      · rintro hd ⟨⟩
      · rintro _ _ ⟨⟩
      · intro hstop
        simp only [Record.sight, Interplay.start, hlane] at hstop
        cases hstop
      · intro older c d hs
        simp [Record.sight, Interplay.start] at hs
  refine ⟨⟨?_, hsound⟩, rfl, walks_workerTurn⟩
  simp [Interplay.start, Strategy.install]

theorem going_play (life : Option Nat) (capacity : Nat) (w : World V) (m : Memory V)
    (moves : List (Move V)) :
    ∃ ph, Going w.rows ph ((Interplay.start life capacity w m).play moves) := by
  suffices h : ∀ p ph, Going w.rows ph p → ∃ ph', Going w.rows ph' (p.play moves) from
    h _ .start (going_start life capacity w m)
  induction moves with
  | nil => exact fun p ph h => ⟨ph, h⟩
  | cons mv moves ih =>
    intro p ph h
    obtain ⟨ph', h', -⟩ := h.move mv
    exact ih _ ph' h'

theorem asked_of_move {p : Interplay V} {mv : Move V} {q : Request V}
    (h : .asked q ∈ (p.move mv).record.history) : .asked q ∈ p.record.history ∨ mv = .ask q := by
  cases mv with
  | ask q' =>
    simp only [Interplay.move] at h
    split at h
    · rcases List.mem_cons.1 h with heq | h
      · cases heq
        exact .inr rfl
      · exact .inl h
    · exact .inl h
  | go side =>
    refine .inl ?_
    cases side with
    | caller =>
      simp only [Interplay.move, Interplay.goCaller] at h
      split at h
      · exact h
      · rcases List.mem_cons.1 h with heq | h
        · cases heq
        · exact h
      · exact asked_of_step h
    | worker =>
      simp only [Interplay.move, Interplay.goWorker] at h
      split at h
      · split at h <;> exact h
      · exact asked_of_step h
  | later ms => exact .inl h
  | outside w m => exact .inl h

theorem asked_of_play {p : Interplay V} {moves : List (Move V)} {q : Request V}
    (h : .asked q ∈ (p.play moves).record.history) :
    .asked q ∈ p.record.history ∨ .ask q ∈ moves := by
  induction moves generalizing p with
  | nil => exact .inl h
  | cons mv moves ih =>
    rcases ih h with h | h
    · rcases asked_of_move h with h | rfl
      · exact .inl h
      · exact .inr List.mem_cons_self
    · exact .inr (List.mem_cons_of_mem _ h)

end CacheLayer.WriteBehind
