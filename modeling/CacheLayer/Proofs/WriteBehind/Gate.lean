/-
Where the caller and the worker stand in their programs, and what the queue and
the switches of the lane look like meanwhile. The caller alone opens and shuts;
the worker leaves only when it was told to or when nothing can come any more, so
a lane that is shut and has no caller waiting for its end is empty for good.
-/
import CacheLayer.Proofs.WriteBehind.Ledger

namespace CacheLayer.WriteBehind

variable {V : Type}

/-- Where a side stands. -/
inductive Phase (V : Type) where
  /-- The caller is at no request. -/
  | idle
  /-- The caller is at a request, and has not issued a change so far. -/
  | begun (r : Request V)
  /-- A side has a change in hand. -/
  | holding (hd : Hand V)
  /-- The caller has seen that there is room for its change in the queue. -/
  | admitted (number : Nat) (c : Change V)
  /-- The caller's change is in the queue, or is finished. -/
  | settled (number : Nat) (c : Change V)
  /-- The caller is about to see whether the lane is open, and if so to shut it. -/
  | ending (r : Request V)
  /-- The caller has seen that the lane is open, and how many changes are pending. -/
  | shutting (r : Request V) (count : Nat)
  /-- The caller has shut the lane and waits for the worker to leave. -/
  | closing (r : Request V) (count : Nat)
  /-- The worker has left, and the caller is about to throw away what waits. -/
  | deserted (r : Request V)
  /-- The lane is shut for good, and the caller has counted changes. -/
  | closed (r : Request V) (count : Nat)
  /-- The worker waits for something to do. -/
  | resting
  /-- The worker has something to do. -/
  | called
  /-- The worker is about to take a change. -/
  | chosen (number : Nat) (c : Change V)
  /-- The worker is about to leave. -/
  | leaving
  /-- The worker has finished a change that still counts as pending. -/
  | releasing (number : Nat) (c : Change V)
  /-- The worker has left. -/
  | gone

namespace Phase

/-- The change in hand. -/
def hand? : Phase V → Option (Hand V)
  | holding hd => some hd
  | admitted number c => some ⟨number, c, .taken⟩
  | _ => none

/-- How many changes the worker has that count as pending. -/
def load : Phase V → Nat
  | holding _ | admitted _ _ | releasing _ _ => 1
  | _ => 0

/-- The caller is shutting the lane. -/
def isClosing : Phase V → Bool
  | closing _ _ | deserted _ => true
  | _ => false

theorem hand?_of_load {φ : Phase V} (h : φ.load = 0) : φ.hand? = none := by
  cases φ <;> first | rfl | cases h

/-- What the caller knows of the lane where it stands. -/
def CallerKnows (l : Lane V) : Phase V → Prop
  | admitted _ _ => l.hasRoom = true
  | shutting _ _ => l.isOpen = true
  | closing r _ => l.isOpen = false ∧ l.stopping = !r.flushes
  | deserted _ => l.isOpen = false ∧ l.stopping = true ∧ l.ended = true
  | closed _ _ => l.ended = true ∧ l.queue = []
  | _ => True

/-- What the worker knows of the lane where it stands. -/
def WorkerKnows (l : Lane V) : Phase V → Prop
  | called => l.calls = true
  | chosen number c => l.queue.head? = some (number, c)
  | leaving | gone => l.isOpen = false ∧ (l.stopping = true ∨ l.queue = [])
  | _ => True

end Phase

/-- The queue and the switches fit to where the two sides stand. -/
structure Gate (worker caller : Phase V) (l : Lane V) : Prop where
  capacity : l.queue.length ≤ l.capacity
  pending : l.pending = l.queue.length + worker.load
  ended : l.ended = true ↔ worker = .gone
  stopping : l.stopping = true → l.isOpen = false
  shut : l.isOpen = false → (l.ended = true ∧ l.queue = []) ∨ caller.isClosing = true
  worker : worker.WorkerKnows l
  caller : caller.CallerKnows l


namespace Gate

variable {worker caller : Phase V} {l l' : Lane V} {number count : Nat} {c : Change V}
  {r : Request V}

/-- A lane on which nothing happens that the gate looks at. -/
structure Same (l l' : Lane V) : Prop where
  capacity : l'.capacity = l.capacity
  queue : l'.queue = l.queue
  pending : l'.pending = l.pending
  ended : l'.ended = l.ended
  stopping : l'.stopping = l.stopping
  isOpen : l'.isOpen = l.isOpen

theorem Same.refl (l : Lane V) : Same l l := ⟨rfl, rfl, rfl, rfl, rfl, rfl⟩

theorem same (h : Gate worker caller l) (hs : Same l l') : Gate worker caller l' where
  capacity := by rw [hs.queue, hs.capacity]; exact h.capacity
  pending := by rw [hs.pending, hs.queue]; exact h.pending
  ended := by rw [hs.ended]; exact h.ended
  stopping := by rw [hs.stopping, hs.isOpen]; exact h.stopping
  shut := by rw [hs.isOpen, hs.ended, hs.queue]; exact h.shut
  worker := by
    have hk := h.worker
    cases worker with
    | called =>
      simpa [Phase.WorkerKnows, Lane.calls, hs.queue, hs.ended, hs.stopping, hs.isOpen] using hk
    | chosen | leaving | gone =>
      simpa [Phase.WorkerKnows, hs.queue, hs.stopping, hs.isOpen] using hk
    | _ => trivial
  caller := by
    have hk := h.caller
    cases caller with
    | admitted =>
      simpa [Phase.CallerKnows, Lane.hasRoom, hs.queue, hs.capacity, hs.isOpen] using hk
    | shutting | closing | deserted | closed =>
      simpa [Phase.CallerKnows, hs.queue, hs.ended, hs.stopping, hs.isOpen] using hk
    | _ => trivial

theorem callerTo (h : Gate worker caller l) (φ : Phase V) (hk : φ.CallerKnows l)
    (hc : caller.isClosing = true → φ.isClosing = true) : Gate worker φ l :=
  ⟨h.capacity, h.pending, h.ended, h.stopping, fun ho => (h.shut ho).imp_right hc, h.worker, hk⟩

theorem workerTo (h : Gate worker caller l) (φ : Phase V) (hk : φ.WorkerKnows l)
    (hload : φ.load = worker.load) (hgone : φ = .gone ↔ worker = .gone) : Gate φ caller l :=
  ⟨h.capacity, by rw [hload]; exact h.pending, by rw [hgone]; exact h.ended, h.stopping, h.shut,
    hk, h.caller⟩

theorem not_ended (h : Gate worker caller l) (hw : worker ≠ .gone) : l.ended = false := by
  cases he : l.ended with
  | false => rfl
  | true => exact absurd (h.ended.1 he) hw

theorem push (h : Gate worker (.admitted number c) l) :
    Gate worker (.settled number c) (l.push number c) := by
  have hroom : l.isOpen = true ∧ l.queue.length < l.capacity := by
    simpa [Phase.CallerKnows, Lane.hasRoom] using h.caller
  refine ⟨?_, ?_, h.ended, h.stopping, ?_, ?_, trivial⟩
  · simp only [Lane.push, List.length_append, List.length_singleton]
    omega
  · have hp := h.pending
    simp only [Lane.push, List.length_append, List.length_singleton]
    omega
  · intro ho
    rw [show (l.push number c).isOpen = l.isOpen from rfl, hroom.1] at ho
    cases ho
  · have hk := h.worker
    cases worker with
    | called =>
      simp only [Phase.WorkerKnows, Lane.calls, Bool.and_eq_true] at hk
      simp [Phase.WorkerKnows, Lane.calls, Lane.push, hk.1]
    | chosen n d =>
      simp only [Phase.WorkerKnows] at hk
      simp [Phase.WorkerKnows, Lane.push, List.head?_append, hk]
    | leaving | gone =>
      rw [Phase.WorkerKnows, hroom.1] at hk
      cases hk.1
    | _ => trivial

theorem pop (h : Gate (.chosen number c) caller l) (hd : Hand V) :
    Gate (.holding hd) caller l.pop := by
  have hended : l.ended = false := h.not_ended (by simp)
  obtain ⟨rest, hrest⟩ := List.head?_eq_some_iff.1 h.worker
  have hcapacity := h.capacity
  have hpending := h.pending
  rw [hrest, List.length_cons] at hcapacity hpending
  refine ⟨?_, ?_, ?_, h.stopping, ?_, trivial, ?_⟩
  · simp only [Lane.pop, hrest, List.tail_cons]
    omega
  · simp only [Lane.pop, hrest, List.tail_cons, Phase.load]
    simpa [Phase.load] using hpending
  · simp [Lane.pop, hended]
  · intro ho
    rcases h.shut ho with ⟨he, -⟩ | hc
    · rw [hended] at he
      cases he
    · exact .inr hc
  · have hk := h.caller
    cases caller with
    | admitted n d =>
      simp only [Phase.CallerKnows, Lane.hasRoom, hrest, List.length_cons, Bool.and_eq_true,
        decide_eq_true_eq] at hk
      simp only [Phase.CallerKnows, Lane.hasRoom, Lane.pop, hrest, List.tail_cons, hk.1,
        Bool.true_and, decide_eq_true_eq]
      omega
    | shutting | closing | deserted => exact hk
    | closed =>
      rw [Phase.CallerKnows, hended] at hk
      cases hk.1
    | _ => trivial

theorem release (h : Gate (.releasing number c) caller l) : Gate .resting caller l.release := by
  have hp := h.pending
  refine ⟨h.capacity, ?_, ?_, h.stopping, h.shut, trivial, ?_⟩
  · simp only [Lane.release, hp, Phase.load]
    omega
  · have he := h.ended
    simpa [Lane.release] using he
  · have hk := h.caller
    cases caller <;> exact hk

theorem leave (h : Gate .leaving caller l) : Gate .gone caller l.leave := by
  have hk := h.worker
  have hcaller := h.caller
  refine ⟨h.capacity, h.pending, ?_, h.stopping, ?_, hk, ?_⟩
  · simp [Lane.leave]
  · intro ho
    rcases h.shut ho with ⟨he, hq⟩ | hc
    · exact .inl ⟨rfl, hq⟩
    · exact .inr hc
  · cases caller with
    | deserted => exact ⟨hcaller.1, hcaller.2.1, rfl⟩
    | closed => exact ⟨rfl, hcaller.2⟩
    | _ => exact hcaller

theorem shutLane (h : Gate worker (.shutting r count) l) :
    Gate worker (.closing r count) (if r.flushes then l.close else l.halt) := by
  have ho : l.isOpen = true := h.caller
  have hopen : l.stopping = false := by
    cases hs : l.stopping with
    | false => rfl
    | true =>
      rw [h.stopping hs] at ho
      cases ho
  have hw := h.worker
  cases hflush : r.flushes with
  | true =>
    refine ⟨h.capacity, h.pending, h.ended, fun _ => rfl, fun _ => .inr rfl, ?_, rfl,
      hopen.trans (by rw [hflush]; rfl)⟩
    cases worker with
    | called =>
      simp only [Phase.WorkerKnows, Lane.calls, Bool.and_eq_true] at hw
      simp [Phase.WorkerKnows, Lane.calls, Lane.close, hw.1]
    | leaving | gone => exact ⟨rfl, hw.2⟩
    | _ => exact hw
  | false =>
    refine ⟨h.capacity, h.pending, h.ended, fun _ => rfl, fun _ => .inr rfl, ?_, rfl,
      by rw [hflush]; rfl⟩
    cases worker with
    | called =>
      simp only [Phase.WorkerKnows, Lane.calls, Bool.and_eq_true] at hw
      simp [Phase.WorkerKnows, Lane.calls, Lane.halt, hw.1]
    | leaving | gone => exact ⟨rfl, .inl rfl⟩
    | _ => exact hw

/-- After a flush, nothing waits when the worker has left. -/
theorem flushed (h : Gate worker (.closing r count) l) (hflush : r.flushes = true)
    (he : l.ended = true) : Gate worker (.closed r count) l := by
  have hw := h.worker
  rw [h.ended.1 he] at hw
  have hq : l.queue = [] := by
    rcases hw.2 with hs | hq
    · have hstop : l.stopping = !r.flushes := h.caller.2
      rw [hs, hflush] at hstop
      cases hstop
    · exact hq
  exact ⟨h.capacity, h.pending, h.ended, h.stopping, fun _ => .inl ⟨he, hq⟩, h.worker, he, hq⟩

theorem halted (h : Gate worker (.closing r count) l) (hflush : r.flushes = false)
    (he : l.ended = true) : Gate worker (.deserted r) l :=
  h.callerTo (.deserted r) ⟨h.caller.1, h.caller.2.trans (by rw [hflush]; rfl), he⟩ fun _ => rfl

theorem already (h : Gate worker (.ending r) l) (ho : l.isOpen = false) :
    Gate worker (.closed r 0) l := by
  refine h.callerTo (.closed r 0) ?_ (by rintro ⟨⟩)
  rcases h.shut ho with hover | hc
  · exact hover
  · cases hc

theorem discard (h : Gate worker (.deserted r) l) (count : Nat) :
    Gate worker (.closed r count) l.discard := by
  obtain ⟨ho, hs, he⟩ := h.caller
  have hp := h.pending
  have hw := h.ended.1 he
  subst hw
  rw [Lane.discard, sweep_eq]
  refine ⟨Nat.zero_le _, ?_, h.ended, h.stopping, fun _ => .inl ⟨he, rfl⟩, ⟨ho, .inl hs⟩, he, rfl⟩
  simp only [Phase.load, List.length_nil] at hp ⊢
  omega

theorem start (capacity : Nat) : Gate (V := V) .resting .idle (Lane.fresh capacity) where
  capacity := Nat.zero_le _
  pending := rfl
  ended := by simp [Lane.fresh]
  stopping := by simp [Lane.fresh]
  shut := by simp [Lane.fresh]
  worker := trivial
  caller := trivial

end Gate
end CacheLayer.WriteBehind
