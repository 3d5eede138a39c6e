/-
Who has a change in hand, as one sees it from outside. A watcher follows the moves of an interplay and
notes what each side has taken upon itself: a change that was issued or taken out of the queue, until
it goes into the queue or its number has left the line and the step after that is taken. The worker
keeps it for one step more, in which it stops counting as pending.

So it is known without a look at the counters which changes are unfinished, and the counters can be
held against it: the number of pending changes and the slots are exact at every moment (`IsExact`).
-/
import Mathlib.Order.Bounds.Basic
import CacheLayer.Proofs.WriteBehind.Convergence

namespace CacheLayer.WriteBehind

variable {V : Type}

/-! ## Watching -/

/-- How far a side has come with a change that it has taken upon itself. -/
inductive Progress where
  | applying
  /-- Its number has left the line. -/
  | served
  /-- It is finished, and its slot is up to date. -/
  | finished
  deriving DecidableEq

/-- A change that a side has taken upon itself. -/
structure Grip (V : Type) where
  number : Nat
  change : Change V
  progress : Progress

namespace Grip

/-- The change with its number. -/
def entry (g : Grip V) : Nat × Change V := (g.number, g.change)

/-- The change is not finished. -/
def isOpen (g : Grip V) : Bool := g.progress != .finished

/-- What a side has in hand after a step, given the lane before and after it. -/
def next (side : Side) (h : History V) (before after : Lane V) : Option (Grip V) → Option (Grip V)
  | none =>
    match changed side h before after with
    | some (.issued number c) | some (.taken number c) => some ⟨number, c, .applying⟩
    | _ => none
  | some ⟨number, c, .applying⟩ =>
    if after.line.length < before.line.length then some ⟨number, c, .served⟩
    else if before.queue.length < after.queue.length then none
    else some ⟨number, c, .applying⟩
  | some ⟨number, c, .served⟩ =>
    match side with
    | .caller => none
    | .worker => some ⟨number, c, .finished⟩
  | some ⟨_, _, .finished⟩ => none

end Grip

/-- An interplay, and what each side has in hand. -/
structure Watch (V : Type) where
  play : Interplay V
  grips : Side → Option (Grip V)

namespace Watch

/-- Watches one move. -/
def move (w : Watch V) (mv : Move V) : Watch V where
  play := w.play.move mv
  grips :=
    match w.play.actor? mv with
    | none => w.grips
    | some side =>
      Function.update w.grips side
        (Grip.next side w.play.record.history w.play.current (w.play.move mv).current
          (w.grips side))

/-- Watches one move after the other. -/
def run (w : Watch V) (moves : List (Move V)) : Watch V := moves.foldl move w

/-- Nothing is in hand when a strategy is put in force. -/
def start (life : Option Nat) (capacity : Nat) (w : World V) (m : Memory V) : Watch V :=
  ⟨.start life capacity w m, fun _ => none⟩

/-- To watch does not change anything. -/
theorem play_run (w : Watch V) (moves : List (Move V)) : (w.run moves).play = w.play.play moves := by
  induction moves generalizing w with
  | nil => rfl
  | cons mv moves ih => exact ih (w.move mv)

theorem run_concat (w : Watch V) (moves : List (Move V)) (mv : Move V) :
    w.run (moves ++ [mv]) = (w.run moves).move mv := by
  simp [run]

/-- The lane as it is. -/
def lane (w : Watch V) : Lane V := w.play.current

/-- What has happened. -/
def history (w : Watch V) : History V := w.play.record.history

/-- The change that a side has in hand, unless it is finished. -/
def held (w : Watch V) (side : Side) : List (Nat × Change V) :=
  ((w.grips side).filter Grip.isOpen).toList.map Grip.entry

/-- The changes that are not finished, the oldest first. -/
def unfinished (w : Watch V) : List (Nat × Change V) :=
  w.held .worker ++ w.lane.queue ++ w.held .caller

end Watch

/-! ## Phases -/

namespace Phase

/-- What the watcher sees in the hand of a side. -/
def grip? : Phase V → Option (Grip V)
  | holding hd => some ⟨hd.number, hd.change, if hd.stage = .left then .served else .applying⟩
  | admitted number c => some ⟨number, c, .applying⟩
  | releasing number c => some ⟨number, c, .finished⟩
  | _ => none

theorem held_eq (φ : Phase V) :
    (φ.grip?.filter Grip.isOpen).toList.map Grip.entry = φ.hand?.toList.map Hand.entry := by
  cases φ with
  | holding hd =>
    obtain ⟨number, c, stage⟩ := hd
    cases stage <;> rfl
  | _ => rfl

theorem load_eq (φ : Phase V) : φ.load = φ.grip?.toList.length := by
  cases φ <;> rfl

theorem grip?_of_concludes {φ : Phase V} {r : Request V} {reply : Strategy.Reply V}
    (h : φ.Concludes r reply) : φ.grip? = none := by
  cases φ <;> first | rfl | cases h

end Phase

/-! ## What a step does to a hand -/

section Steps

variable {original : KeyMap V} {ph : Phases V} {side : Side} {φ φ' : Phase V} {x x' : Sight V}
  {h : History V} {l l' : Lane V} {number : Nat} {c : Change V}

theorem next_none (hissued : l'.issued = l.issued) (hqueue : side = .worker → l'.queue = l.queue) :
    Grip.next side h l l' none = none := by
  cases side with
  | caller => simp [Grip.next, changed_caller hissued]
  | worker => simp [Grip.next, changed_same hissued (hqueue rfl)]

theorem next_applying (hline : ¬ l'.line.length < l.line.length)
    (hqueue : ¬ l.queue.length < l'.queue.length) :
    Grip.next side h l l' (some ⟨number, c, .applying⟩) = some ⟨number, c, .applying⟩ := by
  simp [Grip.next, hline, hqueue]

/-- A step that leaves the lane alone leaves in hand what was. -/
theorem next_same (hφ : φ.mayPause = true) : Grip.next side h l l φ.grip? = φ.grip? := by
  cases φ with
  | begun | settled => exact next_none rfl fun _ => rfl
  | holding hd =>
    obtain ⟨number, c, stage⟩ := hd
    cases stage with
    | left => cases hφ
    | _ => exact next_applying (Nat.lt_irrefl _) (Nat.lt_irrefl _)
  | _ => cases hφ

/-- **The watcher sees what a step does.** -/
theorem Step.grip? (hs : Step side φ x φ' x') (h : Sound original ph x) (hφ : ph side = φ) :
    Grip.next side x.history x.lane x'.lane φ.grip? = φ'.grip? := by
  cases hs with
  | quiet hpause | loaded hpause => exact next_same hpause
  | enterLine =>
    refine next_applying ?_ (Nat.lt_irrefl _)
    simp [Lane.enterLine]
  | serve | clear | skip | send | findRoom =>
    exact next_applying (Nat.lt_irrefl _) (Nat.lt_irrefl _)
  | leaveLine =>
    -- the number is at the head of the line, so that one is gone from it
    have hhead := h.books.front side _ (Sound.hands_of_holding hφ) rfl
    obtain ⟨rest, hrest⟩ := List.head?_eq_some_iff.1 hhead
    simp [Phase.grip?, Grip.next, Lane.leaveLine, hrest]
  | finish => cases side <;> rfl
  | pop =>
    have hk := h.gate.worker
    rw [hφ] at hk
    simp [Phase.grip?, Grip.next, changed_pop hk]
  | issue hr =>
    have hk := h.told.caller
    rw [hφ] at hk
    simp [Phase.grip?, Grip.next, changed_issue (hk.2.1.trans hr)]
  | push => simp [Phase.grip?, Grip.next, Lane.push]
  | release => rfl
  | called | choose | turnAway | leave | asked | toEnding | toShutting | already | flushed |
    halted => exact next_none rfl fun _ => rfl
  | @shut x r count =>
    refine next_none ?_ (by rintro ⟨⟩)
    cases r.flushes <;> rfl
  | discard => exact next_none (by rw [Lane.discard, sweep_eq]) (by rintro ⟨⟩)
  | replied hconcludes =>
    rw [Phase.grip?_of_concludes hconcludes]
    exact next_none rfl fun _ => rfl

theorem Step.capacity (hs : Step side φ x φ' x') : x'.lane.capacity = x.lane.capacity := by
  cases hs with
  | finish => rw [finish_eq]
  | @shut x r count => cases r.flushes <;> rfl
  | discard => rw [Lane.discard, sweep_eq]
  | _ => rfl

end Steps

/-! ## Runs -/

/-- The watcher sees what the two sides have in hand. -/
structure Watched (original : KeyMap V) (ph : Phases V) (w : Watch V) : Prop where
  going : Going original ph w.play
  grips : ∀ side, w.grips side = (ph side).grip?

namespace Watched

variable {original : KeyMap V} {ph : Phases V} {w : Watch V}

theorem sound (h : Watched original ph w) : Sound original ph w.play.sight := h.going.valid.sound

/-- **A move is watched as the step that it is.** -/
theorem move (h : Watched original ph w) (mv : Move V) :
    ∃ ph', Watched original ph' (w.move mv) ∧
      Proceeds ph w.play.sight ph' (w.move mv).play.sight (w.play.actor? mv) := by
  obtain ⟨ph', hgoing, hproceeds⟩ := h.going.move mv
  refine ⟨ph', ⟨hgoing, fun side => ?_⟩, hproceeds⟩
  unfold Watch.move
  cases hactor : w.play.actor? mv with
  | none =>
    rw [hactor] at hproceeds
    rw [hproceeds.1]
    exact h.grips side
  | some actor =>
    rw [hactor] at hproceeds
    obtain ⟨φ, rfl, hstep⟩ := hproceeds
    have hnext := hstep.grip? h.sound rfl
    by_cases hside : side = actor
    · subst hside
      simp only [Function.update_self]
      rw [h.grips side]
      exact hnext
    · simp only [Function.update_of_ne hside]
      exact h.grips side

theorem held (h : Watched original ph w) (side : Side) :
    w.held side = (ph.hands side).toList.map Hand.entry := by
  rw [Watch.held, h.grips side]
  exact (ph side).held_eq

theorem unfinished (h : Watched original ph w) :
    w.unfinished = owed ph.hands w.lane.queue := by
  rw [Watch.unfinished, h.held, h.held]
  rfl

end Watched

theorem watched_start (life : Option Nat) (capacity : Nat) (w : World V) (m : Memory V) :
    Watched w.rows .start (.start life capacity w m) :=
  ⟨going_start life capacity w m, fun side => by cases side <;> rfl⟩

/-! ## Exactness -/

/-- The counters of a lane are exact. -/
structure IsExact (capacity : Nat) (w : Watch V) : Prop where
  /-- Pending are the waiting changes, and the one that the worker has in hand. -/
  pending : w.lane.pending = w.lane.queue.length + (w.grips .worker).toList.length
  capacity : w.lane.queue.length ≤ max capacity 1
  /-- A key has no slot exactly if no change of it is unfinished. -/
  free : ∀ key, w.lane.slots.get? key = none ↔ ∀ x ∈ w.unfinished, x.2.key ≠ key
  /-- A slot holds how many changes of its key are unfinished, and the largest number of all that
  were issued. -/
  slot : ∀ key slot, w.lane.slots.get? key = some slot →
    slot.outstanding = w.unfinished.countP (fun x => x.2.key == key) ∧
    IsGreatest {n | ∃ c, (n, c) ∈ w.history.issues ∧ c.key = key} slot.latest
  /-- Unfinished are changes that were issued, each of them once. -/
  issued : ∀ x ∈ w.unfinished, x ∈ w.history.issues
  once : w.unfinished.Pairwise fun x y => x.1 < y.1
  /-- Who is at nothing has nothing in hand. -/
  caller : w.play.request = none → w.grips .caller = none
  worker : w.play.turn = .done () → w.grips .worker = none

theorem countOn_eq_zero {key : String} {owed : List (Nat × Change V)} :
    countOn key owed = 0 ↔ ∀ x ∈ owed, x.2.key ≠ key := by
  simp [countOn, List.countP_eq_zero]

/-- The number of the newest change is the largest. -/
theorem isGreatest_latest {issues : List (Nat × Change V)} {key : String} {x : Nat × Change V}
    (ho : issues.Pairwise fun a b => b.1 < a.1) (hx : x ∈ issues) (hkey : x.2.key = key) :
    IsGreatest {n | ∃ c, (n, c) ∈ issues ∧ c.key = key} (latest key issues) := by
  obtain ⟨y, hnewest⟩ := exists_newest? hx hkey
  have hlatest : latest key issues = y.1 := by
    rw [latest, hnewest]
    rfl
  rw [hlatest]
  refine ⟨⟨y.2, newest?_mem hnewest⟩, ?_⟩
  rintro n ⟨c, hissued, hc⟩
  exact le_of_newest? ho hnewest hissued hc

namespace Watched

variable {original : KeyMap V} {ph : Phases V} {w : Watch V} {capacity : Nat}

theorem caller_free (h : Watched original ph w) (hidle : w.play.request = none) :
    ph .caller = .idle := by
  have hcaller := h.going.caller
  rwa [CallerGoesOn, hidle] at hcaller

theorem isExact (h : Watched original ph w) (hcapacity : w.lane.capacity = max capacity 1) :
    IsExact capacity w where
  pending := by
    rw [h.grips .worker, ← Phase.load_eq]
    exact h.sound.gate.pending
  capacity := hcapacity ▸ h.sound.gate.capacity
  free key := by
    rw [h.unfinished, ← countOn_eq_zero]
    have htallies := h.sound.books.tallies key
    change w.lane.slots.get? key = _ at htallies
    rw [htallies]
    change (if countOn key (owed ph.hands w.lane.queue) = 0 then _ else _) = none ↔ _
    by_cases hzero : countOn key (owed ph.hands w.lane.queue) = 0 <;> simp [hzero]
  slot key slot hslot := by
    have htallies := h.sound.books.tallies key
    change w.lane.slots.get? key = _ at htallies
    rw [hslot] at htallies
    change some slot = if countOn key (owed ph.hands w.lane.queue) = 0 then none else _ at htallies
    split at htallies
    · cases htallies
    · next hpos =>
      obtain rfl := Option.some.inj htallies
      rw [h.unfinished]
      obtain ⟨x, hx, hkey⟩ : ∃ x ∈ owed ph.hands w.lane.queue, x.2.key = key := by
        by_contra hnone
        refine hpos (countOn_eq_zero.2 fun x hx hkey => hnone ⟨x, hx, hkey⟩)
      exact ⟨rfl, isGreatest_latest h.sound.books.issueOrder (h.sound.books.owedIssued x hx) hkey⟩
  issued := by
    rw [h.unfinished]
    exact h.sound.books.owedIssued
  once := by
    rw [h.unfinished]
    exact h.sound.books.owedOrder
  caller hidle := by rw [h.grips .caller, h.caller_free hidle]; rfl
  worker hdone := by
    have hturn := h.going.worker
    rw [hdone] at hturn
    rw [h.grips .worker]
    rcases hturn with hφ | hφ <;> rw [hφ] <;> rfl

end Watched

end CacheLayer.WriteBehind
