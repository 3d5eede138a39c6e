/-
A lane gets on, wherever a run has come to: the request that the caller is at can return, and when it
is at none the lane can be drained. All that this takes is steps of the two sides, and that time passes.

The caller waits for the worker in two places. In line, a worker that is before it has only to leave
the line (`Lively.serves`). At the end of a shutdown the worker takes one waiting change after the
other, with fewer left each time, until it leaves (`Lively.ends`). A close of the engine also waits for
the schedule of reloads, whose end is up to others.

Main statements: `returns_of_request`, `drains_of_idle`.
-/
import CacheLayer.Proofs.Program.Progress
import CacheLayer.Proofs.WriteBehind.Convergence
import CacheLayer.Proofs.WriteBehind.Line

namespace CacheLayer.WriteBehind

variable {V : Type} {original : KeyMap V} {ph : Phases V} {p : Interplay V} {φ φ' : Phase V}
  {x x' : Sight V} {side : Side} {i : Nat}

/-- A side takes a step, or time passes. -/
def Move.IsStep : Move V → Prop
  | .go _ | .later _ => True
  | _ => False

namespace Phase

/-- Only the worker stands there. -/
def isWorkers : Phase V → Bool
  | resting | called | chosen _ _ | leaving | releasing _ _ | gone => true
  | _ => false

/-- The side may stand there. -/
def IsOf (φ : Phase V) : Side → Prop
  | .caller => φ.isWorkers = false
  | .worker => φ.isWorkers = true ∨ ∃ hd, φ = .holding hd

theorem isOf_holding (hd : Hand V) (side : Side) : (holding hd).IsOf side := by
  cases side with
  | caller => rfl
  | worker => exact .inr ⟨hd, rfl⟩

/-- What a side waits for where it stands is the case. -/
def Met (i : Nat) (m : Memory V) (φ : Phase V) : Prop := ∀ ready, φ.Awaits i ready → ready m = true

end Phase

theorem Step.isOf (hs : Step side φ x φ' x') (hφ : φ.IsOf side) : φ'.IsOf side := by
  cases hs with
  | quiet | loaded => exact hφ
  | enterLine | serve | clear | skip | send | leaveLine | pop | issue => exact Phase.isOf_holding _ _
  | finish =>
    cases side with
    | caller => rfl
    | worker => exact .inl rfl
  | called | choose | turnAway | release | leave => exact .inl rfl
  | _ => rfl

/-- A request is ready some time later, if what the side waits for is the case. -/
theorem Phase.Makes.ready {q : Ask V} (hmakes : φ.Makes i q) {s : Scene V}
    (hmet : φ.Met i s.memory) : ∃ ms, q.hasToWait { s with world := s.world.later ms } = false := by
  cases q with
  | wait w =>
    rcases hmakes with htimed | hawaits
    · exact Ask.IsTimed.over (q := .wait w) htimed rfl s
    · exact ⟨0, by simp [Ask.hasToWait, Wait.isOver, hmet _ hawaits]⟩
  | overflow o => exact hmakes.elim
  | _ => exact ⟨0, rfl⟩

/-! ## Interplays that can go on -/

/-- The interplay is in good order, and so is its line. -/
structure Lively (original : KeyMap V) (ph : Phases V) (p : Interplay V) : Prop where
  going : Going original ph p
  line : Lined ph p.sight.lane.line
  own : ∀ side, (ph side).IsOf side

theorem Lively.move (h : Lively original ph p) (mv : Move V) :
    ∃ ph', Lively original ph' (p.move mv) ∧
      Proceeds ph p.sight ph' (p.move mv).sight (p.actor? mv) := by
  obtain ⟨ph', hgoing, hproceeds⟩ := h.going.move mv
  refine ⟨ph', ?_, hproceeds⟩
  generalize p.actor? mv = actor at hproceeds
  cases actor with
  | none =>
    obtain ⟨rfl, hsight⟩ := hproceeds
    exact ⟨hgoing, hsight ▸ h.line, h.own⟩
  | some side =>
    obtain ⟨φ, rfl, hstep⟩ := hproceeds
    refine ⟨hgoing, h.line.step h.going.valid.sound hstep, fun t => ?_⟩
    by_cases ht : t = side
    · subst ht
      rw [Function.update_self]
      exact hstep.isOf (h.own t)
    · rw [Function.update_of_ne ht]
      exact h.own t

theorem lively_play (life : Option Nat) (capacity : Nat) (w : World V) (m : Memory V)
    (moves : List (Move V)) :
    ∃ ph, Lively w.rows ph ((Interplay.start life capacity w m).play moves) := by
  have hstart : Lively w.rows .start (Interplay.start life capacity w m) := by
    refine ⟨going_start life capacity w m, ?_, fun side => ?_⟩
    · have hempty : (Interplay.start life capacity w m).sight.lane.line = [] := by
        simp [Interplay.sight, Record.sight, Interplay.start, Strategy.install, Memory.lane, Lane.fresh]
      rw [hempty]
      exact lined_start
    · cases side with
      | caller => rfl
      | worker => exact .inl rfl
  generalize Interplay.start life capacity w m = p at hstart
  generalize Phases.start = ph at hstart
  induction moves generalizing p ph with
  | nil => exact ⟨ph, hstart⟩
  | cons mv moves ih =>
    obtain ⟨ph', h', -⟩ := hstart.move mv
    exact ih _ _ h'

theorem Lively.later (h : Lively original ph p) (ms : Nat) :
    Lively original ph (p.move (.later ms)) := by
  obtain ⟨ph', h', rfl, -⟩ := h.move (.later ms)
  exact h'

/-! ## Steps of the worker -/

/-- Steps lead to where `P` holds of the worker's phase and of the lane, and the caller stays where it
is meanwhile. -/
def CanGet (original : KeyMap V) (ph : Phases V) (p : Interplay V) (P : Phase V → Lane V → Prop) :
    Prop :=
  MayReach Interplay.move Move.IsStep p fun q => ∃ ph', Lively original ph' q ∧
    ph' .caller = ph .caller ∧ q.request = p.request ∧ P (ph' .worker) q.sight.lane

theorem CanGet.trans {P Q : Phase V → Lane V → Prop} (h : CanGet original ph p P)
    (hPQ : ∀ ph' q, Lively original ph' q → ph' .caller = ph .caller →
      P (ph' .worker) q.sight.lane → CanGet original ph' q Q) : CanGet original ph p Q := by
  refine MayReach.trans h ?_
  rintro q ⟨ph', hq, hcaller, hr, hP⟩
  refine (hPQ ph' q hq hcaller hP).mono ?_
  rintro q' ⟨ph'', hq', hcaller', hr', hQ⟩
  exact ⟨ph'', hq', hcaller'.trans hcaller, hr'.trans hr, hQ⟩

namespace Lively

variable {P : Phase V → Lane V → Prop}

theorem here (h : Lively original ph p) (hP : P (ph .worker) p.sight.lane) : CanGet original ph p P :=
  MayReach.here ⟨ph, h, rfl, rfl, hP⟩

/-- The worker's next request is answered. -/
theorem gets (h : Lively original ph p) {q : Ask V} {next : Answer q → Program V Unit}
    (hturn : p.turn = .ask q next) (hmet : (ph .worker).Met p.lane p.record.scene.memory)
    (hgo : ∀ a φ p', Lively original (Function.update ph .worker φ) p' →
      Step .worker (ph .worker) p.sight φ p'.sight → p'.turn = next a →
      CanGet original (Function.update ph .worker φ) p' P) : CanGet original ph p P := by
  have hworker := h.going.worker
  rw [hturn] at hworker
  obtain ⟨ms, hready⟩ := hworker.1.ready hmet
  obtain ⟨ph', h', hproceeds⟩ := (h.later ms).move (.go .worker)
  have hturn' : (p.move (.later ms)).turn = .ask q next := hturn
  rw [Interplay.actor?_free ((Interplay.isHeldUp_worker hturn').trans hready)] at hproceeds
  obtain ⟨φ, rfl, hstep⟩ := hproceeds
  have hgoes : (p.move (.later ms)).goWorker.request = p.request ∧
      ∃ a, (p.move (.later ms)).goWorker.turn = next a := by
    simp only [Interplay.goWorker, hturn', Record.step_ready (r := (p.move (.later ms)).record) hready]
    exact ⟨rfl, _, rfl⟩
  obtain ⟨hr, a, hnext⟩ := hgoes
  have hreach := hgo a φ _ h' hstep hnext
  refine .step (m := .later ms) trivial (.step (m := .go .worker) trivial (hreach.mono ?_))
  rintro q ⟨ph'', hq, hcaller, hr', hP⟩
  rw [Function.update_of_ne (by decide)] at hcaller
  exact ⟨ph'', hq, hcaller, hr'.trans hr, hP⟩

/-- The worker does not wait for the caller, unless the caller is first in line or the worker rests. -/
theorem met_worker (h : Lively original ph p)
    (hcaller : ∀ n, (ph .caller).ticket? = some n → p.sight.lane.line.head? ≠ some n)
    (hrests : ph .worker ≠ .resting) : (ph .worker).Met p.lane p.record.scene.memory := by
  intro ready hready
  have hown := h.own .worker
  cases hφ : ph .worker with
  | holding hd =>
    obtain ⟨number, c, stage⟩ := hd
    rw [hφ] at hready
    cases stage with
    | waiting =>
      have hin : (ph .worker).ticket? = some number := by rw [hφ]; rfl
      obtain ⟨n, hn, hfirst⟩ := h.line.worker_first hin hcaller
      obtain rfl : n = number := Option.some.inj (hn.symm.trans hin)
      rw [show ready = _ from hready]
      exact beq_iff_eq.2 hfirst
    | _ => exact hready.elim
  | resting => exact absurd hφ hrests
  | called | chosen | leaving | releasing | gone =>
    rw [hφ] at hready
    exact hready.elim
  | _ =>
    rw [hφ] at hown
    rcases hown with hown | ⟨_, hown⟩ <;> cases hown

/-! ### In line -/

variable {number : Nat} {c : Change V}

/-- While the caller is in line and not the first, the worker is in line and does not wait. -/
theorem before_caller (h : Lively original ph p)
    (hcaller : ph .caller = .holding ⟨number, c, .waiting⟩)
    (hserving : p.sight.lane.isServing number = false) :
    (ph .worker).Met p.lane p.record.scene.memory ∧ ∃ n, (ph .worker).ticket? = some n := by
  have hin : (ph .caller).ticket? = some number := by rw [hcaller]; rfl
  have hwaits : ∀ n, (ph .caller).ticket? = some n → p.sight.lane.line.head? ≠ some n := by
    intro n hn
    obtain rfl : number = n := Option.some.inj (hin.symm.trans hn)
    exact beq_eq_false_iff_ne.1 hserving
  obtain ⟨n, hn, -⟩ := h.line.worker_first hin hwaits
  exact ⟨h.met_worker hwaits (by rintro hφ; rw [hφ] at hn; cases hn), n, hn⟩

/-- A caller that waits in line can come to be the first. -/
theorem serves (h : Lively original ph p) (hcaller : ph .caller = .holding ⟨number, c, .waiting⟩) :
    CanGet original ph p fun _ l => l.isServing number = true := by
  generalize hturn : p.turn = turn
  induction turn generalizing ph p with
  | done a =>
    cases hserving : p.sight.lane.isServing number with
    | true => exact h.here hserving
    | false =>
      -- the turn of a worker that is in line has not ended
      obtain ⟨-, n, hn⟩ := h.before_caller hcaller hserving
      have hworker := h.going.worker
      rw [hturn] at hworker
      rcases hworker with hφ | hφ <;> · rw [hφ] at hn; cases hn
  | ask q next ih =>
    cases hserving : p.sight.lane.isServing number with
    | true => exact h.here hserving
    | false =>
      refine h.gets hturn (h.before_caller hcaller hserving).1 fun a φ p' h' _ hturn' => ?_
      exact ih a h' (by rwa [Function.update_of_ne (by decide)]) hturn'

end Lively

/-! ### To the end of the queue -/

/-- The worker has taken its change, or is about to leave or to take one, and fewer than `k` changes
wait when it is through with it. -/
def Phase.Within (k : Nat) (l : Lane V) : Phase V → Prop
  | called | chosen _ _ => l.queue.length ≤ k
  | holding _ | releasing _ _ => l.queue.length < k
  | leaving | gone => True
  | _ => False

/-- The worker gets through with its change. -/
theorem Step.within {k : Nat} (hs : Step .worker φ x φ' x') (hknows : φ.WorkerKnows x.lane)
    (hφ : φ.Within k x.lane) :
    φ'.Within k x'.lane ∨ φ' = .resting ∧ x'.lane.queue.length < k := by
  cases hs with
  | pop =>
    refine .inl (Nat.lt_of_lt_of_le ?_ hφ)
    change x.lane.queue.tail.length < x.lane.queue.length
    obtain ⟨rest, hrest⟩ := List.head?_eq_some_iff.1 hknows
    rw [hrest]
    exact Nat.lt_succ_self _
  | finish =>
    rw [finish_eq]
    exact .inl hφ
  | release => exact .inr ⟨rfl, hφ⟩
  | turnAway | leave => exact .inl trivial
  | called => exact hφ.elim
  | _ => exact .inl hφ

namespace Lively

variable {r : Request V} {count : Nat}

/-- The worker comes to the end of its turn, or leaves. -/
theorem works {k : Nat} (h : Lively original ph p) (hcaller : (ph .caller).ticket? = none)
    (hwithin : (ph .worker).Within k p.sight.lane) :
    CanGet original ph p fun φ l => l.ended = true ∨ φ = .resting ∧ l.queue.length < k := by
  have hrests {φ : Phase V} {l : Lane V} (hwithin : φ.Within k l) : φ ≠ .resting := by
    rintro rfl
    exact hwithin
  generalize hturn : p.turn = turn
  induction turn generalizing ph p with
  | done a =>
    have hworker := h.going.worker
    rw [hturn] at hworker
    rcases hworker with hφ | hφ
    · exact absurd hφ (hrests hwithin)
    · exact h.here (.inl (h.going.valid.sound.gate.ended.2 hφ))
  | ask q next ih =>
    have hmet := h.met_worker (fun n hn => by rw [hcaller] at hn; cases hn) (hrests hwithin)
    refine h.gets hturn hmet fun a φ p' h' hstep hturn' => ?_
    rcases hstep.within h.going.valid.sound.gate.worker hwithin with hwithin' | ⟨rfl, hfewer⟩
    · refine ih a h' (by rwa [Function.update_of_ne (by decide)]) ?_ hturn'
      rwa [Function.update_self]
    · exact h'.here (.inr ⟨Function.update_self .., hfewer⟩)

/-- A worker that rests has not left. -/
theorem stays (h : Lively original ph p) (hrests : ph .worker = .resting) :
    p.sight.lane.ended = false := by
  refine Bool.eq_false_iff.2 fun hended => ?_
  cases hrests.symm.trans (h.going.valid.sound.gate.ended.1 hended)

/-- A worker that rests and has something to ask for sees that something calls it. -/
theorem wakes (h : Lively original ph p) (hrests : ph .worker = .resting)
    (hcalls : p.sight.lane.calls = true) {q : Ask V} {next : Answer q → Program V Unit}
    (hturn : p.turn = .ask q next) :
    CanGet original ph p fun φ l => φ = .called ∧ l = p.sight.lane := by
  have hmet : (ph .worker).Met p.lane p.record.scene.memory := by
    rw [hrests]
    rintro ready rfl
    exact hcalls
  refine h.gets hturn hmet fun a φ p' h' hstep _ => ?_
  rw [hrests] at hstep
  generalize hsight : p'.sight = x at hstep
  cases hstep with
  | called => exact h'.here ⟨Function.update_self .., congrArg Sight.lane hsight⟩
  | quiet hφ | loaded hφ => cases hφ

/-- A worker that rests begins its turn when something calls it. -/
theorem begins (h : Lively original ph p) (hrests : ph .worker = .resting)
    (hcalls : p.sight.lane.calls = true) :
    CanGet original ph p fun φ l => φ = .called ∧ l = p.sight.lane := by
  cases hturn : p.turn with
  | ask q next => exact h.wakes hrests hcalls hturn
  | done a =>
    -- the next turn begins
    obtain ⟨ph', h', hproceeds⟩ := h.move (.go .worker)
    have hheld : p.isHeldUp .worker = true := by simp only [Interplay.isHeldUp, hturn]
    rw [Interplay.actor?_held hheld] at hproceeds
    obtain ⟨rfl, hsight⟩ := hproceeds
    have hstays : ¬ p.sight.lane.ended = true := Bool.eq_false_iff.1 (h.stays hrests)
    have hgoes : p.move (.go .worker) = { p with turn := workerTurn p.lane } := by
      change p.goWorker = _
      unfold Interplay.goWorker
      rw [hturn]
      exact if_neg hstays
    rw [hgoes] at h'
    refine .step (m := .go .worker) trivial ?_
    rw [hgoes]
    exact h'.wakes hrests hcalls rfl

/-- A worker that rests works off the queue, unless it leaves. -/
theorem empties_resting (h : Lively original ph p) (hcaller : (ph .caller).ticket? = none)
    (hrests : ph .worker = .resting) :
    CanGet original ph p fun φ l => l.ended = true ∨ φ = .resting ∧ l.queue = [] := by
  generalize hk : p.sight.lane.queue.length = k
  induction k using Nat.strongRecOn generalizing ph p with
  | ind k ih =>
    by_cases hqueue : p.sight.lane.queue = []
    · exact h.here (.inr ⟨hrests, hqueue⟩)
    have hcalls : p.sight.lane.calls = true := by simp [Lane.calls, h.stays hrests, hqueue]
    refine (h.begins hrests hcalls).trans ?_
    rintro ph' q hq hsame ⟨hφ, hl⟩
    have hcaller' : (ph' .caller).ticket? = none := hsame ▸ hcaller
    have hwithin : (ph' .worker).Within k q.sight.lane := by
      rw [hφ, hl]
      exact Nat.le_of_eq hk
    refine (hq.works hcaller' hwithin).trans fun ph'' q' hq' hsame' hreached => ?_
    rcases hreached with hended | ⟨hφ', hfewer⟩
    · exact hq'.here (.inl hended)
    · exact ih _ hfewer hq' (hsame' ▸ hcaller') hφ' rfl

/-- The worker works off the queue, unless it leaves, when the caller is not in line. -/
theorem empties (h : Lively original ph p) (hcaller : (ph .caller).ticket? = none) :
    CanGet original ph p fun φ l => l.ended = true ∨ φ = .resting ∧ l.queue = [] := by
  by_cases hrests : ph .worker = .resting
  · exact h.empties_resting hcaller hrests
  have hwithin : (ph .worker).Within (p.sight.lane.queue.length + 1) p.sight.lane := by
    have hown := h.own .worker
    cases hφ : ph .worker with
    | resting => exact absurd hφ hrests
    | called | chosen => exact Nat.le_succ _
    | holding | releasing => exact Nat.lt_succ_self _
    | leaving | gone => trivial
    | _ =>
      rw [hφ] at hown
      rcases hown with hown | ⟨_, hown⟩ <;> cases hown
  refine (h.works hcaller hwithin).trans fun ph' q hq hsame hreached => ?_
  rcases hreached with hended | ⟨hφ, -⟩
  · exact hq.here (.inl hended)
  · exact hq.empties_resting (hsame ▸ hcaller) hφ

/-- The worker can leave when the caller waits for it. -/
theorem ends (h : Lively original ph p) (hcaller : ph .caller = .closing r count) :
    CanGet original ph p fun _ l => l.ended = true := by
  refine (h.empties (by rw [hcaller]; rfl)).trans ?_
  rintro ph' q hq hsame (hended | ⟨hrests, hqueue⟩)
  · exact hq.here hended
  have hcaller' : ph' .caller = .closing r count := hsame.trans hcaller
  have hknows := hq.going.valid.sound.gate.caller
  rw [hcaller'] at hknows
  have hshut : q.sight.lane.isOpen = false := hknows.1
  have hcalls : q.sight.lane.calls = true := by simp [Lane.calls, hq.stays hrests, hshut]
  refine (hq.begins hrests hcalls).trans ?_
  rintro ph'' q' hq' hsame' ⟨hφ, hl⟩
  have hwithin : (ph'' .worker).Within 0 q'.sight.lane := by
    rw [hφ, hl, Phase.Within, hqueue]
    exact Nat.le_refl 0
  refine (hq'.works (by rw [hsame', hcaller']; rfl) hwithin).trans fun _ q'' hq'' _ hreached => ?_
  rcases hreached with hended | ⟨-, hfewer⟩
  · exact hq''.here hended
  · exact absurd hfewer (Nat.not_lt_zero _)

/-- Nothing is pending any more when the worker has left or rests before an empty queue. -/
theorem pending_eq_zero (h : Lively original ph p) (hcaller : (ph .caller).isClosing = false)
    (hworker : p.sight.lane.ended = true ∨ ph .worker = .resting ∧ p.sight.lane.queue = []) :
    p.sight.lane.pending = 0 := by
  have hgate := h.going.valid.sound.gate
  have hpending := hgate.pending
  rcases hworker with hended | ⟨hrests, hqueue⟩
  · have hgone := hgate.ended.1 hended
    have hknows := hgate.worker
    rw [hgone] at hknows hpending
    rcases hgate.shut hknows.1 with ⟨-, hqueue⟩ | hclosing
    · rw [hqueue] at hpending
      exact hpending
    · rw [hcaller] at hclosing
      cases hclosing
  · have hqueue' : (p.record.sight p.lane).lane.queue = [] := hqueue
    rw [hrests, hqueue'] at hpending
    exact hpending

/-! ## Steps of the caller -/

/-- What the caller waits for can come to be the case. Whoever closes the engine may wait for
others. -/
theorem meets (h : Lively original ph p) {program : Program V (Strategy.Reply V)}
    (hr : p.request = some (r, program)) (hopen : r ≠ .close) :
    MayReach Interplay.move Move.IsStep p fun q => ∃ ph', Lively original ph' q ∧
      q.request = p.request ∧ (ph' .caller).Met q.lane q.record.scene.memory := by
  have hown := h.own .caller
  have hcaller := h.going.caller
  rw [CallerGoesOn, hr] at hcaller
  obtain ⟨-, hat, -⟩ := hcaller
  have hhere (hmet : (ph .caller).Met p.lane p.record.scene.memory) :
      MayReach Interplay.move Move.IsStep p fun q => ∃ ph', Lively original ph' q ∧
        q.request = p.request ∧ (ph' .caller).Met q.lane q.record.scene.memory :=
    .here ⟨ph, h, rfl, hmet⟩
  cases hφ : ph .caller with
  | holding hd =>
    obtain ⟨number, c, stage⟩ := hd
    cases stage with
    | waiting =>
      refine (h.serves hφ).mono ?_
      rintro q ⟨ph', hq, hsame, hr', hserving⟩
      refine ⟨ph', hq, hr', ?_⟩
      rw [hsame, hφ]
      rintro ready rfl
      exact hserving
    | _ => exact hhere fun ready hready => by rw [hφ] at hready; exact hready.elim
  | closing r' count =>
    refine (h.ends hφ).mono ?_
    rintro q ⟨ph', hq, hsame, hr', hended⟩
    refine ⟨ph', hq, hr', ?_⟩
    rw [hsame, hφ]
    rintro ready rfl
    exact hended
  | begun r' =>
    rw [hφ] at hat
    obtain rfl : r' = r := hat
    refine hhere fun ready hready => ?_
    rw [hφ] at hready
    cases r' with
    | close => exact absurd rfl hopen
    | _ => exact hready.elim
  | resting =>
    rw [hφ] at hown
    cases hown
  | _ => exact hhere fun ready hready => by rw [hφ] at hready; exact hready.elim

/-- The caller's next request is answered. -/
theorem answered (h : Lively original ph p) {q : Ask V}
    {next : Answer q → Program V (Strategy.Reply V)} (hr : p.request = some (r, .ask q next))
    (hmet : (ph .caller).Met p.lane p.record.scene.memory) {P : Interplay V → Prop}
    (hgo : ∀ a ph' p', Lively original ph' p' → p'.request = some (r, next a) →
      MayReach Interplay.move Move.IsStep p' P) : MayReach Interplay.move Move.IsStep p P := by
  have hcaller := h.going.caller
  rw [CallerGoesOn, hr] at hcaller
  obtain ⟨-, -, hwalk⟩ := hcaller
  obtain ⟨ms, hready⟩ := hwalk.1.ready hmet
  obtain ⟨ph', h', -⟩ := (h.later ms).move (.go .caller)
  have hr' : (p.move (.later ms)).request = some (r, .ask q next) := hr
  have hgoes : ∃ a, (p.move (.later ms)).goCaller.request = some (r, next a) := by
    simp only [Interplay.goCaller, hr', Record.step_ready (r := (p.move (.later ms)).record) hready]
    exact ⟨_, rfl⟩
  obtain ⟨a, hnext⟩ := hgoes
  exact .step (m := .later ms) trivial (.step (m := .go .caller) trivial (hgo a ph' _ h' hnext))

end Lively

/-- The request that the caller is at can return. -/
def CanReturn (p : Interplay V) (r : Request V) : Prop :=
  MayReach Interplay.move Move.IsStep p fun q => q.request = none ∧
    ∃ reply, q.record.history.head? = some (.replied r reply)

theorem Lively.returns (h : Lively original ph p) {r : Request V}
    {program : Program V (Strategy.Reply V)} (hr : p.request = some (r, program))
    (hopen : r ≠ .close) : CanReturn p r := by
  induction program generalizing ph p with
  | done reply =>
    refine .step (m := .go .caller) trivial (.here ?_)
    change p.goCaller.request = none ∧ ∃ reply, p.goCaller.record.history.head? = _
    unfold Interplay.goCaller
    rw [hr]
    exact ⟨rfl, reply, rfl⟩
  | ask q next ih =>
    refine (h.meets hr hopen).trans ?_
    rintro p' ⟨ph', h', hr', hmet⟩
    exact h'.answered (hr'.trans hr) hmet fun a ph'' p'' h'' hr'' => ih a h'' hr''

/-- **A request of the lane can return**, wherever the caller and the worker are: a change, a shutdown
that flushes the lane or throws away what waits, a change of the policy. -/
theorem returns_of_request (life : Option Nat) (capacity : Nat) (w : World V) (m : Memory V)
    (moves : List (Move V)) {r : Request V} {program : Program V (Strategy.Reply V)}
    (hr : ((Interplay.start life capacity w m).play moves).request = some (r, program))
    (hopen : r ≠ .close) : CanReturn ((Interplay.start life capacity w m).play moves) r := by
  obtain ⟨ph, h⟩ := lively_play life capacity w m moves
  exact h.returns hr hopen

/-- **A lane can be drained**, whatever waits in it, while the caller is at no request. -/
theorem drains_of_idle (life : Option Nat) (capacity : Nat) (w : World V) (m : Memory V)
    (moves : List (Move V))
    (hr : ((Interplay.start life capacity w m).play moves).request = none) :
    MayReach Interplay.move Move.IsStep ((Interplay.start life capacity w m).play moves)
      fun q => q.request = none ∧ q.IsDrained := by
  obtain ⟨ph, h⟩ := lively_play life capacity w m moves
  have hcaller := h.going.caller
  rw [CallerGoesOn, hr] at hcaller
  refine (h.empties (by rw [hcaller]; rfl)).mono ?_
  rintro q ⟨ph', hq, hsame, hr', hworker⟩
  exact ⟨hr'.trans hr, .inl (hq.pending_eq_zero (by rw [hsame, hcaller]; rfl) hworker)⟩

end CacheLayer.WriteBehind
