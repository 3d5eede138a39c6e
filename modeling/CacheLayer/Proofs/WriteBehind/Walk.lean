/-
The programs of the caller and of the worker, walked through step by step. A
walk takes a side from one phase to another by a `Step` for each request of its
program; since each step keeps the record `Valid` for whatever phase the other
side is in, it does not matter when the other side takes its steps. The phase
also tells what a side may wait for (`Phase.Awaits`).
-/
import CacheLayer.Proofs.WriteBehind.Quiet
import CacheLayer.Proofs.WriteBehind.Step

namespace CacheLayer

variable {V α β : Type}

namespace Memory

variable {m : Memory V} {i : Nat}

theorem lane_onLane (h : i < m.lanes.length) (f : Lane V → Lane V) :
    (m.onLane i f).lane i = f (m.lane i) := by
  simp [lane, onLane, h]

theorem length_onLane (m : Memory V) (i : Nat) (f : Lane V → Lane V) :
    (m.onLane i f).lanes.length = m.lanes.length := by
  simp [onLane]

@[simp] theorem usesLane_onLane (m : Memory V) (i j : Nat) (f : Lane V → Lane V) :
    (m.onLane i f).usesLane j = m.usesLane j := rfl

theorem usesLane_iff {m : Memory V} {i : Nat} :
    m.usesLane i = true ↔ m.strategy.policy = .writeBehind ∧ m.strategy.lane = i := by
  simp [usesLane]

theorem lane_install {m : Memory V} {i : Nat} (h : i < m.lanes.length) (policy : Policy)
    (life : Option Nat) (capacity : Nat) :
    (Strategy.install policy life capacity m).lane i = m.lane i ∧
      i < (Strategy.install policy life capacity m).lanes.length := by
  unfold Strategy.install lane
  split
  · simp [h, Nat.lt_succ_of_lt h]
  · exact ⟨rfl, h⟩

end Memory

namespace WriteBehind

open Program (along_then)

variable {i : Nat} {original : KeyMap V} {side : Side} {ph : Phases V} {r : Record V}
  {φ φ' : Phase V}

/-- The record has the lane, and what is seen of it is sound. -/
structure Valid (i : Nat) (original : KeyMap V) (ph : Phases V) (r : Record V) : Prop where
  inRange : i < r.scene.memory.lanes.length
  sound : Sound original ph (r.sight i)

/-- The request takes a side from one phase to another by a step. -/
structure Advances (i : Nat) (side : Side) (q : Ask V) (r : Record V) (φ φ' : Phase V) : Prop where
  inRange : i < (r.perform i side q).2.scene.memory.lanes.length
  step : Step side φ (r.sight i) φ' ((r.perform i side q).2.sight i)

theorem Valid.advance (h : Valid i original ph r) {q : Ask V} (hs : Advances i side q r φ φ')
    (hφ : ph side = φ) : Valid i original (Function.update ph side φ') (r.perform i side q).2 :=
  ⟨hs.inRange, h.sound.step hs.step hφ⟩

/-- What a side may wait for where it stands, beside some time. -/
def Phase.Awaits (i : Nat) (ready : Memory V → Bool) : Phase V → Prop
  | holding ⟨number, _, .waiting⟩ => ready = fun m => (m.lane i).isServing number
  | resting => ready = fun m => (m.lane i).calls
  | closing _ _ => ready = fun m => (m.lane i).ended
  /- the end of the schedule of reloads -/
  | begun .close => ready = fun m => m.timetable.isNone
  | _ => False

/-- A side may come to the request where it stands. -/
def Phase.Makes (i : Nat) (φ : Phase V) : Ask V → Prop
  | .wait w => w.alarm.isSome = true ∨ φ.Awaits i w.ready
  | .overflow _ => False
  | _ => True

/-- The rule for one request: whatever the other side does meanwhile, the answer finds the record
valid again. -/
def advance (i : Nat) (original : KeyMap V) (side : Side) (q : Ask V) (φ : Phase V)
    (K : Answer q → Phase V → Prop) : Prop :=
  φ.Makes i q ∧ ∀ ph r, ph side = φ → Valid i original ph r → q.hasToWait r.scene = false →
    ∃ φ', Advances i side q r φ φ' ∧ K (r.perform i side q).1 φ'

/-- The program gets from a phase to its end. -/
abbrev Walks (i : Nat) (original : KeyMap V) (side : Side) (p : Program V α)
    (P : α → Phase V → Prop) (φ : Phase V) : Prop :=
  Program.Along (advance i original side) p P φ

theorem advance_mono : Program.IsMono (advance i original side) := by
  intro q φ K K' hK ⟨hmakes, h⟩
  refine ⟨hmakes, fun ph r hφ hr hwait => ?_⟩
  obtain ⟨φ', hr', hk⟩ := h ph r hφ hr hwait
  exact ⟨φ', hr', hK _ _ hk⟩

/-! ## Single requests -/

theorem changed_same {h : History V} {l l' : Lane V} (hissued : l'.issued = l.issued)
    (hqueue : l'.queue = l.queue) : changed side h l l' = none := by
  cases side <;> simp [changed, hissued, hqueue]

theorem changed_caller {h : History V} {l l' : Lane V} (hissued : l'.issued = l.issued) :
    changed .caller h l l' = none := by
  simp [changed, hissued]

theorem changed_issue {h : History V} {l : Lane V} {c : Change V} (hwish : h.wish? = some c) :
    changed .caller h l (l.issue c.key) = some (.issued (l.issued + 1) c) := by
  simp [changed, Lane.issue, hwish]

theorem changed_pop {h : History V} {l : Lane V} {number : Nat} {c : Change V}
    (hqueue : l.queue.head? = some (number, c)) :
    changed .worker h l l.pop = some (.taken number c) := by
  have hne : l.queue ≠ [] := by
    intro hnil
    rw [hnil] at hqueue
    cases hqueue
  have hlt : l.pop.queue.length < l.queue.length := by
    have hpos := List.length_pos_iff.2 hne
    simp only [Lane.pop, List.length_tail]
    omega
  simp [changed, hlt, hqueue]

theorem Advances.congr {q : Ask V}
    (hlength : (r.perform i side q).2.scene.memory.lanes.length = r.scene.memory.lanes.length)
    (hsight : (r.perform i side q).2.sight i = r.sight i) (hrange : i < r.scene.memory.lanes.length)
    (hφ : φ.mayPause = true) : Advances i side q r φ φ :=
  ⟨by rw [hlength]; exact hrange, by rw [hsight]; exact .quiet hφ⟩

theorem advances_quiet {q : Ask V} (hq : q.IsQuiet i) (hrange : i < r.scene.memory.lanes.length)
    (hφ : φ.mayPause = true) : Advances i side q r φ φ := by
  cases q with
  | update f =>
    obtain ⟨hlane, hlength, huses⟩ := hq r.scene.memory
    refine .congr hlength ?_ hrange hφ
    have hsame : changed side r.history (r.scene.memory.lane i) (r.scene.memory.lane i) = none :=
      changed_same rfl rfl
    simp [Record.sight, Record.perform, Ask.perform, observe, hlane, huses, hsame]
  | request id c =>
    cases id with
    | main =>
      cases c with
      | loadOne key =>
        refine ⟨hrange, ?_⟩
        have hrows := World.rows_load r.scene.world key
        have hl : Step side φ (r.sight i) φ _ := .loaded hφ key
        simpa [Record.sight, Record.perform, Ask.perform, observe, hrows] using hl
      | _ => cases hq
    | other j => cases hq
  | command c =>
    exact .congr rfl (by simp [Record.sight, Record.perform, Ask.perform, observe]) hrange hφ
  | health =>
    exact .congr rfl (by simp [Record.sight, Record.perform, Ask.perform, observe]) hrange hφ
  | _ => exact ⟨hrange, .quiet hφ⟩

theorem Phase.makes_quiet (φ : Phase V) {q : Ask V} (hq : q.IsQuiet i) : φ.Makes i q := by
  cases q with
  | wait w => exact .inl hq
  | overflow o => cases hq
  | _ => trivial

theorem advance_quiet (hpause : φ.mayPause = true) (q : Ask V) (K : Answer q → Phase V → Prop)
    (hq : q.IsQuiet i) (hK : ∀ a, K a φ) : advance i original side q φ K :=
  ⟨φ.makes_quiet hq, fun _ _ _ hr _ => ⟨φ, advances_quiet hq hr.inRange hpause, hK _⟩⟩

theorem walks_quiet {p : Program V α} (hp : p.IsQuiet i) (hpause : φ.mayPause = true)
    {P : α → Phase V → Prop} (hP : ∀ a, P a φ) : Walks i original side p P φ :=
  Program.along_each (advance_quiet hpause) hp hP

theorem walks_mono {p : Program V α} {P P' : α → Phase V → Prop}
    (h : Walks i original side p P φ) (hP : ∀ a φ, P a φ → P' a φ) :
    Walks i original side p P' φ :=
  Program.along_mono advance_mono h hP

theorem walks_memory {P : Memory V → Phase V → Prop}
    (h : ∀ ph x m, ph side = φ → Sound original ph x → m.lane i = x.lane →
      m.usesLane i = x.inForce →
      ∃ φ', Step side φ x φ' x ∧ P m φ') :
    Walks i original side Program.memory P φ := by
  refine ⟨trivial, fun ph r hφ hr _ => ?_⟩
  obtain ⟨φ', hs, hP⟩ := h ph (r.sight i) r.scene.memory hφ hr.sound rfl rfl
  have hsame : changed side r.history (r.scene.memory.lane i) (r.scene.memory.lane i) = none :=
    changed_same rfl rfl
  refine ⟨φ', ⟨hr.inRange, ?_⟩, hP⟩
  simpa [Record.sight, Record.perform, Ask.perform, observe, hsame] using hs

theorem walks_update {f : Lane V → Lane V} {P : Memory V → Phase V → Prop}
    (h : ∀ ph x m, ph side = φ → Sound original ph x → m.lane i = x.lane →
      ∃ φ', Step side φ x φ' { x with
        lane := f x.lane
        history := (changed side x.history x.lane (f x.lane)).toList ++ x.history } ∧ P m φ') :
    Walks i original side (Program.update fun m => m.onLane i f) P φ := by
  refine ⟨trivial, fun ph r hφ hr _ => ?_⟩
  obtain ⟨φ', hs, hP⟩ := h ph (r.sight i) r.scene.memory hφ hr.sound rfl
  refine ⟨φ', ⟨?_, ?_⟩, hP⟩
  · show i < (r.scene.memory.onLane i f).lanes.length
    rw [Memory.length_onLane]
    exact hr.inRange
  · have hlane := Memory.lane_onLane hr.inRange f
    simpa [Record.sight, Record.perform, Ask.perform, observe, hlane] using hs

theorem walks_onLane {f : Lane V → Lane V} {P : Unit → Phase V → Prop}
    (h : ∀ ph x, ph side = φ → Sound original ph x → ∃ φ', Step side φ x φ' { x with
        lane := f x.lane
        history := (changed side x.history x.lane (f x.lane)).toList ++ x.history } ∧ P () φ') :
    Walks i original side (Program.change fun m => m.onLane i f) P φ :=
  along_then (walks_update fun ph x _ hφ hx _ => h ph x hφ hx)

theorem walks_onLane_same {f : Lane V → Lane V} {P : Unit → Phase V → Prop}
    (hf : ∀ l, (f l).issued = l.issued ∧ (f l).queue = l.queue)
    (h : ∀ ph x, ph side = φ → Sound original ph x →
      ∃ φ', Step side φ x φ' { x with lane := f x.lane } ∧ P () φ') :
    Walks i original side (Program.change fun m => m.onLane i f) P φ := by
  refine walks_onLane fun ph x hφ hx => ?_
  rw [changed_same (hf x.lane).1 (hf x.lane).2]
  exact h ph x hφ hx

theorem walks_waitUntil (ready : Lane V → Bool) {P : Unit → Phase V → Prop}
    (hφ : φ.Awaits i fun m => ready (m.lane i))
    (h : ∀ ph x, ph side = φ → Sound original ph x → ready x.lane = true →
      ∃ φ', Step side φ x φ' x ∧ P () φ') :
    Walks i original side (Program.waitUntil fun m => ready (m.lane i)) P φ := by
  refine ⟨.inr hφ, fun ph r hφ hr hwait => ?_⟩
  have hready : ready (r.scene.memory.lane i) = true := by
    simpa [Ask.hasToWait, Wait.isOver] using hwait
  obtain ⟨φ', hs, hP⟩ := h ph (r.sight i) hφ hr.sound hready
  exact ⟨φ', ⟨hr.inRange, hs⟩, hP⟩

theorem walks_request {c : Source.Call V} {P : Except Error c.Reply → Phase V → Prop}
    (hpause : φ.mayPause = true) (h : advance i original side (.request .main c) φ P) :
    Walks i original side (Action.request .main c).outcome P φ := by
  have hlatency : (Program.lift (.latency .main c.method) : Program V Nat).IsQuiet i :=
    Program.each_lift trivial
  exact along_then (walks_quiet hlatency hpause fun ms =>
    along_then (walks_quiet (Quiet.ofIdle (Idle.pause ms)) hpause fun _ => h))

/-! ## Applying a change -/

theorem walks_send {number : Nat} {c : Change V} {P : Except Error Unit → Phase V → Prop}
    (hP : ∀ answer, P answer (.holding ⟨number, c, .through⟩)) :
    Walks i original side (send c).outcome P (.holding ⟨number, c, .cleared⟩) := by
  have hsend (r : Record V) {answer : Except Error Unit} {rows : KeyMap V}
      (hrows : ∀ key, rows.get? key =
        if c.key = key ∧ answer.toBool = true then c.value else r.scene.world.rows.get? key) :
      Step side (.holding ⟨number, c, .cleared⟩) (r.sight i) (.holding ⟨number, c, .through⟩)
        { r.sight i with history := .sent ⟨number, c, answer⟩ :: r.history, rows := rows } :=
    .send answer hrows
  obtain ⟨key, value⟩ := c
  cases value with
  | some v =>
    refine walks_request rfl ⟨trivial, fun ph r hφ hr _ => ⟨_, ⟨hr.inRange, ?_⟩, hP _⟩⟩
    have hknown := hr.sound.told.known side ⟨number, ⟨key, some v⟩, .cleared⟩ (by rw [hφ]; rfl)
    have hs := hsend r (World.get?_rows_store r.scene.world key v)
    simp only [Record.sight] at hknown
    simpa [Record.sight, Record.perform, Ask.perform, observe, hknown, Hand.entry] using hs
  | none =>
    refine walks_request rfl ⟨trivial, fun ph r hφ hr _ => ⟨_, ⟨hr.inRange, ?_⟩, hP _⟩⟩
    have hknown := hr.sound.told.known side ⟨number, ⟨key, none⟩, .cleared⟩ (by rw [hφ]; rfl)
    have hs := hsend r (World.get?_rows_remove r.scene.world key)
    simp only [Record.sight] at hknown
    simpa [Record.sight, Record.perform, Ask.perform, observe, hknown, Hand.entry] using hs

theorem walks_apply {number : Nat} {c : Change V} {P : Except Error Bool → Phase V → Prop}
    (hP : ∀ result, P result (.finished side number c)) :
    Walks i original side (apply i number c).outcome P (.holding ⟨number, c, .taken⟩) := by
  -- however it was decided about the change, its number leaves the line and its slot is finished
  have hleave : ∀ result, Walks i original side (do
      Program.change fun m => m.onLane i (·.leaveLine)
      Program.change fun m => m.onLane i (·.finish c.key)
      return result) P (.holding ⟨number, c, .through⟩) := by
    intro result
    refine along_then (walks_onLane_same (fun _ => ⟨rfl, rfl⟩) fun _ _ _ _ =>
      ⟨.holding ⟨number, c, .left⟩, .leaveLine, ?_⟩)
    have hfinish : ∀ l : Lane V, (l.finish c.key).issued = l.issued ∧
        (l.finish c.key).queue = l.queue := fun l => by rw [finish_eq]; exact ⟨rfl, rfl⟩
    exact along_then (walks_onLane_same hfinish fun _ _ _ _ =>
      ⟨.finished side number c, .finish, hP result⟩)
  show Walks i original side (do
    Program.change fun m => m.onLane i (·.enterLine number)
    Program.waitUntil fun m => (m.lane i).isServing number
    let r ← (sendLatest i number c).outcome
    Program.change fun m => m.onLane i (·.leaveLine)
    Program.change fun m => m.onLane i (·.finish c.key)
    return r) P (.holding ⟨number, c, .taken⟩)
  refine along_then (walks_onLane_same (fun _ => ⟨rfl, rfl⟩) fun _ _ _ _ =>
    ⟨.holding ⟨number, c, .waiting⟩, .enterLine, ?_⟩)
  refine along_then (walks_waitUntil (fun l => l.isServing number) rfl fun _ _ _ _ hserving =>
    ⟨.holding ⟨number, c, .serving⟩, .serve hserving, ?_⟩)
  refine along_then ?_
  rw [sendLatest, Action.outcome_always_bind]
  refine along_then (walks_memory fun ph x m hφ hx hlane _ => ?_)
  rw [hlane]
  -- a newer change may still be issued before this one is sent, but not be sent before it
  cases hlatest : x.lane.isLatest c.key number with
  | true =>
    refine ⟨.holding ⟨number, c, .cleared⟩, .clear hlatest, ?_⟩
    rw [if_pos rfl, Action.outcome_bind]
    refine along_then (walks_send fun answer => ?_)
    cases answer with
    | ok _ => exact hleave (.ok true)
    | error e => exact hleave (.error e)
  | false =>
    refine ⟨.holding ⟨number, c, .through⟩, .skip hlatest, ?_⟩
    exact hleave (.ok false)

/-! ## The worker -/

theorem walks_workerTurn :
    Walks i original .worker (workerTurn i) (fun _ φ => φ = .resting ∨ φ = .gone) .resting := by
  have hleave : Walks i original .worker (Program.change fun m => m.onLane i (·.leave))
      (fun _ φ => φ = .resting ∨ φ = .gone) .leaving :=
    walks_onLane_same (fun _ => ⟨rfl, rfl⟩) fun _ _ _ _ => ⟨.gone, .leave, .inr rfl⟩
  refine along_then (walks_waitUntil Lane.calls rfl fun _ _ _ _ hcalls => ⟨.called, .called hcalls, ?_⟩)
  refine along_then (walks_memory fun ph x m hφ hx hlane _ => ?_)
  simp only [hlane]
  cases hstop : x.lane.stopping with
  | true => exact ⟨.leaving, .turnAway (.inl hstop), hleave⟩
  | false =>
    cases hqueue : x.lane.queue with
    | nil => exact ⟨.leaving, .turnAway (.inr hqueue), hleave⟩
    | cons first rest =>
      obtain ⟨number, c⟩ := first
      refine ⟨.chosen number c, .choose (by rw [hqueue]; rfl), ?_⟩
      refine along_then (walks_onLane fun ph x hφ hx => ⟨.holding ⟨number, c, .taken⟩, ?_, ?_⟩)
      · have hk := hx.gate.worker
        rw [hφ] at hk
        rw [changed_pop hk]
        exact .pop
      refine along_then (along_then (walks_apply fun _ => ?_))
      exact walks_onLane_same (fun _ => ⟨rfl, rfl⟩) fun _ _ _ _ =>
        ⟨.resting, .release, .inl rfl⟩

/-! ## The caller -/

theorem walks_enqueue {q : Request V} {c : Change V} (hq : q.change? = some c) :
    Walks i original .caller (enqueue i c).outcome
      (fun _ φ => ∃ number, φ = .settled number c) (.begun q) := by
  rw [enqueue, Action.outcome_always_bind]
  refine along_then (walks_update fun ph x before hφ hx hbefore =>
    ⟨.holding ⟨x.lane.issued + 1, c, .taken⟩, ?_, ?_⟩)
  · have hk := hx.told.caller
    rw [hφ] at hk
    rw [changed_issue (hk.2.1.trans hq)]
    exact .issue hq
  rw [hbefore, Action.outcome_always_bind]
  refine along_then (walks_memory fun ph y m hφ hy hlane _ => ?_)
  rw [hlane]
  -- the worker may come in between looking and pushing, but it only makes more room
  cases hroom : y.lane.hasRoom with
  | true =>
    refine ⟨.admitted (x.lane.issued + 1) c, .findRoom hroom, ?_⟩
    rw [if_pos rfl, Action.outcome_always]
    refine along_then (walks_onLane fun ph z hφ hz =>
      ⟨.settled (x.lane.issued + 1) c, ?_, x.lane.issued + 1, rfl⟩)
    rw [changed_caller (by rfl)]
    exact .push
  | false =>
    refine ⟨.holding ⟨x.lane.issued + 1, c, .taken⟩, .quiet rfl, ?_⟩
    rw [if_neg (by simp), Action.outcome_bind]
    refine along_then (walks_apply fun result => ?_)
    cases result <;> exact ⟨_, rfl⟩

theorem walks_shutdown {q : Request V} :
    Walks i original .caller (shutdown i q.flushes) (fun count φ => φ = .closed q count)
      (.ending q) := by
  refine along_then (walks_memory fun ph x m hφ hx hlane _ => ?_)
  simp only [hlane]
  cases ho : x.lane.isOpen with
  | false => exact ⟨.closed q 0, .already ho, rfl⟩
  | true =>
    refine ⟨.shutting q x.lane.pending, .toShutting ho, ?_⟩
    rw [if_neg (by simp)]
    have hsame : ∀ l : Lane V, (if q.flushes then l.close else l.halt).issued = l.issued ∧
        (if q.flushes then l.close else l.halt).queue = l.queue := by
      intro l
      cases q.flushes <;> exact ⟨rfl, rfl⟩
    refine along_then (walks_onLane_same hsame fun _ _ _ _ =>
      ⟨.closing q x.lane.pending, .shut, ?_⟩)
    refine along_then (walks_waitUntil Lane.ended rfl fun _ _ _ _ hended => ?_)
    cases hflush : q.flushes with
    | true => exact ⟨.closed q x.lane.pending, .flushed hflush hended, rfl⟩
    | false =>
      refine ⟨.deserted q, .halted hflush hended, ?_⟩
      refine along_then (walks_update fun ph y m hφ hy hm => ⟨.closed q y.lane.queue.length, ?_, ?_⟩)
      · rw [changed_caller (by rw [Lane.discard, sweep_eq])]
        exact .discard
      · rw [hm]
        rfl

/-- Where the caller stands after it has tried to make a change. -/
def Tried (q : Request V) (c : Change V) (result : Except Error Unit) (φ : Phase V) : Prop :=
  (φ = .begun q ∧ ∃ e, result = .error e) ∨ ∃ number, φ = .settled number c

/-- Something is done with the cache, and then the change is enqueued. -/
theorem walks_behind {q : Request V} {c : Change V} (hq : q.change? = some c)
    {first : Action V Unit} (hfirst : first.outcome.IsQuiet i) :
    Walks i original .caller (first >>= fun _ => enqueue i c).outcome (Tried q c) (.begun q) := by
  rw [Action.outcome_bind]
  refine along_then (walks_quiet hfirst rfl fun result => ?_)
  cases result with
  | ok _ => exact walks_mono (walks_enqueue hq) fun _ _ h => .inr h
  | error e => exact .inl ⟨rfl, e, rfl⟩

/-- What is left to do when the change was tried: something if that went well. -/
def orFail (key : String) (a : Action V Unit) : Except Error Unit → Action V Unit
  | .ok () => a
  | .error e => Strategy.fail key e

theorem walks_reply {q : Request V} {c : Change V} (hq : q.change? = some c) {key : String}
    {a : Action V Unit} (ha : a.outcome.IsQuiet i) {result : Except Error Unit}
    (hφ : Tried q c result φ) :
    Walks i original .caller (orFail key a result).outcome
      (fun result => Walks i original .caller (pure (Strategy.Reply.of (fun _ => .done) result))
        fun reply φ => φ.Concludes q reply) φ := by
  rcases hφ with ⟨rfl, e, rfl⟩ | ⟨number, rfl⟩
  · rw [orFail, Strategy.fail, Action.outcome_always_bind]
    refine along_then (walks_quiet (Quiet.ofIdle (Idle.record _ _)) rfl fun _ => ?_)
    exact ⟨Request.closes_of_change? hq, by rintro ⟨⟩⟩
  · cases result with
    | ok _ => exact walks_quiet ha rfl fun _ => hq
    | error e => exact walks_quiet (Quiet.ofIdle (Idle.fail key e)) rfl fun _ => hq

theorem walks_begun {q : Request V} {P : Memory V → Phase V → Prop}
    (h : ∀ m, m.strategy.policy = .writeBehind → m.strategy.lane = i → P m (.begun q)) :
    Walks i original .caller Program.memory P (.begun q) := by
  refine walks_memory fun ph x m hφ hx _ huses => ⟨.begun q, .quiet rfl, ?_⟩
  · have hk := hx.told.caller
    rw [hφ] at hk
    obtain ⟨hpolicy, hlane⟩ := Memory.usesLane_iff.1 (huses.trans hk.1)
    exact h m hpolicy hlane

theorem walks_write (key : String) (v : V) (life : Option Nat) :
    Walks i original .caller (Strategy.Call.write key v life).program
      (fun reply φ => φ.Concludes (.call (.write key v life)) reply)
      (.begun (.call (.write key v life))) := by
  refine along_then ?_
  rw [Strategy.write, Action.outcome_always_bind]
  refine along_then (walks_quiet (Quiet.ofIdle Idle.now) rfl fun start => ?_)
  rw [Action.outcome_always_bind]
  refine along_then (walks_begun fun m hpolicy hlane => ?_)
  rw [Action.outcome_always_bind, Strategy.writeSteps, hpolicy, hlane]
  refine along_then (walks_mono (walks_behind rfl (Quiet.cacheWrite key v life)) fun result φ hφ => ?_)
  have hquiet : (do
      let elapsed ← Action.always (Strategy.elapsedSince start)
      Action.always (Strategy.record (·.write elapsed) (.stored key)) :
        Action V Unit).outcome.IsQuiet i :=
    Quiet.ofIdle (Program.each_then (Program.each_always (Idle.elapsedSince start)) fun _ =>
      Program.each_always (Idle.record _ _))
  exact walks_reply rfl hquiet hφ

theorem walks_delete (key : String) :
    Walks i original .caller (Strategy.Call.delete key : Strategy.Call V).program
      (fun reply φ => φ.Concludes (.call (.delete key)) reply) (.begun (.call (.delete key))) := by
  refine along_then ?_
  rw [Strategy.delete, Action.outcome_always_bind]
  refine along_then (walks_begun fun m hpolicy hlane => ?_)
  rw [Action.outcome_always_bind, Strategy.deleteSteps, hpolicy, hlane]
  refine along_then (walks_mono (walks_behind rfl (Quiet.cacheDelete key)) fun result φ hφ => ?_)
  have hquiet : (Action.always (Strategy.record StrategyStats.delete (.deleted key)) :
      Action V Unit).outcome.IsQuiet i :=
    Quiet.ofIdle (Program.each_always (Idle.record _ _))
  exact walks_reply rfl hquiet hφ

theorem walks_shutdownOf (q : Request V) {s : Strategy} (hpolicy : s.policy = .writeBehind)
    (hlane : s.lane = i) :
    Walks i original .caller (Strategy.shutdown s q.flushes : Program V Nat)
      (fun count φ => φ = .closed q count) (.ending q) := by
  rw [Strategy.shutdown, hpolicy, hlane]
  exact walks_shutdown

theorem walks_toEnding {q : Request V} {P : Memory V → Phase V → Prop}
    (h : ∀ m, m.strategy.policy = .writeBehind → m.strategy.lane = i → P m (.ending q)) :
    Walks i original .caller Program.memory P (.begun q) := by
  refine walks_memory fun ph x m hφ hx _ huses => ?_
  have hk := hx.told.caller
  rw [hφ] at hk
  obtain ⟨hpolicy, hlane⟩ := Memory.usesLane_iff.1 (huses.trans hk.1)
  exact ⟨.ending q, .toEnding x.inForce, h m hpolicy hlane⟩

/-- Another strategy is put in force, which may not use the lane. -/
theorem walks_install {q : Request V} {f : Memory V → Memory V}
    (hf : ∀ m, i < m.lanes.length → (f m).lane i = m.lane i ∧ i < (f m).lanes.length)
    {P : Memory V → Phase V → Prop}
    (h : ∀ m, m.strategy.policy = .writeBehind → m.strategy.lane = i → P m (.ending q)) :
    Walks i original .caller (Program.update f) P (.begun q) := by
  refine ⟨trivial, fun ph r hφ hr _ => ?_⟩
  obtain ⟨hlane, hrange⟩ := hf r.scene.memory hr.inRange
  have hk := hr.sound.told.caller
  rw [hφ] at hk
  obtain ⟨hpolicy, hstrategy⟩ := Memory.usesLane_iff.1 hk.1
  refine ⟨.ending q, ⟨hrange, ?_⟩, h _ hpolicy hstrategy⟩
  have hs : Step .caller (.begun q) (r.sight i) (.ending q) _ :=
    .toEnding ((f r.scene.memory).usesLane i)
  have hsame : changed .caller r.history (r.scene.memory.lane i) (r.scene.memory.lane i) = none :=
    changed_same rfl rfl
  simpa [Record.sight, Record.perform, Ask.perform, observe, hlane, hsame] using hs

/-- Whoever closes the engine waits for the schedule of reloads to end. -/
theorem walks_stopSchedule {P : Unit → Phase V → Prop} (hP : P () (.begun .close)) :
    Walks i original .caller Reload.stopSchedule P (.begun .close) := by
  have hstop : (Program.change fun m : Memory V =>
      { m with timetable := m.timetable.map ({ · with stopping := true }) }).IsQuiet i :=
    ⟨fun _ => ⟨rfl, rfl, rfl⟩, fun _ => trivial⟩
  refine along_then (walks_quiet hstop rfl fun _ => ⟨.inr rfl, fun ph r hφ hr _ => ?_⟩)
  exact ⟨.begun .close, ⟨hr.inRange, .quiet rfl⟩, hP⟩

/-- **Every request can be walked through**, and ends where its reply is in order. -/
theorem walks_request_program (q : Request V) :
    Walks i original .caller q.program (fun reply φ => φ.Concludes q reply) (.begun q) := by
  cases q with
  | call c =>
    cases c with
    | read key =>
      refine walks_quiet (Program.each_bind (Quiet.read key) fun _ => Program.each_pure _) rfl fun _ => ?_
      exact ⟨rfl, fun _ => rfl⟩
    | write key v life => exact walks_write key v life
    | delete key => exact walks_delete key
    | has key =>
      refine walks_quiet (Program.each_bind (Quiet.command _) fun _ => Program.each_pure _) rfl fun _ => ?_
      exact ⟨rfl, fun _ => rfl⟩
    | clear =>
      refine walks_quiet (Program.each_bind (Quiet.command _) fun _ => Program.each_pure _) rfl fun _ => ?_
      exact ⟨rfl, fun _ => rfl⟩
  | shutdown flush =>
    refine along_then (walks_toEnding fun m hpolicy hlane => ?_)
    refine along_then (walks_mono (walks_shutdownOf (.shutdown flush) hpolicy hlane)
      fun count φ hφ => ?_)
    rw [hφ]
    refine ⟨rfl, rfl, fun flush' hflush => rfl⟩
  | switch policy =>
    refine along_then (along_then (walks_install ?_ fun m hpolicy hlane => ?_))
    · exact fun m hm => Memory.lane_install hm _ _ _
    refine along_then (walks_mono (walks_shutdownOf (.switch policy) hpolicy hlane) fun count φ hφ => ?_)
    rw [hφ]
    exact ⟨rfl, rfl, by rintro flush ⟨⟩⟩
  | close =>
    refine along_then (along_then (walks_stopSchedule ?_))
    refine along_then (walks_toEnding fun m hpolicy hlane => ?_)
    refine along_then (walks_mono (walks_shutdownOf .close hpolicy hlane) fun count φ hφ => ?_)
    rw [hφ]
    exact ⟨rfl, rfl, by rintro flush ⟨⟩⟩

end WriteBehind
end CacheLayer
