/-
What holds at every moment of an interplay. `Sound` joins the books (`Ledger`),
the queue and the switches (`Gate`) and the history as each side remembers it
(`Told`), all of them for the phases in which the two sides are. Each lemma
takes one side from one phase to the next; the other side's phase does not move,
so what it knows survives.
-/
import CacheLayer.Proofs.WriteBehind.Gate
import CacheLayer.Proofs.WriteBehind.Interplay

namespace CacheLayer.WriteBehind

variable {V : Type}

/-- As much of a record as the two sides have to do with. -/
structure Sight (V : Type) where
  lane : Lane V
  history : History V
  rows : KeyMap V
  /-- The strategy in force uses the lane. -/
  inForce : Bool

/-- The part of a record that has to do with a lane. -/
def Record.sight (i : Nat) (r : Record V) : Sight V where
  lane := r.scene.memory.lane i
  history := r.history
  rows := r.scene.world.rows
  inForce := r.scene.memory.usesLane i

/-- The phases of both sides. -/
abbrev Phases (V : Type) := Side → Phase V

/-- What the caller remembers of the history. -/
def Phase.Remembers (inForce : Bool) (h : History V) : Phase V → Prop
  | begun r => inForce = true ∧ h.wish? = r.change? ∧ .asked r ∈ h
  | settled number c => h.hand? .caller = some (number, c)
  | ending r | shutting r _ | closing r _ => r.flushes = false → .asked (.shutdown false) ∈ h
  | _ => True

/-- The history fits to the lane and to the phases. -/
structure Told (ph : Phases V) (inForce : Bool) (l : Lane V) (h : History V) : Prop where
  known : ∀ side hd, (ph side).hand? = some hd → h.hand? side = some hd.entry
  wished : ∀ hd, (ph .caller).hand? = some hd → h.wish? = some hd.change
  caller : (ph .caller).Remembers inForce h
  closed : ∀ r reply, .replied r reply ∈ h → r.closes = true →
    l.isOpen = false ∧ (ph .caller).isClosing = false
  halted : l.stopping = true → .asked (.shutdown false) ∈ h
  /-- A change that was acknowledged was issued. -/
  promised : ∀ older c d, (.replied (.call c) .done :: older) <:+ h → c.change? = some d →
    ∃ number, History.hand? .caller older = some (number, d)

/-- The request may end like this where the caller stands. -/
def Phase.Concludes (r : Request V) (reply : Strategy.Reply V) : Phase V → Prop
  | begun _ => r.closes = false ∧ (reply = .done → r.change? = none)
  | settled _ c => r.change? = some c
  | closed r' count => r' = r ∧ r.closes = true ∧ ∀ flush, r = .shutdown flush → reply = .count count
  | _ => False

/-- What the two sides have in hand. -/
def Phases.hands (ph : Phases V) : Hands V := fun side => (ph side).hand?

/-- What always holds. -/
structure Sound (original : KeyMap V) (ph : Phases V) (x : Sight V) : Prop where
  books : Ledger original ph.hands x.lane x.history.issues x.history.sendings x.rows
  gate : Gate (ph .worker) (ph .caller) x.lane
  told : Told ph x.inForce x.lane x.history

namespace Event

/-- The event is a reply to the caller. -/
def isReply : Event V → Bool
  | replied _ _ => true
  | _ => false

/-- The event leaves the caller with what it has in mind. -/
def isNews : Event V → Bool
  | taken _ _ | sent _ | loaded _ => true
  | _ => false

theorem isReply_of_isNews {e : Event V} (he : e.isNews = true) : e.isReply = false := by
  cases e <;> first | rfl | cases he

end Event

theorem hands_update (ph : Phases V) (side : Side) (φ : Phase V) :
    Phases.hands (Function.update ph side φ) = Function.update ph.hands side φ.hand? := by
  funext t
  by_cases ht : t = side
  · subst ht; simp [Phases.hands]
  · simp [Phases.hands, Function.update_of_ne ht]

namespace History

variable {e : Event V} {h : History V}

theorem wish?_news (he : e.isNews = true) : wish? (e :: h) = wish? h := by
  cases e <;> first | rfl | cases he

theorem hand?_news (he : e.isNews = true) : hand? .caller (e :: h) = hand? .caller h := by
  cases e <;> first | rfl | cases he

theorem mem_of_not_reply (he : e.isReply = false) {r : Request V} {reply : Strategy.Reply V}
    (hm : .replied r reply ∈ e :: h) : .replied r reply ∈ h := by
  rcases List.mem_cons.1 hm with heq | hm
  · rw [← heq] at he
    cases he
  · exact hm

theorem suffix_of_not_reply (he : e.isReply = false) {older : History V} {r : Request V}
    {reply : Strategy.Reply V} (hs : (.replied r reply :: older) <:+ e :: h) :
    (.replied r reply :: older) <:+ h := by
  rcases List.suffix_cons_iff.1 hs with heq | hs
  · cases heq
    cases he
  · exact hs

end History

namespace Told

variable {ph : Phases V} {inForce inForce' : Bool} {l l' : Lane V} {h : History V}

theorem remembers_news {e : Event V} (he : e.isNews = true) {φ : Phase V}
    (hφ : φ.Remembers inForce h) : φ.Remembers inForce (e :: h) := by
  cases φ with
  | begun r =>
    exact ⟨hφ.1, (History.wish?_news he).trans hφ.2.1, List.mem_cons_of_mem _ hφ.2.2⟩
  | settled number c => exact (History.hand?_news he).trans hφ
  | ending r | shutting r _ | closing r _ => exact fun hf => List.mem_cons_of_mem _ (hφ hf)
  | _ => trivial

theorem cons (ht : Told ph inForce l h) (ph' : Phases V) {e : Event V} (he : e.isReply = false)
    (hknown : ∀ side hd, (ph' side).hand? = some hd →
      History.hand? side (e :: h) = some hd.entry)
    (hwished : ∀ hd, (ph' .caller).hand? = some hd → History.wish? (e :: h) = some hd.change)
    (hremembers : (ph' .caller).Remembers inForce' (e :: h))
    (hclosing : l.isOpen = false → (ph .caller).isClosing = false →
      (ph' .caller).isClosing = false) : Told ph' inForce' l (e :: h) where
  known := hknown
  wished := hwished
  caller := hremembers
  closed := by
    intro r reply hr hc
    obtain ⟨ho, hcl⟩ := ht.closed r reply (History.mem_of_not_reply he hr) hc
    exact ⟨ho, hclosing ho hcl⟩
  halted := fun hs => List.mem_cons_of_mem _ (ht.halted hs)
  promised := fun older c d hs => ht.promised older c d (History.suffix_of_not_reply he hs)

/-- Something happens that leaves the caller with what it has in mind. -/
theorem news (ht : Told ph inForce l h) {e : Event V} (he : e.isNews = true)
    (hknown : ∀ hd, (ph .worker).hand? = some hd →
      History.hand? .worker (e :: h) = some hd.entry) : Told ph inForce l (e :: h) := by
  refine ht.cons ph (Event.isReply_of_isNews he) ?_
    (fun hd hhd => (History.wish?_news he).trans (ht.wished hd hhd))
    (remembers_news he ht.caller) fun _ hcl => hcl
  intro side hd hhd
  cases side with
  | caller => exact (History.hand?_news he).trans (ht.known .caller hd hhd)
  | worker => exact hknown hd hhd

theorem workerTo (ht : Told ph inForce l h) (φ : Phase V)
    (hknown : ∀ hd, φ.hand? = some hd → h.hand? .worker = some hd.entry) :
    Told (Function.update ph .worker φ) inForce l h where
  known := by
    intro side hd hhd
    cases side with
    | caller => exact ht.known .caller hd hhd
    | worker => exact hknown hd hhd
  wished := ht.wished
  caller := ht.caller
  closed := ht.closed
  halted := ht.halted
  promised := ht.promised

theorem callerTo (ht : Told ph inForce l h) (φ : Phase V)
    (hknown : ∀ hd, φ.hand? = some hd →
      h.hand? .caller = some hd.entry ∧ h.wish? = some hd.change)
    (hremembers : φ.Remembers inForce' h)
    (hclosing : l.isOpen = false → (ph .caller).isClosing = false → φ.isClosing = false) :
    Told (Function.update ph .caller φ) inForce' l h where
  known := by
    intro side hd hhd
    cases side with
    | caller => exact (hknown hd hhd).1
    | worker => exact ht.known .worker hd hhd
  wished := fun hd hhd => (hknown hd hhd).2
  caller := hremembers
  closed := by
    intro r reply hr hc
    obtain ⟨ho, hcl⟩ := ht.closed r reply hr hc
    exact ⟨ho, hclosing ho hcl⟩
  halted := ht.halted
  promised := ht.promised

theorem onLane (ht : Told ph inForce l h) (hopen : l'.isOpen = l.isOpen)
    (hstopping : l'.stopping = l.stopping) : Told ph inForce l' h where
  known := ht.known
  wished := ht.wished
  caller := ht.caller
  closed := by rw [hopen]; exact ht.closed
  halted := by rw [hstopping]; exact ht.halted
  promised := ht.promised

end Told

/-! ## Steps of either side -/

namespace Sound

variable {original rows : KeyMap V} {ph : Phases V} {x : Sight V} {side : Side} {number : Nat}
  {c : Change V} {stage stage' : Stage} {l : Lane V} {r : Request V} {count : Nat}

theorem told_rehold (h : Sound original ph x) (hs : ph side = .holding ⟨number, c, stage⟩) :
    Told (Function.update ph side (.holding ⟨number, c, stage'⟩)) x.inForce x.lane x.history := by
  have hknown := h.told.known side ⟨number, c, stage⟩ (by rw [hs]; rfl)
  cases side with
  | caller =>
    refine h.told.callerTo _ (fun hd hhd => ?_) trivial fun _ _ => rfl
    cases hhd
    exact ⟨hknown, h.told.wished ⟨number, c, stage⟩ (by rw [hs]; rfl)⟩
  | worker =>
    refine h.told.workerTo _ fun hd hhd => ?_
    cases hhd
    exact hknown

theorem gate_rehold (h : Sound original ph x) (hs : ph side = .holding ⟨number, c, stage⟩) :
    Gate (Function.update ph side (.holding ⟨number, c, stage'⟩) .worker)
      (Function.update ph side (.holding ⟨number, c, stage'⟩) .caller) x.lane := by
  cases side with
  | caller =>
    refine h.gate.callerTo _ trivial fun hc => ?_
    rw [hs] at hc
    cases hc
  | worker => exact h.gate.workerTo _ trivial (by rw [hs]; rfl) (by simp [hs])

/-- A change in hand takes its next step. -/
theorem rehold (h : Sound original ph x) (hs : ph side = .holding ⟨number, c, stage⟩)
    (hl : Gate.Same x.lane l)
    (books : Ledger original (Function.update ph.hands side (some ⟨number, c, stage'⟩)) l
      x.history.issues x.history.sendings x.rows) :
    Sound original (Function.update ph side (.holding ⟨number, c, stage'⟩))
      { x with lane := l } where
  books := by rw [hands_update]; exact books
  gate := (h.gate_rehold hs).same hl
  told := (h.told_rehold hs).onLane hl.isOpen hl.stopping

theorem hands_of_holding {hd : Hand V} (hs : ph side = .holding hd) :
    ph.hands side = some hd := by
  rw [Phases.hands, hs]; rfl

theorem enterLine (h : Sound original ph x) (hs : ph side = .holding ⟨number, c, .taken⟩) :
    Sound original (Function.update ph side (.holding ⟨number, c, .waiting⟩))
      { x with lane := x.lane.enterLine number } :=
  h.rehold hs ⟨rfl, rfl, rfl, rfl, rfl, rfl⟩ (h.books.enterLine (hands_of_holding hs))

theorem serve (h : Sound original ph x) (hs : ph side = .holding ⟨number, c, .waiting⟩)
    (hserving : x.lane.isServing number = true) :
    Sound original (Function.update ph side (.holding ⟨number, c, .serving⟩)) x :=
  h.rehold hs (.refl _) (h.books.serve (hands_of_holding hs) hserving)

theorem clear (h : Sound original ph x) (hs : ph side = .holding ⟨number, c, .serving⟩)
    (hlatest : x.lane.isLatest c.key number = true) :
    Sound original (Function.update ph side (.holding ⟨number, c, .cleared⟩)) x :=
  h.rehold hs (.refl _) (h.books.clear (hands_of_holding hs) hlatest)

theorem skip (h : Sound original ph x) (hs : ph side = .holding ⟨number, c, .serving⟩)
    (hlatest : x.lane.isLatest c.key number = false) :
    Sound original (Function.update ph side (.holding ⟨number, c, .through⟩)) x :=
  h.rehold hs (.refl _) (h.books.skip (hands_of_holding hs) hlatest)

theorem leaveLine (h : Sound original ph x) (hs : ph side = .holding ⟨number, c, .through⟩) :
    Sound original (Function.update ph side (.holding ⟨number, c, .left⟩))
      { x with lane := x.lane.leaveLine } :=
  h.rehold hs ⟨rfl, rfl, rfl, rfl, rfl, rfl⟩ (h.books.leaveLine (hands_of_holding hs))

theorem send (h : Sound original ph x) (hs : ph side = .holding ⟨number, c, .cleared⟩)
    (answer : Except Error Unit) (hrows : ∀ key, rows.get? key =
      if c.key = key ∧ answer.toBool = true then c.value else x.rows.get? key) :
    Sound original (Function.update ph side (.holding ⟨number, c, .through⟩))
      { x with history := .sent ⟨number, c, answer⟩ :: x.history, rows := rows } where
  books := by
    rw [hands_update]
    exact h.books.send (hands_of_holding hs) answer hrows
  gate := h.gate_rehold hs
  told := (h.told_rehold hs).news rfl ((h.told_rehold hs).known .worker)

/-! ## Steps of the worker -/

theorem hands_of_update {φ : Phase V} (hs : (ph side).hand? = φ.hand?) :
    Phases.hands (Function.update ph side φ) = ph.hands := by
  rw [hands_update, ← hs]
  exact Function.update_eq_self side ph.hands

theorem workerTo (h : Sound original ph x) (φ : Phase V) (hs : (ph .worker).hand? = none)
    (hφ : φ.hand? = none) (hk : φ.WorkerKnows x.lane) (hload : φ.load = (ph .worker).load)
    (hgone : φ = .gone ↔ ph .worker = .gone) :
    Sound original (Function.update ph .worker φ) x where
  books := by rw [hands_of_update (hs.trans hφ.symm)]; exact h.books
  gate := h.gate.workerTo φ hk hload hgone
  told := h.told.workerTo φ fun hd hhd => by rw [hφ] at hhd; cases hhd

theorem called (h : Sound original ph x) (hs : ph .worker = .resting)
    (hcalls : x.lane.calls = true) : Sound original (Function.update ph .worker .called) x :=
  h.workerTo .called (by rw [hs]; rfl) rfl hcalls (by rw [hs]; rfl) (by simp [hs])

theorem choose (h : Sound original ph x) (hs : ph .worker = .called)
    (hqueue : x.lane.queue.head? = some (number, c)) :
    Sound original (Function.update ph .worker (.chosen number c)) x :=
  h.workerTo (.chosen number c) (by rw [hs]; rfl) rfl hqueue (by rw [hs]; rfl) (by simp [hs])

/-- The worker is called, and sees that it is to leave. -/
theorem turnAway (h : Sound original ph x) (hs : ph .worker = .called)
    (hleave : x.lane.stopping = true ∨ x.lane.queue = []) :
    Sound original (Function.update ph .worker .leaving) x := by
  have hcalls : x.lane.calls = true := by
    have hk := h.gate.worker
    rwa [hs] at hk
  refine h.workerTo .leaving (by rw [hs]; rfl) rfl ⟨?_, hleave⟩ (by rw [hs]; rfl) (by simp [hs])
  rcases hleave with hstop | hq
  · exact h.gate.stopping hstop
  · cases ho : x.lane.isOpen with
    | false => rfl
    | true =>
      cases hstop : x.lane.stopping with
      | true => rw [h.gate.stopping hstop] at ho; cases ho
      | false => simp [Lane.calls, hq, ho, hstop] at hcalls

theorem pop (h : Sound original ph x) (hs : ph .worker = .chosen number c) :
    Sound original (Function.update ph .worker (.holding ⟨number, c, .taken⟩))
      { x with lane := x.lane.pop, history := .taken number c :: x.history } where
  books := by
    rw [hands_update]
    have hk := h.gate.worker
    rw [hs] at hk
    exact h.books.pop (by rw [Phases.hands, hs]; rfl) hk
  gate := by
    have hg := h.gate
    rw [hs] at hg
    exact hg.pop _
  told := by
    have ht : Told (Function.update ph .worker .resting) x.inForce x.lane x.history :=
      h.told.workerTo .resting (by rintro hd ⟨⟩)
    have hnews := ht.news (e := .taken number c) rfl (by rintro hd ⟨⟩)
    have hback : Function.update (Function.update ph .worker .resting) .worker
        (.holding ⟨number, c, .taken⟩) = Function.update ph .worker (.holding ⟨number, c, .taken⟩) :=
      Function.update_idem _ _ _
    rw [← hback]
    refine (hnews.workerTo _ fun hd hhd => ?_).onLane rfl rfl
    cases hhd
    rfl

theorem finishWorker (h : Sound original ph x)
    (hs : ph .worker = .holding ⟨number, c, .left⟩) :
    Sound original (Function.update ph .worker (.releasing number c))
      { x with lane := x.lane.finish c.key } := by
  have hsame : Gate.Same x.lane (x.lane.finish c.key) := by
    rw [finish_eq]; exact ⟨rfl, rfl, rfl, rfl, rfl, rfl⟩
  refine ⟨?_, ?_, ?_⟩
  · rw [hands_update]
    exact h.books.finish (hands_of_holding hs)
  · exact (h.gate.workerTo (.releasing number c) trivial (by rw [hs]; rfl) (by simp [hs])).same
      hsame
  · exact (h.told.workerTo (.releasing number c) (by rintro hd ⟨⟩)).onLane hsame.isOpen
      hsame.stopping

theorem release (h : Sound original ph x) (hs : ph .worker = .releasing number c) :
    Sound original (Function.update ph .worker .resting) { x with lane := x.lane.release } where
  books := by
    rw [hands_of_update (by rw [hs]; rfl)]
    exact h.books.onLane rfl rfl rfl rfl id
  gate := by
    have hg := h.gate
    rw [hs] at hg
    exact hg.release
  told := (h.told.workerTo .resting (by rintro hd ⟨⟩)).onLane rfl rfl

theorem leave (h : Sound original ph x) (hs : ph .worker = .leaving) :
    Sound original (Function.update ph .worker .gone) { x with lane := x.lane.leave } where
  books := by
    rw [hands_of_update (by rw [hs]; rfl)]
    exact h.books.onLane rfl rfl rfl rfl id
  gate := by
    have hg := h.gate
    rw [hs] at hg
    exact hg.leave
  told := (h.told.workerTo .gone (by rintro hd ⟨⟩)).onLane rfl rfl

/-! ## Steps of the caller -/

theorem callerTo (h : Sound original ph x) (φ : Phase V) (hs : (ph .caller).hand? = none)
    (hφ : φ.hand? = none) (hg : Gate (ph .worker) φ x.lane) {inForce : Bool}
    (hremembers : φ.Remembers inForce x.history)
    (hclosing : x.lane.isOpen = false → (ph .caller).isClosing = false → φ.isClosing = false) :
    Sound original (Function.update ph .caller φ) { x with inForce := inForce } where
  books := by rw [hands_of_update (hs.trans hφ.symm)]; exact h.books
  gate := hg
  told := h.told.callerTo φ (fun hd hhd => by rw [hφ] at hhd; cases hhd) hremembers hclosing

theorem issue (h : Sound original ph x) (hs : ph .caller = .begun r)
    (hr : r.change? = some c) :
    Sound original
      (Function.update ph .caller (.holding ⟨x.lane.issued + 1, c, .taken⟩))
      { x with
        lane := x.lane.issue c.key
        history := .issued (x.lane.issued + 1) c :: x.history } := by
  have hwish : x.history.wish? = some c := by
    have hk := h.told.caller
    rw [hs] at hk
    exact hk.2.1.trans hr
  refine ⟨?_, ?_, ?_⟩
  · rw [hands_update]
    exact h.books.issue (by rw [Phases.hands, hs]; rfl) c
  · refine (h.gate.callerTo (.holding ⟨x.lane.issued + 1, c, .taken⟩) trivial fun hc => ?_).same
      ⟨rfl, rfl, rfl, rfl, rfl, rfl⟩
    rw [hs] at hc
    cases hc
  · let ph' := Function.update ph .caller (.holding ⟨x.lane.issued + 1, c, .taken⟩)
    refine (h.told.cons ph' rfl ?_ ?_ trivial fun _ _ => rfl).onLane rfl rfl
    · intro side hd hhd
      cases side with
      | caller => cases hhd; rfl
      | worker => exact h.told.known .worker hd hhd
    · intro hd hhd
      cases hhd
      exact hwish

theorem findRoom (h : Sound original ph x) (hs : ph .caller = .holding ⟨number, c, .taken⟩)
    (hroom : x.lane.hasRoom = true) :
    Sound original (Function.update ph .caller (.admitted number c)) x := by
  have hknown := h.told.known .caller ⟨number, c, .taken⟩ (by rw [hs]; rfl)
  have hwished := h.told.wished ⟨number, c, .taken⟩ (by rw [hs]; rfl)
  refine ⟨?_, ?_, ?_⟩
  · rw [hands_of_update (by rw [hs]; rfl)]
    exact h.books
  · refine h.gate.callerTo (.admitted number c) hroom fun hc => ?_
    rw [hs] at hc
    cases hc
  · refine h.told.callerTo (.admitted number c) (fun hd hhd => ?_) trivial fun _ _ => rfl
    cases hhd
    exact ⟨hknown, hwished⟩

theorem push (h : Sound original ph x) (hs : ph .caller = .admitted number c) :
    Sound original (Function.update ph .caller (.settled number c))
      { x with lane := x.lane.push number c } := by
  have hhand : (ph .caller).hand? = some ⟨number, c, .taken⟩ := by rw [hs]; rfl
  refine ⟨?_, ?_, ?_⟩
  · rw [hands_update]
    exact h.books.push hhand
  · have hg := h.gate
    rw [hs] at hg
    exact hg.push
  · exact (h.told.callerTo (.settled number c) (by rintro hd ⟨⟩)
      (h.told.known .caller _ hhand) fun _ _ => rfl).onLane rfl rfl

theorem finishCaller (h : Sound original ph x)
    (hs : ph .caller = .holding ⟨number, c, .left⟩) :
    Sound original (Function.update ph .caller (.settled number c))
      { x with lane := x.lane.finish c.key } := by
  have hhand : (ph .caller).hand? = some ⟨number, c, .left⟩ := by rw [hs]; rfl
  have hsame : Gate.Same x.lane (x.lane.finish c.key) := by
    rw [finish_eq]; exact ⟨rfl, rfl, rfl, rfl, rfl, rfl⟩
  refine ⟨?_, ?_, ?_⟩
  · rw [hands_update]
    exact h.books.finish hhand
  · refine (h.gate.callerTo (.settled number c) trivial fun hc => ?_).same hsame
    rw [hs] at hc
    cases hc
  · exact (h.told.callerTo (.settled number c) (by rintro hd ⟨⟩)
      (h.told.known .caller _ hhand) fun _ _ => rfl).onLane hsame.isOpen hsame.stopping

/-- The caller is about to shut the lane; another strategy may be in force by now. -/
theorem toEnding (h : Sound original ph x) (hs : ph .caller = .begun r) (inForce : Bool) :
    Sound original (Function.update ph .caller (.ending r)) { x with inForce := inForce } := by
  have hk := h.told.caller
  rw [hs] at hk
  refine h.callerTo (.ending r) (by rw [hs]; rfl) rfl ?_ (fun hflush => ?_) fun _ _ => rfl
  · refine h.gate.callerTo (.ending r) trivial fun hc => ?_
    rw [hs] at hc
    cases hc
  · rw [← Request.eq_of_flushes hflush]
    exact hk.2.2

theorem toShutting (h : Sound original ph x) (hs : ph .caller = .ending r)
    (ho : x.lane.isOpen = true) (count : Nat) :
    Sound original (Function.update ph .caller (.shutting r count)) x := by
  have hk := h.told.caller
  rw [hs] at hk
  refine h.callerTo (.shutting r count) (by rw [hs]; rfl) rfl ?_ hk fun _ _ => rfl
  refine h.gate.callerTo (.shutting r count) ho fun hc => ?_
  rw [hs] at hc
  cases hc

theorem shut (h : Sound original ph x) (hs : ph .caller = .shutting r count) :
    Sound original (Function.update ph .caller (.closing r count))
      { x with lane := if r.flushes then x.lane.close else x.lane.halt } := by
  have hg := h.gate
  rw [hs] at hg
  have hk := h.told.caller
  rw [hs] at hk
  refine ⟨?_, hg.shutLane, ?_⟩
  · rw [hands_of_update (by rw [hs]; rfl)]
    cases r.flushes with
    | true => exact h.books.onLane rfl rfl rfl rfl id
    | false => exact h.books.onLane rfl rfl rfl rfl fun _ => rfl
  · refine ⟨?_, (by rintro hd ⟨⟩), hk, ?_, ?_, h.told.promised⟩
    · intro side hd hhd
      cases side with
      | caller => cases hhd
      | worker => exact h.told.known .worker hd hhd
    · intro r reply hr hc
      have hopen := (h.told.closed r reply hr hc).1
      rw [show x.lane.isOpen = true from hg.caller] at hopen
      cases hopen
    · cases hflush : r.flushes with
      | true => exact h.told.halted
      | false => exact fun _ => hk hflush

theorem already (h : Sound original ph x) (hs : ph .caller = .ending r)
    (ho : x.lane.isOpen = false) :
    Sound original (Function.update ph .caller (.closed r 0)) x := by
  have hg := h.gate
  rw [hs] at hg
  exact h.callerTo (.closed r 0) (by rw [hs]; rfl) rfl (hg.already ho) trivial fun _ _ => rfl

theorem flushed (h : Sound original ph x) (hs : ph .caller = .closing r count)
    (hflush : r.flushes = true) (he : x.lane.ended = true) :
    Sound original (Function.update ph .caller (.closed r count)) x := by
  have hg := h.gate
  rw [hs] at hg
  exact h.callerTo (.closed r count) (by rw [hs]; rfl) rfl (hg.flushed hflush he) trivial
    fun _ _ => rfl

theorem halted (h : Sound original ph x) (hs : ph .caller = .closing r count)
    (hflush : r.flushes = false) (he : x.lane.ended = true) :
    Sound original (Function.update ph .caller (.deserted r)) x := by
  have hg := h.gate
  rw [hs] at hg
  refine h.callerTo (.deserted r) (by rw [hs]; rfl) rfl (hg.halted hflush he) trivial
    fun _ hc => ?_
  rw [hs] at hc
  cases hc

theorem discard (h : Sound original ph x) (hs : ph .caller = .deserted r) (count : Nat) :
    Sound original (Function.update ph .caller (.closed r count))
      { x with lane := x.lane.discard } := by
  have hg := h.gate
  rw [hs] at hg
  have hlane : x.lane.discard.isOpen = x.lane.isOpen ∧ x.lane.discard.stopping = x.lane.stopping := by
    rw [Lane.discard, sweep_eq]
    exact ⟨rfl, rfl⟩
  refine ⟨?_, hg.discard count, ?_⟩
  · rw [hands_of_update (by rw [hs]; rfl)]
    exact h.books.discard hg.caller.2.1
  · exact (h.told.callerTo (.closed r count) (by rintro hd ⟨⟩) trivial fun _ _ => rfl).onLane
      hlane.1 hlane.2

/-! ## Requests and replies -/

theorem loaded (h : Sound original ph x) (key : String) :
    Sound original ph { x with history := .loaded key :: x.history } :=
  ⟨h.books, h.gate, h.told.news rfl fun hd hhd => h.told.known .worker hd hhd⟩

theorem asked (h : Sound original ph x) (hs : ph .caller = .idle) (hforce : x.inForce = true)
    (r : Request V) :
    Sound original (Function.update ph .caller (.begun r))
      { x with history := .asked r :: x.history } := by
  refine ⟨?_, ?_, ?_⟩
  · rw [hands_of_update (by rw [hs]; rfl)]
    exact h.books
  · refine h.gate.callerTo (.begun r) trivial fun hc => ?_
    rw [hs] at hc
    cases hc
  · let ph' := Function.update ph .caller (.begun r)
    refine h.told.cons ph' rfl ?_ (by rintro hd ⟨⟩)
      ⟨hforce, rfl, List.mem_cons_self⟩ fun _ _ => rfl
    intro side hd hhd
    cases side with
    | caller => cases hhd
    | worker => exact h.told.known .worker hd hhd

/-- When a request returns that closes the lane, the lane is shut. -/
theorem shut_of_concludes (h : Sound original ph x) {reply : Strategy.Reply V}
    (hc : (ph .caller).Concludes r reply) (hcloses : r.closes = true) : x.lane.isOpen = false := by
  have hcaller := h.gate.caller
  cases hφ : ph .caller with
  | begun r' =>
    rw [hφ] at hc
    rw [hc.1] at hcloses
    cases hcloses
  | settled number d =>
    rw [hφ] at hc
    rw [Request.closes_of_change? hc] at hcloses
    cases hcloses
  | closed r' count =>
    -- the worker has left, and it leaves no open lane
    rw [hφ] at hcaller
    have hworker := h.gate.worker
    rw [h.gate.ended.1 hcaller.1] at hworker
    exact hworker.1
  | _ =>
    rw [hφ] at hc
    cases hc

/-- When a change is acknowledged, the caller has issued it in this request. -/
theorem issued_of_concludes (h : Sound original ph x) {call : Strategy.Call V} {d : Change V}
    (hc : (ph .caller).Concludes (.call call) .done) (hd : call.change? = some d) :
    ∃ number, x.history.hand? .caller = some (number, d) := by
  have hcaller := h.told.caller
  cases hφ : ph .caller with
  | begun r' =>
    rw [hφ] at hc
    have hnone : (Request.call call).change? = none := hc.2 rfl
    rw [show (Request.call call).change? = call.change? from rfl, hd] at hnone
    cases hnone
  | settled number d' =>
    rw [hφ] at hc hcaller
    have hsome : call.change? = some d' := hc
    rw [hd] at hsome
    cases hsome
    exact ⟨number, hcaller⟩
  | closed r' count =>
    rw [hφ] at hc
    cases hc.2.1
  | _ =>
    rw [hφ] at hc
    cases hc

theorem replied (h : Sound original ph x) {reply : Strategy.Reply V}
    (hc : (ph .caller).Concludes r reply) :
    Sound original (Function.update ph .caller .idle)
      { x with history := .replied r reply :: x.history } := by
  have hhand : (ph .caller).hand? = none := by
    cases hφ : ph .caller <;> simp [Phase.Concludes, hφ] at hc <;> rfl
  have hclosing : (ph .caller).isClosing = false := by
    cases hφ : ph .caller <;> simp [Phase.Concludes, hφ] at hc <;> rfl
  refine ⟨?_, ?_, ?_, (by rintro hd ⟨⟩), trivial, ?_, ?_, ?_⟩
  · rw [hands_of_update hhand]
    exact h.books
  · refine h.gate.callerTo .idle trivial fun hcl => ?_
    rw [hclosing] at hcl
    cases hcl
  · intro side hd hhd
    cases side with
    | caller => cases hhd
    | worker => exact h.told.known .worker hd hhd
  · intro r' reply' hr hcloses
    refine ⟨?_, rfl⟩
    rcases List.mem_cons.1 hr with heq | hr
    · cases heq
      exact h.shut_of_concludes hc hcloses
    · exact (h.told.closed r' reply' hr hcloses).1
  · exact fun hstop => List.mem_cons_of_mem _ (h.told.halted hstop)
  · intro older c d hs hd
    rcases List.suffix_cons_iff.1 hs with heq | hs
    · cases heq
      exact h.issued_of_concludes hc hd
    · exact h.told.promised older c d hs hd

end Sound
end CacheLayer.WriteBehind
