/-
How the changes of a lane are accounted for when it is shut. What a shutdown returns is known from the
run that led to it: the number of changes that were pending at a moment of the call, or of those that
waited when the worker had left (`Accounts`). From then on nothing is pending, and every change that is
issued is sent before its request returns.

Main statement: `run_exact`.
-/
import Mathlib.Data.List.Induction
import CacheLayer.Proofs.WriteBehind.Custody

namespace CacheLayer.WriteBehind

variable {V : Type}

/-! ## Shut lanes -/

namespace History

variable {h h' : History V} {e : Event V}

/-- A request has returned that closes the lane. -/
def IsShut (h : History V) : Prop := ∃ r reply, .replied r reply ∈ h ∧ r.closes = true

theorem IsShut.mono (hshut : h.IsShut) (hsub : h ⊆ h') : h'.IsShut := by
  obtain ⟨r, reply, hmem, hcloses⟩ := hshut
  exact ⟨r, reply, hsub hmem, hcloses⟩

theorem isShut_cons (he : e.isReply = false) : IsShut (e :: h) ↔ h.IsShut := by
  refine ⟨fun hshut => ?_, fun hshut => hshut.mono (List.subset_cons_self _ _)⟩
  obtain ⟨r, reply, hmem, hcloses⟩ := hshut
  exact ⟨r, reply, mem_of_not_reply he hmem, hcloses⟩

/-- The change was sent under its number. -/
def HasSent (h : History V) (x : Nat × Change V) : Prop := ∃ answer, .sent ⟨x.1, x.2, answer⟩ ∈ h

theorem HasSent.cons {x : Nat × Change V} (hsent : h.HasSent x) (e : Event V) :
    HasSent (e :: h) x := by
  obtain ⟨answer, hmem⟩ := hsent
  exact ⟨answer, List.mem_cons_of_mem _ hmem⟩

theorem issues_news (he : e.isNews = true) : issues (e :: h) = h.issues := by
  cases e <;> first | rfl | cases he

end History

/-- The change is over, and was not sent. -/
structure Watch.Dropped (w : Watch V) (x : Nat × Change V) : Prop where
  issued : x ∈ w.history.issues
  finished : x ∉ w.unfinished
  unsent : ∀ s ∈ w.history.sendings, s.number ≠ x.1

/-- What the number stands for that is returned when a lane is shut, after a run with this history.
The run begins with `w`. -/
inductive Accounts (w : Watch V) (moves : List (Move V)) (h : History V) (r : Request V) :
    Nat → Prop where
  /-- The lane was shut before. -/
  | already (hshut : h.IsShut) : Accounts w moves h r 0
  /-- So many changes were pending at a moment of the call. Those that waited were all taken. -/
  | flushed {earlier : List (Move V)} (hflush : r.flushes = true) (hfirst : ¬ h.IsShut)
      (hearlier : earlier <+: moves)
      (hcall : (w.run earlier).play.request.map Prod.fst = some r)
      (hopen : (w.run earlier).lane.isOpen = true)
      (htaken : ∀ x ∈ (w.run earlier).lane.queue, .taken x.1 x.2 ∈ h) :
      Accounts w moves h r (w.run earlier).lane.pending
  /-- So many changes waited when the worker had left. None of them is ever sent. -/
  | dropped {earlier : List (Move V)} (hflush : r.flushes = false) (hfirst : ¬ h.IsShut)
      (hearlier : earlier <+: moves)
      (hcall : (w.run earlier).play.request.map Prod.fst = some r)
      (hended : (w.run earlier).lane.ended = true)
      (hdropped : ∀ x ∈ (w.run earlier).lane.queue, (w.run moves).Dropped x) :
      Accounts w moves h r (w.run earlier).lane.queue.length

/-! ## What a step adds -/

section Steps

variable {original : KeyMap V} {ph : Phases V} {side : Side} {φ φ' : Phase V} {x x' : Sight V}

theorem Step.history (hs : Step side φ x φ' x') :
    x'.history = x.history ∨ ∃ e, x'.history = e :: x.history := by
  cases hs with
  | loaded | send | pop | asked | issue | replied => exact .inr ⟨_, rfl⟩
  | _ => exact .inl rfl

theorem Step.suffix (hs : Step side φ x φ' x') : x.history <:+ x'.history := by
  rcases hs.history with hsame | ⟨e, hcons⟩
  · exact hsame ▸ List.suffix_rfl
  · rw [hcons]
    exact List.suffix_cons e x.history

/-- What waits after a step waited before it, or was in hand. -/
theorem Step.queue (hs : Step side φ x φ' x') {y : Nat × Change V} (hy : y ∈ x'.lane.queue) :
    y ∈ x.lane.queue ∨ ∃ hd, φ.hand? = some hd ∧ hd.entry = y := by
  cases hs with
  | finish =>
    rw [finish_eq] at hy
    exact .inl hy
  | pop => exact .inl (List.mem_of_mem_tail hy)
  | push =>
    rcases List.mem_append.1 hy with hy | hy
    · exact .inl hy
    · exact .inr ⟨_, rfl, (List.mem_singleton.1 hy).symm⟩
  | @shut x r count =>
    revert hy
    cases r.flushes <;> exact .inl
  | discard => cases hy
  | _ => exact .inl hy

/-- What is in hand after a step was in hand before it or waited, or is new. -/
theorem Step.hand? (hs : Step side φ x φ' x') (h : Sound original ph x) (hφ : ph side = φ)
    {hd : Hand V} (hhd : φ'.hand? = some hd) :
    (∃ hd', φ.hand? = some hd' ∧ hd'.entry = hd.entry) ∨ hd.entry ∈ x.lane.queue ∨
      x.lane.issued < hd.number := by
  cases hs with
  | quiet | loaded => exact .inl ⟨hd, hhd, rfl⟩
  | enterLine | serve | clear | skip | send | leaveLine | findRoom =>
    cases hhd
    exact .inl ⟨_, rfl, rfl⟩
  | pop =>
    cases hhd
    have hk := h.gate.worker
    rw [hφ] at hk
    exact .inr (.inl (List.mem_of_head? hk))
  | issue =>
    cases hhd
    exact .inr (.inr (Nat.lt_succ_self _))
  | finish => cases side <;> cases hhd
  | _ => cases hhd

/-- What is sent in a step was in hand. -/
theorem Step.sendings (hs : Step side φ x φ' x') {s : Sending V} (hsent : s ∈ x'.history.sendings) :
    s ∈ x.history.sendings ∨ ∃ hd, φ.hand? = some hd ∧ s.number = hd.number := by
  cases hs with
  | send answer =>
    rcases List.mem_cons.1 hsent with rfl | hsent
    · exact .inr ⟨_, rfl, rfl⟩
    · exact .inl hsent
  | _ => exact .inl hsent

theorem mem_owed_iff {hands : Hands V} {queue : List (Nat × Change V)} {y : Nat × Change V} :
    y ∈ owed hands queue ↔ y ∈ queue ∨ ∃ t hd, hands t = some hd ∧ hd.entry = y := by
  constructor
  · intro hy
    simp only [owed, List.mem_append, List.mem_map, Option.mem_toList, or_assoc] at hy
    rcases hy with ⟨hd, hhd, hentry⟩ | hy | ⟨hd, hhd, hentry⟩
    · exact .inr ⟨.worker, hd, hhd, hentry⟩
    · exact .inl hy
    · exact .inr ⟨.caller, hd, hhd, hentry⟩
  · rintro (hy | ⟨t, hd, hhd, rfl⟩)
    · simp [owed, hy]
    · exact mem_owed hhd queue

/-- What is unfinished after a step was so before it, or is new. -/
theorem Step.owed (hs : Step side φ x φ' x') (h : Sound original ph x) (hφ : ph side = φ)
    {y : Nat × Change V}
    (hy : y ∈ owed (Phases.hands (Function.update ph side φ')) x'.lane.queue) :
    y ∈ WriteBehind.owed ph.hands x.lane.queue ∨ x.lane.issued < y.1 := by
  have hhand {hd : Hand V} (hhd : φ.hand? = some hd) : hd.entry ∈ WriteBehind.owed ph.hands x.lane.queue :=
    mem_owed (show ph.hands side = some hd by rw [Phases.hands, hφ, hhd]) _
  rw [hands_update] at hy
  rcases mem_owed_iff.1 hy with hy | ⟨t, hd, hhd, rfl⟩
  · rcases hs.queue hy with hy | ⟨hd, hhd, rfl⟩
    · exact .inl (mem_owed_iff.2 (.inl hy))
    · exact .inl (hhand hhd)
  · by_cases ht : t = side
    · subst ht
      rw [Function.update_self] at hhd
      rcases hs.hand? h hφ hhd with ⟨hd', hhd', hentry⟩ | hy | hnew
      · exact .inl (hentry ▸ hhand hhd')
      · exact .inl (mem_owed_iff.2 (.inl hy))
      · exact .inr hnew
    · rw [Function.update_of_ne ht] at hhd
      exact .inl (mem_owed hhd _)

end Steps

namespace Watched

variable {original : KeyMap V} {ph : Phases V} {w : Watch V}

/-- A change that was thrown away stays so. -/
theorem dropped_move (h : Watched original ph w) {y : Nat × Change V} (hy : w.Dropped y)
    (mv : Move V) : (w.move mv).Dropped y := by
  obtain ⟨ph', h', hproceeds⟩ := h.move mv
  have hbooks := h.sound.books
  have hover := hy.finished
  rw [h.unfinished] at hover
  cases hactor : w.play.actor? mv with
  | none =>
    rw [hactor] at hproceeds
    obtain ⟨rfl, hsight⟩ := hproceeds
    have hhistory : (w.move mv).history = w.history := congrArg Sight.history hsight
    have hlane : (w.move mv).lane = w.lane := congrArg Sight.lane hsight
    exact ⟨hhistory ▸ hy.issued, by rw [h'.unfinished, hlane]; exact hover, hhistory ▸ hy.unsent⟩
  | some side =>
    rw [hactor] at hproceeds
    obtain ⟨φ, rfl, hstep⟩ := hproceeds
    refine ⟨(hstep.suffix.filterMap Event.issue?).mem hy.issued, fun howed => ?_, fun s hs hnumber => ?_⟩
    · rw [h'.unfinished] at howed
      rcases hstep.owed h.sound rfl howed with howed | hnew
      · exact hover howed
      · exact absurd (hbooks.numbered y hy.issued) (Nat.not_le.2 hnew)
    · rcases hstep.sendings hs with hs | ⟨hd, hhd, hsame⟩
      · exact hy.unsent s hs hnumber
      · have howed : hd.entry ∈ owed ph.hands w.play.sight.lane.queue := mem_owed hhd _
        have heq : hd.entry = y :=
          hbooks.unique (hbooks.owedIssued _ howed) hy.issued (hsame.symm.trans hnumber)
        exact hover (heq ▸ howed)

end Watched

/-! ## Remembering a run -/

theorem Accounts.move {original : KeyMap V} {ph : Phases V} {w : Watch V} {moves : List (Move V)}
    {h : History V} {r : Request V} {count : Nat} (ha : Accounts w moves h r count)
    (hw : Watched original ph (w.run moves)) (mv : Move V) :
    Accounts w (moves ++ [mv]) h r count := by
  cases ha with
  | already hshut => exact .already hshut
  | flushed hflush hfirst hearlier hcall hopen htaken =>
    exact .flushed hflush hfirst (hearlier.trans (List.prefix_append _ _)) hcall hopen htaken
  | dropped hflush hfirst hearlier hcall hended hdropped =>
    refine .dropped hflush hfirst (hearlier.trans (List.prefix_append _ _)) hcall hended
      fun x hx => ?_
    rw [Watch.run_concat]
    exact hw.dropped_move (hdropped x hx) mv

/-- So many changes were pending at a moment of the call, and those that waited then were taken or
wait still. -/
def Seen (w : Watch V) (moves : List (Move V)) (x : Sight V) (r : Request V) (count : Nat) : Prop :=
  ∃ earlier, earlier <+: moves ∧ (w.run earlier).play.request.map Prod.fst = some r ∧
    (w.run earlier).lane.isOpen = true ∧ count = (w.run earlier).lane.pending ∧
    ∀ y ∈ (w.run earlier).lane.queue, y ∈ x.lane.queue ∨ .taken y.1 y.2 ∈ x.history

/-- What the caller could tell of the run where it stands. -/
def Phase.Tells (w : Watch V) (moves : List (Move V)) (x : Sight V) : Phase V → Prop
  | begun _ => x.history.hand? .caller = none
  | holding hd => x.history.issues.head? = some hd.entry ∧
      (hd.stage.isUndecided = false → x.history.HasSent hd.entry)
  | settled number c => x.history.HasSent (number, c) ∨ ¬ x.history.IsShut
  | shutting r count | closing r count => ¬ x.history.IsShut ∧ Seen w moves x r count
  | deserted r => ¬ x.history.IsShut ∧ r.flushes = false
  | closed r count => Accounts w moves x.history r count
  | _ => True

/-- The caller has shut the lane in the request that it is at. -/
def Phase.isOver : Phase V → Bool
  | closing _ _ | deserted _ | closed _ _ => true
  | _ => false

/-- How a change goes that is made when the lane is shut: it is sent, or it was not issued, since the
cache had failed. -/
def Direct (older : History V) (reply : Strategy.Reply V) (c : Change V) : Prop :=
  (∃ number, older.hand? .caller = some (number, c) ∧ older.HasSent (number, c)) ∨
    older.hand? .caller = none ∧ reply ≠ .done

/-- The replies of the history are those that the run accounts for. -/
structure Replies (w : Watch V) (moves : List (Move V)) (h : History V) : Prop where
  shutdown : ∀ older flush reply, (.replied (.shutdown flush) reply :: older) <:+ h →
    ∃ count, reply = .count count ∧ Accounts w moves older (.shutdown flush) count
  direct : ∀ older call reply c, (.replied (.call call) reply :: older) <:+ h →
    History.IsShut older → call.change? = some c → Direct older reply c

/-- What holds of a run. -/
structure Traced (original : KeyMap V) (w : Watch V) (moves : List (Move V)) (ph : Phases V) :
    Prop where
  watched : Watched original ph (w.run moves)
  shut : (w.run moves).lane.isOpen = false →
    (w.run moves).history.IsShut ∨ (ph .caller).isOver = true
  caller : (ph .caller).Tells w moves (w.run moves).play.sight
  replies : Replies w moves (w.run moves).history

section Tells

variable {original : KeyMap V} {ph : Phases V} {w : Watch V} {moves : List (Move V)} {φ φ' : Phase V}
  {x x' : Sight V} {mv : Move V}

theorem Seen.move {r : Request V} {count : Nat} (h : Seen w moves x r count) (mv : Move V)
    (hqueue : ∀ y ∈ x.lane.queue, y ∈ x'.lane.queue ∨ .taken y.1 y.2 ∈ x'.history)
    (hhistory : x.history ⊆ x'.history) : Seen w (moves ++ [mv]) x' r count := by
  obtain ⟨earlier, hearlier, hcall, hopen, hcount, hwaits⟩ := h
  refine ⟨earlier, hearlier.trans (List.prefix_append _ _), hcall, hopen, hcount, fun y hy => ?_⟩
  rcases hwaits y hy with hy | hy
  · exact hqueue y hy
  · exact .inr (hhistory hy)

/-- What the caller could tell it can tell after something that is not its own doing. -/
theorem Phase.Tells.move (h : φ.Tells w moves x) (hw : Watched original ph (w.run moves))
    (mv : Move V) (hnews : x'.history = x.history ∨
      ∃ e : Event V, e.isNews = true ∧ x'.history = e :: x.history)
    (hqueue : ∀ y ∈ x.lane.queue, y ∈ x'.lane.queue ∨ .taken y.1 y.2 ∈ x'.history) :
    φ.Tells w (moves ++ [mv]) x' := by
  have hhand : x'.history.hand? .caller = x.history.hand? .caller := by
    rcases hnews with hsame | ⟨e, he, hcons⟩
    · rw [hsame]
    · rw [hcons, History.hand?_news he]
  have hissues : x'.history.issues = x.history.issues := by
    rcases hnews with hsame | ⟨e, he, hcons⟩
    · rw [hsame]
    · rw [hcons, History.issues_news he]
  have hshut : x'.history.IsShut ↔ x.history.IsShut := by
    rcases hnews with hsame | ⟨e, he, hcons⟩
    · rw [hsame]
    · rw [hcons, History.isShut_cons (Event.isReply_of_isNews he)]
  have hsub : x.history ⊆ x'.history := by
    rcases hnews with hsame | ⟨e, -, hcons⟩
    · rw [hsame]
      exact List.Subset.refl _
    · rw [hcons]
      exact List.subset_cons_self _ _
  have hsent {y : Nat × Change V} (hy : x.history.HasSent y) : x'.history.HasSent y := by
    obtain ⟨answer, hmem⟩ := hy
    exact ⟨answer, hsub hmem⟩
  cases φ with
  | begun r => exact hhand.trans h
  | holding hd => exact ⟨by rw [hissues]; exact h.1, fun hdecided => hsent (h.2 hdecided)⟩
  | settled number c => exact h.imp hsent fun hnot => mt hshut.1 hnot
  | shutting r count | closing r count => exact ⟨mt hshut.1 h.1, h.2.move mv hqueue hsub⟩
  | deserted r => exact ⟨mt hshut.1 h.1, h.2⟩
  | closed r count =>
    have ha : Accounts w moves x.history r count := h
    have hmoved := ha.move hw mv
    clear h ha
    -- the events that were added do not bear on it
    cases hmoved with
    | already hs => exact .already (hshut.2 hs)
    | flushed hflush hfirst hearlier hcall hopen htaken =>
      exact .flushed hflush (mt hshut.1 hfirst) hearlier hcall hopen fun y hy => hsub (htaken y hy)
    | dropped hflush hfirst hearlier hcall hended hdropped =>
      exact .dropped hflush (mt hshut.1 hfirst) hearlier hcall hended hdropped
  | _ => trivial

end Tells

/-! ## Steps of a run -/

section Runs

variable {original : KeyMap V} {ph : Phases V} {w : Watch V} {moves : List (Move V)} {φ φ' : Phase V}
  {x x' : Sight V} {mv : Move V}

theorem Step.news (hs : Step .worker φ x φ' x') : x'.history = x.history ∨
    ∃ e : Event V, e.isNews = true ∧ x'.history = e :: x.history := by
  cases hs with
  | loaded | send | pop => exact .inr ⟨_, rfl, rfl⟩
  | _ => exact .inl rfl

theorem Step.waits (hs : Step .worker φ x φ' x') (h : Sound original ph x) (hφ : ph .worker = φ)
    {y : Nat × Change V} (hy : y ∈ x.lane.queue) :
    y ∈ x'.lane.queue ∨ .taken y.1 y.2 ∈ x'.history := by
  cases hs with
  | finish => exact .inl (by rw [finish_eq]; exact hy)
  | @pop x number c =>
    have hk := h.gate.worker
    rw [hφ] at hk
    obtain ⟨rest, hrest⟩ := List.head?_eq_some_iff.1 hk
    rw [hrest] at hy
    rcases List.mem_cons.1 hy with rfl | hy
    · exact .inr List.mem_cons_self
    · exact .inl (by simpa [Lane.pop, hrest] using hy)
  | _ => exact .inl hy

/-- The caller's change is the newest of its key. -/
theorem isLatest_of_head (h : Sound original ph x) {hd : Hand V}
    (hhand : (ph .caller).hand? = some hd) (hhead : x.history.issues.head? = some hd.entry) :
    x.lane.isLatest hd.change.key hd.number = true := by
  obtain ⟨rest, hrest⟩ := List.head?_eq_some_iff.1 hhead
  have hmem : hd.entry ∈ owed ph.hands x.lane.queue := mem_owed hhand _
  rw [h.books.tallies.isLatest hmem, hrest, latest, Hand.entry, newest?_cons_self]
  simp

theorem Going.request {p : Interplay V} (h : Going original ph p) {r : Request V}
    (hφ : ph .caller = φ) (hidle : φ ≠ .idle) (hat : ∀ q, φ.IsAt q → r = q) :
    p.request.map Prod.fst = some r := by
  have hcaller := h.caller
  rw [hφ] at hcaller
  unfold CallerGoesOn at hcaller
  cases hq : p.request with
  | none =>
    rw [hq] at hcaller
    exact absurd hcaller hidle
  | some request =>
    rw [hq] at hcaller
    rw [hat _ hcaller.2.1]
    rfl

theorem Told.not_isShut {inForce : Bool} {l : Lane V} {h : History V} (ht : Told ph inForce l h)
    (hopen : l.isOpen = true) : ¬ h.IsShut := by
  rintro ⟨r, reply, hmem, hcloses⟩
  have hclosed := (ht.closed r reply hmem hcloses).1
  rw [hopen] at hclosed
  cases hclosed

namespace Traced

theorem sound (h : Traced original w moves ph) : Sound original ph (w.run moves).play.sight :=
  h.watched.sound

/-- What the caller throws away is over, and was not sent. -/
theorem dropped (h : Traced original w moves ph) {r : Request V} (hφ : ph .caller = .deserted r)
    {ph' : Phases V} (hw : Watched original ph' ((w.run moves).move mv))
    (hph : ph' = Function.update ph .caller (.closed r (w.run moves).lane.queue.length))
    (hsight : ((w.run moves).move mv).play.sight =
      { (w.run moves).play.sight with lane := (w.run moves).lane.discard })
    {y : Nat × Change V} (hy : y ∈ (w.run moves).lane.queue) :
    ((w.run moves).move mv).Dropped y := by
  have hbooks := h.sound.books
  have hhistory : ((w.run moves).move mv).history = (w.run moves).history :=
    congrArg Sight.history hsight
  have hlane : ((w.run moves).move mv).lane = (w.run moves).lane.discard := congrArg Sight.lane hsight
  have hcaller := h.sound.gate.caller
  rw [hφ] at hcaller
  have hgone : ph .worker = .gone := h.sound.gate.ended.1 hcaller.2.2
  refine ⟨?_, ?_, ?_⟩
  · rw [hhistory]
    exact hbooks.owedIssued y (mem_owed_iff.2 (.inl hy))
  · rw [hw.unfinished, hlane, hph, hands_update]
    simp [owed, Phases.hands, hgone, Phase.hand?, Lane.discard]
  · rw [hhistory]
    exact hbooks.unsent y (mem_owed_iff.2 (.inl hy))

/-- What the caller can tell after a step of its own. -/
theorem tells (h : Traced original w moves ph) (hs : Step .caller φ x φ' x') (hφ : ph .caller = φ)
    (hx : (w.run moves).play.sight = x) (hx' : ((w.run moves).move mv).play.sight = x')
    (hw : Watched original (Function.update ph .caller φ') ((w.run moves).move mv)) :
    φ'.Tells w (moves ++ [mv]) x' := by
  have htells := h.caller
  have hsound := h.sound
  rw [hφ, hx] at htells
  rw [hx] at hsound
  have hcaller := hsound.gate.caller
  rw [hφ] at hcaller
  cases hs with
  | quiet => exact htells.move h.watched mv (.inl rfl) fun y hy => .inl hy
  | loaded => exact htells.move h.watched mv (.inr ⟨_, rfl, rfl⟩) fun y hy => .inl hy
  | enterLine | serve | clear => exact ⟨htells.1, by rintro ⟨⟩⟩
  | skip hlatest =>
    have hlatest' := isLatest_of_head hsound (by rw [hφ]; rfl) htells.1
    rw [hlatest] at hlatest'
    cases hlatest'
  | send answer => exact ⟨htells.1, fun _ => ⟨answer, List.mem_cons_self⟩⟩
  | leaveLine => exact ⟨htells.1, fun _ => htells.2 rfl⟩
  | finish => exact .inl (htells.2 rfl)
  | asked => rfl
  | issue => exact ⟨rfl, by rintro ⟨⟩⟩
  | findRoom => trivial
  | push =>
    have hroom : x.lane.hasRoom = true := hcaller
    exact .inr (hsound.told.not_isShut (Bool.and_eq_true_iff.1 hroom).1)
  | toEnding => trivial
  | @toShutting _ r hopen =>
    subst hx
    have hcall := h.watched.going.request (r := r) hφ (by rintro ⟨⟩) fun q hq => hq
    exact ⟨hsound.told.not_isShut hopen, moves, List.prefix_append _ _, hcall, hopen, rfl,
      fun y hy => .inl hy⟩
  | shut =>
    refine ⟨htells.1, htells.2.move mv (fun y hy => .inl ?_) (List.Subset.refl _)⟩
    split <;> exact hy
  | already hclosed =>
    subst hx
    rcases h.shut hclosed with hshut | hover
    · exact .already hshut
    · rw [hφ] at hover
      cases hover
  | flushed hflush hended =>
    obtain ⟨hfirst, earlier, hearlier, hcall, hopen, rfl, hwaits⟩ := htells
    have hgate := hsound.gate
    rw [hφ] at hgate
    have hempty := (hgate.flushed hflush hended).caller.2
    refine .flushed hflush hfirst (hearlier.trans (List.prefix_append _ _)) hcall hopen
      fun y hy => (hwaits y hy).resolve_left fun hy => ?_
    rw [hempty] at hy
    cases hy
  | halted hflush => exact ⟨htells.1, hflush⟩
  | @discard _ r =>
    subst hx
    have hcall := h.watched.going.request (r := r) hφ (by rintro ⟨⟩) fun q hq => hq
    refine .dropped htells.2 htells.1 (List.prefix_append _ _) hcall hcaller.2.2 fun y hy => ?_
    rw [Watch.run_concat]
    exact h.dropped hφ hw rfl hx' hy
  | replied => trivial

/-- A lane that is shut was shut in this request or in an earlier one. -/
theorem shut_step {side : Side} (hs : Step side φ x φ' x') (hφ : ph side = φ)
    (hshut : x.lane.isOpen = false → x.history.IsShut ∨ (ph .caller).isOver = true)
    (hclosed : x'.lane.isOpen = false) :
    x'.history.IsShut ∨ (Function.update ph side φ' .caller).isOver = true := by
  have hkeeps (hopen : x'.lane.isOpen = x.lane.isOpen)
      (hover : (ph .caller).isOver = true →
        x'.history.IsShut ∨ (Function.update ph side φ' .caller).isOver = true) :
      x'.history.IsShut ∨ (Function.update ph side φ' .caller).isOver = true := by
    rcases hshut (hopen.symm.trans hclosed) with hshut | hover'
    · exact .inl (hshut.mono hs.suffix.subset)
    · exact hover hover'
  cases side with
  | worker =>
    refine hkeeps ?_ .inr
    cases hs with
    | finish => rw [finish_eq]
    | _ => rfl
  | caller =>
    rw [hφ] at hkeeps
    cases hs with
    | shut => exact .inr rfl
    | flushed | halted | discard => exact .inr rfl
    | quiet | loaded => exact hkeeps rfl .inr
    | @replied _ _ r reply hconcludes =>
      refine hkeeps rfl fun hover => .inl ⟨r, reply, List.mem_cons_self, ?_⟩
      cases φ with
      | closed r' count => exact hconcludes.2.1
      | closing | deserted => cases hconcludes
      | _ => cases hover
    | finish => exact hkeeps (by rw [finish_eq]) (by rintro ⟨⟩)
    | _ => exact hkeeps rfl (by rintro ⟨⟩)

/-- A request ends with a reply that the run accounts for. -/
theorem replied (h : Traced original w moves ph) {r : Request V} {reply : Strategy.Reply V}
    (hc : (ph .caller).Concludes r reply) (hr : Replies w (moves ++ [mv]) (w.run moves).history)
    (htells : (ph .caller).Tells w (moves ++ [mv]) (w.run moves).play.sight) :
    Replies w (moves ++ [mv]) (.replied r reply :: (w.run moves).history) where
  shutdown older flush reply' hs := by
    rcases List.suffix_cons_iff.1 hs with heq | hs
    · obtain ⟨heq, rfl⟩ := List.cons.inj heq
      cases heq
      cases hφ : ph .caller with
      | closed r' count =>
        rw [hφ] at hc htells
        obtain ⟨rfl, -, hcount⟩ := hc
        exact ⟨count, hcount flush rfl, htells⟩
      | begun r' =>
        rw [hφ] at hc
        cases hc.1
      | _ =>
        rw [hφ] at hc
        cases hc
    · exact hr.shutdown older flush reply' hs
  direct older call reply' c hs hshut hchange := by
    rcases List.suffix_cons_iff.1 hs with heq | hs
    · obtain ⟨heq, rfl⟩ := List.cons.inj heq
      cases heq
      have hremembers := h.sound.told.caller
      cases hφ : ph .caller with
      | begun r' =>
        rw [hφ] at hc htells
        refine .inr ⟨htells, fun hdone => ?_⟩
        have hnone : call.change? = none := hc.2 hdone
        rw [hchange] at hnone
        cases hnone
      | settled number c' =>
        rw [hφ] at hc htells hremembers
        obtain rfl : c = c' := Option.some.inj (hchange.symm.trans hc)
        exact .inl ⟨number, hremembers, htells.resolve_right fun hnot => hnot hshut⟩
      | closed r' count =>
        rw [hφ] at hc
        cases hc.2.1
      | _ =>
        rw [hφ] at hc
        cases hc
    · exact hr.direct older call reply' c hs hshut hchange

end Traced

theorem Replies.move {h : History V} (hr : Replies w moves h) (hw : Watched original ph (w.run moves))
    (mv : Move V) : Replies w (moves ++ [mv]) h where
  shutdown older flush reply hs := by
    obtain ⟨count, hreply, ha⟩ := hr.shutdown older flush reply hs
    exact ⟨count, hreply, ha.move hw mv⟩
  direct := hr.direct

theorem Replies.cons {h : History V} (hr : Replies w moves h) {e : Event V}
    (he : e.isReply = false) : Replies w moves (e :: h) where
  shutdown older flush reply hs :=
    hr.shutdown older flush reply (History.suffix_of_not_reply he hs)
  direct older call reply c hs :=
    hr.direct older call reply c (History.suffix_of_not_reply he hs)

theorem Step.reply? {side : Side} (hs : Step side φ x φ' x') :
    (∃ r reply, side = .caller ∧ φ.Concludes r reply ∧ x'.history = .replied r reply :: x.history) ∨
    x'.history = x.history ∨ ∃ e : Event V, e.isReply = false ∧ x'.history = e :: x.history := by
  cases hs with
  | replied hconcludes => exact .inl ⟨_, _, rfl, hconcludes, rfl⟩
  | loaded | send | pop | asked | issue => exact .inr (.inr ⟨_, rfl, rfl⟩)
  | _ => exact .inr (.inl rfl)

/-- **What holds of a run holds after every move.** -/
theorem Traced.move (h : Traced original w moves ph) (mv : Move V) :
    ∃ ph', Traced original w (moves ++ [mv]) ph' := by
  obtain ⟨ph', hw, hproceeds⟩ := h.watched.move mv
  have hreplies := h.replies.move h.watched mv
  cases hactor : (w.run moves).play.actor? mv with
  | none =>
    rw [hactor] at hproceeds
    obtain ⟨rfl, hsight⟩ := hproceeds
    have hhistory : ((w.run moves).move mv).history = (w.run moves).history :=
      congrArg Sight.history hsight
    have hlane : ((w.run moves).move mv).lane = (w.run moves).lane := congrArg Sight.lane hsight
    refine ⟨ph', ?_, ?_, ?_, ?_⟩ <;> rw [Watch.run_concat]
    · exact hw
    · rw [hhistory, hlane]
      exact h.shut
    · rw [hsight]
      exact h.caller.move h.watched mv (.inl rfl) fun y hy => .inl hy
    · rw [hhistory]
      exact hreplies
  | some side =>
    rw [hactor] at hproceeds
    obtain ⟨φ, rfl, hstep⟩ := hproceeds
    refine ⟨Function.update ph side φ, ?_, ?_, ?_, ?_⟩ <;> rw [Watch.run_concat]
    · exact hw
    · exact Traced.shut_step hstep rfl h.shut
    · cases side with
      | worker =>
        exact h.caller.move h.watched mv hstep.news fun y hy => hstep.waits h.sound rfl hy
      | caller => exact h.tells hstep rfl rfl rfl hw
    · rcases hstep.reply? with ⟨r, reply, rfl, hconcludes, hcons⟩ | hsame | ⟨e, he, hcons⟩
      · change Replies w _ ((w.run moves).move mv).play.sight.history
        rw [hcons]
        exact h.replied hconcludes hreplies
          (h.caller.move h.watched mv (.inl rfl) fun y hy => .inl hy)
      · change Replies w _ ((w.run moves).move mv).play.sight.history
        rw [hsame]
        exact hreplies
      · change Replies w _ ((w.run moves).move mv).play.sight.history
        rw [hcons]
        exact hreplies.cons he

theorem traced_run (life : Option Nat) (capacity : Nat) (w : World V) (m : Memory V)
    (moves : List (Move V)) : ∃ ph, Traced w.rows (.start life capacity w m) moves ph := by
  induction moves using List.reverseRecOn with
  | nil =>
    refine ⟨.start, watched_start life capacity w m, fun hclosed => ?_, trivial, ?_, ?_⟩
    · have hgate := (watched_start life capacity w m).sound.gate
      rcases hgate.shut hclosed with ⟨hended, -⟩ | hclosing
      · cases hgate.ended.1 hended
      · cases hclosing
    · intro older flush reply hs
      cases List.suffix_nil.1 hs
    · intro older call reply c hs
      cases List.suffix_nil.1 hs
  | append_singleton moves mv ih =>
    obtain ⟨ph, h⟩ := ih
    exact h.move mv

theorem capacity_run (life : Option Nat) (capacity : Nat) (w : World V) (m : Memory V)
    (moves : List (Move V)) :
    ((Watch.start life capacity w m).run moves).lane.capacity = max capacity 1 := by
  induction moves using List.reverseRecOn with
  | nil => simp [Watch.run, Watch.start, Watch.lane, Interplay.current, Interplay.start,
      Strategy.install, Memory.lane, Lane.fresh]
  | append_singleton moves mv ih =>
    obtain ⟨ph, h⟩ := traced_run life capacity w m moves
    obtain ⟨ph', -, hproceeds⟩ := h.watched.move mv
    rw [Watch.run_concat, ← ih]
    cases hactor : ((Watch.start life capacity w m).run moves).play.actor? mv with
    | none =>
      rw [hactor] at hproceeds
      exact congrArg (fun x : Sight V => x.lane.capacity) hproceeds.2
    | some side =>
      rw [hactor] at hproceeds
      obtain ⟨φ, -, hstep⟩ := hproceeds
      exact hstep.capacity

/-- Nothing waits in a lane that is shut, and the worker has nothing in hand. -/
theorem Watched.shut {w : Watch V} (h : Watched original ph w) (hshut : w.history.IsShut) :
    w.lane.queue = [] ∧ w.grips .worker = none := by
  obtain ⟨r, reply, hmem, hcloses⟩ := hshut
  obtain ⟨hclosed, hclosing⟩ := h.sound.told.closed r reply hmem hcloses
  rcases h.sound.gate.shut hclosed with ⟨hended, hempty⟩ | hclosing'
  · refine ⟨hempty, ?_⟩
    rw [h.grips .worker, h.sound.gate.ended.1 hended]
    rfl
  · rw [hclosing] at hclosing'
    cases hclosing'

end Runs

/-! ## Bookkeeping -/

/-- **The bookkeeping of a lane is exact.** At every moment of every run the counters agree with what
is unfinished. What a shutdown returns is accounted for by the run. When a request has returned that
closes the lane, nothing is pending and no slot remains unless the caller is at a change; and a change
is then sent before its request returns, unless the cache failed so that none was issued. -/
theorem run_exact (life : Option Nat) (capacity : Nat) (w : World V) (m : Memory V)
    (moves : List (Move V)) :
    let first := Watch.start life capacity w m
    let now := first.run moves
    IsExact capacity now ∧ Replies first moves now.history ∧
    (now.history.IsShut → now.lane.pending = 0 ∧ now.lane.queue = [] ∧ now.grips .worker = none ∧
      (now.grips .caller = none → ∀ key, now.lane.slots.get? key = none)) := by
  intro first now
  obtain ⟨ph, h⟩ := traced_run life capacity w m moves
  have hexact := h.watched.isExact (capacity_run life capacity w m moves)
  refine ⟨hexact, h.replies, fun hshut => ?_⟩
  obtain ⟨hempty, hworker⟩ := h.watched.shut hshut
  have hpending := hexact.pending
  rw [hempty, hworker] at hpending
  refine ⟨hpending, hempty, hworker, fun hcaller key => (hexact.free key).2 fun x hx => ?_⟩
  rw [Watch.unfinished, Watch.held, Watch.held, hworker, hempty, hcaller] at hx
  cases hx

/-- Two writes wait when the lane is shut without a flush; a third one comes later. -/
def thrownAway : List (Move UInt8) :=
  .ask (.call (.write "k" 1 none)) :: List.replicate 20 (.go .caller) ++
  .ask (.call (.write "k" 2 none)) :: List.replicate 20 (.go .caller) ++
  .ask (.shutdown false) :: List.replicate 5 (.go .caller) ++ List.replicate 5 (.go .worker) ++
  List.replicate 5 (.go .caller) ++
  .ask (.call (.write "k" 3 none)) :: List.replicate 30 (.go .caller)

theorem run_exact_thrownAway :
    let first := Watch.start none 2 emptySource Client.byteMemory
    let now := first.run thrownAway
    (∃ older, (.replied (.shutdown false) (.count 2) :: older) <:+ now.history ∧
      Accounts first thrownAway older (.shutdown false) 2) ∧
    now.lane.pending = 0 ∧ (∀ key, now.lane.slots.get? key = none) ∧
    ∃ older, (.replied (.call (.write "k" 3 none)) .done :: older) <:+ now.history ∧
      Direct older .done ⟨"k", some 3⟩ := by
  dsimp only
  have hhistory : ((Watch.start none 2 emptySource Client.byteMemory).run thrownAway).history =
      [.replied (.call (.write "k" 3 none)) .done,
        .sent ⟨3, ⟨"k", some 3⟩, .ok ()⟩,
        .issued 3 ⟨"k", some 3⟩,
        .asked (.call (.write "k" 3 none)),
        .replied (.shutdown false) (.count 2),
        .asked (.shutdown false),
        .replied (.call (.write "k" 2 none)) .done,
        .issued 2 ⟨"k", some 2⟩,
        .asked (.call (.write "k" 2 none)),
        .replied (.call (.write "k" 1 none)) .done,
        .issued 1 ⟨"k", some 1⟩,
        .asked (.call (.write "k" 1 none))] := by
    decide +kernel
  have hidle : ((Watch.start none 2 emptySource Client.byteMemory).run thrownAway).play.request =
      none :=
    Option.isNone_iff_eq_none.1 (by decide +kernel)
  obtain ⟨hexact, hreplies, hover⟩ := run_exact none 2 emptySource Client.byteMemory thrownAway
  generalize (Watch.start none 2 emptySource Client.byteMemory).run thrownAway = now at *
  have hcaller : now.grips .caller = none := hexact.caller hidle
  rw [hhistory] at hreplies hover ⊢
  have hshut : History.IsShut [.replied (.shutdown false) (.count 2), .asked (.shutdown false),
      .replied (.call (.write "k" 2 none)) .done, .issued 2 ⟨"k", some (2 : UInt8)⟩,
      .asked (.call (.write "k" 2 none)), .replied (.call (.write "k" 1 none)) .done,
      .issued 1 ⟨"k", some 1⟩, .asked (.call (.write "k" 1 none))] :=
    ⟨.shutdown false, .count 2, List.mem_cons_self, rfl⟩
  obtain ⟨hpending, -, -, hslots⟩ := hover (hshut.mono (List.suffix_append [_, _, _, _] _).subset)
  refine ⟨⟨_, List.suffix_append [_, _, _, _] _, ?_⟩, hpending, hslots hcaller,
    ⟨_, List.suffix_rfl, ?_⟩⟩
  · obtain ⟨count, hreply, haccounts⟩ := hreplies.shutdown _ false (.count 2)
      (List.suffix_append [_, _, _, _] _)
    cases hreply
    exact haccounts
  · exact hreplies.direct _ (.write "k" 3 none) .done _ List.suffix_rfl
      (hshut.mono (List.suffix_append [_, _, _] _).subset) rfl

end CacheLayer.WriteBehind
