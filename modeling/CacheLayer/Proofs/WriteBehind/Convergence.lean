/-
What write-behind promises of the source. The changes of a key are sent in the
order in which they were issued, none of them twice (`Ledger.sentOrder`, at every
moment). Once nothing is pending, the newest change of each key has been sent; if
that went through, the key holds what the change says.

Main statements: `play_converges`, and `play_keeps_acknowledged` about changes
that were acknowledged. A change may be skipped for a newer one of its key, and
that one may then fail (`not_survives_failed_overflow`).
-/
import CacheLayer.Proofs.Client.Coding
import CacheLayer.Proofs.WriteBehind.Play

namespace CacheLayer.WriteBehind

variable {V : Type} {original rows : KeyMap V} {hands : Hands V} {l : Lane V}
  {issues : List (Nat × Change V)} {sendings : List (Sending V)} {key : String} {number : Nat}
  {c : Change V}

namespace Ledger

/-- No change was sent of a key that no change was issued of. -/
theorem rows_untouched (h : Ledger original hands l issues sendings rows)
    (hnone : newest? key issues = none) : rows.get? key = original.get? key := by
  have hfind : sendings.find? (fun s => s.change.key == key && s.succeeded) = none := by
    refine List.find?_eq_none.2 fun s hs hp => ?_
    have hkey : s.change.key = key := by
      simp only [Bool.and_eq_true, beq_iff_eq] at hp
      exact hp.1
    obtain ⟨x, hx⟩ := exists_newest? (h.sentIssued s hs) hkey
    rw [hnone] at hx
    cases hx
  rw [h.rows key, written, hfind]

theorem change_of_number (h : Ledger original hands l issues sendings rows) {s : Sending V}
    (hs : s ∈ sendings) (hissued : (number, c) ∈ issues) (hnumber : s.number = number) :
    s.change = c :=
  congrArg Prod.snd (h.unique (h.sentIssued s hs) hissued hnumber)

theorem rows_newest (h : Ledger original hands l issues sendings rows)
    (hnewest : newest? key issues = some (number, c)) {s : Sending V} (hs : s ∈ sendings)
    (hnumber : s.number = number) (hok : s.succeeded = true) : rows.get? key = c.value := by
  obtain ⟨hissued, hkey⟩ := newest?_mem hnewest
  have hchange : s.change = c := h.change_of_number hs hissued hnumber
  have hp : (s.change.key == key && s.succeeded) = true := by
    rw [hchange, hok, show c.key = key from hkey]
    simp
  cases hfind : sendings.find? fun s => s.change.key == key && s.succeeded with
  | none => exact absurd hp (List.find?_eq_none.1 hfind s hs)
  | some t =>
    obtain ⟨htp, before, after, hsplit, hbefore⟩ := List.find?_eq_some_iff_append.1 hfind
    have htkey : t.change.key = key := by
      simp only [Bool.and_eq_true, beq_iff_eq] at htp
      exact htp.1
    have ht : t ∈ sendings := by rw [hsplit]; simp
    have hle : t.number ≤ number :=
      le_of_newest? h.issueOrder hnewest (h.sentIssued t ht) htkey
    -- the first sending that counts is the one of the newest change: one before it would be newer
    have hts : t = s := by
      rw [hsplit] at hs
      rcases List.mem_append.1 hs with hs | hs
      · have hno := hbefore s hs
        rw [hp] at hno
        cases hno
      rcases List.mem_cons.1 hs with heq | hs
      · exact heq.symm
      · have horder := h.sentOrder
        rw [hsplit] at horder
        have hlt := (List.pairwise_cons.1 (List.pairwise_append.1 horder).2.1).1 s hs
        have hlt := hlt (by rw [htkey, hchange]; exact hkey.symm)
        omega
    rw [h.rows key, written, hfind, hts]
    show s.change.value = c.value
    rw [hchange]

theorem rows_intended (h : Ledger original hands l issues sendings rows)
    (hwent : ∀ s ∈ sendings, s.succeeded = true)
    (hsent : ∀ x, newest? key issues = some x → ∃ s ∈ sendings, s.number = x.1) :
    rows.get? key = intended original key issues := by
  unfold intended
  cases hnewest : newest? key issues with
  | none => exact h.rows_untouched hnewest
  | some x =>
    obtain ⟨s, hs, hnumber⟩ := hsent x hnewest
    exact h.rows_newest hnewest hs hnumber (hwent s hs)

theorem sent_newest (h : Ledger original hands l issues sendings rows)
    (hnone : ∀ x ∈ undecided hands l.queue, x.2.key ≠ key) (hstopping : l.stopping = false)
    (hnewest : newest? key issues = some (number, c)) : ∃ s ∈ sendings, s.number = number := by
  obtain ⟨hissued, hkey⟩ := newest?_mem hnewest
  rcases h.settled (number, c) hissued with hu | hs | ⟨y, hy, hyk, hlt⟩ | hstop
  · exact absurd hkey (hnone _ hu)
  · exact hs
  · have hle := le_of_newest? h.issueOrder hnewest hy (hyk.trans hkey)
    omega
  · rw [hstopping] at hstop
    cases hstop

end Ledger

/-! ## Drained lanes -/

namespace Interplay

/-- The lane as it is. -/
def current (p : Interplay V) : Lane V := p.record.scene.memory.lane p.lane

/-- The key of the change that the caller is at. -/
def busyKey? (p : Interplay V) : Option String :=
  p.request.bind fun request => request.1.change?.map Change.key

/-- Nothing is pending, or a request has returned that closes the lane. -/
def IsDrained (p : Interplay V) : Prop :=
  p.current.pending = 0 ∨ ∃ q reply, .replied q reply ∈ p.record.history ∧ q.closes = true

end Interplay

/-- When the lane is drained, only the change that the caller is at is still owed. -/
theorem busyKey?_of_owed {ph : Phases V} {p : Interplay V} (h : Going original ph p)
    (hdrained : p.IsDrained) : ∀ x ∈ owed ph.hands p.current.queue, p.busyKey? = some x.2.key := by
  have hgate := h.valid.sound.gate
  have hworker : (ph .worker).hand? = none ∧ p.current.queue = [] := by
    rcases hdrained with hpending | ⟨q, reply, hreplied, hcloses⟩
    · have hcount : p.current.pending = p.current.queue.length + (ph .worker).load := hgate.pending
      have hload : (ph .worker).load = 0 ∧ p.current.queue.length = 0 := by omega
      exact ⟨Phase.hand?_of_load hload.1, List.length_eq_zero_iff.1 hload.2⟩
    -- a closed lane is empty: the worker has left it, or the request that closes it is not over
    · obtain ⟨hopen, hclosing⟩ := h.valid.sound.told.closed q reply hreplied hcloses
      rcases hgate.shut hopen with ⟨hended, hqueue⟩ | hc
      · rw [hgate.ended.1 hended]
        exact ⟨rfl, hqueue⟩
      · rw [hclosing] at hc
        cases hc
  have hgo := h.caller
  unfold CallerGoesOn at hgo
  intro x hx
  cases hhd : (ph .caller).hand? with
  | none => simp [owed, Phases.hands, hworker, hhd] at hx
  | some hd =>
    have hx : x = hd.entry := by simpa [owed, Phases.hands, hworker, hhd] using hx
    have hwish : p.record.history.wish? = some hd.change := h.valid.sound.told.wished hd hhd
    cases hq : p.request with
    | none =>
      rw [hq] at hgo
      rw [show ph .caller = .idle from hgo] at hhd
      cases hhd
    | some request =>
      obtain ⟨q, program⟩ := request
      rw [hq] at hgo
      have hchange : q.change? = some hd.change := hgo.1.symm.trans hwish
      simp [Interplay.busyKey?, hq, hchange, hx, Hand.entry]

/-! ## Convergence -/

namespace History

/-- The changes were sent in order. -/
structure IsOrdered (h : History V) : Prop where
  /-- The numbers of the changes grow as they are issued. -/
  issues : h.issues.Pairwise fun a b => b.1 < a.1
  sent : ∀ s ∈ h.sendings, (s.number, s.change) ∈ h.issues
  once : h.sendings.Pairwise fun a b => a.number ≠ b.number
  /-- Of one key, newer changes are sent later. -/
  byKey : h.sendings.Pairwise fun a b => a.change.key = b.change.key → b.number < a.number

/-- The rows are those that the changes have left. -/
structure Leaves (original : KeyMap V) (h : History V) (rows : KeyMap V) : Prop where
  /-- If the newest change of a key was sent and went through, the key holds what it says. -/
  newest : ∀ key, ∀ s ∈ h.sendings, newest? key h.issues = some (s.number, s.change) →
    s.succeeded = true → rows.get? key = s.change.value
  untouched : ∀ key, newest? key h.issues = none → rows.get? key = original.get? key

/-- The change itself was sent. -/
def WasSent (h : History V) (x : Nat × Change V) : Prop :=
  ∃ s ∈ h.sendings, s.number = x.1 ∧ s.change = x.2

end History

theorem isOrdered_of_going {ph : Phases V} {p : Interplay V} (h : Going original ph p) :
    p.record.history.IsOrdered where
  issues := h.valid.sound.books.issueOrder
  sent := h.valid.sound.books.sentIssued
  once := by
    have hbooks := h.valid.sound.books
    refine hbooks.sentOrder.imp_of_mem fun {a b} ha hb horder hnumber => ?_
    have hchange : a.change = b.change :=
      hbooks.change_of_number ha (hbooks.sentIssued b hb) hnumber
    have hlt := horder (by rw [hchange])
    omega
  byKey := h.valid.sound.books.sentOrder

theorem not_stopping_of_play {life : Option Nat} {capacity : Nat} {w : World V} {m : Memory V}
    {moves : List (Move V)} {ph : Phases V}
    (h : Going original ph ((Interplay.start life capacity w m).play moves))
    (hmoves : .ask (.shutdown false) ∉ moves) :
    ((Interplay.start life capacity w m).play moves).current.stopping = false := by
  cases hstop : ((Interplay.start life capacity w m).play moves).current.stopping with
  | false => rfl
  | true =>
    rcases asked_of_play (h.valid.sound.told.halted hstop) with hasked | hasked
    · cases hasked
    · exact absurd hasked hmoves

/-- When the lane is drained, the newest change of a key was sent unless the caller is at it. -/
theorem wasSent_of_newest {ph : Phases V} {p : Interplay V} (h : Going original ph p)
    (hstopping : p.current.stopping = false) (hdrained : p.IsDrained)
    (hbusy : p.busyKey? ≠ some key) {x : Nat × Change V}
    (hnewest : newest? key p.record.history.issues = some x) : p.record.history.WasSent x := by
  have hbooks := h.valid.sound.books
  have hnone : ∀ y ∈ undecided ph.hands p.current.queue, y.2.key ≠ key := by
    intro y hy hkey
    have howed := (undecided_sublist _ _).mem hy
    exact hbusy (hkey ▸ busyKey?_of_owed h hdrained y howed)
  obtain ⟨s, hs, hnumber⟩ := hbooks.sent_newest hnone hstopping hnewest
  exact ⟨s, hs, hnumber, hbooks.change_of_number hs (newest?_mem hnewest).1 hnumber⟩

/-- **Convergence.** Of each key the changes are sent in the order in which they were issued, and
none of them twice. A key whose newest change went through holds what it says, and a key of which
no change was issued holds what it did. When the lane is drained, the newest change of each key was
sent, except for the change that the caller is still at. -/
theorem play_converges (life : Option Nat) (capacity : Nat) (w : World V) (m : Memory V)
    (moves : List (Move V)) :
    let p := (Interplay.start life capacity w m).play moves
    p.record.history.IsOrdered ∧ p.record.history.Leaves w.rows p.record.scene.world.rows ∧
    (.ask (.shutdown false) ∉ moves → p.IsDrained → ∀ key, p.busyKey? ≠ some key →
      ∀ x, newest? key p.record.history.issues = some x → p.record.history.WasSent x) := by
  intro p
  obtain ⟨ph, h⟩ := going_play life capacity w m moves
  have hbooks := h.valid.sound.books
  refine ⟨isOrdered_of_going h, ⟨fun key s hs hnewest hok => ?_, fun key => hbooks.rows_untouched⟩,
    fun hmoves hdrained key hbusy x hnewest => ?_⟩
  · exact hbooks.rows_newest hnewest hs rfl hok
  · exact wasSent_of_newest h (not_stopping_of_play h hmoves) hdrained hbusy hnewest

/-! ## An overflow -/

/-- The second write of a key finds the queue full, and is sent before the first. -/
def overflow : List (Move UInt8) :=
  .ask (.call (.write "k" 1 none)) :: List.replicate 40 (.go .caller) ++
  .ask (.call (.write "k" 2 none)) :: List.replicate 60 (.go .caller) ++
  List.replicate 60 (.go .worker)

def emptySource : World UInt8 := .start (.ofRows KeyMap.empty)

theorem shutdown_notMem_overflow : .ask (.shutdown false) ∉ overflow := by
  simp [overflow]

theorem play_converges_overflow :
    let p := (Interplay.start none 1 emptySource Client.byteMemory).play overflow
    .ask (.shutdown false) ∉ overflow ∧ p.IsDrained ∧ p.busyKey? ≠ some "k" ∧
    newest? "k" p.record.history.issues = some (2, ⟨"k", some 2⟩) ∧
    p.record.history.WasSent (2, ⟨"k", some 2⟩) := by
  have hdrained :
      ((Interplay.start none 1 emptySource Client.byteMemory).play overflow).IsDrained :=
    .inl (by decide +kernel)
  have hbusy : ((Interplay.start none 1 emptySource Client.byteMemory).play overflow).busyKey? ≠
      some "k" := by
    decide +kernel
  have hnewest : newest? "k"
      ((Interplay.start none 1 emptySource Client.byteMemory).play overflow).record.history.issues =
        some (2, ⟨"k", some 2⟩) := by
    decide +kernel
  exact ⟨shutdown_notMem_overflow, hdrained, hbusy, hnewest,
    (play_converges none 1 emptySource Client.byteMemory overflow).2.2 shutdown_notMem_overflow
      hdrained "k" hbusy _ hnewest⟩

/-! ## Acknowledged changes -/

namespace History

/-- The change itself was sent, or a newer one of its key. -/
def Covers (h : History V) (x : Nat × Change V) : Prop :=
  h.WasSent x ∨ ∃ y ∈ h.issues, y.2.key = x.2.key ∧ x.1 < y.1 ∧ h.WasSent y

/-- The change itself was sent, or a newer one of its key that went through. -/
def Survives (h : History V) (x : Nat × Change V) : Prop :=
  h.WasSent x ∨ ∃ s ∈ h.sendings, s.change.key = x.2.key ∧ x.1 < s.number ∧ s.succeeded = true

end History

/-- A change that was acknowledged is the one in the caller's hand then, and was issued. -/
theorem issued_of_done {ph : Phases V} {p : Interplay V} (h : Going original ph p)
    {older : History V} {c : Strategy.Call V} {d : Change V}
    (hs : (.replied (.call c) .done :: older) <:+ p.record.history) (hd : c.change? = some d) :
    ∃ number, History.hand? .caller older = some (number, d) ∧
      (number, d) ∈ p.record.history.issues := by
  obtain ⟨number, hhand⟩ := h.valid.sound.told.promised older c d hs hd
  have hissues : History.issues older <:+ p.record.history.issues :=
    ((List.suffix_cons _ older).trans hs).filterMap Event.issue?
  exact ⟨number, hhand, hissues.mem (History.mem_issues_of_hand? hhand)⟩

/-- Each change that was acknowledged was issued. When the lane is drained, each change that was
issued was sent, or the newest one of its key was sent in its place, except for the key that the
caller is at. -/
theorem play_keeps_acknowledged (life : Option Nat) (capacity : Nat) (w : World V) (m : Memory V)
    (moves : List (Move V)) (hmoves : .ask (.shutdown false) ∉ moves) :
    let p := (Interplay.start life capacity w m).play moves
    let h := p.record.history
    (∀ older c d, (.replied (.call c) .done :: older) <:+ h → c.change? = some d →
      ∃ number, History.hand? .caller older = some (number, d) ∧ (number, d) ∈ h.issues) ∧
    (p.IsDrained → ∀ x ∈ h.issues, p.busyKey? ≠ some x.2.key →
      h.Covers x ∧ (newest? x.2.key h.issues = some x → h.WasSent x)) := by
  intro p h
  obtain ⟨ph, hgoing⟩ := going_play life capacity w m moves
  have hbooks := hgoing.valid.sound.books
  refine ⟨fun older c d hs hd => issued_of_done hgoing hs hd, fun hdrained x hx hbusy => ?_⟩
  have hsent : ∀ y, newest? x.2.key h.issues = some y → h.WasSent y := fun y hnewest =>
    wasSent_of_newest hgoing (not_stopping_of_play hgoing hmoves) hdrained hbusy hnewest
  refine ⟨?_, hsent x⟩
  obtain ⟨y, hnewest⟩ := exists_newest? hx rfl
  obtain ⟨hy, hkey⟩ := newest?_mem hnewest
  rcases Nat.lt_or_eq_of_le (le_of_newest? hbooks.issueOrder hnewest hx rfl) with hlt | heq
  · exact .inr ⟨y, hy, hkey, hlt, hsent y hnewest⟩
  · exact .inl (hbooks.unique hx hy heq ▸ hsent y hnewest)

/-- The first store of this source fails. -/
def failingSource : World UInt8 :=
  emptySource.onSite .main fun s => s.script .store [some (.source "down")]

theorem isDrained_failed_overflow :
    ((Interplay.start none 1 failingSource Client.byteMemory).play overflow).IsDrained :=
  .inl (by decide +kernel)

theorem busyKey?_failed_overflow :
    ((Interplay.start none 1 failingSource Client.byteMemory).play overflow).busyKey? = none := by
  decide +kernel

theorem play_keeps_failed_overflow :
    let p := (Interplay.start none 1 failingSource Client.byteMemory).play overflow
    .ask (.shutdown false) ∉ overflow ∧ p.IsDrained ∧
    p.record.history.Covers (1, ⟨"k", some 1⟩) := by
  have hbusy :
      ((Interplay.start none 1 failingSource Client.byteMemory).play overflow).busyKey? ≠ some "k" := by
    rw [busyKey?_failed_overflow]
    simp
  have hissues :
      ((Interplay.start none 1 failingSource Client.byteMemory).play overflow).record.history.issues =
        [(2, ⟨"k", some 2⟩), (1, ⟨"k", some 1⟩)] := by
    decide +kernel
  have hkeeps := play_keeps_acknowledged none 1 failingSource Client.byteMemory overflow
    shutdown_notMem_overflow
  exact ⟨shutdown_notMem_overflow, isDrained_failed_overflow,
    (hkeeps.2 isDrained_failed_overflow (1, ⟨"k", some 1⟩) (by rw [hissues]; simp) hbusy).1⟩

/-- The first write is acknowledged. The second is sent before it and fails; then the first is
skipped, as it is not the newest. -/
theorem not_survives_failed_overflow :
    ¬ ∀ (capacity : Nat) (w : World UInt8) (moves : List (Move UInt8)),
      .ask (.shutdown false) ∉ moves →
      let p := (Interplay.start none capacity w Client.byteMemory).play moves
      p.IsDrained → p.busyKey? = none →
      ∀ older c d, (.replied (.call c) .done :: older) <:+ p.record.history → c.change? = some d →
        ∃ number, History.hand? .caller older = some (number, d) ∧
          p.record.history.Survives (number, d) := by
  intro hall
  have hhistory :
      ((Interplay.start none 1 failingSource Client.byteMemory).play overflow).record.history =
        [.taken 1 ⟨"k", some 1⟩,
          .replied (.call (.write "k" 2 none)) (.failed (.source "down")),
          .sent ⟨2, ⟨"k", some 2⟩, .error (.source "down")⟩,
          .issued 2 ⟨"k", some 2⟩,
          .asked (.call (.write "k" 2 none)),
          .replied (.call (.write "k" 1 none)) .done,
          .issued 1 ⟨"k", some 1⟩,
          .asked (.call (.write "k" 1 none))] := by
    decide +kernel
  have hone := hall 1 failingSource overflow shutdown_notMem_overflow isDrained_failed_overflow
    busyKey?_failed_overflow
    [.issued 1 ⟨"k", some 1⟩, .asked (.call (.write "k" 1 none))] (.write "k" 1 none) ⟨"k", some 1⟩
  rw [hhistory] at hone
  obtain ⟨number, -, hsurvives⟩ := hone (List.suffix_append [_, _, _, _, _] _) rfl
  simp [History.Survives, History.WasSent, History.sendings, Sending.succeeded,
    Except.toBool] at hsurvives

end CacheLayer.WriteBehind
