/-
The books of a lane: which changes were issued, which of them are still owed to
the source, and which were sent. `Ledger` is what always holds between them and
the lane. Every lemma after it is about one thing that the caller or the worker
can do, and says that the books are in order again afterwards.

A side that applies a change goes through the stages of its `Hand`. Only from
the head of the line is a change sent, so a change that is `cleared` has no
newer one of its key sent before it.
-/
import Mathlib.Logic.Function.Basic
import CacheLayer.Proofs.WriteBehind.Slots

namespace CacheLayer.WriteBehind

/-- How far a change has come that a side has in hand. -/
inductive Stage where
  | taken
  /-- It stands in line for the source. -/
  | waiting
  /-- It is the head of the line. -/
  | serving
  /-- It was found to be the newest of its key. -/
  | cleared
  /-- It was sent or skipped. -/
  | through
  /-- It has left the line. -/
  | left
  deriving DecidableEq

namespace Stage

/-- The change may still be sent. -/
def isUndecided : Stage → Bool
  | through | left => false
  | _ => true

/-- The change has the source for itself. -/
def inFront : Stage → Bool
  | serving | cleared | through => true
  | _ => false

end Stage

/-- A change that a side has in hand. -/
structure Hand (V : Type) where
  number : Nat
  change : Change V
  stage : Stage

variable {V : Type}

/-- The change with its number. -/
def Hand.entry (hd : Hand V) : Nat × Change V := (hd.number, hd.change)

/-- What each side has in hand. -/
abbrev Hands (V : Type) := Side → Option (Hand V)

/-- The changes that are not finished, the oldest first. -/
def owed (hands : Hands V) (queue : List (Nat × Change V)) : List (Nat × Change V) :=
  (hands .worker).toList.map Hand.entry ++ queue ++ (hands .caller).toList.map Hand.entry

/-- What each side has in hand that may still be sent. -/
def deciding (hands : Hands V) : Hands V :=
  fun side => (hands side).filter fun hd => hd.stage.isUndecided

/-- The changes that may still be sent. -/
def undecided (hands : Hands V) (queue : List (Nat × Change V)) : List (Nat × Change V) :=
  owed (deciding hands) queue

/-- The books are in order. -/
structure Ledger (original : KeyMap V) (hands : Hands V) (l : Lane V)
    (issues : List (Nat × Change V)) (sendings : List (Sending V)) (rows : KeyMap V) : Prop where
  numbered : ∀ x ∈ issues, x.1 ≤ l.issued
  issueOrder : issues.Pairwise fun a b => b.1 < a.1
  owedIssued : ∀ x ∈ owed hands l.queue, x ∈ issues
  owedOrder : (owed hands l.queue).Pairwise fun a b => a.1 < b.1
  tallies : Tallies l (owed hands l.queue) issues
  sentIssued : ∀ s ∈ sendings, (s.number, s.change) ∈ issues
  /-- Of one key, newer changes are sent later. -/
  sentOrder : sendings.Pairwise fun a b => a.change.key = b.change.key → b.number < a.number
  unsent : ∀ x ∈ undecided hands l.queue, ∀ s ∈ sendings, s.number ≠ x.1
  front : ∀ side hd, hands side = some hd → hd.stage.inFront = true →
    l.line.head? = some hd.number
  cleared : ∀ side hd, hands side = some hd → hd.stage = .cleared →
    ∀ s ∈ sendings, s.change.key = hd.change.key → s.number < hd.number
  /-- No change is lost: it may still be sent, or was sent, or a newer one of its key was issued. -/
  settled : ∀ x ∈ issues, x ∈ undecided hands l.queue ∨ (∃ s ∈ sendings, s.number = x.1) ∨
    (∃ y ∈ issues, y.2.key = x.2.key ∧ x.1 < y.1) ∨ l.stopping = true
  rows : ∀ key, rows.get? key = written original key sendings

/-! ## Hands -/

section Hands

variable {hands : Hands V} {side : Side} {hd hd' : Hand V} {queue : List (Nat × Change V)}
  {x : Option (Hand V)}

theorem owed_update_worker (hands : Hands V) (x : Option (Hand V)) (queue) :
    owed (Function.update hands .worker x) queue =
      x.toList.map Hand.entry ++ queue ++ (hands .caller).toList.map Hand.entry := by
  simp [owed, Function.update]

theorem owed_update_caller (hands : Hands V) (x : Option (Hand V)) (queue) :
    owed (Function.update hands .caller x) queue =
      (hands .worker).toList.map Hand.entry ++ queue ++ x.toList.map Hand.entry := by
  simp [owed, Function.update]

theorem deciding_update (hands : Hands V) (side : Side) (x : Option (Hand V)) :
    deciding (Function.update hands side x) =
      Function.update (deciding hands) side (x.filter fun hd => hd.stage.isUndecided) := by
  funext t
  by_cases ht : t = side
  · subst ht; simp [deciding]
  · simp [deciding, Function.update_of_ne ht]

/-- A change in hand is owed, and the rest is owed without it. -/
theorem owed_perm (hs : hands side = some hd) (queue) :
    (owed hands queue).Perm (hd.entry :: owed (Function.update hands side none) queue) := by
  cases side with
  | worker => simp [owed, hs, Function.update]
  | caller =>
    have hp : ((hands .worker).toList.map Hand.entry ++ queue ++ [hd.entry]).Perm
        ([hd.entry] ++ ((hands .worker).toList.map Hand.entry ++ queue)) := List.perm_append_comm
    simpa [owed, hs, Function.update] using hp

theorem owed_update_same (hs : hands side = some hd) (he : hd'.entry = hd.entry) (queue) :
    owed (Function.update hands side (some hd')) queue = owed hands queue := by
  cases side with
  | worker => rw [owed_update_worker, owed, hs]; simp [he]
  | caller => rw [owed_update_caller, owed, hs]; simp [he]

theorem undecided_update_same (hs : hands side = some hd) (he : hd'.entry = hd.entry)
    (hu : hd'.stage.isUndecided = hd.stage.isUndecided) (queue) :
    undecided (Function.update hands side (some hd')) queue = undecided hands queue := by
  rw [undecided, deciding_update, undecided]
  cases hd'u : hd'.stage.isUndecided with
  | true =>
    have hs' : deciding hands side = some hd := by simp [deciding, hs, Option.filter, ← hu, hd'u]
    rw [Option.filter, if_pos hd'u]
    exact owed_update_same hs' he queue
  | false =>
    have hs' : deciding hands side = none := by simp [deciding, hs, Option.filter, ← hu, hd'u]
    rw [Option.filter, if_neg (by simp [hd'u]), ← hs', Function.update_eq_self]

theorem owed_sublist (hands : Hands V) (side : Side) (queue) :
    (owed (Function.update hands side none) queue).Sublist (owed hands queue) := by
  cases side with
  | worker => rw [owed_update_worker, owed]; simp
  | caller => rw [owed_update_caller, owed]; simp

theorem undecided_sublist (hands : Hands V) (queue) :
    (undecided hands queue).Sublist (owed hands queue) := by
  have hsub : ∀ x : Option (Hand V),
      ((x.filter fun hd => hd.stage.isUndecided).toList.map Hand.entry).Sublist
        (x.toList.map Hand.entry) := by
    intro x
    cases x with
    | none => simp
    | some hd => cases hu : hd.stage.isUndecided <;> simp [Option.filter, hu]
  exact ((hsub _).append (List.Sublist.refl _)).append (hsub _)

theorem undecided_update_decided (hd : Hand V) (hu : hd.stage.isUndecided = false)
    (hands : Hands V) (side : Side) (queue) :
    undecided (Function.update hands side (some hd)) queue =
      undecided (Function.update hands side none) queue := by
  rw [undecided, undecided, deciding_update, deciding_update, Option.filter,
    if_neg (by simp [hu])]
  rfl

theorem undecided_perm (hs : hands side = some hd) (hu : hd.stage.isUndecided = true) (queue) :
    (undecided hands queue).Perm
      (hd.entry :: undecided (Function.update hands side none) queue) := by
  have hs' : deciding hands side = some hd := by simp [deciding, hs, Option.filter, hu]
  rw [undecided, undecided, deciding_update]
  exact owed_perm hs' queue

theorem of_update_none {t : Side} (ht : Function.update hands side none t = some hd) :
    hands t = some hd := by
  by_cases hts : t = side
  · subst hts
    rw [Function.update_self] at ht
    cases ht
  · rwa [Function.update_of_ne hts] at ht

theorem of_update_some {t : Side} (ht : Function.update hands side (some hd') t = some hd) :
    (t = side ∧ hd = hd') ∨ (t ≠ side ∧ hands t = some hd) := by
  by_cases hts : t = side
  · subst hts
    rw [Function.update_self] at ht
    exact .inl ⟨rfl, (Option.some.inj ht).symm⟩
  · rw [Function.update_of_ne hts] at ht
    exact .inr ⟨hts, ht⟩

theorem mem_owed (hs : hands side = some hd) (queue) : hd.entry ∈ owed hands queue :=
  (owed_perm hs queue).mem_iff.2 List.mem_cons_self

end Hands

/-! ## Steps -/

namespace Ledger

variable {original rows : KeyMap V} {hands hands' : Hands V} {l l' : Lane V} {side : Side}
  {issues : List (Nat × Change V)} {sendings : List (Sending V)} {number : Nat} {c : Change V}
  {stage stage' : Stage} {hd : Hand V}

theorem congr (h : Ledger original hands l issues sendings rows)
    (howed : owed hands' l'.queue = owed hands l.queue)
    (hundecided : undecided hands' l'.queue = undecided hands l.queue)
    (hslots : l'.slots = l.slots) (hissued : l'.issued = l.issued)
    (hstopping : l.stopping = true → l'.stopping = true)
    (hfront : ∀ side hd, hands' side = some hd → hd.stage.inFront = true →
      l'.line.head? = some hd.number)
    (hcleared : ∀ side hd, hands' side = some hd → hd.stage = .cleared →
      ∀ s ∈ sendings, s.change.key = hd.change.key → s.number < hd.number) :
    Ledger original hands' l' issues sendings rows where
  numbered := by rw [hissued]; exact h.numbered
  issueOrder := h.issueOrder
  owedIssued := by rw [howed]; exact h.owedIssued
  owedOrder := by rw [howed]; exact h.owedOrder
  tallies := by
    intro key
    rw [howed, hslots]
    exact h.tallies key
  sentIssued := h.sentIssued
  sentOrder := h.sentOrder
  unsent := by rw [hundecided]; exact h.unsent
  front := hfront
  cleared := hcleared
  settled := by
    intro x hx
    rw [hundecided]
    rcases h.settled x hx with hs | hs | hs | hs
    · exact .inl hs
    · exact .inr (.inl hs)
    · exact .inr (.inr (.inl hs))
    · exact .inr (.inr (.inr (hstopping hs)))
  rows := h.rows

theorem onLane (h : Ledger original hands l issues sendings rows) (hqueue : l'.queue = l.queue)
    (hslots : l'.slots = l.slots) (hissued : l'.issued = l.issued) (hline : l'.line = l.line)
    (hstopping : l.stopping = true → l'.stopping = true) :
    Ledger original hands l' issues sendings rows :=
  h.congr (by rw [hqueue]) (by rw [hqueue]) hslots hissued hstopping
    (by rw [hline]; exact h.front) h.cleared

theorem unique (h : Ledger original hands l issues sendings rows) {x y : Nat × Change V}
    (hx : x ∈ issues) (hy : y ∈ issues) (he : x.1 = y.1) : x = y := by
  have hlt : issues.Pairwise fun a b => a.1 = b.1 → a = b :=
    h.issueOrder.imp fun hab he => absurd he (Nat.ne_of_gt hab)
  have hgt : issues.Pairwise (flip fun a b => a.1 = b.1 → a = b) :=
    h.issueOrder.imp fun hab he => absurd he (Nat.ne_of_lt hab)
  exact List.Pairwise.forall_of_forall_of_flip (fun _ _ _ => rfl) hlt hgt hx hy he

/-- A change in hand differs in its number from all others that are owed. -/
theorem apart (h : Ledger original hands l issues sendings rows) (hs : hands side = some hd) :
    ∀ x ∈ owed (Function.update hands side none) l.queue, x.1 ≠ hd.number := by
  have hne : (owed hands l.queue).Pairwise fun a b => a.1 ≠ b.1 :=
    h.owedOrder.imp fun hlt => Nat.ne_of_lt hlt
  have hperm := (owed_perm hs l.queue).pairwise hne fun hab => Ne.symm hab
  intro x hx
  exact Ne.symm ((List.pairwise_cons.1 hperm).1 x hx)

/-- Both sides cannot be in front. -/
theorem alone (h : Ledger original hands l issues sendings rows) {other : Side} {hd' : Hand V}
    (hs : hands side = some hd) (hfront : hd.stage.inFront = true) (hne : other ≠ side)
    (ho : hands other = some hd') : hd'.stage.inFront = false := by
  by_contra hfront'
  have hn : some hd.number = some hd'.number :=
    (h.front side hd hs hfront).symm.trans (h.front other hd' ho (by simpa using hfront'))
  have ho' : Function.update hands side none other = some hd' := by
    rw [Function.update_of_ne hne, ho]
  exact h.apart hs hd'.entry (mem_owed ho' _) (Option.some.inj hn).symm

/-- A change in hand takes its next step, and stays owed and undecided. -/
theorem restage (h : Ledger original hands l issues sendings rows)
    (hs : hands side = some ⟨number, c, stage⟩)
    (hundecided : stage'.isUndecided = stage.isUndecided) (hqueue : l'.queue = l.queue)
    (hslots : l'.slots = l.slots) (hissued : l'.issued = l.issued)
    (hstopping : l'.stopping = l.stopping)
    (hself : stage'.inFront = true → l'.line.head? = some number)
    (hothers : ∀ other ≠ side, ∀ hd, hands other = some hd → hd.stage.inFront = true →
      l'.line.head? = some hd.number)
    (hcleared : stage' = .cleared → ∀ s ∈ sendings, s.change.key = c.key → s.number < number) :
    Ledger original (Function.update hands side (some ⟨number, c, stage'⟩)) l' issues sendings
      rows := by
  have entry : (⟨number, c, stage'⟩ : Hand V).entry = (⟨number, c, stage⟩ : Hand V).entry := rfl
  refine h.congr ?_ ?_ hslots hissued (fun hstop => hstopping.trans hstop) ?_ ?_
  · rw [hqueue]
    exact owed_update_same hs entry l.queue
  · rw [hqueue]
    exact undecided_update_same hs entry hundecided l.queue
  · intro t hd ht hf
    rcases of_update_some ht with ⟨rfl, rfl⟩ | ⟨hts, ht⟩
    · exact hself hf
    · exact hothers t hts hd ht hf
  · intro t hd ht hst
    rcases of_update_some ht with ⟨rfl, rfl⟩ | ⟨-, ht⟩
    · exact hcleared hst
    · exact h.cleared t hd ht hst

theorem enterLine (h : Ledger original hands l issues sendings rows)
    (hs : hands side = some ⟨number, c, .taken⟩) :
    Ledger original (Function.update hands side (some ⟨number, c, .waiting⟩))
      (l.enterLine number) issues sendings rows := by
  refine h.restage hs rfl rfl rfl rfl rfl (by rintro ⟨⟩) ?_ (by rintro ⟨⟩)
  intro other _ hd hd' hf
  -- who is in front stays there: the number goes to the end of a line that is not empty
  have hhead := h.front other hd hd' hf
  simp [Lane.enterLine, List.head?_append, hhead]

theorem serve (h : Ledger original hands l issues sendings rows)
    (hs : hands side = some ⟨number, c, .waiting⟩) (hserving : l.isServing number = true) :
    Ledger original (Function.update hands side (some ⟨number, c, .serving⟩)) l issues sendings
      rows := by
  refine h.restage hs rfl rfl rfl rfl rfl (fun _ => ?_) (fun other _ => h.front other)
    (by rintro ⟨⟩)
  simpa [Lane.isServing] using hserving

theorem clear (h : Ledger original hands l issues sendings rows)
    (hs : hands side = some ⟨number, c, .serving⟩) (hlatest : l.isLatest c.key number = true) :
    Ledger original (Function.update hands side (some ⟨number, c, .cleared⟩)) l issues sendings
      rows := by
  refine h.restage hs rfl rfl rfl rfl rfl (fun _ => h.front side _ hs rfl)
    (fun other _ => h.front other) (fun _ s hsent hkey => ?_)
  -- the newest change of the key is the one in hand, so what was sent is older or is itself
  have hmem := mem_owed hs l.queue
  rw [h.tallies.isLatest hmem] at hlatest
  obtain ⟨x, hx⟩ := exists_newest? (h.sentIssued s hsent) hkey
  have hle : s.number ≤ x.1 := le_of_newest? h.issueOrder hx (h.sentIssued s hsent) hkey
  have hnumber : x.1 = number := by simpa [latest, hx] using hlatest
  have hunsent : s.number ≠ number :=
    h.unsent (number, c) ((undecided_perm hs rfl l.queue).mem_iff.2 List.mem_cons_self) s hsent
  omega

/-- It is decided about the change of the side in front, and nobody else is concerned. -/
theorem pass (h : Ledger original hands l issues sendings rows)
    (hs : hands side = some ⟨number, c, stage⟩) (hfront : stage.inFront = true)
    (hundecided : stage.isUndecided = true) {sendings' : List (Sending V)} {rows' : KeyMap V}
    (hissued : ∀ s ∈ sendings', (s.number, s.change) ∈ issues)
    (horder : sendings'.Pairwise fun a b => a.change.key = b.change.key → b.number < a.number)
    (hunsent : ∀ x ∈ undecided (Function.update hands side none) l.queue,
      ∀ s ∈ sendings', s.number ≠ x.1)
    (hsent : ∀ s ∈ sendings, s ∈ sendings')
    (hsettled : (∃ s ∈ sendings', s.number = number) ∨
      ∃ y ∈ issues, y.2.key = c.key ∧ number < y.1)
    (hrows : ∀ key, rows'.get? key = written original key sendings') :
    Ledger original (Function.update hands side (some ⟨number, c, .through⟩)) l issues sendings'
      rows' := by
  have howed : owed (Function.update hands side (some ⟨number, c, .through⟩)) l.queue =
      owed hands l.queue :=
    owed_update_same hs (show Hand.entry ⟨number, c, .through⟩ = _ from rfl) l.queue
  have hun : undecided (Function.update hands side (some ⟨number, c, .through⟩)) l.queue =
      undecided (Function.update hands side none) l.queue :=
    undecided_update_decided _ rfl hands side l.queue
  refine ⟨h.numbered, h.issueOrder, ?_, ?_, ?_, hissued, horder, ?_, ?_, ?_, ?_, hrows⟩
  · rw [howed]; exact h.owedIssued
  · rw [howed]; exact h.owedOrder
  · rw [howed]; exact h.tallies
  · rw [hun]; exact hunsent
  · intro t hd ht hf
    rcases of_update_some ht with ⟨rfl, rfl⟩ | ⟨-, ht⟩
    · exact h.front t ⟨number, c, stage⟩ hs hfront
    · exact h.front t hd ht hf
  · intro t hd ht hst
    rcases of_update_some ht with ⟨rfl, rfl⟩ | ⟨hts, ht⟩
    · cases hst
    -- the other side cannot have been cleared meanwhile, for that it would have to be in front
    · have hback := h.alone hs hfront hts ht
      rw [hst] at hback
      cases hback
  · intro x hx
    rw [hun]
    rcases h.settled x hx with hu | ⟨s, hs', he⟩ | hnewer | hstop
    · rcases List.mem_cons.1 ((undecided_perm hs hundecided l.queue).mem_iff.1 hu) with rfl | hu
      · rcases hsettled with hsettled | hsettled
        · exact .inr (.inl hsettled)
        · exact .inr (.inr (.inl hsettled))
      · exact .inl hu
    · exact .inr (.inl ⟨s, hsent s hs', he⟩)
    · exact .inr (.inr (.inl hnewer))
    · exact .inr (.inr (.inr hstop))

theorem mem_undecided (hundecided : hd.stage.isUndecided = true) (hs : hands side = some hd)
    {x : Nat × Change V} {queue : List (Nat × Change V)}
    (hx : x ∈ undecided (Function.update hands side none) queue) : x ∈ undecided hands queue :=
  (undecided_perm hs hundecided queue).mem_iff.2 (List.mem_cons_of_mem _ hx)

theorem skip (h : Ledger original hands l issues sendings rows)
    (hs : hands side = some ⟨number, c, .serving⟩) (hlatest : l.isLatest c.key number = false) :
    Ledger original (Function.update hands side (some ⟨number, c, .through⟩)) l issues sendings
      rows := by
  have hmem : (number, c) ∈ owed hands l.queue := mem_owed hs l.queue
  have hissued := h.owedIssued _ hmem
  obtain ⟨x, hx⟩ := exists_newest? hissued rfl
  obtain ⟨hxi, hxk⟩ := newest?_mem hx
  have hle : number ≤ x.1 := le_of_newest? h.issueOrder hx hissued rfl
  have hne : x.1 ≠ number := by
    rw [h.tallies.isLatest hmem] at hlatest
    simpa [latest, hx] using hlatest
  have hunsent : ∀ y ∈ undecided (Function.update hands side none) l.queue,
      ∀ s ∈ sendings, s.number ≠ y.1 := fun y hy => h.unsent y (mem_undecided rfl hs hy)
  exact h.pass hs rfl rfl h.sentIssued h.sentOrder hunsent (fun _ hsent => hsent)
    (.inr ⟨x, hxi, hxk, by omega⟩) h.rows

theorem send (h : Ledger original hands l issues sendings rows)
    (hs : hands side = some ⟨number, c, .cleared⟩) (answer : Except Error Unit)
    {rows' : KeyMap V} (hrows : ∀ key, rows'.get? key =
      if c.key = key ∧ answer.toBool = true then c.value else rows.get? key) :
    Ledger original (Function.update hands side (some ⟨number, c, .through⟩)) l issues
      (⟨number, c, answer⟩ :: sendings) rows' := by
  have hmem : (number, c) ∈ owed hands l.queue := mem_owed hs l.queue
  have hissued : ∀ s ∈ (⟨number, c, answer⟩ : Sending V) :: sendings,
      (s.number, s.change) ∈ issues := by
    intro s hsent
    rcases List.mem_cons.1 hsent with rfl | hsent
    · exact h.owedIssued _ hmem
    · exact h.sentIssued s hsent
  have horder : ((⟨number, c, answer⟩ : Sending V) :: sendings).Pairwise
      fun a b => a.change.key = b.change.key → b.number < a.number :=
    List.pairwise_cons.2 ⟨fun s hsent hkey => h.cleared side _ hs rfl s hsent hkey.symm,
      h.sentOrder⟩
  have hunsent : ∀ y ∈ undecided (Function.update hands side none) l.queue,
      ∀ s ∈ (⟨number, c, answer⟩ : Sending V) :: sendings, s.number ≠ y.1 := by
    intro y hy s hsent
    rcases List.mem_cons.1 hsent with rfl | hsent
    · exact (h.apart hs y ((undecided_sublist _ _).subset hy)).symm
    · exact h.unsent y (mem_undecided rfl hs hy) s hsent
  refine h.pass hs rfl rfl hissued horder hunsent (fun _ => List.mem_cons_of_mem _)
    (.inl ⟨_, List.mem_cons_self, rfl⟩) fun key => ?_
  rw [hrows key, h.rows key]
  by_cases hk : c.key = key ∧ answer.toBool = true <;> simp [written, Sending.succeeded, hk]

theorem leaveLine (h : Ledger original hands l issues sendings rows)
    (hs : hands side = some ⟨number, c, .through⟩) :
    Ledger original (Function.update hands side (some ⟨number, c, .left⟩)) l.leaveLine issues
      sendings rows := by
  refine h.restage hs rfl rfl rfl rfl rfl (by rintro ⟨⟩) ?_ (by rintro ⟨⟩)
  -- the head that leaves is the side's own number, so nobody else was in front
  intro other hne hd hd' hf
  have hback := h.alone hs rfl hne hd'
  rw [hf] at hback
  cases hback

theorem finish (h : Ledger original hands l issues sendings rows)
    (hs : hands side = some ⟨number, c, .left⟩) :
    Ledger original (Function.update hands side none) (l.finish c.key) issues sendings rows := by
  rw [finish_eq]
  have hun : undecided (Function.update hands side none) l.queue = undecided hands l.queue := by
    rw [← undecided_update_decided ⟨number, c, .left⟩ rfl]
    exact undecided_update_same hs rfl rfl l.queue
  refine ⟨h.numbered, h.issueOrder, ?_, ?_, ?_, h.sentIssued, h.sentOrder, ?_, ?_, ?_, ?_, h.rows⟩
  · intro x hx
    exact h.owedIssued x ((owed_sublist hands side l.queue).subset hx)
  · exact h.owedOrder.sublist (owed_sublist hands side l.queue)
  · exact (h.tallies.perm (owed_perm hs l.queue)).finish
  · rw [hun]; exact h.unsent
  · exact fun t hd ht => h.front t hd (of_update_none ht)
  · exact fun t hd ht => h.cleared t hd (of_update_none ht)
  · rw [hun]; exact h.settled

theorem front_taken (h : Ledger original hands l issues sendings rows) (number : Nat)
    (c : Change V) : ∀ t hd, Function.update hands side (some ⟨number, c, .taken⟩) t = some hd →
      hd.stage.inFront = true → l.line.head? = some hd.number := by
  intro t hd ht hf
  rcases of_update_some ht with ⟨rfl, rfl⟩ | ⟨-, ht⟩
  · cases hf
  · exact h.front t hd ht hf

theorem cleared_taken (h : Ledger original hands l issues sendings rows) (number : Nat)
    (c : Change V) : ∀ t hd, Function.update hands side (some ⟨number, c, .taken⟩) t = some hd →
      hd.stage = .cleared → ∀ s ∈ sendings, s.change.key = hd.change.key → s.number < hd.number := by
  intro t hd ht hst
  rcases of_update_some ht with ⟨rfl, rfl⟩ | ⟨-, ht⟩
  · cases hst
  · exact h.cleared t hd ht hst

theorem issue (h : Ledger original hands l issues sendings rows) (hs : hands .caller = none)
    (c : Change V) :
    Ledger original (Function.update hands .caller (some ⟨l.issued + 1, c, .taken⟩))
      (l.issue c.key) ((l.issued + 1, c) :: issues) sendings rows := by
  have howed : owed (Function.update hands .caller (some ⟨l.issued + 1, c, .taken⟩)) l.queue =
      owed hands l.queue ++ [(l.issued + 1, c)] := by
    rw [owed_update_caller, owed, hs]
    simp [Hand.entry]
  have hun : undecided (Function.update hands .caller (some ⟨l.issued + 1, c, .taken⟩)) l.queue =
      undecided hands l.queue ++ [(l.issued + 1, c)] := by
    rw [undecided, deciding_update, owed_update_caller, undecided, owed, deciding, deciding, hs]
    simp [Hand.entry, Option.filter, Stage.isUndecided]
  have hbelow : ∀ x ∈ issues, x.1 < l.issued + 1 := fun x hx => Nat.lt_succ_of_le (h.numbered x hx)
  have hqueue : (l.issue c.key).queue = l.queue := rfl
  have hline : (l.issue c.key).line = l.line := rfl
  refine ⟨?_, ?_, ?_, ?_, ?_, ?_, h.sentOrder, ?_, ?_, ?_, ?_, h.rows⟩
  · intro x hx
    show x.1 ≤ l.issued + 1
    rcases List.mem_cons.1 hx with rfl | hx
    · exact Nat.le_refl _
    · exact Nat.le_of_lt (hbelow x hx)
  · exact List.pairwise_cons.2 ⟨hbelow, h.issueOrder⟩
  · rw [hqueue, howed]
    intro x hx
    rcases List.mem_append.1 hx with hx | hx
    · exact List.mem_cons_of_mem _ (h.owedIssued x hx)
    · rw [List.mem_singleton.1 hx]
      exact List.mem_cons_self
  · rw [hqueue, howed]
    refine List.pairwise_append.2 ⟨h.owedOrder, List.pairwise_singleton _ _, fun x hx y hy => ?_⟩
    rw [List.mem_singleton.1 hy]
    exact hbelow x (h.owedIssued x hx)
  · rw [hqueue, howed]
    exact (h.tallies.issue c).perm (List.perm_append_singleton _ _).symm
  · exact fun s hsent => List.mem_cons_of_mem _ (h.sentIssued s hsent)
  · rw [hqueue, hun]
    intro x hx s hsent
    rcases List.mem_append.1 hx with hx | hx
    · exact h.unsent x hx s hsent
    · rw [List.mem_singleton.1 hx]
      exact Nat.ne_of_lt (hbelow _ (h.sentIssued s hsent))
  · rw [hline]
    exact h.front_taken _ c
  · exact h.cleared_taken _ c
  · rw [hqueue, hun]
    intro x hx
    rcases List.mem_cons.1 hx with rfl | hx
    · exact .inl (by simp)
    · rcases h.settled x hx with hu | hsent | ⟨y, hy, hnewer⟩ | hstop
      · exact .inl (List.mem_append_left _ hu)
      · exact .inr (.inl hsent)
      · exact .inr (.inr (.inl ⟨y, List.mem_cons_of_mem _ hy, hnewer⟩))
      · exact .inr (.inr (.inr hstop))

theorem push (h : Ledger original hands l issues sendings rows)
    (hs : hands .caller = some ⟨number, c, .taken⟩) :
    Ledger original (Function.update hands .caller none) (l.push number c) issues sendings
      rows := by
  refine h.congr ?_ ?_ rfl rfl id ?_ ?_
  · rw [owed_update_caller, owed, hs]
    simp [Lane.push, Hand.entry]
  · rw [undecided, deciding_update, owed_update_caller, undecided, owed, deciding, deciding, hs]
    simp [Lane.push, Hand.entry, Option.filter, Stage.isUndecided]
  · exact fun t hd ht => h.front t hd (of_update_none ht)
  · exact fun t hd ht => h.cleared t hd (of_update_none ht)

theorem pop (h : Ledger original hands l issues sendings rows) (hs : hands .worker = none)
    (hqueue : l.queue.head? = some (number, c)) :
    Ledger original (Function.update hands .worker (some ⟨number, c, .taken⟩)) l.pop issues
      sendings rows := by
  obtain ⟨rest, hrest⟩ := List.head?_eq_some_iff.1 hqueue
  refine h.congr ?_ ?_ rfl rfl id (h.front_taken number c) (h.cleared_taken number c)
  · rw [owed_update_worker, owed, hs, hrest]
    simp [Lane.pop, Hand.entry, hrest]
  · rw [undecided, deciding_update, owed_update_worker, undecided, owed, deciding, deciding, hs,
      hrest]
    simp [Lane.pop, Hand.entry, Option.filter, Stage.isUndecided, hrest]

/-- The waiting changes are thrown away. -/
theorem discard (h : Ledger original hands l issues sendings rows) (hstopping : l.stopping = true) :
    Ledger original hands l.discard issues sendings rows := by
  have hperm : (owed hands l.queue).Perm (l.queue ++ owed hands []) := by
    simp only [owed, List.append_nil, List.append_assoc]
    exact List.perm_append_comm_assoc _ _ _
  have hsub : ∀ hands : Hands V, (owed hands []).Sublist (owed hands l.queue) := by
    intro hands
    simp [owed]
  have hdiscard : l.discard =
      { l with
        slots := (l.queue.foldl (fun l x => l.finish x.2.key) l).slots
        queue := []
        pending := l.pending - l.queue.length } := by
    rw [Lane.discard, sweep_eq]
  rw [hdiscard]
  refine ⟨h.numbered, h.issueOrder, fun x hx => h.owedIssued x ((hsub hands).subset hx),
    h.owedOrder.sublist (hsub hands), tallies_sweep l.queue (h.tallies.perm hperm), h.sentIssued,
    h.sentOrder, fun x hx => h.unsent x ((hsub _).subset hx), h.front, h.cleared, ?_, h.rows⟩
  exact fun _ _ => .inr (.inr (.inr hstopping))

theorem start (rows : KeyMap V) (capacity : Nat) :
    Ledger rows (fun _ => none) (Lane.fresh capacity) [] [] rows where
  numbered := by simp
  issueOrder := .nil
  owedIssued := by simp [owed, Lane.fresh]
  owedOrder := by simp [owed, Lane.fresh]
  tallies := fun key => by simp [owed, Lane.fresh, countOn]
  sentIssued := by simp
  sentOrder := .nil
  unsent := by simp
  front := by simp
  cleared := by simp
  settled := by simp
  rows := fun _ => rfl

end Ledger
end CacheLayer.WriteBehind
