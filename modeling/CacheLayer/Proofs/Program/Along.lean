/-
Claims about a program by recursion on the program. `Along` carries a state of
the proof from each request to the next one, by a rule for single requests;
`Each` only says that all requests are of one kind. Both come apart at a bind, so
a program is walked through as it is written.
-/
import CacheLayer.Proofs.Program.Outcome

namespace CacheLayer

variable {V α β Φ : Type}

namespace Program

/-- All requests that the program can make are of a kind. -/
def Each (Q : Ask V → Prop) : Program V α → Prop
  | done _ => True
  | ask q next => Q q ∧ ∀ a, Each Q (next a)

/-- From a state, the program gets to its end by the rule, and `P` holds there. -/
def Along (rule : (q : Ask V) → Φ → (Answer q → Φ → Prop) → Prop) :
    Program V α → (α → Φ → Prop) → Φ → Prop
  | done a, P, φ => P a φ
  | ask q next, P, φ => rule q φ fun a φ => Along rule (next a) P φ

variable {Q : Ask V → Prop} {rule : (q : Ask V) → Φ → (Answer q → Φ → Prop) → Prop}

theorem each_pure (a : α) : Each Q (pure a : Program V α) := trivial

theorem each_lift {q : Ask V} (h : Q q) : Each Q (lift q) := ⟨h, fun _ => trivial⟩

theorem each_bind {p : Program V α} {f : α → Program V β} (hp : Each Q p)
    (hf : ∀ a, Each Q (f a)) : Each Q (p >>= f) := by
  induction p with
  | done a => exact hf a
  | ask q next ih => exact ⟨hp.1, fun a => ih a (hp.2 a)⟩

theorem each_mono {Q' : Ask V → Prop} (hQ : ∀ q, Q q → Q' q) {p : Program V α} (hp : p.Each Q) :
    p.Each Q' := by
  induction p with
  | done a => trivial
  | ask q next ih => exact ⟨hQ q hp.1, fun a => ih a (hp.2 a)⟩

theorem each_true (p : Program V α) : p.Each fun _ => True := by
  induction p with
  | done a => trivial
  | ask q next ih => exact ⟨trivial, ih⟩

theorem each_then {a : Action V α} {f : α → Action V β} (ha : a.outcome.Each Q)
    (hf : ∀ v, (f v).outcome.Each Q) : (a >>= f).outcome.Each Q := by
  rw [Action.outcome_bind]
  refine each_bind ha fun result => ?_
  cases result with
  | ok v => exact hf v
  | error e => exact each_pure _

theorem each_always {p : Program V α} (hp : p.Each Q) : (Action.always p).outcome.Each Q := by
  rw [Action.outcome_always]
  exact each_bind hp fun _ => each_pure _

theorem each_ignore {a : Action V α} (ha : a.outcome.Each Q) : a.ignore.Each Q :=
  each_bind ha fun _ => each_pure ()

/-- The program may make the request. -/
inductive Makes (q : Ask V) : Program V α → Prop where
  | first {next : Answer q → Program V α} : Makes q (ask q next)
  | later {q' : Ask V} {next : Answer q' → Program V α} (a : Answer q') (h : Makes q (next a)) :
      Makes q (ask q' next)

theorem Makes.of_each {q : Ask V} {p : Program V α} (h : Makes q p) (hp : p.Each Q) : Q q := by
  induction h with
  | first => exact hp.1
  | later a _ ih => exact ih (hp.2 a)

theorem along_bind (p : Program V α) (f : α → Program V β) (P : β → Φ → Prop) (φ : Φ) :
    Along rule (p >>= f) P φ = Along rule p (fun a => Along rule (f a) P) φ := by
  induction p generalizing φ with
  | done a => rfl
  | ask q next ih =>
    show rule q φ _ = rule q φ _
    congr 1
    funext a φ
    exact ih a φ

theorem along_then {p : Program V α} {f : α → Program V β} {P : β → Φ → Prop} {φ : Φ}
    (h : Along rule p (fun a => Along rule (f a) P) φ) : Along rule (p >>= f) P φ := by
  rw [along_bind]
  exact h

/-- The rule asks for no more if less has to hold afterwards. -/
def IsMono (rule : (q : Ask V) → Φ → (Answer q → Φ → Prop) → Prop) : Prop :=
  ∀ q φ (K K' : Answer q → Φ → Prop), (∀ a φ, K a φ → K' a φ) → rule q φ K → rule q φ K'

theorem along_mono (hrule : IsMono rule) {p : Program V α} {P P' : α → Φ → Prop} {φ : Φ}
    (h : Along rule p P φ) (hP : ∀ a φ, P a φ → P' a φ) : Along rule p P' φ := by
  induction p generalizing φ with
  | done a => exact hP a φ h
  | ask q next ih => exact hrule q φ _ _ (fun a φ hn => ih a hn) h

theorem along_each {φ : Φ} (hQ : ∀ q (K : Answer q → Φ → Prop), Q q → (∀ a, K a φ) → rule q φ K)
    {p : Program V α} (hp : Each Q p) {P : α → Φ → Prop} (hP : ∀ a, P a φ) :
    Along rule p P φ := by
  induction p with
  | done a => exact hP a
  | ask q next ih => exact hQ q _ hp.1 fun a => ih a (hp.2 a)

theorem each_word [DecidableEq α] {o : Overflow} (h : Q (.overflow o)) (result kept : α) :
    (word o result kept : Program V α).Each Q := by
  unfold word
  split
  · exact each_pure _
  · exact each_bind (each_lift h) fun _ => each_pure _

theorem each_pause (hnow : Q .now) (hpause : ∀ t, Q (.wait ⟨some t, fun _ => false⟩))
    (ms : Nat) : (pause ms : Program V Unit).Each Q := by
  unfold pause
  split
  · exact each_pure _
  · exact ⟨hnow, fun _ => each_lift (hpause _)⟩

theorem each_request (hlatency : ∀ id m, Q (.latency id m)) (hnow : Q .now)
    (hpause : ∀ t, Q (.wait ⟨some t, fun _ => false⟩)) (hrequest : ∀ id c, Q (.request id c))
    (id : SourceId) (c : Source.Call V) : (Action.request id c).outcome.Each Q :=
  each_bind (each_lift (hlatency id c.method)) fun ms =>
    each_bind (each_pause hnow hpause ms) fun _ => each_lift (hrequest id c)

theorem each_mapM {f : α → Action V β} (hf : ∀ a, (f a).outcome.Each Q) (as : List α) :
    (as.mapM f).outcome.Each Q := by
  induction as with
  | nil =>
    rw [List.mapM_nil]
    exact each_pure _
  | cons a as ih =>
    rw [List.mapM_cons]
    exact each_then (hf a) fun b => each_then ih fun bs => each_pure _

theorem each_forM {f : α → Program V Unit} (hf : ∀ a, (f a).Each Q) (as : List α) :
    (as.forM f).Each Q := by
  induction as with
  | nil => exact each_pure _
  | cons a as ih => exact each_bind (hf a) fun _ => ih

theorem each_foldlM {f : β → α → Program V β} (hf : ∀ b a, (f b a).Each Q) (as : List α) (b : β) :
    (as.foldlM f b).Each Q := by
  induction as generalizing b with
  | nil => exact each_pure _
  | cons a as ih =>
    rw [List.foldlM_cons]
    exact each_bind (hf b a) fun b' => ih b'

end Program

/-! ## Memory that is kept -/

/-- The request does not change what `g` reads off the memory. -/
def Ask.Keeps {β : Type} (g : Memory V → β) : Ask V → Prop
  | .update f => ∀ m, g (f m) = g m
  | _ => True

theorem Ask.keeps_perform {β : Type} {g : Memory V → β} {q : Ask V} (h : q.Keeps g)
    (s : Scene V) : g (q.perform s).2.memory = g s.memory := by
  cases q with
  | update f => exact h s.memory
  | _ => rfl

theorem Ask.memory_sleep (q : Ask V) (s : Scene V) : (q.sleep s).memory = s.memory := by
  cases q with
  | wait w =>
    simp only [sleep]
    split <;> rfl
  | _ => rfl

theorem Ask.perform_keeps {β : Type} {g : Memory V → β} {q : Ask V} (h : q.Keeps g)
    (s : Scene V) : g (q.perform (q.sleep s)).2.memory = g s.memory :=
  (keeps_perform h (q.sleep s)).trans (congrArg g (q.memory_sleep s))

/-- What no request changes is the same afterwards. -/
theorem Program.run_keeps {β : Type} {g : Memory V → β} {p : Program V α}
    (h : p.Each (Ask.Keeps g)) (s : Scene V) : g (p.run s).2.memory = g s.memory := by
  induction p generalizing s with
  | done a => rfl
  | ask q next ih => exact (ih _ (h.2 _) _).trans (Ask.perform_keeps h.1 s)

namespace Program

/-- The program does not change what `g` reads off the memory. -/
abbrev Keeps {β : Type} (g : Memory V → β) (p : Program V α) : Prop := p.Each (Ask.Keeps g)

theorem keeps_change {β : Type} {g : Memory V → β} {f : Memory V → Memory V}
    (h : ∀ m, g (f m) = g m) : (change f).Keeps g := ⟨h, fun _ => trivial⟩

theorem keeps_memory {β : Type} {g : Memory V → β} : (memory : Program V (Memory V)).Keeps g :=
  each_lift fun _ => rfl

theorem keeps_pause {β : Type} {g : Memory V → β} (ms : Nat) :
    (pause ms : Program V Unit).Keeps g :=
  each_pause (Q := Ask.Keeps g) trivial (fun _ => trivial) ms

theorem keeps_request {β : Type} {g : Memory V → β} (id : SourceId) (c : Source.Call V) :
    (Action.request id c).outcome.Keeps g :=
  each_request (Q := Ask.Keeps g) (fun _ _ => trivial) trivial (fun _ => trivial)
    (fun _ _ => trivial) id c

end Program

/-! ## Looking -/

namespace Ask

def isWait : Ask V → Bool
  | .wait _ => true
  | _ => false

/-- The request leaves the memory as it is, and it is no wait. -/
def Looks : Ask V → Prop
  | .update f => ∀ m, f m = m
  | .wait _ => False
  | _ => True

/-- The request leaves the memory as it is, but it may be a wait. -/
def OnlyReads : Ask V → Prop
  | .update f => ∀ m, f m = m
  | _ => True

theorem OnlyReads.keeps {β : Type} {q : Ask V} (h : q.OnlyReads) (g : Memory V → β) :
    q.Keeps g := by
  cases q with
  | update f => exact fun m => congrArg g (h m)
  | _ => trivial

theorem Looks.onlyReads {q : Ask V} (h : q.Looks) : q.OnlyReads := by
  cases q with
  | update f => exact h
  | _ => trivial

theorem Looks.keeps {β : Type} {q : Ask V} (h : q.Looks) (g : Memory V → β) : q.Keeps g :=
  h.onlyReads.keeps g

theorem Looks.isWait {q : Ask V} (h : q.Looks) : q.isWait = false := by
  cases q with
  | wait w => exact absurd h id
  | _ => rfl

end Ask

namespace Program

/-- The program never waits. -/
abbrev Hurries (p : Program V α) : Prop := p.Each fun q => q.isWait = false

/-- The program leaves the memory as it is and never waits. -/
abbrev Looks (p : Program V α) : Prop := p.Each Ask.Looks

variable {p : Program V α}

theorem Looks.keeps {β : Type} (h : p.Looks) (g : Memory V → β) : p.Keeps g :=
  each_mono (fun _ hq => hq.keeps g) h

theorem Looks.hurries (h : p.Looks) : p.Hurries := each_mono (fun _ hq => hq.isWait) h

theorem looks_memory : (memory : Program V (Memory V)).Looks := each_lift fun _ => rfl

/-- The program leaves the memory as it is, but it may wait. -/
abbrev OnlyReads (p : Program V α) : Prop := p.Each Ask.OnlyReads

theorem OnlyReads.keeps {β : Type} (h : p.OnlyReads) (g : Memory V → β) : p.Keeps g :=
  each_mono (fun _ hq => hq.keeps g) h

theorem Looks.onlyReads (h : p.Looks) : p.OnlyReads := each_mono (fun _ hq => hq.onlyReads) h

theorem onlyReads_memory : (memory : Program V (Memory V)).OnlyReads := looks_memory.onlyReads

theorem onlyReads_request (id : SourceId) (c : Source.Call V) :
    (Action.request id c).outcome.OnlyReads :=
  each_request (Q := Ask.OnlyReads) (fun _ _ => trivial) trivial (fun _ => trivial)
    (fun _ _ => trivial) id c

end Program
end CacheLayer
