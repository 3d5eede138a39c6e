/-
What a call adds to the counters of its strategy. By the time it returns, a read, a write or a delete
has raised one counter by one, and it is the counter that `Call.counter?` says, in view of what its own
requests have found out. That is shown along its program, for whatever others do between its requests:
a request finds something out if it is the look-up or the load of a read, it counts something if it is
the last of a call but one, and all others are `Unseen`.

Main statement: `finds_call`.
-/
import CacheLayer.Proofs.Client.Misses
import CacheLayer.Proofs.Strategy.Requests
import CacheLayer.Proofs.Strategy.Traffic

namespace CacheLayer

variable {V α : Type} {z : Serializer V} {s : Scene V} {key : String}

/-! ## Requests -/

/-- Values are written by the serializer, and the store is candid. -/
structure Scene.Candid (z : Serializer V) (s : Scene V) : Prop where
  format : s.memory.format = .ofSerializer z
  world : s.world.Candid

namespace Ask

variable {q : Ask V}

theorem candid_perform (h : q.Keeps Memory.format) (hs : s.Candid z) : (q.perform s).2.Candid z := by
  refine ⟨(keeps_perform h s).trans hs.format, ?_⟩
  cases q with
  | command c => exact World.candid_command hs.world c
  | health =>
    change s.world.checkHealth.2.Candid
    unfold World.checkHealth
    split <;> exact hs.world
  | _ => exact hs.world

/-- Nothing is found out by the request, and nothing is counted. -/
structure Unseen (q : Ask V) : Prop where
  keeps : q.Keeps fun m => (m.format, m.strategy.stats)
  live : ∀ s, q.isLive? s = none
  answered : ∀ s, q.isAnswered? s = none

theorem Unseen.format (h : q.Unseen) : q.Keeps Memory.format := by
  cases q with
  | update f => exact fun m => congrArg Prod.fst (h.keeps m)
  | _ => trivial

theorem Unseen.stats (h : q.Unseen) (s : Scene V) :
    (q.perform s).2.memory.strategy.stats = s.memory.strategy.stats :=
  congrArg Prod.snd (keeps_perform h.keeps s)

theorem Unseen.tally (h : q.Unseen) (s : Scene V) : (q.perform s).2.tally = s.tally :=
  congrArg StrategyStats.tally (h.stats s)

end Ask

theorem changes_unseen : Changes (Ask.Unseen (V := V)) where
  now := ⟨trivial, fun _ => rfl, fun _ => rfl⟩
  wait _ := ⟨trivial, fun _ => rfl, fun _ => rfl⟩
  memory := ⟨fun _ => rfl, fun _ => rfl, fun _ => rfl⟩
  lane _ _ := ⟨fun _ => rfl, fun _ => rfl, fun _ => rfl⟩
  draw _ := ⟨trivial, fun _ => rfl, fun _ => rfl⟩
  set _ _ _ := ⟨trivial, fun _ => rfl, fun _ => rfl⟩
  delete _ := ⟨trivial, fun _ => rfl, fun _ => rfl⟩
  latency _ := ⟨trivial, fun _ => rfl, fun _ => rfl⟩
  store _ _ := ⟨trivial, fun _ => rfl, fun _ => rfl⟩
  remove _ := ⟨trivial, fun _ => rfl, fun _ => rfl⟩

namespace Strategy

open Program (along_then)

/-! ## What a call finds out -/

/-- What a call has found out, and which counter it has raised. -/
structure Stage where
  live : Bool
  answered : Bool
  counted : Option Counter

def Stage.findings (φ : Stage) : Findings := ⟨φ.live, φ.answered, .of φ.counted⟩

/-- The rule for one request: whatever others do meanwhile, it leads from one stage to another. -/
def finding (z : Serializer V) (q : Ask V) (φ : Stage) (K : Answer q → Stage → Prop) : Prop :=
  q.Keeps Memory.format ∧ (∀ s c, s.tally c ≤ (q.perform s).2.tally c) ∧
    ∀ s, s.Candid z → q.hasToWait s = false →
      ∃ φ', φ.findings.after s q = φ'.findings ∧ K (q.perform s).1 φ'

/-- The program gets from a stage to its end. -/
abbrev Finds (z : Serializer V) (p : Program V α) (P : α → Stage → Prop) (φ : Stage) : Prop :=
  Program.Along (finding z) p P φ

variable {φ : Stage} {live answered : Bool} {counted : Option Counter}

theorem after_unseen {q : Ask V} (h : q.Unseen) (x : Findings) (s : Scene V) : x.after s q = x := by
  simp [Findings.after, h.live, h.answered, h.tally]

theorem finding_unseen (q : Ask V) (K : Answer q → Stage → Prop) (h : q.Unseen)
    (hK : ∀ a, K a φ) : finding z q φ K :=
  ⟨h.format, fun s c => Nat.le_of_eq (by rw [h.tally]), fun s _ _ => ⟨φ, after_unseen h _ s, hK _⟩⟩

theorem finds_unseen {p : Program V α} {P : α → Stage → Prop} (hp : p.Each Ask.Unseen)
    (hP : ∀ a, P a φ) : Finds z p P φ :=
  Program.along_each finding_unseen hp hP

theorem finds_memory {P : Memory V → Stage → Prop} (hP : ∀ m, P m φ) :
    Finds z Program.memory P φ :=
  finds_unseen changes_unseen.each_memory hP

/-- The statistics count one thing more of a kind. -/
def Raises (count : StrategyStats → StrategyStats) (c : Counter) : Prop :=
  ∀ stats k, (count stats).tally k = stats.tally k + Tally.of (some c) k

theorem raises_hit (elapsed : Nat) : Raises (·.hit elapsed) .hits := by
  intro stats k
  cases k <;> rfl

theorem raises_miss (elapsed : Nat) : Raises (·.miss elapsed) .misses := by
  intro stats k
  cases k <;> rfl

theorem raises_write (elapsed : Nat) : Raises (·.write elapsed) .writes := by
  intro stats k
  cases k <;> rfl

theorem raises_delete : Raises StrategyStats.delete .deletes := by
  intro stats k
  cases k <;> rfl

theorem raises_error : Raises StrategyStats.error .errors := by
  intro stats k
  cases k <;> rfl

/-- Something is counted, of a call of which nothing was counted before. -/
theorem finds_record {count : StrategyStats → StrategyStats} {n : Note V} {c : Counter}
    (hcount : Raises count c) {P : Unit → Stage → Prop} (hP : P () ⟨live, answered, some c⟩) :
    Finds z (record count n) P ⟨live, answered, none⟩ := by
  have htally : ∀ (s : Scene V) k, ((Ask.update fun m => m.onStats count).perform s).2.tally k =
      s.tally k + Tally.of (some c) k := fun s k => hcount s.memory.strategy.stats k
  refine ⟨fun _ => rfl, fun s k => ?_, fun s _ _ => ⟨⟨live, answered, some c⟩, ?_, ?_⟩⟩
  · rw [htally]
    exact Nat.le_add_right _ _
  · have hgained : (fun k => Tally.of none k +
        (((Ask.update fun m => m.onStats count).perform s).2.tally k - s.tally k)) =
          Tally.of (some c) := by
      funext k
      rw [htally, Nat.add_sub_cancel_left]
      exact Nat.zero_add _
    exact congrArg (Findings.mk live answered) hgained
  · exact finds_unseen (Program.each_lift ⟨trivial, fun _ => rfl, fun _ => rfl⟩) fun _ => hP

/-! ## Looking and loading -/

/-- A look-up either fails, which is no miss, or says whether the key is live. -/
theorem finds_get {P : Except Error V → Stage → Prop}
    (hhit : ∀ v, P (.ok v) ⟨true, answered, counted⟩)
    (hmiss : ∀ e, e.isMiss = true → P (.error e) ⟨false, answered, counted⟩)
    (hfail : ∀ e live, e.isMiss = false → P (.error e) ⟨live, answered, counted⟩) :
    Finds z (Client.get (.ofSerializer z) key).outcome P ⟨live, answered, counted⟩ := by
  rw [Client.get, Action.outcome_bind]
  refine along_then ⟨trivial, fun s k => Nat.le_refl _, fun s hs _ =>
    ⟨⟨(s.live? key).isSome, answered, counted⟩, ?_, ?_⟩⟩
  · simp [Findings.after, Stage.findings, Ask.isLive?, Ask.isAnswered?, Scene.tally, Ask.perform]
  · change Finds z (Action.andThen _ (s.world.command (.get key)).1) P _
    rcases World.command_get_cases hs.world key with ⟨e, hfault, hreal⟩ | ⟨hnone, hgone⟩ |
      ⟨b, e, hsome, hlive⟩
    · rw [hfault]
      exact hfail e _ hreal
    · have hlive : s.live? key = none := hgone
      rw [hnone, hlive]
      exact hmiss _ rfl
    · have hlive' : s.live? key = some e := hlive
      rw [hsome, hlive']
      change Finds z (Client.decode (.ofSerializer z) key b).outcome P _
      rw [Client.decode, Action.outcome_always_bind]
      refine along_then (finds_memory fun m => ?_)
      cases hdecoded : Client.decoded m (.ofSerializer z) key b with
      | ok v => exact hhit v
      | error e' => exact hfail e' true (Client.not_isMiss_decoded hdecoded)

/-- The source is asked for a key. -/
theorem finds_loadOne {P : Except Error (Option V) → Stage → Prop}
    (hP : ∀ answer, P answer ⟨live, answer.toBool, counted⟩) :
    Finds z (Action.request .main (.loadOne key)).outcome P ⟨live, answered, counted⟩ := by
  refine along_then (finds_unseen (Program.each_lift ⟨trivial, fun _ => rfl, fun _ => rfl⟩)
    fun ms => ?_)
  refine along_then (finds_unseen (changes_unseen.each_pause ms) fun _ => ?_)
  refine ⟨trivial, fun s k => Nat.le_refl _, fun s _ _ =>
    ⟨⟨live, (s.world.request .main (.loadOne key)).1.toBool, counted⟩, ?_, hP _⟩⟩
  simp [Findings.after, Stage.findings, Ask.isLive?, Ask.isAnswered?, Scene.tally, Ask.perform]

/-! ## The end of a call -/

theorem finds_fail {e : Error} {P : Except Error α → Stage → Prop}
    (hP : P (.error e) ⟨live, answered, some .errors⟩) :
    Finds z (fail key e : Action V α).outcome P ⟨live, answered, none⟩ := by
  rw [fail, Action.outcome_always_bind]
  exact along_then (finds_record raises_error hP)

/-- The time is taken, and then something is counted and noted. -/
theorem finds_finish {start : Nat} {count : Nat → StrategyStats → StrategyStats} {n : Note V}
    {c : Counter} (result : Except Error α) {P : Except Error α → Stage → Prop}
    (hcount : ∀ elapsed, Raises (count elapsed) c) (hP : P result ⟨live, answered, some c⟩) :
    Finds z (do
      let elapsed ← Action.always (elapsedSince start)
      Action.always (record (count elapsed) n)
      Action.ofExcept result : Action V α).outcome P ⟨live, answered, none⟩ := by
  rw [Action.outcome_always_bind]
  refine along_then (finds_unseen (each_elapsedSince changes_unseen.now start) fun elapsed => ?_)
  rw [Action.outcome_always_bind]
  exact along_then (finds_record (hcount elapsed) hP)

/-! ## Reading -/

/-- What was counted is what the call was to count, in view of the outcome. -/
def Settles (c : Call V) (reply : Reply V) (φ : Stage) : Prop :=
  φ.counted = c.counter? φ.findings reply

theorem finds_load (start : Nat) :
    Finds z (load key start).outcome (fun r => Settles (.read key) (Reply.of .value r))
      ⟨false, false, none⟩ := by
  rw [load, Action.outcome_always_bind]
  refine along_then (finds_loadOne fun answer => ?_)
  cases answer with
  | error e => exact finds_fail rfl
  | ok found =>
    cases found with
    | none => exact finds_finish (.error (.notFound key)) raises_miss rfl
    | some v =>
      change Finds z (do
        let m ← Action.always Program.memory
        Action.always (Client.set m.format key v m.strategy.life).ignore
        let elapsed ← Action.always (elapsedSince start)
        Action.always (record (·.miss elapsed) (.miss key))
        return v : Action V V).outcome _ _
      rw [Action.outcome_always_bind]
      refine along_then (finds_memory fun m => ?_)
      rw [Action.outcome_always_bind]
      refine along_then (finds_unseen (Program.each_ignore (changes_unseen.each_set _ key v _))
        fun _ => ?_)
      exact finds_finish (.ok v) raises_miss rfl

theorem finds_read :
    Finds z (read key).outcome (fun r => Settles (.read key) (Reply.of .value r))
      ⟨false, false, none⟩ := by
  rw [read, Action.outcome_always_bind]
  refine along_then (finds_unseen (Program.each_lift changes_unseen.now) fun start => ?_)
  rw [Action.outcome_always_bind]
  refine along_then ⟨fun _ => rfl, fun s k => Nat.le_refl _, fun s hs _ =>
    ⟨_, after_unseen changes_unseen.memory _ s, ?_⟩⟩
  change Finds z (Action.always (Client.get s.memory.format key).outcome >>= _).outcome _ _
  rw [Action.outcome_always_bind, hs.format]
  refine along_then (finds_get (fun v => ?_) (fun e hmiss => ?_) fun e live hreal => ?_)
  · exact finds_finish (.ok v) raises_hit rfl
  · simp only [hmiss]
    exact finds_load start
  · simp only [hreal]
    refine finds_fail ?_
    cases live <;> rfl

/-! ## Writing -/

theorem finds_write {v : V} {life : Option Nat} :
    Finds z (write key v life).outcome
      (fun r => Settles (.write key v life) (Reply.of (fun _ => .done) r)) ⟨false, false, none⟩ := by
  rw [write, Action.outcome_always_bind]
  refine along_then (finds_unseen (Program.each_lift changes_unseen.now) fun start => ?_)
  rw [Action.outcome_always_bind]
  refine along_then (finds_memory fun m => ?_)
  rw [Action.outcome_always_bind]
  refine along_then (finds_unseen (changes_unseen.each_writeSteps m.strategy key v life) fun r => ?_)
  cases r with
  | error e => exact finds_fail rfl
  | ok => exact finds_finish (.ok ()) raises_write rfl

theorem finds_delete :
    Finds z (delete key : Action V Unit).outcome
      (fun r => Settles (V := V) (.delete key) (Reply.of (fun _ => .done) r)) ⟨false, false, none⟩ := by
  rw [delete, Action.outcome_always_bind]
  refine along_then (finds_memory fun m => ?_)
  rw [Action.outcome_always_bind]
  refine along_then (finds_unseen (changes_unseen.each_deleteSteps m.strategy key) fun r => ?_)
  cases r with
  | error e => exact finds_fail rfl
  | ok =>
    rw [Action.outcome_always]
    exact along_then (finds_record raises_delete rfl)

/-- **Every call settles**: by the time it returns it has raised the counter that it was to raise,
once, and no other. -/
theorem finds_call (c : Call V) : Finds z c.program (Settles c) ⟨false, false, none⟩ := by
  cases c with
  | read key => exact along_then finds_read
  | write key v life => exact along_then finds_write
  | delete key => exact along_then finds_delete
  | has key =>
    exact along_then (finds_unseen (Program.each_lift ⟨trivial, fun _ => rfl, fun _ => rfl⟩)
      fun _ => rfl)
  | clear =>
    exact along_then (finds_unseen (Program.each_lift ⟨trivial, fun _ => rfl, fun _ => rfl⟩)
      fun _ => rfl)

end Strategy
end CacheLayer
