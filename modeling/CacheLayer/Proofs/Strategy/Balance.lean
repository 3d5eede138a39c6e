/-
What a strategy has counted, at any time, whoever calls it and in whichever way the calls and the
workers of its lanes come in between each other: what the calls that have returned were to count, and
what the calls under way have counted already. Every move keeps it so (`Sound.move`), because every
call can be walked through from where it stands (`Errand.GoesOn`) and a worker counts nothing.

Main statement: `Traffic.tally_balance`.
-/
import CacheLayer.Proofs.Strategy.Counting
import Mathlib.Algebra.GroupWithZero.Nat

namespace CacheLayer

variable {V α : Type} {z : Serializer V}

/-! ## Tallies -/

namespace Tally

theorem total_of (c? : Option Counter) : (of c?).total = if c?.isSome then 1 else 0 := by
  cases c? with
  | none => rfl
  | some c => cases c <;> rfl

theorem total_add (t u : Tally) : total (fun c => t c + u c) = t.total + u.total := by
  simp only [total]
  omega

theorem countP_cons (f : α → Option Counter) (a : α) (l : List α) (c : Counter) :
    ((a :: l).countP fun a => f a = some c) = (l.countP fun a => f a = some c) + of (f a) c := by
  rw [List.countP_cons]
  simp [of]

/-- What is counted of each item adds up to what is counted at all. -/
theorem total_countP (f : α → Option Counter) (l : List α) :
    total (fun c => l.countP fun a => f a = some c) = l.countP fun a => (f a).isSome := by
  induction l with
  | nil => rfl
  | cons a l ih =>
    simp only [countP_cons]
    rw [total_add, ih, total_of, List.countP_cons]

theorem total_sum (f : α → Tally) (l : List α) :
    total (fun c => (l.map fun a => f a c).sum) = (l.map fun a => (f a).total).sum := by
  induction l with
  | nil => rfl
  | cons a l ih =>
    simp only [List.map_cons, List.sum_cons]
    rw [total_add, ih]

end Tally

namespace Strategy

/-- The calls that are to raise a counter are the reads, the writes and the deletes. -/
theorem isSome_counter? (r : Return V) : r.counter?.isSome = r.call.isCounted := by
  obtain ⟨call, findings, reply⟩ := r
  cases call with
  | read key =>
    simp only [Return.counter?, Call.counter?]
    split
    · rfl
    · split <;> rfl
  | write key v life | delete key =>
    simp only [Return.counter?, Call.counter?]
    split <;> rfl
  | has key | clear => rfl

/-! ## Calls under way -/

/-- The call can be walked through to its end, from what it has found out so far. -/
def Errand.GoesOn (z : Serializer V) (e : Errand V) : Prop :=
  ∃ φ : Stage, e.findings = φ.findings ∧ Finds z e.rest (Settles e.call) φ

namespace Errand.GoesOn

variable {call : Call V} {findings : Findings}

theorem begin (c : Call V) : (Errand.begin c).GoesOn z := ⟨⟨false, false, none⟩, rfl, finds_call c⟩

/-- A call that returns has raised the counter that it was to raise. -/
theorem gained {reply : Reply V} (h : (⟨call, findings, .done reply⟩ : Errand V).GoesOn z) :
    findings.gained = .of (call.counter? findings reply) := by
  obtain ⟨φ, hfindings, hsettles⟩ := h
  cases hfindings
  exact congrArg Tally.of hsettles

/-- What was counted at any time is one thing at most. -/
theorem total_le {e : Errand V} (h : e.GoesOn z) : e.findings.gained.total ≤ 1 := by
  obtain ⟨φ, hfindings, -⟩ := h
  rw [hfindings, Stage.findings, Tally.total_of]
  split <;> omega

variable {q : Ask V} {next : Answer q → Program V (Reply V)}

theorem keeps (h : (⟨call, findings, .ask q next⟩ : Errand V).GoesOn z) :
    q.Keeps Memory.format := by
  obtain ⟨φ, -, hkeeps, -⟩ := h
  exact hkeeps

/-- What a request adds to the counters is noted. -/
theorem tally (h : (⟨call, findings, .ask q next⟩ : Errand V).GoesOn z) (s : Scene V) (c : Counter) :
    (q.perform s).2.tally c + findings.gained c = s.tally c + (findings.after s q).gained c := by
  obtain ⟨φ, -, -, hgrows, -⟩ := h
  have hle := hgrows s c
  simp only [Findings.after]
  omega

theorem perform (h : (⟨call, findings, .ask q next⟩ : Errand V).GoesOn z) (hs : s.Candid z)
    (hwait : q.hasToWait s = false) :
    (⟨call, findings.after s q, next (q.perform s).1⟩ : Errand V).GoesOn z := by
  obtain ⟨φ, hfindings, -, -, hnext⟩ := h
  obtain ⟨φ', hafter, hrest⟩ := hnext s hs hwait
  cases hfindings
  exact ⟨φ', hafter, hrest⟩

end Errand.GoesOn

/-! ## Moves and runs -/

/-- A list around one of its places. -/
theorem exists_around {l : List α} {i : Nat} {a : α} (h : l[i]? = some a) :
    ∃ before after, l = before ++ a :: after ∧ (∀ b, l.set i b = before ++ b :: after) ∧
      l.eraseIdx i = before ++ after := by
  obtain ⟨hlt, rfl⟩ := List.getElem?_eq_some_iff.1 h
  refine ⟨l.take i, l.drop (i + 1), ?_, fun b => ?_, List.eraseIdx_eq_take_drop_succ l i⟩
  · rw [List.getElem_cons_drop hlt, List.take_append_drop]
  · rw [List.set_eq_take_append_cons_drop, if_pos hlt]

namespace Traffic

variable {t : Traffic V}

/-- The traffic is in good order. -/
structure Sound (z : Serializer V) (t : Traffic V) : Prop where
  candid : t.scene.Candid z
  errands : ∀ e ∈ t.errands, e.GoesOn z
  returns : ∀ r ∈ t.returns, r.findings.gained = .of r.counter?
  turns : ∀ lane, (t.turns lane).Each Ask.Unseen
  /-- What was counted is what the calls that have returned were to count, and what the calls under
  way have counted. -/
  balance : ∀ c, t.scene.tally c =
    t.returns.countP (·.counter? = some c) + (t.errands.map (·.findings.gained c)).sum

theorem sound_start {w : World V} {m : Memory V} (hformat : m.format = .ofSerializer z)
    (hw : w.Candid) (policy : Policy) (life : Option Nat) (capacity : Nat) :
    (start policy life capacity w m).Sound z where
  candid := ⟨hformat, hw⟩
  errands := List.forall_mem_nil _
  returns := List.forall_mem_nil _
  turns lane := changes_unseen.each_workerTurn lane
  balance c := by cases c <;> rfl

theorem Sound.go (h : t.Sound z) (i : Nat) : (t.go i).Sound z := by
  unfold Traffic.go
  cases he : t.errands[i]? with
  | none => exact h
  | some e =>
    obtain ⟨call, findings, rest⟩ := e
    obtain ⟨before, after, hlist, hset, herase⟩ := exists_around he
    have herrands := h.errands
    have hbalance := h.balance
    rw [hlist] at herrands hbalance
    obtain ⟨hbefore, herrands⟩ := List.forall_mem_append.1 herrands
    obtain ⟨hgoes, hafter⟩ := List.forall_mem_cons.1 herrands
    simp only [List.map_append, List.map_cons, List.sum_append, List.sum_cons] at hbalance
    cases rest with
    | done reply =>
      dsimp only
      rw [herase]
      refine ⟨h.candid, List.forall_mem_append.2 ⟨hbefore, hafter⟩,
        List.forall_mem_cons.2 ⟨hgoes.gained, h.returns⟩, h.turns, fun c => ?_⟩
      have hgained : findings.gained c = Tally.of (Return.counter? ⟨call, findings, reply⟩) c :=
        congrFun hgoes.gained c
      have hreturned := Tally.countP_cons Return.counter? ⟨call, findings, reply⟩ t.returns c
      have hsame := hbalance c
      simp only [List.map_append, List.sum_append]
      rw [hreturned]
      omega
    | ask q next =>
      dsimp only
      cases hwait : q.hasToWait t.scene with
      | true =>
        rw [Program.step_waiting hwait, Program.asks?_waiting hwait, Option.elim_none, hset, ← hlist]
        exact h
      | false =>
        rw [Program.step_ready hwait, Program.asks?_ready hwait, Option.elim_some, hset]
        refine ⟨Ask.candid_perform hgoes.keeps h.candid, List.forall_mem_append.2 ⟨hbefore,
          List.forall_mem_cons.2 ⟨hgoes.perform h.candid hwait, hafter⟩⟩,
          h.returns, h.turns, fun c => ?_⟩
        have htally := hgoes.tally t.scene c
        have hsame := hbalance c
        simp only [List.map_append, List.map_cons, List.sum_append, List.sum_cons]
        omega

/-- A worker finds nothing out and counts nothing. -/
theorem stats_work (h : t.Sound z) (lane : Nat) :
    (t.work lane).scene.memory.strategy.stats = t.scene.memory.strategy.stats := by
  have hturn := h.turns lane
  unfold Traffic.work
  cases hrest : t.turns lane with
  | done a => rfl
  | ask q next =>
    rw [hrest] at hturn
    dsimp only
    cases hwait : q.hasToWait t.scene with
    | true => rw [Program.step_waiting hwait]
    | false =>
      rw [Program.step_ready hwait]
      exact hturn.1.stats t.scene

theorem Sound.work (h : t.Sound z) (lane : Nat) : (t.work lane).Sound z := by
  have hturn := h.turns lane
  have hturns : ∀ p : Program V Unit, p.Each Ask.Unseen →
      ∀ other, (Function.update t.turns lane p other).Each Ask.Unseen := by
    intro p hp other
    by_cases hother : other = lane
    · rw [hother, Function.update_self]
      exact hp
    · rw [Function.update_of_ne hother]
      exact h.turns other
  unfold Traffic.work
  cases hrest : t.turns lane with
  | done a =>
    exact ⟨h.candid, h.errands, h.returns, hturns _ (changes_unseen.each_workerTurn lane), h.balance⟩
  | ask q next =>
    rw [hrest] at hturn
    dsimp only
    cases hwait : q.hasToWait t.scene with
    | true =>
      rw [Program.step_waiting hwait]
      exact ⟨h.candid, h.errands, h.returns, hturns _ hturn, h.balance⟩
    | false =>
      rw [Program.step_ready hwait]
      refine ⟨Ask.candid_perform hturn.1.format h.candid, h.errands, h.returns,
        hturns _ (hturn.2 _), fun c => ?_⟩
      rw [hturn.1.tally]
      exact h.balance c

theorem Sound.move (h : t.Sound z) {mv : Move V} (hmv : ∀ w m, mv = .outside w m → w.Candid) :
    (t.move mv).Sound z := by
  cases mv with
  | call c =>
    refine ⟨h.candid, List.forall_mem_cons.2 ⟨.begin c, h.errands⟩, h.returns, h.turns, fun k => ?_⟩
    have hbegin : (Errand.begin c).findings.gained k = 0 := rfl
    simp only [Traffic.move, List.map_cons, List.sum_cons, hbegin, Nat.zero_add]
    exact h.balance k
  | go i => exact h.go i
  | work lane => exact h.work lane
  | outside w m =>
    exact ⟨⟨h.candid.format, hmv w m rfl⟩, h.errands, h.returns, h.turns, h.balance⟩

theorem Sound.play (h : t.Sound z) {moves : List (Move V)}
    (hmoves : ∀ w m, .outside w m ∈ moves → w.Candid) : (t.play moves).Sound z := by
  induction moves generalizing t with
  | nil => exact h
  | cons mv moves ih =>
    refine ih (h.move fun w m hmv => hmoves w m (hmv ▸ List.mem_cons_self)) fun w m hmem => ?_
    exact hmoves w m (List.mem_cons_of_mem _ hmem)

/-! ## The balance -/

/-- The statistics agree with what was done. -/
structure Balanced (t : Traffic V) : Prop where
  /-- A call that has returned has raised the counter that it was to raise, by one, and no other. -/
  returns : ∀ r ∈ t.returns, r.findings.gained = .of r.counter?
  /-- A call under way has raised one counter at most. -/
  errands : ∀ e ∈ t.errands, e.findings.gained.total ≤ 1
  /-- A counter says how many calls were to raise it; nothing else was counted. -/
  tally : ∀ c, t.scene.tally c =
    t.returns.countP (·.counter? = some c) + (t.errands.map (·.findings.gained c)).sum
  /-- All counters together say how many reads, writes and deletes there were. -/
  total : t.scene.tally.total =
    t.returns.countP (·.call.isCounted) + (t.errands.map (·.findings.gained.total)).sum
  /-- Whatever a worker does, it counts nothing. -/
  workers : ∀ lane,
    (t.move (.work lane)).scene.memory.strategy.stats = t.scene.memory.strategy.stats

theorem Sound.balanced (h : t.Sound z) : t.Balanced where
  returns := h.returns
  errands e he := (h.errands e he).total_le
  tally := h.balance
  total := by
    have htally : t.scene.tally = fun c => _ := funext h.balance
    rw [htally, Tally.total_add, Tally.total_countP, Tally.total_sum]
    simp only [isSome_counter?]
  workers := stats_work h

/-- **What a strategy counts.** Whatever its policy, from the moment at which it is put in force its
statistics agree with what was done: whoever makes which calls, in whichever way they and the workers
come in between each other, and whatever the cache and the source fail with or hold. All that is asked
of them is that a failing look-up does not pretend that the key is missing. -/
theorem tally_balance (policy : Policy) (life : Option Nat) (capacity : Nat) (w : World V)
    (m : Memory V) (moves : List (Move V)) (hformat : m.format = .ofSerializer z) (hw : w.Candid)
    (hmoves : ∀ w m, .outside w m ∈ moves → w.Candid) :
    ((start policy life capacity w m).play moves).Balanced :=
  ((sound_start hformat hw policy life capacity).play hmoves).balanced

/-- The source has a value for one key, and the cache has bytes for another that are no value. -/
def littered : World UInt8 :=
  { World.start (.ofRows (KeyMap.empty.insert "k" 2)) with
    store := Store.empty.set 0 "odd" [1, 2] none }

/-- Some calls are made at once, and their requests alternate. -/
def together (calls : List (Call UInt8)) : List (Move UInt8) :=
  calls.map .call ++ (List.range 60).map fun i => .go (i % calls.length)

/-- Between other calls the worker makes a change, and then the store is out of reach. -/
def rush : List (Move UInt8) :=
  together [.read "k", .read "k"] ++ together [.read "k", .read "odd", .write "k" 3 none] ++
    List.replicate 20 (.work 0) ++
    .outside (littered.script .get [some (.backend "down")]) Client.byteMemory ::
      together [.read "k", .has "k", .delete "k"]

theorem tally_balance_rush :
    Client.byteMemory.format = .ofSerializer Client.byteSerializer ∧ littered.Candid ∧
    (∀ w m, .outside w m ∈ rush → w.Candid) ∧
    ((start .writeBehind none 1 littered Client.byteMemory).play rush).errands.isEmpty = true ∧
    ((start .writeBehind none 1 littered Client.byteMemory).play rush).scene.tally.total = 7 := by
  have hw : littered.Candid := fun e he => by cases he
  have hmoves : ∀ w m, .outside w m ∈ rush → w.Candid := by
    intro w m h e he
    obtain ⟨rfl, -⟩ : w = littered.script .get [some (.backend "down")] ∧ m = Client.byteMemory := by
      simpa [rush, together] using h
    cases List.mem_singleton.1 he
    rfl
  have hend : ((start .writeBehind none 1 littered Client.byteMemory).play rush).errands.isEmpty =
      true := by decide +kernel
  refine ⟨Client.byteFormat_eq, hw, hmoves, hend, ?_⟩
  rw [(tally_balance .writeBehind none 1 littered _ rush Client.byteFormat_eq hw hmoves).total,
    List.isEmpty_iff.1 hend]
  decide +kernel

end Traffic
end Strategy
end CacheLayer
