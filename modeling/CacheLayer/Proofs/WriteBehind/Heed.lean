/-
The calls of a caller, walked through with a mark on what the cache shows. Most of
a call is idle or has nothing to do with the cache; the rest is one command of the
store and one request of the source or of the lane.
-/
import CacheLayer.Proofs.WriteBehind.Cached

namespace CacheLayer.WriteBehind

open Program (along_then)

variable {V α β : Type} {m m' : Memory V} {i : Nat} {original : KeyMap V} {key : String} {v : V}
  {c : Change V} {mark mark' : Mark V}

/-- The rule for one request of the caller's: the answer finds the cache as the next mark says. -/
def heeds (i : Nat) (m : Memory V) (original : KeyMap V) (q : Ask V) (mark : Mark V)
    (K : Answer q → Mark V → Prop) : Prop :=
  ∀ ph r, Valid i original ph r → Cached m original mark r →
    ∃ mark', Cached m original mark' (r.perform i .caller q).2 ∧ K (r.perform i .caller q).1 mark'

/-- The program gets from a mark to its end. -/
abbrev Heeds (i : Nat) (m : Memory V) (original : KeyMap V) (p : Program V α)
    (P : α → Mark V → Prop) (mark : Mark V) : Prop :=
  Program.Along (heeds i m original) p P mark

theorem heeds_mono : Program.IsMono (heeds i m original) := by
  intro q mark K K' hK h ph r hr hc
  obtain ⟨mark', hc', hk⟩ := h ph r hr hc
  exact ⟨mark', hc', hK _ _ hk⟩

theorem heeds_aside (q : Ask V) (K : Answer q → Mark V → Prop)
    (hq : q.IsAside i) (hK : ∀ a, K a mark) : heeds i m original q mark K :=
  fun _ _ _ hc => ⟨mark, hc.perform hq, hK _⟩

theorem heeds_each {p : Program V α} (hp : p.Each (Ask.IsAside i)) {P : α → Mark V → Prop}
    (hP : ∀ a, P a mark) : Heeds i m original p P mark :=
  Program.along_each heeds_aside hp hP

theorem heeds_idle {p : Program V α} (hp : p.Each Ask.IsIdle) {P : α → Mark V → Prop}
    (hP : ∀ a, P a mark) : Heeds i m original p P mark :=
  heeds_each (Program.each_mono (fun _ => Ask.IsIdle.isAside) hp) hP

theorem heeds_memory {P : Memory V → Mark V → Prop} (h : ∀ m', m.IsLike m' → P m' mark) :
    Heeds i m original Program.memory P mark := by
  intro ph r _ hc
  have hid : (Ask.update (V := V) id).IsAside i := fun m => ⟨⟨m.strategy.stats, m.lanes, rfl⟩, rfl⟩
  exact ⟨mark, hc.perform hid, h _ hc.memory⟩

/-! ## Values -/

theorem heeds_encode (hm : m.IsLike m') (hcodes : Client.Codes m key v)
    {P : Except Error Bytes → Mark V → Prop}
    (h : ∀ b, Client.decoded m m.format key b = .ok v → P (.ok b) mark) :
    Heeds i m original (Client.encode m'.format key v).outcome P mark := by
  unfold Client.encode
  rw [Action.outcome_always_bind]
  refine along_then (heeds_memory fun m₁ hm₁ => ?_)
  obtain ⟨plain, hplain, hsteps⟩ := hcodes.steps
  obtain ⟨stats, lanes, rfl⟩ := hm
  obtain ⟨stats₁, lanes₁, rfl⟩ := hm₁
  simp only [Memory.withStats, hplain]
  show Heeds i m original (do
    let fresh ← Program.lift (.draw m.transformers.length)
    (do
      let applied ← Action.ofExcept (m.transformers.applyAll fresh key plain)
      Action.ofExcept (Envelope.wrap applied.1 applied.2) : Action V Bytes).outcome) P mark
  have hdraw : (Program.lift (.draw m.transformers.length) : Program V Nat).Each Ask.IsIdle :=
    Program.each_lift trivial
  refine along_then (heeds_idle hdraw fun fresh => ?_)
  obtain ⟨x, b, happlied, hwrapped, hdecoded⟩ := hsteps fresh
  rw [happlied]
  show P (Envelope.wrap x.1 x.2) mark
  rw [hwrapped]
  exact h b hdecoded

theorem heeds_set {life : Option Nat} (hm : m.IsLike m') (hcodes : Client.Codes m key v)
    (hset : ∀ (r : Record V) b, Cached m original mark r →
      Client.decoded m m.format key b = .ok v →
      Cached m original mark' (r.perform i .caller (.command (.set key b life))).2)
    {P : Except Error Unit → Mark V → Prop} (h : P (.ok ()) mark') :
    Heeds i m original (Client.set m'.format key v life).outcome P mark := by
  rw [Client.set, Action.outcome_bind]
  refine along_then (heeds_encode hm hcodes fun b hb => ?_)
  intro ph r _ hc
  refine ⟨mark', hset r b hc hb, ?_⟩
  rw [hc.perform_command]
  exact h

theorem heeds_get (hm : m.IsLike m') {P : Except Error V → Mark V → Prop}
    (hmiss : P (.error (.cacheMiss key)) (.missed key)) (hhit : ∀ v, P (.ok v) (.told key (some v))) :
    Heeds i m original (Client.get m'.format key).outcome P .calm := by
  rw [Client.get, Action.outcome_bind]
  refine along_then fun ph r _ hc => ?_
  rcases hc.get (i := i) key with ⟨hanswer, hc'⟩ | ⟨b, v, hanswer, hdecoded, hc'⟩
  · refine ⟨.missed key, hc', ?_⟩
    rw [hanswer]
    exact hmiss
  · refine ⟨.told key (some v), hc', ?_⟩
    rw [hanswer]
    show Heeds i m original (Client.decode m'.format key b).outcome P (.told key (some v))
    rw [Client.decode, Action.outcome_always_bind]
    refine along_then (heeds_memory fun m₁ hm₁ => ?_)
    have hdecoded₁ : Client.decoded m₁ m'.format key b = .ok v := by
      obtain ⟨stats, lanes, rfl⟩ := hm
      obtain ⟨stats₁, lanes₁, rfl⟩ := hm₁
      exact hdecoded
    show P (Client.decoded m₁ m'.format key b) (.told key (some v))
    rw [hdecoded₁]
    exact hhit v

theorem heeds_loadOne (horiginal : ∀ key v, original.get? key = some v → Client.Codes m key v)
    {P : Except Error (Option V) → Mark V → Prop} (hnone : P (.ok none) (.told key none))
    (hsome : ∀ v, Client.Codes m key v → P (.ok (some v)) (.fetched key (some v))) :
    Heeds i m original (Action.request .main (.loadOne key)).outcome P (.missed key) := by
  have hlatency : (Program.lift (.latency .main .loadOne) : Program V Nat).Each Ask.IsIdle :=
    Program.each_lift trivial
  refine along_then (heeds_idle hlatency fun ms => ?_)
  refine along_then (heeds_idle (Idle.pause ms) fun _ => ?_)
  intro ph r hr hc
  obtain ⟨hanswer, hc'⟩ := hc.load hr.sound.books horiginal
  rw [hanswer]
  cases hrow : r.scene.world.rows.get? key with
  | none =>
    rw [hrow] at hc'
    exact ⟨.told key none, hc'.tell, hnone⟩
  | some v =>
    rw [hrow] at hc'
    exact ⟨.fetched key (some v), hc', hsome v (hc'.mark.2.2 v rfl)⟩

/-! ## Reading -/

/-- What a read replies is what its mark says. -/
def Tells (key : String) (result : Except Error V) (mark : Mark V) : Prop :=
  ∃ row, mark = .told key row ∧ Strategy.Reply.of .value result = Strategy.Reply.lookup key row

theorem heeds_finish {start : Nat} {count : Nat → StrategyStats → StrategyStats} {n : Note V}
    {a : Action V α} {P : Except Error α → Mark V → Prop} (h : Heeds i m original a.outcome P mark) :
    Heeds i m original (do
      let elapsed ← Action.always (Strategy.elapsedSince start)
      Action.always (Strategy.record (count elapsed) n)
      a : Action V α).outcome P mark := by
  rw [Action.outcome_always_bind]
  refine along_then (heeds_idle (Idle.elapsedSince start) fun elapsed => ?_)
  rw [Action.outcome_always_bind]
  exact along_then (heeds_idle (Idle.record _ _) fun _ => h)

theorem heeds_load (horiginal : ∀ key v, original.get? key = some v → Client.Codes m key v)
    (key : String) (start : Nat) :
    Heeds i m original (Strategy.load key start).outcome (Tells key) (.missed key) := by
  rw [Strategy.load, Action.outcome_always_bind]
  refine along_then (heeds_loadOne horiginal ?_ fun v hcodes => ?_)
  · exact heeds_finish ⟨none, rfl, rfl⟩
  · show Heeds i m original (do
      let m ← Action.always Program.memory
      Action.always (Client.set m.format key v m.strategy.life).ignore
      let elapsed ← Action.always (Strategy.elapsedSince start)
      Action.always (Strategy.record (·.miss elapsed) (.miss key))
      return v : Action V V).outcome (Tells key) (.fetched key (some v))
    rw [Action.outcome_always_bind]
    refine along_then (heeds_memory fun m' hm => ?_)
    rw [Action.outcome_always_bind]
    refine along_then (along_then (heeds_set hm hcodes (fun r b hc hb => hc.setFetched hb _) ?_))
    exact heeds_finish ⟨some v, rfl, rfl⟩

theorem heeds_read (horiginal : ∀ key v, original.get? key = some v → Client.Codes m key v)
    (key : String) : Heeds i m original (Strategy.read key).outcome (Tells key) .calm := by
  rw [Strategy.read, Action.outcome_always_bind]
  refine along_then (heeds_idle Idle.now fun start => ?_)
  rw [Action.outcome_always_bind]
  refine along_then (heeds_memory fun m' hm => ?_)
  rw [Action.outcome_always_bind]
  refine along_then (heeds_get hm ?_ fun v => ?_)
  · exact heeds_load horiginal key start
  · exact heeds_finish ⟨some v, rfl, rfl⟩

/-! ## Writing -/

theorem aside_onLane {f : Lane V → Lane V} (hf : ∀ l, (f l).issued = l.issued) :
    (Program.change fun m : Memory V => m.onLane i f).Each (Ask.IsAside i) := by
  refine Program.each_bind (Program.each_lift fun m => ⟨⟨m.strategy.stats, _, rfl⟩, ?_⟩) fun _ =>
    Program.each_pure ()
  simp only [Memory.lane, Memory.onLane, List.getElem?_modify]
  cases m.lanes[i]? with
  | none => simp
  | some l => simp [hf]

theorem aside_idle {p : Program V α} (hp : p.Each Ask.IsIdle) : p.Each (Ask.IsAside i) :=
  Program.each_mono (fun _ => Ask.IsIdle.isAside) hp

theorem aside_waitUntil (ready : Memory V → Bool) :
    (Program.waitUntil ready).Each (Ask.IsAside i) :=
  Program.each_lift trivial

theorem aside_send (c : Change V) : (send c).outcome.Each (Ask.IsAside i) := by
  obtain ⟨key, value⟩ := c
  cases value with
  | some v | none =>
    exact Program.each_bind (aside_idle (Program.each_lift trivial)) fun ms =>
      Program.each_bind (aside_idle (Idle.pause ms)) fun _ => Program.each_lift trivial

theorem aside_apply (number : Nat) (c : Change V) :
    (apply i number c).outcome.Each (Ask.IsAside i) := by
  refine Program.each_bind (aside_onLane fun _ => rfl) fun _ =>
    Program.each_bind (aside_waitUntil _) fun _ => Program.each_bind ?_ fun result => ?_
  · refine Program.each_then (aside_idle (Program.each_always Idle.memory)) fun m => ?_
    split
    · exact Program.each_then (aside_send c) fun _ => Program.each_pure _
    · exact Program.each_pure _
  · have hfinish : ∀ l : Lane V, (l.finish c.key).issued = l.issued := fun l => by rw [finish_eq]
    exact Program.each_bind (aside_onLane fun _ => rfl) fun _ =>
      Program.each_bind (aside_onLane hfinish) fun _ => Program.each_pure _

theorem aside_workerTurn : (workerTurn i : Program V Unit).Each (Ask.IsAside i) := by
  refine Program.each_bind (aside_waitUntil _) fun _ =>
    Program.each_bind (aside_idle Idle.memory) fun m => ?_
  dsimp only
  split
  · exact Program.each_bind (aside_onLane fun _ => rfl) fun _ =>
      Program.each_bind (Program.each_ignore (aside_apply _ _)) fun _ => aside_onLane fun _ => rfl
  · exact aside_onLane fun _ => rfl

theorem heeds_enqueue : Heeds i m original (enqueue i c).outcome (fun _ mark => mark = .calm)
    (.ready c) := by
  have hrest : ∀ number, (do
      let m ← Action.always Program.memory
      if (m.lane i).hasRoom then
        Action.always (Program.change fun m => m.onLane i (·.push number c))
      else
        let _ ← apply i number c : Action V Unit).outcome.Each (Ask.IsAside i) := by
    intro number
    refine Program.each_then (aside_idle (Program.each_always Idle.memory)) fun m => ?_
    split
    · exact Program.each_always (aside_onLane fun _ => rfl)
    · exact Program.each_then (aside_apply _ c) fun _ => Program.each_pure _
  rw [enqueue, Action.outcome_always_bind]
  exact along_then fun ph r hr hc =>
    ⟨.calm, hc.issue hr.inRange, heeds_each (hrest _) fun _ => rfl⟩

theorem heeds_cacheWrite (hcodes : Client.Codes m key v) (life : Option Nat) :
    Heeds i m original (Strategy.cacheWrite key v life).outcome
      (fun result mark => result = .ok () ∧ mark = .ready ⟨key, some v⟩)
      (.about ⟨key, some v⟩) := by
  rw [Strategy.cacheWrite, Action.outcome_always_bind]
  refine along_then (heeds_memory fun m' hm => ?_)
  exact heeds_set hm hcodes (fun r b hc hb => hc.setAbout hb _) ⟨rfl, rfl⟩

theorem heeds_cacheDelete (key : String) :
    Heeds i m original (Strategy.cacheDelete key : Action V Unit).outcome
      (fun result mark => result = .ok () ∧ mark = .ready ⟨key, none⟩) (.about ⟨key, none⟩) := by
  rw [Strategy.cacheDelete, Action.outcome_bind]
  refine along_then fun ph r _ hc => ⟨.ready ⟨key, none⟩, hc.deleteAbout, ?_⟩
  rw [hc.perform_command]
  exact ⟨rfl, rfl⟩

/-- The cache is changed, and then the change is enqueued. -/
theorem heeds_behind {first : Action V Unit}
    (hfirst : Heeds i m original first.outcome (fun result mark => result = .ok () ∧ mark = .ready c)
      (.about c)) :
    Heeds i m original (first >>= fun _ => enqueue i c).outcome (fun _ mark => mark = .calm)
      (.about c) := by
  rw [Action.outcome_bind]
  refine along_then (Program.along_mono heeds_mono hfirst ?_)
  rintro result mark ⟨rfl, rfl⟩
  exact heeds_enqueue

theorem heeds_write (hm : m.usesLane i = true) (hcodes : Client.Codes m key v)
    (life : Option Nat) :
    Heeds i m original (Strategy.Call.write key v life).program (fun _ mark => mark = .calm)
      (.about ⟨key, some v⟩) := by
  obtain ⟨hpolicy, hlane⟩ := Memory.usesLane_iff.1 hm
  refine along_then ?_
  rw [Strategy.write, Action.outcome_always_bind]
  refine along_then (heeds_idle Idle.now fun start => ?_)
  rw [Action.outcome_always_bind]
  refine along_then (heeds_memory fun m' hlike => ?_)
  obtain ⟨stats, lanes, rfl⟩ := hlike
  rw [Action.outcome_always_bind]
  simp only [Memory.withStats, Strategy.writeSteps, hpolicy, hlane]
  refine along_then (Program.along_mono heeds_mono (heeds_behind (heeds_cacheWrite hcodes life)) ?_)
  rintro result mark rfl
  refine heeds_idle ?_ fun _ => rfl
  cases result with
  | ok a =>
    exact Program.each_then (Program.each_always (Idle.elapsedSince start)) fun _ =>
      Program.each_always (Idle.record _ _)
  | error e => exact Idle.fail key e

theorem heeds_delete (hm : m.usesLane i = true) (key : String) :
    Heeds i m original (Strategy.Call.delete key : Strategy.Call V).program
      (fun _ mark => mark = .calm) (.about ⟨key, none⟩) := by
  obtain ⟨hpolicy, hlane⟩ := Memory.usesLane_iff.1 hm
  refine along_then ?_
  rw [Strategy.delete, Action.outcome_always_bind]
  refine along_then (heeds_memory fun m' hlike => ?_)
  obtain ⟨stats, lanes, rfl⟩ := hlike
  rw [Action.outcome_always_bind]
  simp only [Memory.withStats, Strategy.deleteSteps, hpolicy, hlane]
  refine along_then (Program.along_mono heeds_mono (heeds_behind (heeds_cacheDelete key)) ?_)
  rintro result mark rfl
  refine heeds_idle ?_ fun _ => rfl
  cases result with
  | ok a => exact Program.each_always (Idle.record _ _)
  | error e => exact Idle.fail key e

/-- **Every call heeds the cache**: it gets to its end, and replies as its mark says. -/
theorem heeds_call (hm : m.usesLane i = true)
    (horiginal : ∀ key v, original.get? key = some v → Client.Codes m key v)
    {c : Strategy.Call V} (hc : c.Codes m) :
    Heeds i m original c.program (fun reply mark => mark.Ends c reply) (Mark.before c) := by
  cases c with
  | read key =>
    refine along_then (Program.along_mono heeds_mono (heeds_read horiginal key) ?_)
    rintro result mark ⟨row, rfl, hreply⟩
    exact ⟨row, rfl, hreply⟩
  | write key v life => exact heeds_write hm hc life
  | delete key => exact heeds_delete hm key
  | has key => exact along_then fun ph r _ hc => ⟨.calm, hc.has key, rfl⟩
  | clear => exact along_then fun ph r _ hc => ⟨.calm, hc.flush, rfl⟩

end CacheLayer.WriteBehind
