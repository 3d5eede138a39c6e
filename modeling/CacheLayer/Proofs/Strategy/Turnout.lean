/-
How a step may turn out when the source may fail, and values may fail to be
encoded or decoded, while the store does what it is told. `Turnout` lists the
cases under the two policies that promise to keep cache and source together:
the reply, and what becomes of the store and of the rows. They part ways where
only one of the two writes has come about: a write-through takes the cache entry
back, and a cache-aside leaves the one from before in place.

Main statement: `turned_step`.
-/
import CacheLayer.Proofs.Store.Entries
import CacheLayer.Proofs.Strategy.Transparent

namespace CacheLayer.Strategy

variable {V : Type}

/-- How a step may turn out, from a store and rows: the reply, and the store and the rows after
it. -/
inductive Turnout (m : Memory V) (store : Store) (rows : KeyMap V) :
    Step V → Reply V → Store → KeyMap V → Prop
  | slept {ms : Nat} : Turnout m store rows (.sleep ms) .done store rows
  /-- The cache was asked only, or in vain: nothing was loaded, or nothing could be kept. -/
  | looked {key : String} {r : Reply V} {now : Nat} :
    Turnout m store rows (.call (.read key)) r (store.purge now key) rows
  /-- The value of the row was loaded and kept. -/
  | loaded {key : String} {v : V} {fresh now t : Nat} {b : Bytes}
      (row : rows.get? key = some v) (coded : Client.coded m m.format fresh key v = .ok b) :
    Turnout m store rows (.call (.read key)) (.value v)
      ((store.purge now key).set t key b m.strategy.life) rows
  | written {key : String} {v : V} {life : Option Nat} {fresh t : Nat} {b : Bytes}
      (coded : Client.coded m m.format fresh key v = .ok b) :
    Turnout m store rows (.call (.write key v life)) .done
      (store.set t key b (life <|> m.strategy.life)) (rows.insert key v)
  | notWritten {key : String} {v : V} {life : Option Nat} {e : Error} :
    Turnout m store rows (.call (.write key v life)) (.failed e) store rows
  /-- The source has refused a value that was in the cache already. -/
  | takenBack {key : String} {v : V} {life kept : Option Nat} {e : Error} {t t' : Nat} {b : Bytes}
      (through : m.strategy.policy = .writeThrough) :
    Turnout m store rows (.call (.write key v life)) (.failed e)
      ((store.set t key b kept).delete t' key).2 rows
  /-- The source has taken a value that could not be encoded for the cache. -/
  | leftBehind {key : String} {v : V} {life : Option Nat} {e : Error}
      (aside : m.strategy.policy = .cacheAside) :
    Turnout m store rows (.call (.write key v life)) (.failed e) store (rows.insert key v)
  | deleted {key : String} {t : Nat} :
    Turnout m store rows (.call (.delete key)) .done (store.delete t key).2 (rows.erase key)
  | notDeleted {key : String} {e : Error} :
    Turnout m store rows (.call (.delete key)) (.failed e) store rows
  /-- The cache has forgotten what the source would not. -/
  | forgotten {key : String} {e : Error} {t : Nat} (through : m.strategy.policy = .writeThrough) :
    Turnout m store rows (.call (.delete key)) (.failed e) (store.delete t key).2 rows
  | asked {key : String} {r : Reply V} {now : Nat} :
    Turnout m store rows (.call (.has key)) r (store.has now key).2 rows
  | cleared : Turnout m store rows (.call .clear) .done store.flush rows

/-- The two policies under which cache and source are to stay together when one of them fails. -/
def Pairs (p : Policy) : Prop := p = .writeThrough ∨ p = .cacheAside

/-! ## The single steps -/

/-- Where a piece of a strategy has led to. -/
structure Ends (s : Scene V) (store : Store) (rows : KeyMap V) (s' : Scene V) : Prop where
  steady : s'.world.Steady
  memory : ∃ stats, s'.memory = s.memory.withStats stats
  store : s'.world.store = store
  rows : s'.world.rows = rows

namespace Ends

variable {s s' s'' : Scene V} {store store' : Store} {rows rows' : KeyMap V}

theorem refl (h : s.world.Steady) : Ends s s.world.store s.world.rows s :=
  ⟨h, ⟨s.memory.strategy.stats, rfl⟩, rfl, rfl⟩

theorem trans (h : Ends s store rows s') (h' : Ends s' store' rows' s'') :
    Ends s store' rows' s'' := by
  obtain ⟨a, ha⟩ := h.memory
  obtain ⟨b, hb⟩ := h'.memory
  exact ⟨h'.steady, ⟨b, by rw [hb, ha]; rfl⟩, h'.store, h'.rows⟩

theorem noted (h : Ends s store rows s') (count : StrategyStats → StrategyStats) (n : Note V) :
    Ends s store rows (noted s' count n) := by
  obtain ⟨stats, hm⟩ := h.memory
  exact ⟨h.steady, ⟨count stats, by simp only [Strategy.noted, Memory.onStats, hm]; rfl⟩, h.store,
    h.rows⟩

/-- A command of the store. -/
theorem command (h : s.world.Steady) (c : Store.Call) :
    Ends s (c.run s.world.now s.world.store).2 s.world.rows
      { s with world := (s.world.command c).2 } := by
  rw [h.command]
  exact ⟨h, ⟨s.memory.strategy.stats, rfl⟩, rfl, rfl⟩

/-- A request to the source. -/
theorem request (h : s.world.Steady) (c : Source.Call V) :
    ∃ (w : World V) (s' : Scene V), w.rows = s.world.rows ∧
      (Action.request .main c).outcome.run s = ((w.request .main c).1, s') ∧
      Ends s s.world.store (w.request .main c).2.rows s' := by
  refine ⟨s.world.later ((s.world.sites .main).latency c.method), _, rfl, Action.run_request _ _ _,
    h, ⟨s.memory.strategy.stats, rfl⟩, rfl, rfl⟩

end Ends

section

variable {s : Scene V} {key : String} {v : V}

/-- A request that is to change the rows either fails and leaves them, or changes them. -/
theorem run_change (h : s.world.Steady) {c : Source.Call V} {rows' : KeyMap V}
    (hrows : ∀ w : World V, w.rows = s.world.rows → (w.request .main c).2.rows =
      if (w.request .main c).1.toBool then rows' else s.world.rows) :
    ∃ s', (∃ e, (Action.request .main c).outcome.run s = (.error e, s') ∧
        Ends s s.world.store s.world.rows s') ∨
      (∃ a, (Action.request .main c).outcome.run s = (.ok a, s') ∧
        Ends s s.world.store rows' s') := by
  obtain ⟨w, s', hw, hrun, hends⟩ := Ends.request h c
  rw [hrows w hw] at hends
  refine ⟨s', ?_⟩
  cases hr : (w.request .main c).1 with
  | error e =>
    rw [hr] at hrun hends
    exact .inl ⟨e, hrun, hends⟩
  | ok a =>
    rw [hr] at hrun hends
    exact .inr ⟨a, hrun, hends⟩

theorem run_store (h : s.world.Steady) (key : String) (v : V) :
    ∃ s', (∃ e, (Action.request .main (.store key v)).outcome.run s = (.error e, s') ∧
        Ends s s.world.store s.world.rows s') ∨
      (∃ a, (Action.request .main (.store key v)).outcome.run s = (.ok a, s') ∧
        Ends s s.world.store (s.world.rows.insert key v) s') := by
  refine run_change h fun w hw => ?_
  rw [World.rows_store, hw]
  cases (w.request .main (.store key v)).1 <;> rfl

theorem run_remove (h : s.world.Steady) (key : String) :
    ∃ s', (∃ e, (Action.request .main (.remove key)).outcome.run s = (.error e, s') ∧
        Ends s s.world.store s.world.rows s') ∨
      (∃ a, (Action.request .main (.remove key)).outcome.run s = (.ok a, s') ∧
        Ends s s.world.store (s.world.rows.erase key) s') := by
  refine run_change h fun w hw => ?_
  rw [World.rows_remove, hw]
  cases (w.request .main (.remove key)).1 <;> rfl

theorem run_loadOne (h : s.world.Steady) (key : String) :
    ∃ s', Ends s s.world.store s.world.rows s' ∧
      ((∃ e, (Action.request .main (.loadOne key)).outcome.run s = (.error e, s')) ∨
        (Action.request .main (.loadOne key)).outcome.run s =
          (.ok (s.world.rows.get? key), s')) := by
  obtain ⟨w, s', hw, hrun, hends⟩ := Ends.request h (.loadOne key)
  rw [World.rows_load, hw] at hends
  refine ⟨s', hends, ?_⟩
  cases hr : (w.request .main (.loadOne key)).1 with
  | error e => exact .inl ⟨e, by rw [hrun, hr]⟩
  | ok found =>
    have hfound := World.found_of_load hr
    rw [hw] at hfound
    exact .inr (by rw [hrun, hr, hfound])

/-- A value is encoded and stored, or it cannot be encoded and nothing happens. -/
theorem run_set (h : s.world.Steady) (key : String) (v : V) (life : Option Nat) :
    ∃ s', (∃ e, (Client.set s.memory.format key v life).outcome.run s = (.error e, s') ∧
        Ends s s.world.store s.world.rows s') ∨
      (∃ b, Client.coded s.memory s.memory.format s.world.drawn key v = .ok b ∧
        (Client.set s.memory.format key v life).outcome.run s = (.ok (), s') ∧
        Ends s (s.world.store.set s.world.now key b life) s.world.rows s') := by
  rw [Client.run_set]
  cases hb : Client.coded s.memory s.memory.format s.world.drawn key v with
  | error e => exact ⟨_, .inl ⟨e, rfl, h, ⟨s.memory.strategy.stats, rfl⟩, rfl, rfl⟩⟩
  | ok b =>
    let w := { s.world with drawn := Client.freshAfter s.memory s.memory.format s.world.drawn v }
    have hw : w.command (.set key b life) = (.ok (), { w with store := _ }) :=
      World.Steady.command (w := w) h (.set key b life)
    refine ⟨{ s with world := (w.command (.set key b life)).2 }, .inr ⟨b, rfl, ?_, ?_⟩⟩
    · change ((w.command (.set key b life)).1, _) = _
      rw [hw]
    · rw [hw]
      exact ⟨h, ⟨s.memory.strategy.stats, rfl⟩, rfl, rfl⟩

theorem run_cacheDelete (h : s.world.Steady) (key : String) :
    ∃ s', (cacheDelete (V := V) key).outcome.run s = (.ok (), s') ∧
      Ends s (s.world.store.delete s.world.now key).2 s.world.rows s' := by
  refine ⟨_, ?_, Ends.command h (.delete key)⟩
  rw [cacheDelete, Action.run_bind, Client.run_delete, h.command]
  rfl

theorem run_get (h : s.world.Steady) (key : String) :
    ∃ r s', (Client.get s.memory.format key).outcome.run s = (r, s') ∧
      Ends s (s.world.store.purge s.world.now key) s.world.rows s' := by
  have hends := Ends.command h (.get key)
  change Ends s (s.world.store.get s.world.now key).2 _ _ at hends
  rw [Store.snd_get] at hends
  exact ⟨_, _, Client.run_get _ _ _, hends⟩

end

/-- A step has turned out in one of the ways, and has led to this scene. -/
structure Turned (s : Scene V) (p : Step V) (r : Reply V) (s' : Scene V) : Prop where
  turnout : Turnout s.memory s.world.store s.world.rows p r s'.world.store s'.world.rows
  steady : s'.world.Steady
  memory : ∃ stats, s'.memory = s.memory.withStats stats

theorem Ends.turned {s s' : Scene V} {store : Store} {rows : KeyMap V} {p : Step V} {r : Reply V}
    (h : Ends s store rows s')
    (ht : Turnout s.memory s.world.store s.world.rows p r store rows) : Turned s p r s' :=
  ⟨by rw [h.store, h.rows]; exact ht, h.steady, h.memory⟩

/-! ## Reading -/

variable {s : Scene V} {key : String}

theorem turned_load {s₀ : Scene V} {now : Nat}
    (h : Ends s₀ (s₀.world.store.purge now key) s₀.world.rows s) (start : Nat) :
    Turned s₀ (.call (.read key)) (Reply.of .value ((load key start).outcome.run s).1)
      ((load key start).outcome.run s).2 := by
  obtain ⟨s₁, hends₁, hload⟩ := run_loadOne h.steady key
  have hthere := h.trans hends₁
  rw [h.store, h.rows] at hthere
  rcases hload with ⟨e, hrun₁⟩ | hrun₁
  · have hrun : (load key start).outcome.run s =
        (.error e, noted s₁ StrategyStats.error (.failed key e)) := by simp [load, fail, hrun₁]
    rw [hrun]
    exact (hthere.noted _ _).turned .looked
  · rw [h.rows] at hrun₁
    cases hrow : s₀.world.rows.get? key with
    | none =>
      have hrun : (load key start).outcome.run s = (.error (.notFound key),
          noted s₁ (·.miss ((s₁.world.now - start) * 1000000)) (.miss key)) := by
        simp [load, hrun₁, hrow]
      rw [hrun]
      exact (hthere.noted _ _).turned .looked
    | some v =>
      obtain ⟨s₂, hset⟩ := run_set hthere.steady key v s₁.memory.strategy.life
      -- The caller gets the value whether or not it could be kept.
      have hrun : ∀ r, (Client.set s₁.memory.format key v s₁.memory.strategy.life).outcome.run s₁ =
          (r, s₂) → (load key start).outcome.run s =
            (.ok v, noted s₂ (·.miss ((s₂.world.now - start) * 1000000)) (.miss key)) := by
        intro r hr
        simp [load, hrun₁, hrow, hr, Except.map]
      rcases hset with ⟨e, hrun₂, hends₂⟩ | ⟨b, hb, hrun₂, hends₂⟩
      · rw [hrun _ hrun₂]
        have hkept := hthere.trans hends₂
        rw [hthere.store, hthere.rows] at hkept
        exact (hkept.noted _ _).turned .looked
      · rw [hrun _ hrun₂]
        have hkept := hthere.trans hends₂
        rw [hthere.store, hthere.rows] at hkept
        obtain ⟨stats, hm⟩ := hthere.memory
        rw [hm] at hb hkept
        exact (hkept.noted _ _).turned (.loaded hrow hb)

theorem turned_read (h : s.world.Steady) (key : String) :
    Turned s (.call (.read key)) ((Call.read key).program.run s).1
      ((Call.read key).program.run s).2 := by
  obtain ⟨r, s₁, hget, hends⟩ := run_get h key
  cases r with
  | ok v =>
    have hrun : (Call.read key).program.run s = (.value v,
        noted s₁ (·.hit ((s₁.world.now - s.world.now) * 1000000)) (.hit key)) := by
      simp [Call.program, Strategy.read, hget, Reply.of, Except.map]
    rw [hrun]
    exact (hends.noted _ _).turned .looked
  | error e =>
    by_cases hmiss : e.isMiss = true
    · have hrun : (Call.read key).program.run s =
          (Reply.of .value ((load key s.world.now).outcome.run s₁).1,
            ((load key s.world.now).outcome.run s₁).2) := by
        simp [Call.program, Strategy.read, hget, hmiss]
      rw [hrun]
      exact turned_load hends s.world.now
    · have hrun : (Call.read key).program.run s =
          (.failed e, noted s₁ StrategyStats.error (.failed key e)) := by
        simp [Call.program, Strategy.read, hget, hmiss, fail, Reply.of]
      rw [hrun]
      exact (hends.noted _ _).turned .looked

/-! ## Writing -/

theorem run_cacheWrite (h : s.world.Steady) (key : String) (v : V) (life : Option Nat) :
    ∃ s', (∃ e, (cacheWrite key v life).outcome.run s = (.error e, s') ∧
        Ends s s.world.store s.world.rows s') ∨
      (∃ b, Client.coded s.memory s.memory.format s.world.drawn key v = .ok b ∧
        (cacheWrite key v life).outcome.run s = (.ok (), s') ∧
        Ends s (s.world.store.set s.world.now key b (life <|> s.memory.strategy.life))
          s.world.rows s') := by
  have hrun : (cacheWrite key v life).outcome.run s =
      (Client.set s.memory.format key v (life <|> s.memory.strategy.life)).outcome.run s := by
    simp [cacheWrite]
  rw [hrun]
  exact run_set h key v _

/-- The two writes of a strategy, before they are counted and noted. -/
theorem turned_writeSteps (h : s.world.Steady) (hp : Pairs s.memory.strategy.policy) (key : String)
    (v : V) (life : Option Nat) :
    ∃ r store rows s', (writeSteps s.memory.strategy key v life).outcome.run s = (r, s') ∧
      Ends s store rows s' ∧
      Turnout s.memory s.world.store s.world.rows (.call (.write key v life))
        (Reply.of (fun _ => .done) r) store rows := by
  rcases hp with hpol | hpol
  · obtain ⟨s₁, hcache⟩ := run_cacheWrite h key v life
    rcases hcache with ⟨e, hrun₁, hends₁⟩ | ⟨b, hb, hrun₁, hends₁⟩
    · exact ⟨.error e, _, _, s₁, by simp [writeSteps, hpol, hrun₁], hends₁, .notWritten⟩
    · obtain ⟨s₂, hstore⟩ := run_store hends₁.steady key v
      rcases hstore with ⟨e, hrun₂, hends₂⟩ | ⟨done, hrun₂, hends₂⟩
      · -- The value is in the cache already; it is deleted, as is whatever was there before it.
        obtain ⟨s₃, hrun₃, hends₃⟩ := run_cacheDelete hends₂.steady key
        have hback := (hends₁.trans hends₂).trans hends₃
        rw [hends₂.store, hends₂.rows, hends₁.store, hends₁.rows] at hback
        refine ⟨.error e, _, _, s₃, ?_, hback, .takenBack hpol⟩
        simp [writeSteps, storeOrForget, hpol, hrun₁, hrun₂, hrun₃]
      · have hboth := hends₁.trans hends₂
        rw [hends₁.store, hends₁.rows] at hboth
        refine ⟨.ok (), _, _, s₂, ?_, hboth, .written hb⟩
        simp [writeSteps, storeOrForget, hpol, hrun₁, hrun₂]
  · obtain ⟨s₁, hstore⟩ := run_store h key v
    rcases hstore with ⟨e, hrun₁, hends₁⟩ | ⟨done, hrun₁, hends₁⟩
    · exact ⟨.error e, _, _, s₁, by simp [writeSteps, hpol, hrun₁], hends₁, .notWritten⟩
    · obtain ⟨s₂, hcache⟩ := run_cacheWrite hends₁.steady key v life
      obtain ⟨stats, hm⟩ := hends₁.memory
      rcases hcache with ⟨e, hrun₂, hends₂⟩ | ⟨b, hb, hrun₂, hends₂⟩
      · have hboth := hends₁.trans hends₂
        rw [hends₁.store, hends₁.rows] at hboth
        exact ⟨.error e, _, _, s₂, by simp [writeSteps, hpol, hrun₁, hrun₂], hboth, .leftBehind hpol⟩
      · have hboth := hends₁.trans hends₂
        rw [hends₁.store, hends₁.rows, hm] at hboth
        rw [hm] at hb
        exact ⟨.ok (), _, _, s₂, by simp [writeSteps, hpol, hrun₁, hrun₂], hboth, .written hb⟩

theorem turned_write (h : s.world.Steady) (hp : Pairs s.memory.strategy.policy) (key : String)
    (v : V) (life : Option Nat) :
    Turned s (.call (.write key v life)) ((Call.write key v life).program.run s).1
      ((Call.write key v life).program.run s).2 := by
  obtain ⟨r, store, rows, s₁, hsteps, hends, ht⟩ := turned_writeSteps h hp key v life
  cases r with
  | ok done =>
    have hrun : (Call.write key v life).program.run s = (.done,
        noted s₁ (·.write ((s₁.world.now - s.world.now) * 1000000)) (.stored key)) := by
      simp [Call.program, Strategy.write, hsteps, Reply.of]
    rw [hrun]
    exact (hends.noted _ _).turned ht
  | error e =>
    have hrun : (Call.write key v life).program.run s =
        (.failed e, noted s₁ StrategyStats.error (.failed key e)) := by
      simp [Call.program, Strategy.write, hsteps, fail, Reply.of]
    rw [hrun]
    exact (hends.noted _ _).turned ht

/-- The two deletions of a strategy, before they are counted and noted. -/
theorem turned_deleteSteps (h : s.world.Steady) (hp : Pairs s.memory.strategy.policy)
    (key : String) :
    ∃ r store rows s', (deleteSteps s.memory.strategy key).outcome.run s = (r, s') ∧
      Ends s store rows s' ∧
      Turnout s.memory s.world.store s.world.rows (.call (.delete key))
        (Reply.of (fun _ => .done) r) store rows := by
  rcases hp with hpol | hpol
  · obtain ⟨s₁, hrun₁, hends₁⟩ := run_cacheDelete h key
    obtain ⟨s₂, hremove⟩ := run_remove hends₁.steady key
    rcases hremove with ⟨e, hrun₂, hends₂⟩ | ⟨done, hrun₂, hends₂⟩
    · have hboth := hends₁.trans hends₂
      rw [hends₁.store, hends₁.rows] at hboth
      exact ⟨.error e, _, _, s₂, by simp [deleteSteps, hpol, hrun₁, hrun₂], hboth,
        .forgotten hpol⟩
    · have hboth := hends₁.trans hends₂
      rw [hends₁.store, hends₁.rows] at hboth
      exact ⟨.ok (), _, _, s₂, by simp [deleteSteps, hpol, hrun₁, hrun₂], hboth, .deleted⟩
  · obtain ⟨s₁, hremove⟩ := run_remove h key
    rcases hremove with ⟨e, hrun₁, hends₁⟩ | ⟨done, hrun₁, hends₁⟩
    · exact ⟨.error e, _, _, s₁, by simp [deleteSteps, hpol, hrun₁], hends₁, .notDeleted⟩
    · obtain ⟨s₂, hrun₂, hends₂⟩ := run_cacheDelete hends₁.steady key
      have hboth := hends₁.trans hends₂
      rw [hends₁.store, hends₁.rows] at hboth
      exact ⟨.ok (), _, _, s₂, by simp [deleteSteps, hpol, hrun₁, hrun₂], hboth, .deleted⟩

theorem turned_delete (h : s.world.Steady) (hp : Pairs s.memory.strategy.policy) (key : String) :
    Turned s (.call (.delete key)) ((Call.delete key).program.run s).1
      ((Call.delete key).program.run s).2 := by
  obtain ⟨r, store, rows, s₁, hsteps, hends, ht⟩ := turned_deleteSteps h hp key
  cases r with
  | ok done =>
    have hrun : (Call.delete key).program.run s =
        (.done, noted s₁ StrategyStats.delete (.deleted key)) := by
      simp [Call.program, Strategy.delete, hsteps, Reply.of]
    rw [hrun]
    exact (hends.noted _ _).turned ht
  | error e =>
    have hrun : (Call.delete key).program.run s =
        (.failed e, noted s₁ StrategyStats.error (.failed key e)) := by
      simp [Call.program, Strategy.delete, hsteps, fail, Reply.of]
    rw [hrun]
    exact (hends.noted _ _).turned ht

/-! ## Every step -/

/-- While the store does not fail, a step under one of the two policies turns out in one of the
ways of `Turnout`, whatever the source does and whatever cannot be encoded or decoded. -/
theorem turned_step (h : s.world.Steady) (hp : Pairs s.memory.strategy.policy) (p : Step V) :
    Turned s p (p.program.run s).1 (p.program.run s).2 := by
  cases p with
  | sleep ms =>
    have hrun : (Step.sleep ms : Step V).program.run s =
        (.done, { s with world := s.world.later ms }) := by simp [Step.program]
    rw [hrun]
    exact ⟨.slept, h, s.memory.strategy.stats, rfl⟩
  | call c =>
    cases c with
    | read key => exact turned_read h key
    | write key v life => exact turned_write h hp key v life
    | delete key => exact turned_delete h hp key
    | has key => exact (Ends.command h (.has key)).turned .asked
    | clear =>
      have hrun : (Call.clear : Call V).program.run s =
          (.done, { s with world := (s.world.command .flush).2 }) := by
        rw [Call.program, Program.run_bind, Client.run_flush, h.command]
        rfl
      exact hrun ▸ (Ends.command h .flush).turned .cleared

end CacheLayer.Strategy
