/-
The effect of a call under a policy that writes to the source before it returns.
`Call.effect` gives the reply and what becomes of store and rows, without naming
a policy; `effect_of_call` says that each of the three policies has this effect
when nothing fails. Only the time `t` at which an entry is stored is theirs: it
lies where the policy has put the store among the requests to the source.
-/
import CacheLayer.Proofs.Store.Entries
import CacheLayer.Proofs.Strategy.Smooth

namespace CacheLayer

variable {V : Type}

/-- What a strategy works on: the store, the numbers drawn and the rows of the source. -/
structure View (V : Type) where
  store : Store
  drawn : Nat
  rows : KeyMap V

/-- The world as a strategy works on it. -/
def World.view (w : World V) : View V := ⟨w.store, w.drawn, w.rows⟩

/-- A value is put into the store. -/
def View.keep (m : Memory V) (t : Nat) (key : String) (v : V) (life : Option Nat) (x : View V) :
    View V :=
  let drawn := Client.freshAfter m m.format x.drawn v
  match Client.coded m m.format x.drawn key v with
  | .ok b => { x with store := x.store.set t key b life, drawn := drawn }
  | .error _ => { x with drawn := drawn }

@[simp] theorem World.view_store (w : World V) : w.view.store = w.store := rfl

@[simp] theorem World.view_rows (w : World V) : w.view.rows = w.rows := rfl

/-- A key is looked up; if it has a row and no live entry, the value is kept. -/
def View.fetch (m : Memory V) (now t : Nat) (key : String) (x : View V) : View V :=
  let purged := { x with store := x.store.purge now key }
  match x.store.live? now key, x.rows.get? key with
  | none, some v => purged.keep m t key v m.strategy.life
  | _, _ => purged

/-- Every entry holds the value of its row. -/
def View.Coherent (m : Memory V) (x : View V) : Prop :=
  ∀ key e, x.store.entries.get? key = some e → ∃ v, Client.Holds m key e v ∧ x.rows.get? key = some v

/-- Every row can be encoded and is then read back as it is. -/
def View.Codes (m : Memory V) (x : View V) : Prop :=
  ∀ key v, x.rows.get? key = some v → Client.Codes m key v

/-- The policy writes to the source before a call returns. -/
def Policy.isSynchronous : Policy → Bool
  | .writeBehind => false
  | _ => true

namespace Strategy

/-- What a call replies and what it does. -/
def Call.effect (m : Memory V) (now t : Nat) (x : View V) : Call V → Reply V × View V
  | .read key => (Reply.lookup key (x.rows.get? key), x.fetch m now t key)
  | .write key v life =>
    (.done, { x.keep m t key v (life <|> m.strategy.life) with rows := x.rows.insert key v })
  | .delete key => (.done, ⟨(x.store.delete t key).2, x.drawn, x.rows.erase key⟩)
  | .has key => (.truth (x.store.has now key).1, { x with store := (x.store.has now key).2 })
  | .clear => (.done, { x with store := x.store.flush })

/-! ## The single steps -/

section

variable {s : Scene V}

/-- What a piece of a strategy has done: the scene it leads to follows, the store was changed at
`t` if it was changed, and this is the view afterwards. -/
structure Leads (s : Scene V) (t : Nat) (x : View V) (s' : Scene V) : Prop where
  follows : s.Follows s'
  soon : s.world.Immediate → t = s.world.now
  view : s'.world.view = x

theorem Leads.noted {t : Nat} {x : View V} {s' : Scene V} (h : Leads s t x s')
    (count : StrategyStats → StrategyStats) (n : Note V) : Leads s t x (noted s' count n) :=
  ⟨h.follows.trans (follows_noted h.follows.smooth count n), h.soon, h.view⟩

theorem Leads.keep {s s' : Scene V} {t : Nat} {x : View V} (h : Leads s t x s') {key : String}
    {v : V} (hv : Client.Codes s.memory key v) (life : Option Nat) :
    ∃ t s'', (Client.set s'.memory.format key v life).outcome.run s' = (.ok (), s'') ∧
      Leads s t (x.keep s.memory t key v life) s'' := by
  obtain ⟨stats, hm⟩ := h.follows.memory
  obtain ⟨b, hb, -⟩ := hv s'.world.drawn
  have hb' : Client.coded s'.memory s'.memory.format s'.world.drawn key v = .ok b := by
    rw [hm]; exact hb
  obtain ⟨s'', hrun, hf, hrows, hmem, hstore, hdrawn⟩ := set_smooth h.follows.smooth life hb'
  refine ⟨s'.world.now, s'', hrun, h.follows.trans hf, h.follows.still, ?_⟩
  have hx := h.view
  simp only [World.view] at hx
  simp only [View.keep, World.view, ← hx, hb, hrows, hstore, hdrawn]
  rw [hm]
  rfl

theorem Leads.cacheDelete {s s' : Scene V} {t : Nat} {x : View V} (h : Leads s t x s')
    (key : String) :
    ∃ t s'', (cacheDelete (V := V) key).outcome.run s' = (.ok (), s'') ∧
      Leads s t { x with store := (x.store.delete t key).2 } s'' := by
  refine ⟨s'.world.now, stored s' (s'.world.store.delete s'.world.now key).2, ?_,
    h.follows.trans (follows_stored h.follows.smooth _), h.follows.still, ?_⟩
  · rw [Strategy.cacheDelete, Action.outcome_bind, Program.run_bind, Client.run_delete,
      command_smooth h.follows.smooth, h.follows.smooth.command]
    rfl
  · have hx := h.view
    simp only [World.view] at hx
    simp only [World.view, stored, ← hx]
    rfl

theorem Leads.request {s s' : Scene V} {t : Nat} {x : View V} (h : Leads s t x s')
    (c : Source.Call V) :
    ∃ s'', (Action.request .main c).outcome.run s' = ((s'.world.request .main c).1, s'') ∧
      Leads s t { x with rows := (s'.world.request .main c).2.rows } s'' := by
  obtain ⟨s'', hrun, hf, hrows, hstore, hdrawn, -⟩ := request_smooth h.follows.smooth c
  refine ⟨s'', hrun, h.follows.trans hf, h.soon, ?_⟩
  rw [← hrows, World.view, hstore, hdrawn, ← h.view]
  rfl

theorem Leads.store {s s' : Scene V} {t : Nat} {x : View V} (h : Leads s t x s') (key : String)
    (v : V) :
    ∃ s'', (Action.request .main (.store key v)).outcome.run s' = (.ok (), s'') ∧
      Leads s t { x with rows := x.rows.insert key v } s'' := by
  obtain ⟨s'', hrun, hl⟩ := h.request (.store key v)
  have hok := h.follows.smooth.store key v
  rw [World.rows_store, hok, show s'.world.rows = x.rows by rw [← h.view]; rfl] at hl
  exact ⟨s'', by rw [hrun, hok], hl⟩

theorem Leads.remove {s s' : Scene V} {t : Nat} {x : View V} (h : Leads s t x s') (key : String) :
    ∃ s'', (Action.request .main (.remove key)).outcome.run s' = (.ok (), s'') ∧
      Leads s t { x with rows := x.rows.erase key } s'' := by
  obtain ⟨s'', hrun, hl⟩ := h.request (.remove key)
  have hok := h.follows.smooth.remove key
  rw [World.rows_remove, hok, show s'.world.rows = x.rows by rw [← h.view]; rfl] at hl
  exact ⟨s'', by rw [hrun, hok], hl⟩

theorem leads_refl {s : Scene V} (h : s.world.Smooth) : Leads s s.world.now s.world.view s :=
  ⟨.refl h, fun _ => rfl, rfl⟩

end

/-! ## Reading -/

variable {s : Scene V} {key : String}

/-- A coherent cache answers with the value of the row, or with a miss. -/
theorem run_get_coherent (h : s.world.Smooth) (hc : s.world.view.Coherent s.memory) (key : String) :
    (Client.get s.memory.format key).outcome.run s =
      (match s.world.store.live? s.world.now key, s.world.rows.get? key with
        | some _, some v => .ok v
        | _, _ => .error (.cacheMiss key),
        stored s (s.world.store.purge s.world.now key)) := by
  rw [Client.run_get, h.command]
  simp only [Store.Call.run, Store.get, Store.get?_purge_self]
  cases hl : s.world.store.live? s.world.now key with
  | none => rfl
  | some e =>
    obtain ⟨v, ⟨b, hb, hd⟩, hv⟩ := hc key e (Store.get?_of_live? hl)
    have hv' : s.world.rows.get? key = some v := hv
    simp only [hb, hv', Except.bind, hd]
    rfl

/-- Loading a key: the caller gets the value of the row, which is kept in the store. -/
theorem run_load {s₀ : Scene V} {t : Nat} {x : View V} (hl : Leads s₀ t x s)
    (hv : x.Codes s₀.memory) (key : String) (start : Nat) :
    ∃ t s', (load key start).outcome.run s =
        (match x.rows.get? key with
          | some v => .ok v
          | none => .error (.notFound key), s') ∧
      Leads s₀ t (match x.rows.get? key with
        | some v => x.keep s₀.memory t key v s₀.memory.strategy.life
        | none => x) s' := by
  obtain ⟨s₁, hrun₁, hl₁⟩ := hl.request (.loadOne key)
  have hrow : s.world.rows = x.rows := by rw [← hl.view]; rfl
  rw [World.rows_load, hrow] at hl₁
  rw [hl.follows.smooth.load, hrow] at hrun₁
  cases hx : x.rows.get? key with
  | none =>
    refine ⟨t, noted s₁ (·.miss ((s₁.world.now - start) * 1000000)) (.miss key), ?_,
      hl₁.noted _ _⟩
    simp [load, hrun₁, hx]
  | some v =>
    obtain ⟨t', s₂, hrun₂, hl₂⟩ := hl₁.keep (hv key v hx) s₀.memory.strategy.life
    have hlife : s₁.memory.strategy.life = s₀.memory.strategy.life := by
      obtain ⟨stats, hm⟩ := hl₁.follows.memory
      rw [hm]; rfl
    refine ⟨t', noted s₂ (·.miss ((s₂.world.now - start) * 1000000)) (.miss key), ?_,
      hl₂.noted _ _⟩
    simp [load, hrun₁, hx, hlife, hrun₂, Except.map]

theorem run_read (h : s.world.Smooth) (hc : s.world.view.Coherent s.memory)
    (hv : s.world.view.Codes s.memory) (key : String) :
    ∃ t s', (Call.read key).program.run s =
        (((Call.read key).effect s.memory s.world.now t s.world.view).1, s') ∧
      Leads s t ((Call.read key).effect s.memory s.world.now t s.world.view).2 s' := by
  have hget := run_get_coherent h hc key
  have hpurged : Leads s s.world.now
      { s.world.view with store := s.world.store.purge s.world.now key }
      (stored s (s.world.store.purge s.world.now key)) :=
    ⟨follows_stored h _, fun _ => rfl, rfl⟩
  cases hl : s.world.store.live? s.world.now key with
  | none =>
    obtain ⟨t, s', hrun, hlead⟩ := run_load hpurged hv key s.world.now
    refine ⟨t, s', ?_, ?_⟩
    · simp only [World.view_rows] at hrun
      cases hrow : s.world.rows.get? key <;>
        simp [Call.program, Strategy.read, hget, hl, Error.isMiss, hrun, hrow, Call.effect,
          Reply.lookup, Reply.of]
    · cases hrow : s.world.rows.get? key <;>
        simpa [Call.effect, View.fetch, hl, hrow] using hlead
  | some e =>
    obtain ⟨v, -, hrow⟩ := hc key e (Store.get?_of_live? hl)
    simp only [World.view_rows] at hrow
    refine ⟨s.world.now, noted (stored s (s.world.store.purge s.world.now key)) (·.hit 0)
      (.hit key), ?_, ?_⟩
    · simp [Call.program, Strategy.read, hget, hl, hrow, Call.effect, Reply.lookup, Reply.of,
        stored, Except.map]
    · simpa [Call.effect, View.fetch, hl, hrow] using hpurged.noted (·.hit 0) (.hit key)

/-! ## Writing -/

@[simp] theorem rows_keep (m : Memory V) (t : Nat) (key : String) (v : V) (life : Option Nat)
    (x : View V) : (x.keep m t key v life).rows = x.rows := by
  unfold View.keep
  cases Client.coded m m.format x.drawn key v <;> rfl

/-- Whether the rows change before or after a value is kept makes no difference. -/
theorem keep_rows (m : Memory V) (t : Nat) (key : String) (v : V) (life : Option Nat) (x : View V)
    (rows : KeyMap V) :
    ({ x with rows := rows } : View V).keep m t key v life =
      { x.keep m t key v life with rows := rows } := by
  unfold View.keep
  cases Client.coded m m.format x.drawn key v <;> rfl

theorem Leads.cacheWrite {s₀ : Scene V} {t : Nat} {x : View V} (h : Leads s₀ t x s) {v : V}
    (hv : Client.Codes s₀.memory key v) (life : Option Nat) :
    ∃ t s', (cacheWrite key v life).outcome.run s = (.ok (), s') ∧
      Leads s₀ t (x.keep s₀.memory t key v (life <|> s₀.memory.strategy.life)) s' := by
  obtain ⟨t', s', hrun, hl⟩ := h.keep hv (life <|> s₀.memory.strategy.life)
  obtain ⟨stats, hm⟩ := h.follows.memory
  have hlife : s.memory.strategy.life = s₀.memory.strategy.life := by rw [hm]; rfl
  refine ⟨t', s', ?_, hl⟩
  simpa [Strategy.cacheWrite, hlife] using hrun

/-- The policies differ in the order of their two writes only. -/
theorem run_writeSteps (h : s.world.Smooth) (hp : s.memory.strategy.policy.isSynchronous = true)
    {v : V} (hv : Client.Codes s.memory key v) (life : Option Nat) :
    ∃ t s', (writeSteps s.memory.strategy key v life).outcome.run s = (.ok (), s') ∧
      Leads s t ((Call.write key v life).effect s.memory s.world.now t s.world.view).2 s' := by
  cases hpol : s.memory.strategy.policy with
  | writeBehind => rw [hpol] at hp; cases hp
  | cacheAside =>
    obtain ⟨s₁, hrun₁, hl₁⟩ := (leads_refl h).store key v
    obtain ⟨t, s₂, hrun₂, hl₂⟩ := hl₁.cacheWrite hv life
    refine ⟨t, s₂, by simp [writeSteps, hpol, hrun₁, hrun₂], ?_⟩
    rw [keep_rows] at hl₂
    exact hl₂
  | readThrough =>
    obtain ⟨t, s₁, hrun₁, hl₁⟩ := (leads_refl h).cacheWrite hv life
    obtain ⟨s₂, hrun₂, hl₂⟩ := hl₁.store key v
    rw [rows_keep] at hl₂
    exact ⟨t, s₂, by simp [writeSteps, hpol, hrun₁, hrun₂], hl₂⟩
  | writeThrough =>
    obtain ⟨t, s₁, hrun₁, hl₁⟩ := (leads_refl h).cacheWrite hv life
    obtain ⟨s₂, hrun₂, hl₂⟩ := hl₁.store key v
    rw [rows_keep] at hl₂
    exact ⟨t, s₂, by simp [writeSteps, storeOrForget, hpol, hrun₁, hrun₂], hl₂⟩

theorem run_deleteSteps (h : s.world.Smooth)
    (hp : s.memory.strategy.policy.isSynchronous = true) (key : String) :
    ∃ t s', (deleteSteps s.memory.strategy key).outcome.run s = (.ok (), s') ∧
      Leads s t ((Call.delete key).effect s.memory s.world.now t s.world.view).2 s' := by
  cases hpol : s.memory.strategy.policy with
  | writeBehind => rw [hpol] at hp; cases hp
  | cacheAside =>
    obtain ⟨s₁, hrun₁, hl₁⟩ := (leads_refl h).remove key
    obtain ⟨t, s₂, hrun₂, hl₂⟩ := hl₁.cacheDelete key
    exact ⟨t, s₂, by simp [deleteSteps, hpol, hrun₁, hrun₂], hl₂⟩
  | readThrough | writeThrough =>
    obtain ⟨t, s₁, hrun₁, hl₁⟩ := (leads_refl h).cacheDelete key
    obtain ⟨s₂, hrun₂, hl₂⟩ := hl₁.remove key
    exact ⟨t, s₂, by simp [deleteSteps, hpol, hrun₁, hrun₂], hl₂⟩

/-- The values that a call writes can be encoded. -/
def Call.Codes (m : Memory V) : Call V → Prop
  | .write key v _ => Client.Codes m key v
  | _ => True

/-- **The effect of a call.** A policy that writes to the source before a call returns does what
`Call.effect` says, whichever of them it is. -/
theorem effect_of_call (h : s.world.Smooth) (hp : s.memory.strategy.policy.isSynchronous = true)
    (hc : s.world.view.Coherent s.memory) (hv : s.world.view.Codes s.memory) {c : Call V}
    (hcall : c.Codes s.memory) :
    ∃ t s', c.program.run s = ((c.effect s.memory s.world.now t s.world.view).1, s') ∧
      Leads s t (c.effect s.memory s.world.now t s.world.view).2 s' := by
  cases c with
  | read key => exact run_read h hc hv key
  | write key v life =>
    obtain ⟨t, s', hrun, hl⟩ := run_writeSteps h hp hcall life
    refine ⟨t, noted s' (·.write ((s'.world.now - s.world.now) * 1000000)) (.stored key), ?_,
      hl.noted _ _⟩
    simp [Call.program, Strategy.write, hrun, Call.effect, Reply.of]
  | delete key =>
    obtain ⟨t, s', hrun, hl⟩ := run_deleteSteps h hp key
    refine ⟨t, noted s' StrategyStats.delete (.deleted key), ?_, hl.noted _ _⟩
    simp [Call.program, Strategy.delete, hrun, Call.effect, Reply.of]
  | has key =>
    refine ⟨s.world.now, stored s (s.world.store.has s.world.now key).2, ?_,
      follows_stored h _, fun _ => rfl, rfl⟩
    rw [Call.program, Program.run_bind, Client.run_has, h.command]
    rfl
  | clear =>
    refine ⟨s.world.now, stored s s.world.store.flush, ?_, follows_stored h _, fun _ => rfl, rfl⟩
    rw [Call.program, Program.run_bind, Client.run_flush, h.command]
    rfl

end Strategy
end CacheLayer
