/-
What the steps of a strategy do when it runs alone and nothing fails. Each lemma
gives the outcome, the store and the rows exactly; what all of them share
(`Follows`) is that the world stays smooth, that no rule of the engine changes,
and that the clock moves only as far as the source keeps its callers waiting.
-/
import CacheLayer.Proofs.Client.Coding
import CacheLayer.Proofs.Strategy.Call
import CacheLayer.Proofs.World

namespace CacheLayer

variable {V : Type}

/-- The source answers its requests at once. -/
def World.Immediate (w : World V) : Prop := ∀ m, (w.sites .main).latency m = 0

/-- The memory with other statistics. -/
def Memory.withStats (m : Memory V) (stats : StrategyStats) : Memory V :=
  { m with strategy := { m.strategy with stats := stats } }

/-- The second scene comes after the first while a strategy is at work and nothing fails. -/
structure Scene.Follows (s s' : Scene V) : Prop where
  smooth : s'.world.Smooth
  latency : (s'.world.sites .main).latency = (s.world.sites .main).latency
  memory : ∃ stats, s'.memory = s.memory.withStats stats
  later : s.world.now ≤ s'.world.now
  still : s.world.Immediate → s'.world.now = s.world.now

namespace Scene.Follows

theorem refl {s : Scene V} (h : s.world.Smooth) : s.Follows s :=
  ⟨h, rfl, ⟨s.memory.strategy.stats, rfl⟩, Nat.le_refl _, fun _ => rfl⟩

theorem immediate {s s' : Scene V} (h : s.Follows s') (hi : s.world.Immediate) :
    s'.world.Immediate := by
  intro m
  rw [h.latency]
  exact hi m

theorem trans {s₁ s₂ s₃ : Scene V} (h : s₁.Follows s₂) (h' : s₂.Follows s₃) : s₁.Follows s₃ := by
  obtain ⟨a, ha⟩ := h.memory
  obtain ⟨b, hb⟩ := h'.memory
  refine ⟨h'.smooth, h'.latency.trans h.latency, ⟨b, ?_⟩, Nat.le_trans h.later h'.later, ?_⟩
  · rw [hb, ha]; rfl
  · intro hi
    rw [h'.still (h.immediate hi), h.still hi]

end Scene.Follows

namespace Strategy

variable {s : Scene V}

/-- The scene after something was counted and noted. -/
def noted (s : Scene V) (count : StrategyStats → StrategyStats) (n : Note V) : Scene V :=
  ⟨{ s.world with notes := n :: s.world.notes }, s.memory.onStats count⟩

@[simp] theorem run_record (count : StrategyStats → StrategyStats) (n : Note V) (s : Scene V) :
    (record count n).run s = ((), noted s count n) := rfl

@[simp] theorem run_elapsedSince (start : Nat) (s : Scene V) :
    (elapsedSince start).run s = ((s.world.now - start) * 1000000, s) := rfl

theorem follows_noted (h : s.world.Smooth) (count : StrategyStats → StrategyStats) (n : Note V) :
    s.Follows (noted s count n) :=
  ⟨⟨h.commands, h.requests, h.accepts, h.loads⟩, rfl, ⟨_, rfl⟩, Nat.le_refl _, fun _ => rfl⟩

/-- The scene with another store. -/
def stored (s : Scene V) (store : Store) : Scene V := { s with world := { s.world with store := store } }

theorem follows_stored (h : s.world.Smooth) (store : Store) : s.Follows (stored s store) :=
  ⟨⟨h.commands, h.requests, h.accepts, h.loads⟩, rfl, ⟨_, rfl⟩, Nat.le_refl _, fun _ => rfl⟩

theorem command_smooth (h : s.world.Smooth) (c : Store.Call) :
    ({ s with world := (s.world.command c).2 } : Scene V) =
      stored s (c.run s.world.now s.world.store).2 := by
  rw [h.command, stored]

/-- A request to the source that does not fail: what it answers comes from `World.Smooth`, and what
it does to the rows from `World.rows_store` and its like. -/
theorem request_smooth (h : s.world.Smooth) (c : Source.Call V) :
    ∃ s', (Action.request .main c).outcome.run s = ((s.world.request .main c).1, s') ∧
      s.Follows s' ∧ s'.world.rows = (s.world.request .main c).2.rows ∧
      s'.world.store = s.world.store ∧ s'.world.drawn = s.world.drawn ∧ s'.memory = s.memory := by
  let w := s.world.later ((s.world.sites .main).latency c.method)
  have hw : w.Smooth := ⟨h.commands, h.requests, h.accepts, h.loads⟩
  have hr : (w.request .main c).1 = (s.world.request .main c).1 := by
    rw [hw.request, h.request]; rfl
  have hrows : (w.request .main c).2.rows = (s.world.request .main c).2.rows := by
    rw [hw.request, h.request]; rfl
  refine ⟨⟨(w.request .main c).2, s.memory⟩, ?_, ?_, hrows, rfl, rfl, rfl⟩
  · rw [Action.run_request, ← hr]
  · refine ⟨hw.after_request c, ?_, ⟨_, rfl⟩, Nat.le_add_right _ _, fun hi => ?_⟩
    · rw [hw.request]
      simp [World.onSource, World.onSite, w, World.later]
    · change s.world.now + (s.world.sites .main).latency c.method = _
      rw [hi, Nat.add_zero]

theorem set_smooth (h : s.world.Smooth) {key : String} {v : V} {b : Bytes} (life : Option Nat)
    (hb : Client.coded s.memory s.memory.format s.world.drawn key v = .ok b) :
    ∃ s', (Client.set s.memory.format key v life).outcome.run s = (.ok (), s') ∧
      s.Follows s' ∧ s'.world.rows = s.world.rows ∧ s'.memory = s.memory ∧
      s'.world.store = s.world.store.set s.world.now key b life ∧
      s'.world.drawn = Client.freshAfter s.memory s.memory.format s.world.drawn v := by
  let w := { s.world with drawn := Client.freshAfter s.memory s.memory.format s.world.drawn v }
  have hw : w.Smooth := ⟨h.commands, h.requests, h.accepts, h.loads⟩
  refine ⟨⟨(w.command (.set key b life)).2, s.memory⟩, ?_, ?_, ?_, rfl, ?_, ?_⟩
  · rw [Client.run_set, hb]
    simp only [w] at hw ⊢
    rw [hw.command]
    rfl
  · have hnow : (w.command (.set key b life)).2.now = s.world.now := by rw [hw.command]
    refine ⟨hw.after_command _, ?_, ⟨_, rfl⟩, Nat.le_of_eq hnow.symm, fun _ => hnow⟩
    rw [hw.command]
  · rw [World.rows_command]; rfl
  · rw [hw.command]; rfl
  · rw [hw.command]

end Strategy
end CacheLayer
