/-
Programs before a store that serves. In a serving world no command is made to
fail and no key holds an empty container; every program leaves the world serving
(`serving_run`), so this holds of all that can come about.

What a program does to a key is read off its requests: when all of them leave the
key alone, the key holds afterwards what it held (`run_leaves`).
-/
import CacheLayer.Proofs.Program.Along
import CacheLayer.Proofs.Store.Filled
import CacheLayer.Proofs.World

namespace CacheLayer

variable {V α β : Type} {key : String}

/-! ## Serving worlds -/

/-- The store carries out every command, and no key holds an empty container. -/
structure World.Serving (w : World V) : Prop where
  steady : w.Steady
  filled : w.store.Filled w.now

namespace World

theorem serving_start (source : Source V) : (start source).Serving :=
  ⟨fun _ => rfl, Store.filled_empty 0⟩

variable {w : World V}

theorem Serving.after_command (h : w.Serving) (c : Store.Call) : (w.command c).2.Serving := by
  rw [h.steady.command]
  exact ⟨h.steady, h.filled.run c⟩

theorem Serving.after_checkHealth (h : w.Serving) : w.checkHealth.2.Serving := by
  unfold checkHealth
  split
  · exact h
  · exact ⟨h.steady, h.filled⟩

end World

/-- The store of the scene serves. -/
abbrev Scene.Serving (s : Scene V) : Prop := s.world.Serving

theorem Ask.serving_perform {s : Scene V} (h : s.Serving) (q : Ask V) :
    (q.perform s).2.Serving := by
  cases q with
  | command c => exact h.after_command c
  | health => exact h.after_checkHealth
  | request | draw | note => exact ⟨h.steady, h.filled⟩
  | _ => exact h

theorem Ask.serving_sleep {s : Scene V} (h : s.Serving) (q : Ask V) : (q.sleep s).Serving := by
  cases q with
  | wait w =>
    simp only [Ask.sleep]
    split
    · exact h
    · exact ⟨h.steady, h.filled.later (Nat.le_max_left _ _)⟩
  | _ => exact h

theorem Program.serving_run {s : Scene V} (h : s.Serving) (p : Program V α) :
    (p.run s).2.Serving := by
  induction p generalizing s with
  | done a => exact h
  | ask q next ih => exact ih _ (Ask.serving_perform (Ask.serving_sleep h q) q)

theorem Program.serving_of_run {s t : Scene V} {p : Program V α} {a : α} (h : s.Serving)
    (hrun : p.run s = (a, t)) : t.Serving := by
  have hserving := p.serving_run h
  rwa [hrun] at hserving

/-! ## What keys hold -/

namespace Scene

/-- The entry of a key, unless it is dead. -/
def live? (s : Scene V) (key : String) : Option Entry :=
  s.world.store.live? s.world.now key

theorem Serving.isFilled {s : Scene V} (h : s.Serving) (key : String) :
    Rule.IsFilled (s.live? key) := h.filled key

/-- The scene with another store. -/
def withStore (s : Scene V) (store : Store) : Scene V :=
  { s with world := { s.world with store := store } }

/-- The clock is the same, and so is what every key holds. -/
structure Alike (s t : Scene V) : Prop where
  now : t.world.now = s.world.now
  live : ∀ key, t.live? key = s.live? key

namespace Alike

theorem refl (s : Scene V) : Alike s s := ⟨rfl, fun _ => rfl⟩

theorem trans {s t u : Scene V} (h : Alike s t) (h' : Alike t u) : Alike s u :=
  ⟨h'.now.trans h.now, fun key => (h'.live key).trans (h.live key)⟩

end Alike

end Scene

/-! ## Commands -/

namespace Action

variable {s : Scene V} {c : Store.Call}

theorem run_command (hs : s.world.Steady) (c : Store.Call) :
    (command c : Action V c.Reply).outcome.run s =
      ((c.run s.world.now s.world.store).1, s.withStore (c.run s.world.now s.world.store).2) := by
  rw [outcome_command, Program.run_command, hs.command]
  rfl

/-- A command that only asks gets its answer, and nothing that can be seen changes. -/
theorem run_asking (hs : s.Serving) (h : c.asks = true) :
    ∃ t : Scene V, (command c : Action V c.Reply).outcome.run s =
        ((c.run s.world.now s.world.store).1, t) ∧ s.Alike t ∧ t.memory = s.memory :=
  ⟨_, run_command hs.steady c, ⟨rfl, fun key => Store.live?_asked hs.filled h key⟩, rfl⟩

end Action

/-! ## Requests that leave a key alone -/

/-- The request takes no time and does not touch what the key holds. -/
def Ask.Leaves (key : String) : Ask V → Prop
  | .command c => c.asks = true ∨ c.spares key = true
  | .wait _ => False
  | _ => True

theorem Ask.perform_leaves {s : Scene V} (hs : s.Serving) {q : Ask V} (h : q.Leaves key) :
    (q.perform (q.sleep s)).2.world.now = s.world.now ∧
      (q.perform (q.sleep s)).2.live? key = s.live? key := by
  cases q with
  | command c =>
    change (s.world.command c).2.now = _ ∧
      (s.world.command c).2.store.live? (s.world.command c).2.now key = _
    rw [hs.steady.command]
    refine ⟨rfl, ?_⟩
    rcases h with hasks | hspares
    · exact Store.live?_asked hs.filled hasks key
    · exact Store.live?_spared _ _ hspares
  | health =>
    change s.world.checkHealth.2.now = _ ∧
      s.world.checkHealth.2.store.live? s.world.checkHealth.2.now key = _
    unfold World.checkHealth
    split <;> exact ⟨rfl, rfl⟩
  | wait w => exact absurd h id
  | _ => exact ⟨rfl, rfl⟩

theorem Program.run_leaves {s : Scene V} (hs : s.Serving) {p : Program V α}
    (h : p.Each (Ask.Leaves key)) :
    (p.run s).2.world.now = s.world.now ∧ (p.run s).2.live? key = s.live? key := by
  induction p generalizing s with
  | done a => exact ⟨rfl, rfl⟩
  | ask q next ih =>
    have hnext : (q.perform (q.sleep s)).2.Serving :=
      Ask.serving_perform (Ask.serving_sleep hs q) q
    obtain ⟨hnow, hlive⟩ := Ask.perform_leaves hs h.1
    obtain ⟨hnow', hlive'⟩ := ih _ hnext (h.2 _)
    exact ⟨hnow'.trans hnow, hlive'.trans hlive⟩

/-- All requests of the program leave every key alone. -/
def Program.IsStill (p : Program V α) : Prop := ∀ key, p.Each (Ask.Leaves key)

theorem Program.IsStill.alike {p : Program V α} (h : p.IsStill) {s : Scene V} (hs : s.Serving) :
    s.Alike (p.run s).2 :=
  ⟨(run_leaves hs (h "")).1, fun key => (run_leaves hs (h key)).2⟩

end CacheLayer
