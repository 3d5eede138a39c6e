/-
Engines before one world. Each of them keeps what it knows in a memory of its own; the clock, the
store and the sources are common to all. What is done with an engine are operations, of callers and
of its jobs. One that never waits is over before anything else happens; of one that may wait, the
others see no more than its requests, one at a time (`Fleet.Move.Takes`). While a program of an engine
waits, the fleet lives on (`Fleet.Runs`).

An engine that is built later is there from the beginning; nothing is done with it until then.
-/
import CacheLayer.Machine
import CacheLayer.Proofs.Client.Request
import CacheLayer.Proofs.Program.Course
import Mathlib.Logic.Function.Basic

namespace CacheLayer

variable {V α β : Type}

/-! ## Fleets -/

/-- The world, and the memory of every engine. -/
structure Fleet (V : Type) where
  world : World V
  memory : Nat → Memory V

namespace Fleet

variable {f : Fleet V} {i j : Nat} {s t : Scene V}

/-- What a program of an engine finds. -/
def scene (f : Fleet V) (i : Nat) : Scene V := ⟨f.world, f.memory i⟩

/-- The fleet when a program of an engine has come to a scene. -/
def put (f : Fleet V) (i : Nat) (s : Scene V) : Fleet V :=
  ⟨s.world, Function.update f.memory i s.memory⟩

@[simp] theorem scene_put_self : (f.put i s).scene i = s := by
  simp [scene, put]

@[simp] theorem put_put : (f.put i s).put i t = f.put i t := by
  simp [put]

@[simp] theorem put_scene : f.put i (f.scene i) = f := by
  simp [scene, put]

@[simp] theorem memory_put_self : (f.put i s).memory i = s.memory := Function.update_self _ _ _

theorem memory_put_other (h : j ≠ i) : (f.put i s).memory j = f.memory j :=
  Function.update_of_ne h _ _

/-- The entry of a key, unless it is dead. -/
def live? (f : Fleet V) (key : String) : Option Entry := f.world.store.live? f.world.now key

end Fleet

/-! ## Operations -/

/-- What is done with an engine, by a caller or by one of its jobs. -/
inductive Operation (V : Type) : Type 1 where
  | warmUp
  | isWarm
  | reset
  | invalidateAll
  | warmUpKeys (keys : List String)
  | warmUpSelective (test : String → Bool)
  | client {α : Type} (f : Format α) (r : Client.Request α)
  | read (key : String)
  | write (key : String) (v : V) (life : Option Nat)
  | delete (key : String)
  | switch (policy : Policy)
  | getOrLoad (key : String)
  | reload (key : String)
  | reloadBatch (keys : List String)
  | reloadAll
  | setReloadConfig (c : ReloadConfig)
  | startSchedule
  | stopSchedule
  | invalidate (key : String)
  | invalidatePattern (pattern : String)
  | invalidateTags (tags : List String)
  | invalidateAndReload (key : String)
  | addDependency (key : String) (dependents : List String)
  | removeDependency (key : String)
  | dependents (key : String)
  | setWithTags {α : Type} (f : Format α) (key : String) (a : α) (life : Option Nat)
      (tags : List String)
  | addTags (key : String) (tags : List String)
  | tagMembers (tag : String)
  | recentEvents (limit : Nat)
  /-- Empties the store; what the engine knows of a warm-up is not touched. -/
  | clear
  /-- Who is registered with the engine and how it is set up changes, but not what it knows of a
  warm-up. -/
  | configure (f : Memory V → Memory V) (h : ∀ m, (f m).warm = m.warm)
  | close
  /-- A job has its turn. -/
  | turn (job : Job)
  /-- Time passes. -/
  | sleep (ms : Nat)

namespace Operation

/-- What is done; what it results in is left out. -/
def act : Operation V → Program V Unit
  | warmUp => WarmUp.warmUp.ignore
  | isWarm => WarmUp.isWarm.ignore
  | reset => WarmUp.reset.ignore
  | invalidateAll => Service.invalidateAll.ignore
  | warmUpKeys keys => (WarmUp.warmUpKeys keys).ignore
  | warmUpSelective test => (WarmUp.warmUpSelective test).ignore
  | client f r => (r.act f).ignore
  | read key => (Strategy.read key).ignore
  | write key v life => (Strategy.write key v life).ignore
  | delete key => (Strategy.delete key).ignore
  | switch policy => Strategy.switch policy
  | getOrLoad key => (Service.getOrLoad key).ignore
  | reload key => (Reload.reload key).ignore
  | reloadBatch keys => (Reload.reloadBatch keys).ignore
  | reloadAll => Reload.reloadAll.ignore
  | setReloadConfig c => (Service.setReloadConfig c).ignore
  | startSchedule => Reload.startSchedule.ignore
  | stopSchedule => Reload.stopSchedule
  | invalidate key => (Invalidation.invalidate key).ignore
  | invalidatePattern pattern => (Invalidation.invalidatePattern pattern).ignore
  | invalidateTags tags => (Invalidation.invalidateTags tags).ignore
  | invalidateAndReload key => (Service.invalidateAndReload key).ignore
  | addDependency key deps => (Invalidation.addDependency key deps).ignore
  | removeDependency key => (Invalidation.removeDependency key).ignore
  | dependents key => (Invalidation.dependents key).ignore
  | setWithTags f key a life tags => (Service.setWithTags f key a life tags).ignore
  | addTags key tags => (Invalidation.addTags key tags).ignore
  | tagMembers tag => (Invalidation.tagMembers tag).ignore
  | recentEvents limit => (Invalidation.recentEvents limit).ignore
  | clear => Invalidation.invalidateAll.ignore
  | configure f _ => Program.change f
  | close => Service.close
  | turn job => job.turn
  | sleep ms => Program.pause ms

end Operation

namespace Fleet

/-- An engine, and what is done with it. -/
structure Move (V : Type) : Type 1 where
  engine : Nat
  op : Operation V

/-- The fleet before and after an operation. Of an operation that may wait it can be a single
request, while what comes before and after it is still to be done. -/
inductive Move.Takes (m : Move V) (f : Fleet V) : Fleet V → Prop where
  | whole {log : List (Exchange V)} {t : Scene V}
      (hcourse : m.op.act.Course (f.scene m.engine) log () t) : m.Takes f (f.put m.engine t)
  | part {q : Ask V} {a : Answer q} {t : Scene V} (hwaits : ¬ m.op.act.Hurries)
      (hmakes : m.op.act.Makes q) (hget : q.MayGet (f.scene m.engine) a t) :
      m.Takes f (f.put m.engine t)

/-- Operations on the engines turn the one fleet into the other, and each of them is as is said. -/
inductive Lives (ok : Fleet V → Move V → Fleet V → Prop) (f : Fleet V) : Fleet V → Prop where
  | still : f.Lives ok f
  | moves {g h : Fleet V} {m : Move V} (hlives : f.Lives ok g) (htakes : m.Takes g h)
      (hok : ok g m h) : f.Lives ok h

/-- A program of an engine may go this way. Whenever it waits, anything may be done with the engines
meanwhile. -/
inductive Runs (i : Nat) :
    Program V α → Fleet V → List (Exchange V) → α → Fleet V → Prop where
  | done (a : α) (f : Fleet V) : Runs i (.done a) f [] a f
  | ask {q : Ask V} {next : Answer q → Program V α} {f g : Fleet V} {a : Answer q} {t : Scene V}
      {log : List (Exchange V)} {r : α} (hquick : q.isWait = false)
      (hget : q.MayGet (f.scene i) a t) (rest : Runs i (next a) (f.put i t) log r g) :
      Runs i (.ask q next) f (⟨f.world.now, q, a⟩ :: log) r g
  | wait {w : Wait V} {next : Unit → Program V α} {f g h : Fleet V} {t : Scene V}
      {log : List (Exchange V)} {r : α} (hlives : f.Lives (fun _ _ _ => True) g)
      (hget : (Ask.wait w).MayGet (g.scene i) () t)
      (rest : Runs i (next ()) (g.put i t) log r h) :
      Runs i (.ask (.wait w) next) f (⟨g.world.now, .wait w, ()⟩ :: log) r h

/-! ## What is preserved -/

namespace Move.Takes

variable {m : Move V} {f g : Fleet V}

/-- What none of its requests spoils, an operation does not spoil. -/
theorem preserves {Q : Ask V → Prop} {P : Scene V → Prop}
    (hstep : ∀ {q : Ask V} {s t : Scene V} {a : Answer q}, Q q → q.MayGet s a t → P s → P t)
    (h : m.Takes f g) (hop : m.op.act.Each Q) (hP : P (f.scene m.engine)) :
    P (g.scene m.engine) := by
  cases h with
  | whole hcourse =>
    rw [scene_put_self]
    exact hcourse.preserves hstep hop hP
  | part _ hmakes hget =>
    rw [scene_put_self]
    exact hstep (hmakes.of_each hop) hget hP

/-- Other engines keep what they know. -/
theorem memory_other (h : m.Takes f g) {j : Nat} (hj : m.engine ≠ j) :
    g.memory j = f.memory j := by
  cases h <;> exact memory_put_other (Ne.symm hj)

theorem steady (h : m.Takes f g) (hs : f.world.Steady) : g.world.Steady :=
  h.preserves (P := fun s => s.world.Steady) (fun _ hget hs => Ask.steady_of_mayGet hs hget)
    (Program.each_true _) hs

theorem now_le (h : m.Takes f g) : f.world.now ≤ g.world.now :=
  h.preserves (P := fun s => f.world.now ≤ s.world.now)
    (fun _ hget hle => Nat.le_trans hle (Ask.now_le_of_mayGet hget)) (Program.each_true _)
    (Nat.le_refl _)

end Move.Takes

variable {ok : Fleet V → Move V → Fleet V → Prop} {f g h : Fleet V} {i : Nat}
  {p : Program V α} {log : List (Exchange V)} {r : α}

namespace Lives

theorem preserves {P : Fleet V → Prop}
    (hstep : ∀ {f g : Fleet V} {m : Move V}, m.Takes f g → ok f m g → P f → P g)
    (h : f.Lives ok g) (hP : P f) : P g := by
  induction h with
  | still => exact hP
  | moves _ htakes hok ih => exact hstep htakes hok ih

theorem steady (h : f.Lives ok g) (hs : f.world.Steady) : g.world.Steady :=
  h.preserves (P := fun f => f.world.Steady) (fun htakes _ hs => htakes.steady hs) hs

end Lives

/-! ## Programs in a fleet -/

namespace Runs

/-- A program may go in a fleet as it may go by itself. -/
theorem of_course {s t : Scene V} (h : p.Course s log r t) (hf : f.scene i = s) :
    f.Runs i p log r (f.put i t) := by
  induction h generalizing f with
  | done a s =>
    rw [← hf, put_scene]
    exact .done a f
  | @ask q next s t u a log r hget rest ih =>
    subst hf
    have hrest : (f.put i t).Runs i (next a) log r ((f.put i t).put i u) := ih scene_put_self
    rw [put_put] at hrest
    cases q with
    | wait w => exact .wait .still hget hrest
    | _ => exact .ask rfl hget hrest

/-- A program that never waits goes in a fleet as it may go by itself. -/
theorem course (h : f.Runs i p log r g) (hp : p.Hurries) :
    ∃ t, p.Course (f.scene i) log r t ∧ g = f.put i t := by
  induction h with
  | done a f => exact ⟨f.scene i, .done a _, put_scene.symm⟩
  | ask _ hget rest ih =>
    obtain ⟨t, hcourse, rfl⟩ := ih (hp.2 _)
    rw [scene_put_self] at hcourse
    exact ⟨t, .ask hget hcourse, put_put⟩
  | wait => cases hp.1

theorem of_bind {k : α → Program V β} {r : β} (h : f.Runs i (p >>= k) log r g) :
    ∃ log₁ a f' log₂, f.Runs i p log₁ a f' ∧ f'.Runs i (k a) log₂ r g ∧ log = log₁ ++ log₂ := by
  induction p generalizing f log with
  | done a => exact ⟨[], a, f, log, .done a f, h, rfl⟩
  | ask q next ih =>
    rw [Program.bind_ask] at h
    cases h with
    | ask hquick hget rest =>
      obtain ⟨log₁, a, f', log₂, hp, hk, rfl⟩ := ih _ rest
      exact ⟨_, a, f', log₂, .ask hquick hget hp, hk, rfl⟩
    | wait hlives hget rest =>
      obtain ⟨log₁, a, f', log₂, hp, hk, rfl⟩ := ih _ rest
      exact ⟨_, a, f', log₂, .wait hlives hget hp, hk, rfl⟩

theorem of_pure {a : α} (h : f.Runs i (pure a : Program V α) log r g) :
    log = [] ∧ r = a ∧ g = f := by
  cases h
  exact ⟨rfl, rfl, rfl⟩

theorem of_then {a : Action V α} {k : α → Action V β} {r : Except Error β}
    (h : f.Runs i (a >>= k).outcome log r g) :
    (∃ log₁ x f' log₂, f.Runs i a.outcome log₁ (.ok x) f' ∧ f'.Runs i (k x).outcome log₂ r g ∧
      log = log₁ ++ log₂) ∨
    ∃ e, r = .error e ∧ f.Runs i a.outcome log (.error e) g := by
  rw [Action.outcome_bind] at h
  obtain ⟨log₁, result, f', log₂, ha, hk, rfl⟩ := h.of_bind
  cases result with
  | ok x => exact .inl ⟨log₁, x, f', log₂, ha, hk, rfl⟩
  | error e =>
    obtain ⟨rfl, rfl, rfl⟩ := hk.of_pure
    exact .inr ⟨e, rfl, by rwa [List.append_nil]⟩

theorem steady (h : f.Runs i p log r g) (hs : f.world.Steady) : g.world.Steady := by
  induction h with
  | done a f => exact hs
  | ask _ hget rest ih => exact ih (Ask.steady_of_mayGet hs hget)
  | wait hlives hget rest ih => exact ih (Ask.steady_of_mayGet (hlives.steady hs) hget)

end Runs
end Fleet
end CacheLayer
