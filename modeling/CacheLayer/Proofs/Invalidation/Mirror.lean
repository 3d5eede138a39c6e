/-
The mirrors of dependencies in the store. What is registered for a key goes on the record of the
engine and into a set in the store, which lives for a day from then on. Errands about other keys
touch neither; to those about the key the set is as good as before as long as it lives (`Mirrors`,
`Mirrors.errands`).
-/
import CacheLayer.Proofs.Invalidation.Target
import CacheLayer.Proofs.Store.Lifetime

namespace CacheLayer

variable {V : Type} {s t : Scene V} {key : String} {known : List String} {left : Nat}

namespace Invalidation

open Scene

/-! ## Errands -/

/-- What is done about dependencies, and time that passes. -/
inductive Errand where
  | register (key : String) (dependents : List String)
  | lookUp (key : String)
  | pause (ms : Nat)
  deriving DecidableEq

namespace Errand

def act : Errand → Action V Unit
  | register key dependents => addDependency key dependents
  | lookUp key => do
    let _ ← dependents key
  | pause ms => Action.always (Program.pause ms)

/-- The dependents that the errand registers for a key. -/
def registers (key : String) : Errand → List String
  | register k dependents => if k = key then dependents else []
  | _ => []

/-- How long the errand takes. -/
def takes : Errand → Nat
  | pause ms => ms
  | _ => 0

/-- The errand asks for the dependents of a key or registers some. -/
def isAbout (key : String) : Errand → Bool
  | lookUp k => k == key
  | e => !(e.registers key).isEmpty

/-- The scene after the errand, whether it fails or not. -/
def after (e : Errand) (s : Scene V) : Scene V := (e.act.outcome.run s).2

end Errand

/-- The scene after all errands. -/
def afterErrands (es : List Errand) (s : Scene V) : Scene V := es.foldl (fun s e => e.after s) s

/-- All dependents that are registered for a key. -/
def registered (key : String) (es : List Errand) : List String := es.flatMap (Errand.registers key)

/-- A mirrored set that still lives for so long, if there is one, lives on through the errands. -/
def outlasts (key : String) : Nat → List Errand → Bool
  | _, [] => true
  | left, e :: es => (left == 0 || decide (e.takes < left)) &&
      outlasts key (if (e.registers key).isEmpty then left - e.takes else Marker.dependencyLife) es

theorem afterErrands_append (es es' : List Errand) (s : Scene V) :
    afterErrands (es ++ es') s = afterErrands es' (afterErrands es s) := List.foldl_append

theorem serving_afterErrands (hs : s.Serving) (es : List Errand) :
    (afterErrands es s).Serving := by
  induction es generalizing s with
  | nil => exact hs
  | cons e es ih => exact ih (Program.serving_run hs _)

theorem registers_self (key : String) (ds : List String) :
    (Errand.register key ds).registers key = ds := if_pos rfl

/-- Only a registration of dependents of the key registers any. -/
theorem of_registers {e : Errand} (h : e.registers key ≠ []) :
    ∃ ds, ds ≠ [] ∧ e = .register key ds := by
  cases e with
  | register k ds =>
    obtain ⟨rfl, hds⟩ : k = key ∧ ds ≠ [] := by simpa [Errand.registers] using h
    exact ⟨ds, hds, rfl⟩
  | lookUp k => exact absurd rfl h
  | pause ms => exact absurd rfl h

theorem of_isAbout {e : Errand} (h : e.isAbout key = true) :
    e = .lookUp key ∨ ∃ ds, ds ≠ [] ∧ e = .register key ds := by
  cases e with
  | register k ds =>
    refine .inr (of_registers ?_)
    simpa [Errand.isAbout] using h
  | lookUp k =>
    obtain rfl : k = key := by simpa [Errand.isAbout] using h
    exact .inl rfl
  | pause ms => cases h

theorem registers_idle {e : Errand} (h : e.isAbout key = false) : e.registers key = [] := by
  by_contra hnone
  obtain ⟨ds, hds, rfl⟩ := of_registers hnone
  simp [Errand.isAbout, registers_self, hds] at h

/-! ## The record of a key -/

/-- What registering dependents puts on record. -/
theorem memory_addDependency {ds : List String} (hds : ds ≠ []) (s : Scene V) :
    ((addDependency key ds).outcome.run s).2.memory =
      addDependents key (KeySet.ofMembers ds) s.memory := by
  have hsome : ds.isEmpty = false := List.isEmpty_eq_false_iff.2 hds
  rw [addDependency]
  simp only [hsome, Bool.false_eq_true, if_false]
  rw [Action.run_always_bind, Program.run_change]
  exact Program.run_keeps (g := fun m => m) (Program.each_then (Program.each_lift trivial) fun _ =>
    Program.each_then (Program.each_lift trivial) fun _ => Program.each_pure _) _

/-- The record of a key is not touched by errands about other keys. -/
theorem record_idle {e : Errand} (h : e.isAbout key = false) (s : Scene V) :
    (e.after s).memory.dependents.get? key = s.memory.dependents.get? key := by
  have hkeep {k : String} (hk : k ≠ key) (ks : KeySet) (m : Memory V) :
      (addDependents k ks m).dependents.get? key = m.dependents.get? key :=
    KeyMap.get?_insert_other _ _ hk.symm
  cases e with
  | register k ds =>
    by_cases hds : ds = []
    · subst hds
      rfl
    · have hk : k ≠ key := by
        rintro rfl
        simp [Errand.isAbout, Errand.registers, hds] at h
      rw [Errand.after, Errand.act, memory_addDependency hds, hkeep hk]
  | lookUp k =>
    have hk : k ≠ key := by simpa [Errand.isAbout] using h
    refine Program.run_keeps (g := fun m => m.dependents.get? key) ?_ s
    exact Program.each_then (each_dependents (fun _ => rfl) trivial (hkeep hk)) fun _ =>
      Program.each_pure _
  | pause ms =>
    refine Program.run_keeps (g := fun m => m.dependents.get? key) ?_ s
    exact Program.each_always (Program.each_pause trivial (fun _ => trivial) ms)

/-! ## The mirror of a key -/

theorem marker_ne {k : String} (h : k ≠ key) : Marker.dependency k ≠ Marker.dependency key := by
  intro heq
  have htoList := congrArg String.toList heq
  simp only [Marker.dependency, String.toList_append, List.append_cancel_left_eq] at htoList
  exact h (String.toList_inj.1 htoList)

/-- The mirrored set of a key only grows old while no dependents of the key are registered. -/
theorem mirror_idle (hs : s.Serving) {e : Errand} (h : e.registers key = []) :
    (e.after s).world.now = s.world.now + e.takes ∧
      (e.after s).live? (Marker.dependency key) =
        (s.live? (Marker.dependency key)).filter fun x => !x.isDead (s.world.now + e.takes) := by
  have hstill (t : Scene V) (hnow : t.world.now = s.world.now)
      (hlive : t.live? (Marker.dependency key) = s.live? (Marker.dependency key)) :
      t.world.now = s.world.now + 0 ∧ t.live? (Marker.dependency key) =
        (s.live? (Marker.dependency key)).filter fun x => !x.isDead (s.world.now + 0) :=
    ⟨hnow, hlive.trans (Store.live?_later s.world.store (Nat.le_refl _) _)⟩
  cases e with
  | register k ds =>
    suffices hleaves : (addDependency k ds : Action V Unit).outcome.Each
        (Ask.Leaves (Marker.dependency key)) by
      obtain ⟨hnow, hlive⟩ := Program.run_leaves hs hleaves
      exact hstill _ hnow hlive
    unfold addDependency
    split
    · exact Program.each_pure _
    · next hds =>
      have hk : k ≠ key := by
        rintro rfl
        rw [registers_self] at h
        exact hds (List.isEmpty_iff.2 h)
      have hspares : (Marker.dependency k != Marker.dependency key) = true := by
        simpa using marker_ne hk
      exact Program.each_then (Program.each_always ⟨trivial, fun _ => trivial⟩) fun _ =>
        Program.each_then (Program.each_lift (.inr hspares)) fun _ =>
        Program.each_then (Program.each_lift (.inr hspares)) fun _ => Program.each_pure _
  | lookUp k =>
    obtain ⟨t, hrun, hagrees⟩ := run_dependents hs k
    have hafter : (Errand.lookUp k).after s = t := by
      rw [Errand.after, Errand.act, Action.run_bind, hrun]
      cases Store.toldMembers (Marker.dependency k) (s.dependents? k) <;> rfl
    rw [hafter]
    exact hstill t hagrees.now (hagrees.live _)
  | pause ms =>
    have hafter : (Errand.pause ms).after s = { s with world := s.world.later ms } := by
      rw [Errand.after, Errand.act, Action.run_always, Program.run_pause]
    rw [hafter]
    exact ⟨rfl, Store.live?_later s.world.store (Nat.le_add_right _ _) _⟩

/-- The mirrored set of the key has these members and lives for so long still; without a set there
are none, and nothing is left. -/
def Mirrors (s : Scene V) (key : String) (known : List String) (left : Nat) : Prop :=
  (left = 0 ∧ known = [] ∧ s.live? (Marker.dependency key) = none) ∨
    (0 < left ∧ ∃ set : KeySet,
      s.live? (Marker.dependency key) = some ⟨.set set, some (s.world.now + left)⟩ ∧
      ∀ d, d ∈ set.keys ↔ d ∈ known)

namespace Mirrors

theorem members (h : Mirrors s key known left) :
    ∃ ks, members? (s.live? (Marker.dependency key)) = some ks ∧ ∀ d, d ∈ ks ↔ d ∈ known := by
  rcases h with ⟨-, rfl, hlive⟩ | ⟨-, set, hlive, hmem⟩
  · exact ⟨[], by rw [hlive]; rfl, fun d => Iff.rfl⟩
  · exact ⟨set.keys, by rw [hlive]; rfl, hmem⟩

/-- Registering dependents of a key puts them into the mirrored set, which then lives for a day. -/
theorem register (hs : s.Serving) (h : Mirrors s key known left) {ds : List String}
    (hds : ds ≠ []) :
    Mirrors ((addDependency key ds).outcome.run s).2 key (known ++ ds) Marker.dependencyLife := by
  have hsome : ds.isEmpty = false := List.isEmpty_eq_false_iff.2 hds
  obtain ⟨ks, hks, hknown⟩ := h.members
  generalize hrecorded : ({ s with
    memory := addDependents key (KeySet.ofMembers ds) s.memory } : Scene V) = u
  have hworld : u.world = s.world := by rw [← hrecorded]
  have hu : u.world.Steady := hworld ▸ hs.steady
  have hks' : members? (u.world.store.live? u.world.now (Marker.dependency key)) = some ks := by
    rw [hworld]
    exact hks
  obtain ⟨⟨n, hn⟩, set, deadline, hset, hmem⟩ := Store.live?_addMembers hks' hds
  have hadd := Action.run_command hu (.addMembers (Marker.dependency key) ds)
  rw [hn] at hadd
  generalize ((Store.Call.addMembers (Marker.dependency key) ds).run u.world.now u.world.store).2 =
    store at hadd hset
  obtain ⟨hyes, hlive⟩ := Store.live?_expire hset (show 0 < Marker.dependencyLife by decide)
  have hexpire := Action.run_command (s := u.withStore store) hu
    (.expire (Marker.dependency key) Marker.dependencyLife)
  rw [show ((Store.Call.expire _ _).run (u.withStore store).world.now
    (u.withStore store).world.store).1 = .ok true from hyes] at hexpire
  have hrun : (addDependency key ds).outcome.run s = (.ok (), u.withStore
      ((Store.Call.expire (Marker.dependency key) Marker.dependencyLife).run u.world.now
        store).2) := by
    rw [addDependency]
    simp only [hsome, Bool.false_eq_true, if_false]
    rw [Action.run_always_bind, Program.run_change, hrecorded]
    exact (Action.run_bind_ok hadd).trans (Action.run_bind_ok hexpire)
  rw [hrun]
  refine .inr ⟨by decide, set, hlive, fun d => ?_⟩
  rw [hmem, hknown, List.mem_append]

/-- An errand takes the mirrored set along, unless it takes longer than the set lives. -/
theorem errand (hs : s.Serving) (h : Mirrors s key known left) {e : Errand}
    (hlasts : left = 0 ∨ e.takes < left) :
    Mirrors (e.after s) key (known ++ e.registers key)
      (if (e.registers key).isEmpty then left - e.takes else Marker.dependencyLife) := by
  by_cases hnone : e.registers key = []
  · obtain ⟨hnow, hlive⟩ := mirror_idle hs hnone
    rw [hnone, List.append_nil, List.isEmpty_nil, if_pos rfl]
    rcases h with ⟨rfl, hknown, hlive₀⟩ | ⟨hleft, set, hlive₀, hmem⟩
    · exact .inl ⟨Nat.zero_sub _, hknown, by rw [hlive, hlive₀]; rfl⟩
    · have hlater : e.takes < left := hlasts.resolve_left (Nat.ne_of_gt hleft)
      refine .inr ⟨Nat.sub_pos_of_lt hlater, set, ?_, hmem⟩
      have halive : ¬ s.world.now + left ≤ s.world.now + e.takes := by omega
      have hdeadline : s.world.now + e.takes + (left - e.takes) = s.world.now + left := by omega
      rw [hlive, hlive₀, hnow, hdeadline]
      simp [Option.filter, Entry.isDead, halive]
  · rw [if_neg (by simpa using hnone)]
    obtain ⟨ds, hds, rfl⟩ := of_registers hnone
    rw [registers_self]
    exact h.register hs hds

/-- Errands take the mirrored set along if it outlasts them, and it is as good as before for those
that follow. -/
theorem errands (hs : s.Serving) (h : Mirrors s key known left) {es rest : List Errand}
    (hlasts : outlasts key left (es ++ rest) = true) :
    ∃ left', Mirrors (afterErrands es s) key (known ++ registered key es) left' ∧
      outlasts key left' rest = true := by
  induction es generalizing s known left with
  | nil => exact ⟨left, by simpa [afterErrands, registered] using h, hlasts⟩
  | cons e es ih =>
    simp only [List.cons_append, outlasts, Bool.and_eq_true, Bool.or_eq_true, beq_iff_eq,
      decide_eq_true_eq] at hlasts
    obtain ⟨left', h', hrest⟩ := ih (Program.serving_run hs _) (h.errand hs hlasts.1) hlasts.2
    refine ⟨left', ?_, hrest⟩
    rw [registered, List.flatMap_cons, ← List.append_assoc]
    exact h'

end Mirrors

end Invalidation
end CacheLayer
