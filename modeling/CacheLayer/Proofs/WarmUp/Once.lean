/-
A warm-up takes place once. An engine keeps a flag in its memory, which only a reset takes down; what
all engines can see is a marker in the store, which dies after a day and can be removed before. A
warm-up that finds its flag up or the marker there is skipped (`Fleet.Skips`), one that finds neither
is carried out (`Fleet.Loads`). The marker is a key like any other: whoever stores something there
makes the cache look warm.

Main statement: `warmUp_once`.
-/
import CacheLayer.Proofs.Reload.Lifecycle
import CacheLayer.Proofs.WarmUp.Flag

namespace CacheLayer

variable {V : Type} {s t : Scene V} {log : List (Exchange V)}

/-! ## What an engine can see -/

/-- The engine knows that the cache is warm, or the marker is there. -/
def Scene.seesWarm (s : Scene V) : Bool := s.memory.warm || (s.live? Marker.warmedUp).isSome

namespace WarmUp

theorem run_isWarm (hs : s.world.Steady ∨ s.memory.warm = true) :
    ∃ store : Store, (∀ key, store.live? s.world.now key = s.live? key) ∧
      isWarm.outcome.run s = (.ok s.seesWarm,
        ⟨{ s.world with store := store }, { s.memory with warm := s.seesWarm }⟩) := by
  unfold isWarm
  rw [Action.run_always_bind, Program.run_memory]
  cases hwarm : s.memory.warm with
  | true =>
    have hsees : s.seesWarm = true := by rw [Scene.seesWarm, hwarm, Bool.true_or]
    have hkept : { s.memory with warm := true } = s.memory := by rw [← hwarm]
    refine ⟨s.world.store, fun _ => rfl, ?_⟩
    rw [if_pos rfl, hsees, hkept]
    rfl
  | false =>
    have hsees : s.seesWarm = (s.live? Marker.warmedUp).isSome := by
      rw [Scene.seesWarm, hwarm, Bool.false_or]
    have hsteady : s.world.Steady := hs.resolve_right (by simp [hwarm])
    have hhas : (Client.has Marker.warmedUp : Action V Bool).outcome.run s =
        (.ok s.seesWarm, s.withStore (s.world.store.purge s.world.now Marker.warmedUp)) := by
      refine (Action.run_command hsteady _).trans (Prod.ext ?_ rfl)
      rw [hsees]
      exact Store.has_of_live? rfl
    refine ⟨s.world.store.purge s.world.now Marker.warmedUp,
      fun _ => Store.live?_purge _ _ _ (Nat.le_refl _) _ _, ?_⟩
    rw [if_neg Bool.false_ne_true, Action.run_bind_ok hhas]
    cases hseen : s.seesWarm with
    | true => rfl
    | false =>
      have hkept : { s.memory with warm := false } = s.memory := by rw [← hwarm]
      rw [hkept]
      rfl

/-- Whoever asks whether the cache is warm remembers it if it is. Nothing else happens, and no key is
touched. -/
theorem course_isWarm (hs : s.world.Steady ∨ s.memory.warm = true) {r : Except Error Bool}
    (h : isWarm.outcome.Course s log r t) :
    r = .ok s.seesWarm ∧ (∀ e ∈ log, e.ask.toSource = false) ∧
      ∃ store : Store, (∀ key, store.live? s.world.now key = s.live? key) ∧
        t = ⟨{ s.world with store := store }, { s.memory with warm := s.seesWarm }⟩ := by
  have hquiet : (isWarm : Action V Bool).outcome.Each fun q => q.toSource = false :=
    each_isWarm (Q := fun q => q.toSource = false) rfl rfl rfl
  obtain ⟨store, hlive, hrun⟩ := run_isWarm hs
  rw [h.eq_run hquiet] at hrun
  obtain ⟨rfl, rfl⟩ := Prod.mk.inj hrun
  exact ⟨rfl, h.forall_ask hquiet, store, hlive, rfl⟩

/-- The engine knows that the cache is warm, and if that went well the marker is there from now on. -/
theorem course_markWarm {r : Except Error Unit} (h : markWarm.outcome.Course s log r t) :
    t.memory.warm = true ∧ (s.world.Steady → r = .ok () → ∃ v, t.live? Marker.warmedUp =
      some (.born v (some Marker.warmedUpLife) t.world.now)) := by
  obtain ⟨log₁, ⟨⟩, s₁, log₂, hraise, hset, rfl⟩ := Action.course_always_then h
  obtain rfl := hraise.of_change
  refine ⟨hset.keeps (looks_mark.keeps Memory.warm), fun hs hr => ?_⟩
  obtain ⟨-, -, hnow, ⟨e, -, herror, -⟩ | ⟨b, -, -, -, hstore⟩⟩ :=
    Reload.course_set (s := { s with memory := { s.memory with warm := true } }) hs hset
  · rw [hr] at herror
    cases herror
  · refine ⟨.bytes b, ?_⟩
    have halive : (Entry.born (.bytes b) (some Marker.warmedUpLife) s.world.now).isDead
        s.world.now = false := by
      simp [Entry.isDead, Entry.born, Marker.warmedUpLife, Marker.hour]
    rw [Scene.live?, hstore, hnow, Store.set, Store.live?_put_self, halive]
    rfl

/-- After a reset there is neither flag nor marker. -/
theorem course_reset (hs : s.world.Steady) {r : Except Error Unit}
    (h : reset.outcome.Course s log r t) :
    t.memory.warm = false ∧ t.live? Marker.warmedUp = none := by
  obtain ⟨log₁, ⟨⟩, s₁, log₂, hlower, hrest, rfl⟩ := Action.course_always_then h
  obtain rfl := hlower.of_change
  have hdeleted : ∀ {log : List (Exchange V)} {answer : Except Error Bool} {u : Scene V},
      (Client.delete Marker.warmedUp).outcome.Course
        { s with memory := { s.memory with warm := false } } log answer u →
      u.memory.warm = false ∧ u.live? Marker.warmedUp = none := by
    intro log answer u hdelete
    obtain ⟨-, rfl, -⟩ := Action.course_command
      (s := { s with memory := { s.memory with warm := false } }) hs hdelete
    exact ⟨rfl, Store.live?_drop_self _ _ _⟩
  rcases Action.course_then hrest with ⟨log₃, found, u, log₄, hdelete, hreturn, rfl⟩ |
    ⟨e, -, hdelete⟩
  · obtain ⟨-, -, rfl⟩ := hreturn.of_pure
    exact hdeleted hdelete
  · exact hdeleted hdelete

/-- To empty a steady store does not fail, so the reset that follows is made. -/
theorem course_invalidateAll (hs : s.world.Steady) {r : Except Error Unit}
    (h : Service.invalidateAll.outcome.Course s log r t) :
    t.memory.warm = false ∧ t.live? Marker.warmedUp = none := by
  rcases Action.course_then h with ⟨log₁, ⟨⟩, u, log₂, hclear, hreset, rfl⟩ | ⟨e, rfl, hclear⟩
  · exact course_reset (hclear.steady hs) hreset
  · obtain ⟨log₁, start, s₁, log₂, hnow, hrest, rfl⟩ := Action.course_always_then hclear
    obtain ⟨hget, -⟩ := hnow.of_lift
    obtain ⟨-, rfl⟩ := Prod.mk.inj hget
    rcases Action.course_then hrest with ⟨log₃, ⟨⟩, s₂, log₄, -, hrest', rfl⟩ | ⟨e, -, hflush⟩
    · obtain ⟨log₅, ⟨⟩, s₃, log₆, -, hrecord, rfl⟩ := Action.course_always_then hrest'
      rw [Action.outcome_always] at hrecord
      obtain ⟨log₇, ⟨⟩, s₄, log₈, -, hdone, rfl⟩ := hrecord.of_bind
      obtain ⟨-, herror, -⟩ := hdone.of_pure
      cases herror
    · obtain ⟨herror, -⟩ := Action.course_command hs hflush
      cases herror

/-- What a warm-up does if the cache is not warm. -/
def perform : Action V WarmUpResult := do
  let result ← load (← candidates)
  markWarm
  return ⟨true, result⟩

end WarmUp

namespace Fleet

open WarmUp

variable {f g : Fleet V} {i : Nat} {m : Move V}

/-- The marker of a warm cache, while it is there. -/
def marker? (f : Fleet V) : Option Entry := f.live? Marker.warmedUp

def seesWarm (f : Fleet V) (i : Nat) : Bool := (f.scene i).seesWarm

theorem seesWarm_of_flag (h : (f.memory i).warm = true) : f.seesWarm i = true := by
  rw [seesWarm, Scene.seesWarm, show (f.scene i).memory.warm = true from h, Bool.true_or]

theorem seesWarm_of_marker (h : f.marker?.isSome = true) (i : Nat) : f.seesWarm i = true := by
  rw [seesWarm, Scene.seesWarm, show ((f.scene i).live? Marker.warmedUp).isSome = true from h,
    Bool.or_true]

theorem not_seesWarm (hdown : (f.memory i).warm = false) (hnone : f.marker? = none) :
    f.seesWarm i = false := by
  rw [seesWarm, Scene.seesWarm, show (f.scene i).memory.warm = false from hdown,
    show (f.scene i).live? Marker.warmedUp = none from hnone]
  rfl

/-- The fleet with another store. -/
def withStore (f : Fleet V) (store : Store) : Fleet V :=
  { f with world := { f.world with store := store } }

/-! ## What the others do -/

/-- The engine is not reset. -/
def Remembers (i : Nat) (_ : Fleet V) (m : Move V) (_ : Fleet V) : Prop :=
  m.engine = i → m.op.forgets = false

/-- The marker is what it was, or it has died of age. -/
def SparesMarker (f : Fleet V) (_ : Move V) (g : Fleet V) : Prop :=
  g.marker? = f.marker?.filter fun e => !e.isDead g.world.now

/-- The engine does not warm the cache up, and no one puts the marker where there was none. -/
def LeavesCold (i : Nat) (f : Fleet V) (m : Move V) (g : Fleet V) : Prop :=
  (m.engine = i → m.op.warms = false) ∧ (f.marker? = none → g.marker? = none)

/-- An engine that asks whether the cache is warm does not put its flag up where there is no marker. -/
theorem Move.Takes.flag_of_isWarm (h : m.Takes f g) (hask : m.op = .isWarm) (hs : f.world.Steady)
    (hdown : (f.memory m.engine).warm = false) (hnone : f.marker? = none) :
    (g.memory m.engine).warm = false := by
  obtain ⟨i, op⟩ := m
  subst hask
  cases h with
  | whole hcourse =>
    obtain ⟨log₁, r, t, log₂, hwarm, hdone, -⟩ := Program.Course.of_bind hcourse
    obtain ⟨-, -, rfl⟩ := hdone.of_pure
    obtain ⟨-, -, store, -, rfl⟩ := course_isWarm (.inl hs) hwarm
    rw [memory_put_self]
    exact not_seesWarm hdown hnone
  | part hwaits => exact absurd (Program.each_ignore hurries_isWarm) hwaits

/-- An engine that is not reset keeps its flag up. -/
theorem Lives.flag_up (hlives : f.Lives (Remembers i) g) (hf : (f.memory i).warm = true) :
    (g.memory i).warm = true := by
  refine hlives.preserves (P := fun f => (f.memory i).warm = true) ?_ hf
  intro f g m htakes hok hup
  by_cases hi : m.engine = i
  · subst hi
    exact htakes.preserves (P := fun s => s.memory.warm = true) Ask.flag_of_mayGet
      (Operation.holds_up (hok rfl)) hup
  · rw [htakes.memory_other hi]
    exact hup

/-- Where the marker is spared, it is there until it dies of age. -/
theorem Lives.marker (hlives : f.Lives SparesMarker g) :
    f.world.now ≤ g.world.now ∧
      g.marker? = f.marker?.filter fun e => !e.isDead g.world.now := by
  refine hlives.preserves (P := fun g => f.world.now ≤ g.world.now ∧
    g.marker? = f.marker?.filter fun e => !e.isDead g.world.now) ?_ ?_
  · intro g h m htakes hspares hg
    obtain ⟨hle, hmarker⟩ := hg
    refine ⟨Nat.le_trans hle htakes.now_le, hspares.trans ?_⟩
    rw [hmarker]
    exact Store.filter_later htakes.now_le _
  · exact ⟨Nat.le_refl _, Store.live?_later _ (Nat.le_refl _) _⟩

/-- Within a day, every engine sees the marker if it is spared. -/
theorem Lives.seesWarm (hlives : f.Lives SparesMarker g) (hf : ∃ value,
      f.marker? = some (.born value (some Marker.warmedUpLife) f.world.now))
    (hyoung : g.world.now < f.world.now + Marker.warmedUpLife) (i : Nat) :
    g.seesWarm i = true := by
  obtain ⟨value, hmarker⟩ := hf
  refine seesWarm_of_marker ?_ i
  rw [hlives.marker.2, hmarker, Store.isSome_born, Option.all_some]
  exact decide_eq_true hyoung

/-- The request is no command that does anything to the marker. -/
def IgnoresMarker : Ask V → Prop
  | .command c => c.spares Marker.warmedUp = true
  | _ => True

theorem IgnoresMarker.live? {q : Ask V} {a : Answer q} (hq : IgnoresMarker q)
    (hget : q.MayGet s a t) :
    t.live? Marker.warmedUp = (s.live? Marker.warmedUp).filter fun e => !e.isDead t.world.now := by
  cases q with
  | command c =>
    obtain ⟨-, rfl⟩ := Prod.mk.inj hget
    change (s.world.command c).2.store.live? (s.world.command c).2.now Marker.warmedUp =
      (s.world.store.live? s.world.now Marker.warmedUp).filter fun e =>
        !e.isDead (s.world.command c).2.now
    obtain ⟨scripts, ⟨e, hfailed⟩ | hdone⟩ := s.world.command_cases c
    · rw [hfailed]
      exact Store.live?_later _ (Nat.le_refl _) _
    · rw [hdone]
      exact (Store.live?_spared _ _ hq).trans (Store.live?_later _ (Nat.le_refl _) _)
  | _ => exact Ask.live?_of_mayGet (by rintro c ⟨⟩) hget _

/-- An operation spares the marker if all its requests do. -/
theorem Move.Takes.sparesMarker (h : m.Takes f g) (hs : f.world.Steady)
    (hop : m.op.act.Each IgnoresMarker) : SparesMarker f m g := by
  have hspared : g.world.Steady ∧ f.world.now ≤ g.world.now ∧ SparesMarker f m g := by
    refine h.preserves (P := fun s => s.world.Steady ∧ f.world.now ≤ s.world.now ∧
      s.live? Marker.warmedUp = f.marker?.filter fun e => !e.isDead s.world.now) ?_ hop
      ⟨hs, Nat.le_refl _, Store.live?_later _ (Nat.le_refl _) _⟩
    intro q s t a hq hget ⟨hs, hle, hlive⟩
    refine ⟨Ask.steady_of_mayGet hs hget, Nat.le_trans hle (Ask.now_le_of_mayGet hget), ?_⟩
    rw [hq.live? hget, hlive]
    exact Store.filter_later (Ask.now_le_of_mayGet hget) _
  exact hspared.2.2

theorem LeavesCold.of_spares (h : SparesMarker f m g) (hwarms : m.engine = i → m.op.warms = false) :
    LeavesCold i f m g := by
  refine ⟨hwarms, fun hnone => ?_⟩
  rw [SparesMarker, hnone] at h
  exact h

/-- The fleet when so much time has passed. -/
def later (f : Fleet V) (ms : Nat) : Fleet V := { f with world := f.world.later ms }

theorem takes_later (f : Fleet V) (i ms : Nat) :
    (⟨i, .sleep ms⟩ : Move V).Takes f (f.later ms) := by
  have hcourse := Program.course_run (Program.pause ms) (f.scene i)
  rw [Program.run_pause] at hcourse
  have hput : f.put i { f.scene i with world := f.world.later ms } = f.later ms := by
    simp [put, scene, later]
  exact hput ▸ .whole hcourse

theorem ignoresMarker_sleep (ms : Nat) : (Operation.sleep ms : Operation V).act.Each IgnoresMarker :=
  Program.each_pause (Q := IgnoresMarker) trivial (fun _ => trivial) ms

/-- An engine that does not warm the cache up stays cold while there is no marker. -/
theorem Lives.cold (hlives : f.Lives (LeavesCold i) g) (hs : f.world.Steady)
    (hf : (f.memory i).warm = false ∧ f.marker? = none) :
    (g.memory i).warm = false ∧ g.marker? = none := by
  have hcold : g.world.Steady ∧ (g.memory i).warm = false ∧ g.marker? = none := by
    refine hlives.preserves (P := fun f => f.world.Steady ∧ (f.memory i).warm = false ∧
      f.marker? = none) ?_ ⟨hs, hf⟩
    rintro f g m htakes ⟨hwarms, hmarker⟩ ⟨hs, hdown, hnone⟩
    refine ⟨htakes.steady hs, ?_, hmarker hnone⟩
    by_cases hi : m.engine = i
    · subst hi
      by_cases hask : m.op = .isWarm
      · exact htakes.flag_of_isWarm hask hs hdown hnone
      · exact htakes.preserves (P := fun s => s.memory.warm = false) Ask.flag_of_mayGet
          (Operation.holds_down (hwarms rfl) hask) hdown
    · rw [htakes.memory_other hi]
      exact hdown
  exact hcold.2

/-! ## Warm-ups in a fleet -/

/-- The warm-up has done nothing, except that the engine knows now that the cache is warm. -/
structure Skipped (f : Fleet V) (i : Nat) (log : List (Exchange V))
    (r : Except Error WarmUpResult) (g : Fleet V) : Prop where
  result : r = .ok ⟨false, {}⟩
  asks : ∀ e ∈ log, e.ask.toSource = false
  live : ∀ key, g.live? key = f.live? key
  now : g.world.now = f.world.now
  memory : g.memory = Function.update f.memory i { f.memory i with warm := true }

/-- A warm-up of the engine comes to an end, and it is skipped. -/
structure Skips (f : Fleet V) (i : Nat) : Prop where
  ends : ∃ log r g, f.Runs i warmUp.outcome log r g
  skipped : ∀ log r g, f.Runs i warmUp.outcome log r g → f.Skipped i log r g

/-- A warm-up of the engine comes to an end, whatever the sources answer, and it is carried out. -/
structure Loads (f : Fleet V) (i : Nat) : Prop where
  ends : ∀ answer, ∃ log r g, f.Runs i warmUp.outcome log r g ∧ Program.Heeds answer [] log
  loaded : ∀ log r g, f.Runs i warmUp.outcome log r g → ∃ log₁ store log₂,
    (f.withStore store).Runs i perform.outcome log₂ r g ∧ log = log₁ ++ log₂ ∧
      (∀ e ∈ log₁, e.ask.toSource = false) ∧
      ∀ key, store.live? f.world.now key = f.live? key
  performed : ∀ log result g, f.Runs i warmUp.outcome log (.ok result) g → result.performed = true

/-- A warm-up that has been carried out leaves the flag and the marker, which is new. -/
theorem Runs.of_perform {result : WarmUpResult} (h : f.Runs i perform.outcome log (.ok result) g) :
    result.performed = true ∧ (g.memory i).warm = true ∧ (f.world.Steady → ∃ value,
      g.marker? = some (.born value (some Marker.warmedUpLife) g.world.now)) := by
  rcases h.of_then with ⟨log₁, keys, f₁, log₂, hkeys, hrest₁, rfl⟩ | ⟨e, he, -⟩
  · rcases hrest₁.of_then with ⟨log₃, loaded, f₂, log₄, hload, hrest₂, rfl⟩ | ⟨e, he, -⟩
    · rcases hrest₂.of_then with ⟨log₅, ⟨⟩, f₃, log₆, hmark, hreturn, rfl⟩ | ⟨e, he, -⟩
      · obtain ⟨-, hresult, rfl⟩ := hreturn.of_pure
        obtain ⟨t, hcourse, rfl⟩ := hmark.course hurries_markWarm
        obtain ⟨hup, hmarker⟩ := course_markWarm hcourse
        refine ⟨?_, ?_, fun hs => ?_⟩
        · rw [Except.ok.inj hresult]
        · rw [memory_put_self]
          exact hup
        · exact hmarker (hload.steady (hkeys.steady hs)) rfl
      · cases he
    · cases he
  · cases he

theorem Runs.of_warmUp {result : ReloadResult}
    (h : f.Runs i warmUp.outcome log (.ok ⟨true, result⟩) g) :
    (g.memory i).warm = true ∧ (f.world.Steady → ∃ value,
      g.marker? = some (.born value (some Marker.warmedUpLife) g.world.now)) := by
  rcases h.of_then with ⟨log₁, warm, f', log₂, hwarm, hrest, rfl⟩ | ⟨e, he, -⟩
  · cases warm with
    | true =>
      rw [if_pos rfl] at hrest
      obtain ⟨-, hskipped, -⟩ := hrest.of_pure
      cases hskipped
    | false =>
      rw [if_neg Bool.false_ne_true] at hrest
      obtain ⟨-, hup, hmarker⟩ := Runs.of_perform hrest
      exact ⟨hup, fun hs => hmarker (hwarm.steady hs)⟩
  · cases he

theorem Runs.isWarm (hs : f.world.Steady ∨ (f.memory i).warm = true) {r : Except Error Bool}
    (h : f.Runs i isWarm.outcome log r g) :
    r = .ok (f.seesWarm i) ∧ (∀ e ∈ log, e.ask.toSource = false) ∧
      ∃ store : Store, (∀ key, store.live? f.world.now key = f.live? key) ∧
        g = f.put i ⟨{ f.world with store := store },
          { f.memory i with warm := f.seesWarm i }⟩ := by
  obtain ⟨t, hcourse, rfl⟩ := h.course hurries_isWarm
  obtain ⟨hr, hquiet, store, hlive, rfl⟩ := course_isWarm hs hcourse
  exact ⟨hr, hquiet, store, hlive, rfl⟩

theorem skips_of_seesWarm (hs : f.world.Steady ∨ (f.memory i).warm = true)
    (hsees : f.seesWarm i = true) : f.Skips i where
  ends := ⟨_, _, _, Runs.of_course (Program.course_run _ _) rfl⟩
  skipped log r g h := by
    rcases h.of_then with ⟨log₁, warm, f', log₂, hwarm, hrest, rfl⟩ | ⟨e, -, hwarm⟩
    · obtain ⟨hr, hquiet, store, hlive, rfl⟩ := hwarm.isWarm hs
      rw [hsees] at hr
      obtain rfl : warm = true := Except.ok.inj hr
      rw [if_pos rfl] at hrest
      obtain ⟨rfl, rfl, rfl⟩ := hrest.of_pure
      rw [hsees, List.append_nil]
      exact ⟨rfl, hquiet, hlive, rfl, rfl⟩
    · obtain ⟨hr, -⟩ := hwarm.isWarm hs
      cases hr

theorem loads_of_not_seesWarm (hs : f.world.Steady) (hsees : f.seesWarm i = false) :
    f.Loads i := by
  have hsplit : ∀ log r g, f.Runs i warmUp.outcome log r g → ∃ log₁ store log₂,
      (f.withStore store).Runs i perform.outcome log₂ r g ∧ log = log₁ ++ log₂ ∧
        (∀ e ∈ log₁, e.ask.toSource = false) ∧
        ∀ key, store.live? f.world.now key = f.live? key := by
    intro log r g h
    rcases h.of_then with ⟨log₁, warm, f', log₂, hwarm, hrest, rfl⟩ | ⟨e, -, hwarm⟩
    · obtain ⟨hr, hquiet, store, hlive, rfl⟩ := hwarm.isWarm (.inl hs)
      rw [hsees] at hr hrest
      obtain rfl : warm = false := Except.ok.inj hr
      have hdown : (f.memory i).warm = false := (Bool.or_eq_false_iff.1 hsees).1
      have hkept : { f.memory i with warm := false } = f.memory i := by rw [← hdown]
      have hsame : f.put i ⟨{ f.world with store := store }, f.memory i⟩ = f.withStore store := by
        simp [put, withStore]
      rw [if_neg Bool.false_ne_true, hkept, hsame] at hrest
      exact ⟨log₁, store, log₂, hrest, rfl, hquiet, hlive⟩
    · obtain ⟨hr, -⟩ := hwarm.isWarm (.inl hs)
      cases hr
  refine ⟨?_, hsplit, ?_⟩
  · intro answer
    obtain ⟨log, r, t, hcourse, hheeds⟩ := Program.exists_course answer warmUp.outcome (f.scene i) []
    exact ⟨log, r, f.put i t, Runs.of_course hcourse rfl, hheeds⟩
  · intro log result g h
    obtain ⟨log₁, store, log₂, hperform, -⟩ := hsplit _ _ _ h
    exact hperform.of_perform.1

/-! ## Once -/

/-- An engine that has its flag up skips its warm-ups until it is reset. -/
theorem Lives.skips (hlives : f.Lives (Remembers i) g) (hf : (f.memory i).warm = true) :
    g.Skips i := by
  have hup := hlives.flag_up hf
  exact skips_of_seesWarm (.inr hup) (seesWarm_of_flag hup)

theorem cold_of_reset {r : Except Error Unit} (hs : f.world.Steady)
    (h : f.Runs i reset.outcome log r g ∨ f.Runs i Service.invalidateAll.outcome log r g) :
    (g.memory i).warm = false ∧ g.marker? = none := by
  rcases h with h | h
  · obtain ⟨t, hcourse, rfl⟩ := h.course hurries_reset
    obtain ⟨hdown, hnone⟩ := course_reset hs hcourse
    exact ⟨by rw [memory_put_self, hdown], hnone⟩
  · obtain ⟨t, hcourse, rfl⟩ := h.course Service.hurries_invalidateAll
    obtain ⟨hdown, hnone⟩ := course_invalidateAll hs hcourse
    exact ⟨by rw [memory_put_self, hdown], hnone⟩

/-- **A warm-up takes place once.** After a warm-up that has been carried out, further ones of the
engine are skipped until it is reset. Those of all other engines are skipped as long as the marker is
spared and less than a day old; and once another engine has found it, its warm-ups are skipped until
it is reset itself, whatever becomes of the marker. After a reset the next warm-up is carried out,
unless the marker has been put there in between. -/
theorem warmUp_once (f : Fleet V) (i : Nat) :
    (∀ log result g, f.Runs i warmUp.outcome log (.ok ⟨true, result⟩) g →
      (∀ h, g.Lives (Remembers i) h → h.Skips i) ∧
      (f.world.Steady → ∀ h, g.Lives SparesMarker h →
        h.world.now < g.world.now + Marker.warmedUpLife → ∀ j, h.Skips j ∧ ∀ log u,
          ((∃ r, h.Runs j warmUp.outcome log r u) ∨ ∃ r, h.Runs j isWarm.outcome log r u) →
            ∀ v, u.Lives (Remembers j) v → v.Skips j)) ∧
    (f.world.Steady → ∀ log r g,
      (f.Runs i reset.outcome log r g ∨ f.Runs i Service.invalidateAll.outcome log r g) →
        ∀ h, g.Lives (LeavesCold i) h → h.Loads i) := by
  refine ⟨?_, ?_⟩
  · intro log result g hwarm
    obtain ⟨hup, hmarker⟩ := hwarm.of_warmUp
    refine ⟨fun h hlives => hlives.skips hup, ?_⟩
    intro hs h hlives hyoung j
    have hsees := hlives.seesWarm (hmarker hs) hyoung j
    have hsteady : h.world.Steady := hlives.steady (hwarm.steady hs)
    have hskips : h.Skips j := skips_of_seesWarm (.inl hsteady) hsees
    refine ⟨hskips, fun log u hasked v hlives' => hlives'.skips ?_⟩
    rcases hasked with ⟨r, hrun⟩ | ⟨r, hrun⟩
    · rw [(hskips.skipped log r u hrun).memory, Function.update_self]
    · obtain ⟨-, -, store, -, rfl⟩ := hrun.isWarm (.inl hsteady)
      rw [memory_put_self, hsees]
  · intro hs log r g hreset h hlives
    have hsteady : g.world.Steady := by
      rcases hreset with hrun | hrun <;> exact hrun.steady hs
    obtain ⟨hdown, hnone⟩ := hlives.cold hsteady (cold_of_reset hs hreset)
    exact loads_of_not_seesWarm (hlives.steady hsteady) (not_seesWarm hdown hnone)

/-- Engines that are all alike, before a source with one row. -/
def twins : Fleet UInt8 :=
  ⟨.start (Source.ofRows (KeyMap.empty.insert "k" 7)), fun _ => Client.byteMemory⟩

/-- The twins when one of them has warmed the cache up. -/
def warmed : Fleet UInt8 := twins.put 0 (warmUp.outcome.run (twins.scene 0)).2

/-- One of the engines loads the row, and a second later the others skip their warm-ups. When the
first one is reset then, a second later its next warm-up loads again. -/
theorem warmUp_once_twins :
    twins.world.Steady ∧ (warmed.later 1000).world.now < warmed.world.now + Marker.warmedUpLife ∧
      (∃ log, twins.Runs 0 warmUp.outcome log (.ok ⟨true, { reloaded := 1 }⟩) warmed) ∧
      (warmed.later 1000).Skips 1 ∧
      ∃ log r cold, (warmed.later 1000).Runs 0 reset.outcome log r cold ∧
        (cold.later 1000).Loads 0 := by
  have hs : twins.world.Steady := fun _ => rfl
  have hyoung : (warmed.later 1000).world.now < warmed.world.now + Marker.warmedUpLife := by
    decide +kernel
  have hwarm := Runs.of_course (f := twins) (i := 0) (Program.course_run warmUp.outcome _) rfl
  have hresult : (warmUp.outcome.run (twins.scene 0)).1 = .ok ⟨true, { reloaded := 1 }⟩ := by
    decide +kernel
  rw [hresult] at hwarm
  have hlives : warmed.Lives SparesMarker (warmed.later 1000) := by
    refine .moves .still (takes_later warmed 2 1000) ?_
    exact (takes_later warmed 2 1000).sparesMarker (hwarm.steady hs) (ignoresMarker_sleep 1000)
  have hothers := ((warmUp_once twins 0).1 _ _ _ hwarm).2 hs _ hlives hyoung
  have hreset := Runs.of_course (f := warmed.later 1000) (i := 0)
    (Program.course_run reset.outcome _) rfl
  have hsteady : (warmed.later 1000).world.Steady := hlives.steady (hwarm.steady hs)
  refine ⟨hs, hyoung, ⟨_, hwarm⟩, (hothers 1).1, _, _, _, hreset, ?_⟩
  refine (warmUp_once (warmed.later 1000) 0).2 hsteady _ _ _ (.inl hreset) _ ?_
  refine .moves .still (takes_later _ 2 1000) (.of_spares ?_ fun _ => rfl)
  exact (takes_later _ 2 1000).sparesMarker (hreset.steady hsteady) (ignoresMarker_sleep 1000)

/-- The twins when everything has been invalidated by one of them. -/
def emptied : Fleet UInt8 := twins.put 0 (Service.invalidateAll.outcome.run (twins.scene 0)).2

/-- The marker can also be put there by a caller. After everything has been invalidated, a value that
is stored under the key of the marker makes the engine skip its next warm-up, although no other engine
has done anything. -/
theorem not_loads_after_invalidateAll :
    ¬ ∀ (f g h : Fleet UInt8) (i : Nat) (log : List (Exchange UInt8)) (r : Except Error Unit),
      f.world.Steady → f.Runs i Service.invalidateAll.outcome log r g →
      g.Lives (fun _ m _ => m.engine = i ∧ m.op.warms = false) h → h.Loads i := by
  intro hall
  have hs : twins.world.Steady := fun _ => rfl
  have hcleared := Runs.of_course (f := twins) (i := 0)
    (Program.course_run Service.invalidateAll.outcome _) rfl
  let store : Operation UInt8 := .client Client.byteMemory.format (.set Marker.warmedUp 1 none)
  have hstored : emptied.Lives (fun _ m _ => m.engine = 0 ∧ m.op.warms = false)
      (emptied.put 0 (store.act.run (emptied.scene 0)).2) :=
    .moves (m := ⟨0, store⟩) .still (.whole (Program.course_run _ _)) ⟨rfl, rfl⟩
  have hloads := hall _ _ _ 0 _ _ hs hcleared hstored
  have hsees : (emptied.put 0 (store.act.run (emptied.scene 0)).2).seesWarm 0 = true := by
    decide +kernel
  have hskips := skips_of_seesWarm (.inl (hstored.steady (hcleared.steady hs))) hsees
  obtain ⟨log, r, u, hwarm⟩ := hskips.ends
  rw [(hskips.skipped log r u hwarm).result] at hwarm
  cases hloads.performed log _ u hwarm

end Fleet
end CacheLayer
