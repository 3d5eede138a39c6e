/-
The world seen through the rows of the main source. A request changes them
only if it succeeds, and then as it says (`rows_store`, `rows_remove`,
`rows_load`). In a `Steady` world the store does not fail; in a `Smooth` world
nothing is scripted to fail and the source refuses nothing either. A world stays
smooth under every command and every request of a strategy.
-/
import CacheLayer.World

namespace CacheLayer.World

variable {V : Type}

/-- The rows of the main source. -/
def rows (w : World V) : KeyMap V := (w.sites .main).source.rows

@[simp] theorem rows_command (w : World V) (c : Store.Call) : (w.command c).2.rows = w.rows := by
  unfold command
  split <;> rfl

@[simp] theorem rows_checkHealth (w : World V) : w.checkHealth.2.rows = w.rows := by
  unfold checkHealth
  split <;> rfl

theorem sites_request (w : World V) (c : Source.Call V) :
    (w.request .main c).2.sites .main = ((w.sites .main).serve c).2 := by
  simp [request, onSite]

/-- A request leaves the sources as they were or changes the source as it is served. -/
theorem request_cases (w : World V) (c : Source.Call V) :
    (∃ e, (w.request .main c).1 = .error e ∧ (w.request .main c).2.rows = w.rows) ∨
    ((w.request .main c).1 = (c.run (w.sites .main).source).1 ∧
      (w.request .main c).2.rows = (c.run (w.sites .main).source).2.rows) := by
  have hr : (w.request .main c).1 = ((w.sites .main).serve c).1 := rfl
  rw [rows, sites_request, hr]
  unfold Site.serve
  split
  · next e _ _ => exact .inl ⟨e, rfl, rfl⟩
  · exact .inr ⟨rfl, rfl⟩

theorem rows_store (w : World V) (key : String) (v : V) :
    (w.request .main (.store key v)).2.rows =
      match (w.request .main (.store key v)).1 with
      | .ok _ => w.rows.insert key v
      | .error _ => w.rows := by
  rcases request_cases w (.store key v) with ⟨e, he, hr⟩ | ⟨he, hr⟩ <;> rw [he, hr]
  by_cases h : (w.sites .main).source.refusesWrites = true <;>
    simp [Source.Call.run, Source.Call.serve, Source.put, rows, h]

theorem rows_remove (w : World V) (key : String) :
    (w.request .main (.remove key)).2.rows =
      match (w.request .main (.remove key)).1 with
      | .ok _ => w.rows.erase key
      | .error _ => w.rows := by
  rcases request_cases w (.remove key) with ⟨e, he, hr⟩ | ⟨he, hr⟩ <;> rw [he, hr]
  by_cases h : (w.sites .main).source.refusesWrites = true <;>
    simp [Source.Call.run, Source.Call.serve, Source.drop, rows, h]

theorem get?_rows_store (w : World V) (key : String) (v : V) (other : String) :
    (w.request .main (.store key v)).2.rows.get? other =
      if key = other ∧ (w.request .main (.store key v)).1.toBool = true then some v
      else w.rows.get? other := by
  rw [rows_store]
  cases (w.request .main (.store key v)).1 with
  | error e => simp [Except.toBool]
  | ok a =>
    by_cases hk : key = other
    · subst hk; simp [Except.toBool]
    · simp [Except.toBool, hk, KeyMap.get?_insert_other _ _ (Ne.symm hk)]

theorem get?_rows_remove (w : World V) (key other : String) :
    (w.request .main (.remove key)).2.rows.get? other =
      if key = other ∧ (w.request .main (.remove key)).1.toBool = true then none
      else w.rows.get? other := by
  rw [rows_remove]
  cases (w.request .main (.remove key)).1 with
  | error e => simp [Except.toBool]
  | ok a =>
    by_cases hk : key = other
    · subst hk; simp [Except.toBool]
    · simp [Except.toBool, hk, KeyMap.get?_erase_other _ (Ne.symm hk)]

theorem rows_load (w : World V) (key : String) :
    (w.request .main (.loadOne key)).2.rows = w.rows := by
  rcases request_cases w (.loadOne key) with ⟨e, _, hr⟩ | ⟨_, hr⟩ <;> exact hr

/-- A load that succeeds gives what is in the rows. -/
theorem found_of_load {w : World V} {key : String} {found : Option V}
    (h : (w.request .main (.loadOne key)).1 = .ok found) : found = w.rows.get? key := by
  rcases request_cases w (.loadOne key) with ⟨e, he, -⟩ | ⟨he, -⟩
  · rw [he] at h
    cases h
  · have hload : (w.sites .main).source.load key = .ok found := he.symm.trans h
    unfold Source.load at hload
    split at hload
    · cases hload
    · exact (Except.ok.inj hload).symm

/-- A command is carried out, or it fails and does nothing. -/
theorem command_cases (w : World V) (c : Store.Call) : ∃ scripts,
    (∃ e, w.command c = (.error e, { w with scripts := scripts })) ∨
    w.command c = ((c.run w.now w.store).1,
      { w with store := (c.run w.now w.store).2, scripts := scripts }) := by
  unfold command
  split
  · next e scripts _ => exact ⟨scripts, .inl ⟨e, rfl⟩⟩
  · next scripts _ => exact ⟨scripts, .inr rfl⟩

/-! ## Scripts -/

theorem rescript_rescript {M : Type} [DecidableEq M] (scripts : M → Script) (m : M)
    (script script' : Script) :
    rescript (rescript scripts m script) m script' = rescript scripts m script' := by
  funext m'
  unfold rescript
  split <;> rfl

theorem rescript_comm {M : Type} [DecidableEq M] (scripts : M → Script) {m m' : M} (h : m' ≠ m)
    (script script' : Script) :
    rescript (rescript scripts m script) m' script' =
      rescript (rescript scripts m' script') m script := by
  funext m''
  unfold rescript
  by_cases hm : m'' = m
  · subst hm
    simp [Ne.symm h]
  · simp [hm]

/-- A script is followed from its beginning on. -/
theorem nextFault_rescript {M : Type} [DecidableEq M] (scripts : M → Script) (m : M)
    (script : Script) : nextFault (rescript scripts m script) m =
      (script.head?.join, rescript scripts m script.tail) := by
  have hself : rescript scripts m script m = script := if_pos rfl
  rw [nextFault, hself]
  cases script with
  | nil => rfl
  | cons fault rest => exact congrArg (fault, ·) (rescript_rescript scripts m _ rest)

/-- A script of one kind of request does not matter for another kind. -/
theorem nextFault_rescript_other {M : Type} [DecidableEq M] (scripts : M → Script) {m m' : M}
    (h : m' ≠ m) (script : Script) : nextFault (rescript scripts m script) m' =
      ((nextFault scripts m').1, rescript (nextFault scripts m').2 m script) := by
  have hother : rescript scripts m script m' = scripts m' := if_neg h
  rw [nextFault, nextFault, hother]
  cases scripts m' with
  | nil => rfl
  | cons fault rest => exact congrArg (fault, ·) (rescript_comm scripts h script rest)

theorem nextFault_subset {M : Type} [DecidableEq M] (scripts : M → Script) (m m' : M) :
    (nextFault scripts m).2 m' ⊆ scripts m' := by
  unfold nextFault
  cases h : scripts m with
  | nil => exact List.Subset.refl _
  | cons fault rest =>
    change rescript scripts m rest m' ⊆ scripts m'
    unfold rescript
    split
    · next heq =>
      rw [heq, h]
      exact List.subset_cons_self _ _
    · exact List.Subset.refl _

theorem mem_of_nextFault {M : Type} [DecidableEq M] {scripts : M → Script} {m : M} {e : Error}
    (h : (nextFault scripts m).1 = some e) : some e ∈ scripts m := by
  unfold nextFault at h
  cases hscript : scripts m with
  | nil =>
    rw [hscript] at h
    cases h
  | cons fault rest =>
    rw [hscript] at h
    obtain rfl : fault = some e := h
    exact List.mem_cons_self

theorem scripts_command (w : World V) (c : Store.Call) :
    (w.command c).2.scripts = (nextFault w.scripts c.method).2 := by
  unfold command
  split <;> simp [*]

/-- A command is carried out regardless of the script for another kind of command. -/
theorem command_script (w : World V) {c : Store.Call} {m : Store.Method} (h : c.method ≠ m)
    (script : Script) :
    (w.script m script).command c = ((w.command c).1, (w.command c).2.script m script) := by
  have hnext : nextFault (w.script m script).scripts c.method = _ :=
    nextFault_rescript_other w.scripts h script
  rw [command, command, hnext]
  rcases nextFault w.scripts c.method with ⟨_ | e, scripts⟩ <;> rfl

/-! ## When the store does not fail -/

/-- No command of the store is scripted to fail. -/
def Steady (w : World V) : Prop := ∀ m, w.scripts m = []

theorem Steady.command {w : World V} (h : w.Steady) (c : Store.Call) :
    w.command c = ((c.run w.now w.store).1, { w with store := (c.run w.now w.store).2 }) := by
  simp [World.command, nextFault, h c.method]

/-! ## When nothing fails -/

/-- Nothing is scripted to fail, and the main source refuses nothing. -/
structure Smooth (w : World V) : Prop where
  commands : ∀ m, w.scripts m = []
  requests : ∀ m, (w.sites .main).scripts m = []
  accepts : (w.sites .main).source.refusesWrites = false
  loads : ∀ key, (w.sites .main).source.failing.contains key = false

theorem Smooth.command {w : World V} (h : w.Smooth) (c : Store.Call) :
    w.command c = ((c.run w.now w.store).1, { w with store := (c.run w.now w.store).2 }) :=
  Steady.command h.commands c

theorem Smooth.request {w : World V} (h : w.Smooth) (c : Source.Call V) :
    w.request .main c = ((c.run (w.sites .main).source).1,
      w.onSource .main fun s => (c.run s).2) := by
  simp [World.request, Site.serve, nextFault, h.requests, onSource, onSite]

theorem Smooth.load {w : World V} (h : w.Smooth) (key : String) :
    (w.request .main (.loadOne key)).1 = .ok (w.rows.get? key) := by
  rw [h.request]
  simp [Source.Call.run, Source.Call.serve, Source.load, h.loads, rows]

theorem Smooth.store {w : World V} (h : w.Smooth) (key : String) (v : V) :
    (w.request .main (.store key v)).1 = .ok () := by
  rw [h.request]
  simp [Source.Call.run, Source.Call.serve, h.accepts]

theorem Smooth.remove {w : World V} (h : w.Smooth) (key : String) :
    (w.request .main (.remove key)).1 = .ok () := by
  rw [h.request]
  simp [Source.Call.run, Source.Call.serve, h.accepts]

theorem run_refuses (c : Source.Call V) (s : Source V) :
    (c.run s).2.refusesWrites = s.refusesWrites ∧ (c.run s).2.failing = s.failing := by
  cases c with
  | store key v => cases h : s.refusesWrites <;>
      simp [Source.Call.run, Source.Call.serve, Source.put, h]
  | remove key => cases h : s.refusesWrites <;>
      simp [Source.Call.run, Source.Call.serve, Source.drop, h]
  | _ => exact ⟨rfl, rfl⟩

theorem Smooth.after_command {w : World V} (h : w.Smooth) (c : Store.Call) :
    (w.command c).2.Smooth := by
  rw [h.command]
  exact ⟨h.commands, h.requests, h.accepts, h.loads⟩

theorem Smooth.after_request {w : World V} (h : w.Smooth) (c : Source.Call V) :
    (w.request .main c).2.Smooth := by
  obtain ⟨hr, hf⟩ := run_refuses c (w.sites .main).source
  rw [h.request]
  refine ⟨h.commands, ?_, ?_, ?_⟩
  · simpa [onSource, onSite] using h.requests
  · simpa [onSource, onSite, hr] using h.accepts
  · simpa [onSource, onSite, hf] using h.loads

end CacheLayer.World
