/-
Lazy expiry cannot be observed. A store that purges a dead entry only when a
command meets its key answers every command as the punctual store of its live
entries (`run_punctual`), and leaves a store that is seen as what the punctual
store leaves; letting time pass keeps the two together (`punctual_wait`).

Main statements: `run_punctual` for one command, `runAll_seen` for runs.
-/
import CacheLayer.Proofs.Store.Batch
import CacheLayer.Proofs.Store.Punctual

namespace CacheLayer.Store

variable {α : Type} {s : Store} {now : Nat} {key other : String}

/-- An outcome with the store after it seen as a punctual one. -/
def seen (now : Nat) (o : Outcome α) : Except Error α × PunctualStore := (o.1, o.2.punctual now)

/-! ## One key -/

theorem punctual_place (s : Store) (now : Nat) (key : String) (e? : Option Entry) :
    (s.place key e?).punctual now = (s.punctual now).place key e? := by
  refine PunctualStore.ext_entries rfl (fun other => ?_) (by simp [PunctualStore.place])
    (by simp [PunctualStore.place])
  by_cases hk : other = key
  · subst hk
    simp [PunctualStore.get?_place_self, live?]
  · simp [PunctualStore.get?_place_other _ _ hk, live?, get?_place_other _ _ hk]

theorem seen_obey (s : Store) (now : Nat) (key : String) (r : Rule α) :
    seen now (s.obey now key r) = (s.punctual now).obey key r := by
  simp only [seen, obey, punctual_place, PunctualStore.obey, get?_punctual]

theorem seen_of_eq {o : Outcome α} {r : Rule α} (h : o = s.obey now key r) :
    seen now o = (s.punctual now).obey key r := by
  rw [h, seen_obey]

theorem seen_container {C : Type} (shape : Shape C) (create : Bool) (absent : α) (f : C → α × C) :
    seen now (orElse absent (onContainer shape create f s now key)) =
      (s.punctual now).obey key ((Rule.container shape create now key f).orElse absent) := by
  rw [onContainer_eq, orElse_obey, seen_obey]

theorem seen_addMembers (s : Store) (now : Nat) (key : String) (members : List String) :
    seen now (s.addMembers now key members) =
      (s.punctual now).obey key (Rule.addMembers now key members) := by
  unfold addMembers Rule.addMembers
  split
  · simp only [seen, PunctualStore.obey, Rule.look, PunctualStore.place_get?]
  · exact seen_container _ _ _ _

/-! ## Many keys -/

theorem punctual_deleteMany (keys : List String) (s : Store) (now : Nat) :
    ((s.deleteMany now keys).1, (s.deleteMany now keys).2.punctual now) =
      (s.punctual now).deleteMany keys := by
  induction keys generalizing s with
  | nil => rfl
  | cons key keys ih =>
    have hdrop : (s.delete now key).2.punctual now = (s.punctual now).place key none := by
      rw [← punctual_place, ← purge_drop s now key]
      rfl
    have hfound : (s.delete now key).1 = (s.punctual now).entries.contains key := by
      rw [KeyMap.contains, get?_punctual]
      exact contains_purge s now key
    simp only [deleteMany, PunctualStore.deleteMany, ← hdrop, ← hfound, ← ih]

theorem seen_gather (keys : List String) (s : Store) (now : Nat) (got : KeySet) :
    seen now (s.gather now got keys) = (s.punctual now).gather got keys := by
  induction keys generalizing s got with
  | nil => rfl
  | cons key keys ih =>
    have hseen := seen_of_eq (s.onContainer_eq now key setShape false fun set => (set, set))
    simp only [gather, PunctualStore.gather, now_punctual, Rule.theSet, ← hseen]
    rcases onContainer setShape false (fun set => (set, set)) s now key with ⟨r, after⟩
    cases r with
    | error e => rfl
    | ok found =>
      cases found with
      | none => exact ih after got
      | some set => exact ih after (got.union set)

theorem seen_union (keys : List String) (s : Store) (now : Nat) :
    seen now (s.union now keys) = (s.punctual now).union keys := by
  simp only [union, PunctualStore.union, ← seen_gather]
  rfl

theorem seen_steps (batch : List BatchStep) (s : Store) (now : Nat) :
    seen now (s.steps now batch) = (s.punctual now).steps batch := by
  induction batch generalizing s with
  | nil => rfl
  | cons b bs ih =>
    have hseen := seen_of_eq (s.step_eq now b)
    simp only [steps, PunctualStore.steps, now_punctual, ← hseen]
    rcases s.step now b with ⟨r, after⟩
    cases r with
    | error e => rfl
    | ok reply =>
      simp only [seen, ← ih after]

theorem seen_execute (batch : List BatchStep) (s : Store) (now : Nat) :
    seen now (s.execute now batch) = (s.punctual now).execute batch := by
  rw [execute_eq, PunctualStore.execute, ← seen_steps]
  rcases s.steps now batch with ⟨r, after⟩
  cases r <;> rfl

theorem keysAfter_punctual (s : Store) (now : Nat) (after : Option String) :
    (s.punctual now).keysAfter after = s.keysAfter now after := by
  cases after <;> simp [PunctualStore.keysAfter, keysAfter]

theorem punctual_page (s : Store) (now : Nat) (after : Option String) (pattern : String)
    (count : Nat) :
    ((s.page now after pattern count).1, (s.page now after pattern count).2.punctual now) =
      (s.punctual now).page after pattern count := by
  simp only [page, PunctualStore.page, keysAfter_punctual]
  cases ((s.keysAfter now after).take (max count 1)).getLast? with
  | none => rfl
  | some last =>
    by_cases hlt : ((s.keysAfter now after).take (max count 1)).length <
      (s.keysAfter now after).length
    · simp only [hlt, Nat.not_le.2 hlt, if_true, if_false]
      rfl
    · simp only [hlt, Nat.not_lt.1 hlt, if_true, if_false]

theorem punctual_scan (s : Store) (now : Nat) (cursor : Nat) (pattern : String) (count : Nat) :
    ((s.scan now cursor pattern count).1, (s.scan now cursor pattern count).2.punctual now) =
      (s.punctual now).scan cursor pattern count := by
  simp only [scan, PunctualStore.scan, closeCursor, cursors_punctual]
  by_cases hc : cursor = 0
  · simp only [hc, if_true]
    exact punctual_page _ _ _ _ _
  · simp only [hc, if_false]
    cases (s.cursors.find? (·.1 == cursor)).map (·.2) with
    | none => rfl
    | some last => exact punctual_page _ _ _ _ _

/-! ## Every command -/

/-- A command answers by the live entries alone, and what it leaves is seen as what it would leave
of them. -/
theorem run_punctual (s : Store) (now : Nat) (c : Call) :
    seen now (c.run now s) = (c.plan now).run (s.punctual now) := by
  cases c with
  | get key => exact seen_of_eq (s.get_eq now key)
  | set key b life => exact seen_of_eq (s.set_eq now key b life)
  | delete key => exact seen_of_eq (s.delete_eq now key)
  | deleteMany keys => exact congrArg (fun r => (Except.ok r.1, r.2)) (punctual_deleteMany keys s now)
  | has key => exact seen_of_eq (s.has_eq now key)
  | expire key life => exact seen_of_eq (s.expire_eq now key life)
  | remaining key => exact seen_of_eq (s.remaining_eq now key)
  | add key delta => exact seen_of_eq (s.add_eq now key delta)
  | pushFront key values => exact seen_container _ _ _ _
  | pushBack key values => exact seen_container _ _ _ _
  | range key start stop => exact seen_container _ _ _ _
  | trim key start stop => exact seen_container _ _ _ _
  | length key => exact seen_container _ _ _ _
  | popFront key => exact seen_container _ _ _ _
  | addMembers key ms => exact seen_addMembers s now key ms
  | removeMembers key ms => exact seen_container _ _ _ _
  | members key => exact seen_container _ _ _ _
  | hasMember key member => exact seen_container _ _ _ _
  | union keys => exact seen_union keys s now
  | setField key name b => exact seen_container _ _ _ _
  | field key name => exact seen_container _ _ _ _
  | fields key => exact seen_container _ _ _ _
  | removeFields key names => exact seen_container _ _ _ _
  | scan cursor pattern count =>
    exact congrArg (fun r => (Except.ok r.1, r.2)) (punctual_scan s now cursor pattern count)
  | setIfAbsent key b life => exact seen_of_eq (s.setIfAbsent_eq now key b life)
  | setIfPresent key b life => exact seen_of_eq (s.setIfPresent_eq now key b life)
  | swap key expected b life => exact seen_of_eq (s.swap_eq now key expected b life)
  | execute batch atomic => exact seen_execute batch s now
  | flush =>
    refine congrArg (Prod.mk (Except.ok ())) (PunctualStore.ext_entries rfl (fun key => ?_) rfl rfl)
    simp [live?, Call.run, Store.flush, PunctualStore.flush]

/-! ## Time -/

theorem punctual_tick (s : Store) (now : Nat) :
    (s.punctual now).tick = s.punctual (now + 1) := by
  refine PunctualStore.ext_entries rfl (fun key => ?_) rfl rfl
  simp only [PunctualStore.tick, KeyMap.get?_filter, get?_punctual, now_punctual, live?]
  cases s.entries.get? key with
  | none => rfl
  | some e =>
    cases hd : e.deadline with
    | none => simp [Option.filter, Entry.isDead, hd]
    | some t =>
      by_cases hnow : t ≤ now
      · have hnext : t ≤ now + 1 := by omega
        simp [Option.filter, Entry.isDead, hd, hnow, hnext]
      · by_cases hnext : t = now + 1
        · simp [Option.filter, Entry.isDead, hd, hnext]
        · have hlater : ¬ t ≤ now + 1 := by omega
          simp [Option.filter, Entry.isDead, hd, hnow, hlater, hnext]

theorem punctual_wait (s : Store) (now ms : Nat) :
    (s.punctual now).wait ms = s.punctual (now + ms) := by
  induction ms with
  | zero => rfl
  | succ ms ih => rw [PunctualStore.wait, ih, punctual_tick, Nat.add_assoc]

/-! ## Runs -/

/-- What is done to a store: a command, the question how many keys are live, or nothing for a
while. -/
inductive Deed where
  | call (c : Call)
  | size
  | sleep (ms : Nat)

namespace Deed

/-- What comes back. -/
abbrev Reply : Deed → Type
  | call c => Except Error c.Reply
  | size => Nat
  | sleep _ => Unit

/-- The reply of a store, and the time and the store afterwards. -/
def run (now : Nat) (s : Store) : (d : Deed) → d.Reply × Nat × Store
  | call c => ((c.run now s).1, now, (c.run now s).2)
  | size => (s.size now, now, s)
  | sleep ms => ((), now + ms, s)

/-- The reply of a punctual store, and the store afterwards. -/
def runPunctual (p : PunctualStore) : (d : Deed) → d.Reply × PunctualStore
  | call c => (c.plan p.now).run p
  | size => (p.entries.size, p)
  | sleep ms => ((), p.wait ms)

/-- Deeds with their replies, and the time and the store after all of them. -/
def runAll (now : Nat) (s : Store) : List Deed → List ((d : Deed) × d.Reply) × Nat × Store
  | [] => ([], now, s)
  | d :: ds =>
    let (r, now, s) := d.run now s
    let (rest, now, s) := runAll now s ds
    (⟨d, r⟩ :: rest, now, s)

/-- Deeds with the replies of a punctual store, and the store after all of them. -/
def runAllPunctual (p : PunctualStore) :
    List Deed → List ((d : Deed) × d.Reply) × PunctualStore
  | [] => ([], p)
  | d :: ds =>
    let (r, p) := d.runPunctual p
    let (rest, p) := runAllPunctual p ds
    (⟨d, r⟩ :: rest, p)

theorem run_seen (s : Store) (now : Nat) (d : Deed) :
    ((d.run now s).1, (d.run now s).2.2.punctual (d.run now s).2.1) =
      d.runPunctual (s.punctual now) := by
  cases d with
  | call c => exact run_punctual s now c
  | size => simp [run, runPunctual, Store.size, KeyMap.size, ← keys_punctual, KeyMap.keys]
  | sleep ms => simp [run, runPunctual, punctual_wait]

theorem runAll_seen (ds : List Deed) (s : Store) (now : Nat) :
    ((runAll now s ds).1, (runAll now s ds).2.2.punctual (runAll now s ds).2.1) =
      runAllPunctual (s.punctual now) ds := by
  induction ds generalizing s now with
  | nil => rfl
  | cons d ds ih =>
    simp only [runAll, runAllPunctual, ← run_seen, ← ih]

end Deed

end CacheLayer.Store
