/-
No key holds an empty container: a container goes with its last item. What any
store that commands have made shows is filled (`filled_runAll`), since every rule
fills. On a filled store, a command that only asks, and a command that fails,
changes nothing that can be seen (`live?_asked`, `live?_failed`).

Rules do not look at the kind of a container but through its shape, so the three
laws of a shape are all that is asked of it.
-/
import CacheLayer.Proofs.Store.Lifetime

namespace CacheLayer

variable {α β C : Type}

/-- The value is not an empty container. -/
def Value.IsFilled : Value → Prop
  | .bytes _ => True
  | .list items => items.isEmpty = false
  | .set members => members.isEmpty = false
  | .hash fields => fields.isEmpty = false

/-! ## Shapes -/

/-- A container is kept as the value in which it is seen, and that is filled if the container is. -/
structure Store.Shape.Laws (shape : Store.Shape C) : Prop where
  keep_see : ∀ {v c}, shape.see? v = some c → shape.keep c = v
  isNone_see : ∀ {v c}, shape.see? v = some c → v.IsFilled → shape.isNone c = false
  isFilled_keep : ∀ {c}, shape.isNone c = false → (shape.keep c).IsFilled

namespace Store

theorem laws_listShape : listShape.Laws where
  keep_see {v c} h := by
    cases v with
    | list items => exact congrArg Value.list (Option.some.inj h).symm
    | _ => cases h
  isNone_see {v c} h hv := by
    cases v with
    | list items => exact Option.some.inj h ▸ hv
    | _ => cases h
  isFilled_keep h := h

theorem laws_setShape : setShape.Laws where
  keep_see {v c} h := by
    cases v with
    | set members => exact congrArg Value.set (Option.some.inj h).symm
    | _ => cases h
  isNone_see {v c} h hv := by
    cases v with
    | set members => exact Option.some.inj h ▸ hv
    | _ => cases h
  isFilled_keep h := h

theorem laws_hashShape : hashShape.Laws where
  keep_see {v c} h := by
    cases v with
    | hash fields => exact congrArg Value.hash (Option.some.inj h).symm
    | _ => cases h
  isNone_see {v c} h hv := by
    cases v with
    | hash fields => exact Option.some.inj h ▸ hv
    | _ => cases h
  isFilled_keep h := h

end Store

/-! ## Rules -/

namespace Rule

/-- A key without an entry, or with an entry whose value is filled. -/
def IsFilled (e? : Option Entry) : Prop := ∀ e, e? = some e → e.value.IsFilled

theorem isFilled_none : IsFilled none := by
  rintro e ⟨⟩

theorem isFilled_some {e : Entry} (h : e.value.IsFilled) : IsFilled (some e) := by
  rintro _ ⟨⟩
  exact h

/-- A filled key is left filled. -/
def Fills (r : Rule α) : Prop := ∀ e?, IsFilled e? → IsFilled (r e?).2

/-- A filled key is left as it is. -/
def Asks (r : Rule α) : Prop := ∀ e?, IsFilled e? → (r e?).2 = e?

/-- When the rule fails, it leaves the key as it is. -/
def FailsSafe (r : Rule α) : Prop := ∀ e? err, (r e?).1 = .error err → (r e?).2 = e?

theorem Asks.fills {r : Rule α} (h : r.Asks) : r.Fills := by
  intro e? he
  rw [h e? he]
  exact he

theorem fails_of_map {r : Except Error α} {f : α → β} {err : Error} (h : r.map f = .error err) :
    r = .error err := by
  cases r with
  | ok a => cases h
  | error e => exact congrArg Except.error (Except.error.inj h)

theorem Fills.map {r : Rule α} (h : r.Fills) (f : α → β) : (r.map f).Fills := h

theorem Asks.map {r : Rule α} (h : r.Asks) (f : α → β) : (r.map f).Asks := h

theorem FailsSafe.map {r : Rule α} (h : r.FailsSafe) (f : α → β) : (r.map f).FailsSafe :=
  fun e? err herr => h e? err (fails_of_map herr)

theorem asks_look (f : Option Entry → Except Error α) : (look f).Asks := fun _ _ => rfl

theorem failsSafe_look (f : Option Entry → Except Error α) : (look f).FailsSafe :=
  fun _ _ _ => rfl

/-- A rule that never fails is safe. -/
theorem failsSafe_of_ok {r : Rule α} (h : ∀ e?, ∃ a, (r e?).1 = .ok a) : r.FailsSafe := by
  intro e? err herr
  obtain ⟨a, ha⟩ := h e?
  rw [ha] at herr
  cases herr

theorem fills_assign (now : Nat) (b : Bytes) (life : Option Nat) (wanted : Option Entry → Bool) :
    (assign now b life wanted).Fills := by
  intro e? he
  unfold assign
  split
  · exact isFilled_some trivial
  · exact he

theorem failsSafe_assign (now : Nat) (b : Bytes) (life : Option Nat)
    (wanted : Option Entry → Bool) : (assign now b life wanted).FailsSafe := by
  refine failsSafe_of_ok fun e? => ?_
  unfold assign
  split
  · exact ⟨true, rfl⟩
  · exact ⟨false, rfl⟩

theorem fills_set (now : Nat) (b : Bytes) (life : Option Nat) : (set now b life).Fills :=
  fun _ _ => isFilled_some trivial

theorem failsSafe_set (now : Nat) (b : Bytes) (life : Option Nat) : (set now b life).FailsSafe :=
  failsSafe_of_ok fun _ => ⟨(), rfl⟩

theorem fills_delete : delete.Fills := fun _ _ => isFilled_none

theorem failsSafe_delete : delete.FailsSafe := failsSafe_of_ok fun e? => ⟨e?.isSome, rfl⟩

theorem fills_expire (now life : Nat) : (expire now life).Fills := by
  intro e? he
  cases e? with
  | none => exact isFilled_none
  | some e => exact isFilled_some (he e rfl)

theorem failsSafe_expire (now life : Nat) : (expire now life).FailsSafe :=
  failsSafe_of_ok fun e? => ⟨e?.isSome, rfl⟩

theorem fills_add (now : Nat) (key : String) (delta : Int) : (add now key delta).Fills := by
  intro e? he
  cases e? with
  | none => exact isFilled_some trivial
  | some e =>
    cases hv : e.value with
    | bytes b =>
      cases hc : Store.counter? b with
      | none =>
        simp only [add, hv, hc]
        exact he
      | some current =>
        simp only [add, hv, hc]
        split
        · exact isFilled_some trivial
        · exact he
    | _ =>
      simp only [add, hv]
      exact he

theorem failsSafe_add (now : Nat) (key : String) (delta : Int) :
    (add now key delta).FailsSafe := by
  intro e? err herr
  cases e? with
  | none => cases herr
  | some e =>
    cases hv : e.value with
    | bytes b =>
      cases hc : Store.counter? b with
      | none => simp only [add, hv, hc]
      | some current =>
        simp only [add, hv, hc] at herr ⊢
        split at herr
        · cases herr
        · next hfits => simp only [hfits, if_false, Bool.false_eq_true]
    | _ => simp only [add, hv]

/-- What becomes of a container that has been worked on. -/
theorem isFilled_kept {shape : Store.Shape C} (hshape : shape.Laws) {c : C} {e : Entry}
    (hvalue : e.value = shape.keep c) :
    IsFilled (if shape.isNone c = true then none else some e) := by
  by_cases hnone : shape.isNone c = true
  · rw [if_pos hnone]
    exact isFilled_none
  · rw [if_neg hnone]
    refine isFilled_some ?_
    rw [hvalue]
    exact hshape.isFilled_keep (Bool.eq_false_iff.2 hnone)

theorem fills_container {shape : Store.Shape C} (hshape : shape.Laws) (create : Bool) (now : Nat)
    (key : String) (f : C → α × C) : (container shape create now key f).Fills := by
  intro e? he
  cases e? with
  | none =>
    cases create with
    | false => exact isFilled_none
    | true => exact isFilled_kept hshape rfl
  | some e =>
    cases hv : shape.see? e.value with
    | none =>
      simp only [container, hv]
      exact he
    | some c =>
      simp only [container, hv]
      exact isFilled_kept hshape rfl

theorem failsSafe_container (shape : Store.Shape C) (create : Bool) (now : Nat) (key : String)
    (f : C → α × C) : (container shape create now key f).FailsSafe := by
  intro e? err herr
  cases e? with
  | none => cases create <;> cases herr
  | some e =>
    cases hv : shape.see? e.value with
    | none => simp only [container, hv]
    | some c =>
      simp only [container, hv] at herr
      cases herr

/-- A container that is given back as it was found stays. -/
theorem asks_container {shape : Store.Shape C} (hshape : shape.Laws) (now : Nat) (key : String)
    (g : C → α) : (container shape false now key fun c => (g c, c)).Asks := by
  intro e? he
  cases e? with
  | none => rfl
  | some e =>
    cases hv : shape.see? e.value with
    | none => simp only [container, hv]
    | some c =>
      have hsome : shape.isNone c = false := hshape.isNone_see hv (he e rfl)
      simp [container, hv, hsome, hshape.keep_see hv]

theorem fills_addMembers (now : Nat) (key : String) (members : List String) :
    (addMembers now key members).Fills := by
  unfold addMembers
  split
  · exact (asks_look _).fills
  · exact (fills_container Store.laws_setShape _ _ _ _).map _

theorem failsSafe_addMembers (now : Nat) (key : String) (members : List String) :
    (addMembers now key members).FailsSafe := by
  unfold addMembers
  split
  · exact failsSafe_look _
  · exact (failsSafe_container _ _ _ _ _).map _

theorem asks_theSet (now : Nat) (key : String) : (theSet now key).Asks :=
  asks_container Store.laws_setShape now key fun set => set

end Rule

theorem BatchStep.fills_rule (now : Nat) (b : BatchStep) : (b.rule now).Fills := by
  cases b with
  | set key b life => exact (Rule.fills_set now b life).map _
  | delete key => exact Rule.fills_delete.map _
  | expire key life => exact (Rule.fills_expire now life).map _
  | add key delta => exact (Rule.fills_add now key delta).map _
  | setIfAbsent | setIfPresent | swap => exact (Rule.fills_assign _ _ _ _).map _

/-! ## Punctual stores -/

namespace PunctualStore

variable {p q : PunctualStore} {key : String}

/-- No key holds an empty container. -/
def Filled (p : PunctualStore) : Prop := ∀ key, Rule.IsFilled (p.entries.get? key)

theorem Filled.place (h : p.Filled) {e? : Option Entry} (he : Rule.IsFilled e?) :
    (p.place key e?).Filled := by
  intro other
  by_cases hk : other = key
  · subst hk
    rw [get?_place_self]
    exact fun e hfound => he e (Option.filter_eq_some_iff.1 hfound).1
  · rw [get?_place_other _ _ hk]
    exact h other

theorem Filled.obey (h : p.Filled) {r : Rule α} (hr : r.Fills) : (p.obey key r).2.Filled :=
  h.place (hr _ (h key))

/-- A rule that only asks leaves a filled store as it is. -/
theorem obey_asks (h : p.Filled) {r : Rule α} (hr : r.Asks) : (p.obey key r).2 = p := by
  change p.place key (r (p.entries.get? key)).2 = p
  rw [hr _ (h key), place_get?]

theorem Filled.deleteMany (h : p.Filled) (keys : List String) : (p.deleteMany keys).2.Filled := by
  induction keys generalizing p with
  | nil => exact h
  | cons key keys ih => exact ih (h.place Rule.isFilled_none)

/-- Gathering sets leaves a filled store as it is, also if it fails. -/
theorem gather_same (h : p.Filled) (got : KeySet) (keys : List String) :
    (p.gather got keys).2 = p := by
  induction keys generalizing got with
  | nil => rfl
  | cons key keys ih =>
    have hsame : (p.obey key (Rule.theSet p.now key)).2 = p :=
      obey_asks h (Rule.asks_theSet p.now key)
    simp only [gather]
    rcases ho : p.obey key (Rule.theSet p.now key) with ⟨r, q⟩
    rw [ho] at hsame
    obtain rfl : q = p := hsame
    cases r with
    | error e => rfl
    | ok found =>
      cases found with
      | none => exact ih got
      | some set => exact ih (got.union set)

theorem Filled.steps (h : p.Filled) (batch : List BatchStep) : (p.steps batch).2.Filled := by
  induction batch generalizing p with
  | nil => exact h
  | cons b bs ih =>
    have hobey : (p.obey b.key (b.rule p.now)).2.Filled := h.obey (b.fills_rule p.now)
    simp only [PunctualStore.steps]
    rcases ho : p.obey b.key (b.rule p.now) with ⟨r, q⟩
    rw [ho] at hobey
    cases r with
    | error e => exact hobey
    | ok reply => exact ih hobey

theorem Filled.execute (h : p.Filled) (batch : List BatchStep) : (p.execute batch).2.Filled := by
  have hsteps := h.steps batch
  unfold PunctualStore.execute
  rcases hs : p.steps batch with ⟨r, q⟩
  rw [hs] at hsteps
  cases r with
  | error e => exact h
  | ok replies => exact hsteps

theorem execute_failed {batch : List BatchStep} {e : Error}
    (h : (p.execute batch).1 = .error e) : (p.execute batch).2 = p := by
  unfold execute at h ⊢
  rcases hs : p.steps batch with ⟨r, q⟩
  rw [hs] at h
  cases r with
  | error e => rfl
  | ok replies => cases h

end PunctualStore

/-! ## Plans of commands -/

namespace Store

/-- Carried out on a filled store, the plan leaves it filled. -/
def Plan.Fills : Plan α → Prop
  | onKey _ r => r.Fills
  | wide f => ∀ p, p.Filled → (f p).2.Filled

/-- When the plan fails on a filled store, it leaves the store as it is. -/
def Plan.FailsSafe : Plan α → Prop
  | onKey _ r => r.FailsSafe
  | wide f => ∀ p, p.Filled → ∀ e, (f p).1 = .error e → (f p).2 = p

theorem Plan.Fills.run {plan : Plan α} (h : plan.Fills) {p : PunctualStore} (hp : p.Filled) :
    (plan.run p).2.Filled := by
  cases plan with
  | onKey key r => exact hp.obey h
  | wide f => exact h p hp

theorem Plan.FailsSafe.run {plan : Plan α} (h : plan.FailsSafe) {p : PunctualStore}
    (hp : p.Filled) {e : Error} (he : (plan.run p).1 = .error e) : (plan.run p).2 = p := by
  cases plan with
  | onKey key r =>
    change p.place key (r (p.entries.get? key)).2 = p
    rw [h _ e he, PunctualStore.place_get?]
  | wide f => exact h p hp e he

/-- Carried out on a filled store, the plan leaves every key as it is. -/
def Plan.Asks : Plan α → Prop
  | onKey _ r => r.Asks
  | wide f => ∀ p, p.Filled → (f p).2.entries = p.entries

theorem Plan.Asks.run {plan : Plan α} (h : plan.Asks) {p : PunctualStore} (hp : p.Filled) :
    (plan.run p).2.entries = p.entries := by
  cases plan with
  | onKey key r => exact congrArg _ (PunctualStore.obey_asks hp h)
  | wide f => exact h p hp

theorem fills_container_plan {shape : Shape C} (hshape : shape.Laws) {create : Bool} {now : Nat}
    {key : String} {absent : α} {f : C → α × C} :
    (Plan.onKey key ((Rule.container shape create now key f).orElse absent)).Fills :=
  (Rule.fills_container hshape create now key f).map _

theorem fills_plan (now : Nat) (c : Call) : (c.plan now).Fills := by
  cases c with
  | get | has | remaining => exact (Rule.asks_look _).fills
  | set key b life => exact Rule.fills_set now b life
  | delete key => exact Rule.fills_delete
  | expire key life => exact Rule.fills_expire now life
  | add key delta => exact Rule.fills_add now key delta
  | setIfAbsent | setIfPresent | swap => exact Rule.fills_assign _ _ _ _
  | addMembers key ms => exact Rule.fills_addMembers now key ms
  | pushFront | pushBack | range | trim | length | popFront =>
    exact fills_container_plan laws_listShape
  | removeMembers | members | hasMember => exact fills_container_plan laws_setShape
  | setField | field | fields | removeFields => exact fills_container_plan laws_hashShape
  | deleteMany keys => exact fun p hp => hp.deleteMany keys
  | union keys =>
    intro p hp
    have hsame := PunctualStore.gather_same hp KeyMap.empty keys
    exact hsame.symm ▸ hp
  | scan cursor pattern count =>
    intro p hp key
    have hsame := p.entries_scan cursor pattern count
    exact hsame.symm ▸ hp key
  | execute batch atomic => exact fun p hp => hp.execute batch
  | flush => exact fun p hp key => Rule.isFilled_none

theorem failsSafe_plan (now : Nat) (c : Call) : (c.plan now).FailsSafe := by
  cases c with
  | get | has | remaining => exact Rule.failsSafe_look _
  | set key b life => exact Rule.failsSafe_set now b life
  | delete key => exact Rule.failsSafe_delete
  | expire key life => exact Rule.failsSafe_expire now life
  | add key delta => exact Rule.failsSafe_add now key delta
  | setIfAbsent | setIfPresent | swap => exact Rule.failsSafe_assign _ _ _ _
  | addMembers key ms => exact Rule.failsSafe_addMembers now key ms
  | union keys => exact fun p hp e he => PunctualStore.gather_same hp KeyMap.empty keys
  | execute batch atomic => exact fun p hp e he => PunctualStore.execute_failed he
  | deleteMany | scan | flush => exact fun p hp e he => by cases he
  | _ => exact (Rule.failsSafe_container _ _ _ _ _).map _

/-! ## Stores -/

variable {s : Store} {now : Nat} {c : Call}

/-- No live key holds an empty container. -/
def Filled (s : Store) (now : Nat) : Prop :=
  ∀ key e, s.live? now key = some e → e.value.IsFilled

theorem filled_punctual : (s.punctual now).Filled ↔ s.Filled now := by
  unfold PunctualStore.Filled Rule.IsFilled Filled
  simp only [get?_punctual]

theorem Filled.run (h : s.Filled now) (c : Call) : (c.run now s).2.Filled now := by
  rw [← filled_punctual, show (c.run now s).2.punctual now = _ from
    congrArg Prod.snd (run_punctual s now c)]
  exact (fills_plan now c).run (filled_punctual.2 h)

theorem Filled.later {t : Nat} (h : s.Filled now) (hle : now ≤ t) : s.Filled t := by
  intro key e he
  rw [live?_later s hle] at he
  exact h key e (Option.filter_eq_some_iff.1 he).1

/-- Whatever commands have made of an empty store is filled. -/
theorem filled_runAll (ds : List Deed) (h : s.Filled now) :
    (Deed.runAll now s ds).2.2.Filled (Deed.runAll now s ds).2.1 := by
  induction ds generalizing s now with
  | nil => exact h
  | cons d ds ih =>
    refine ih (s := (d.run now s).2.2) ?_
    cases d with
    | call c => exact h.run c
    | size => exact h
    | sleep ms => exact h.later (Nat.le_add_right now ms)

theorem filled_empty (now : Nat) : empty.Filled now := by
  rintro key e ⟨⟩

/-- A command that fails on a filled store leaves every key as it was. -/
theorem live?_failed (h : s.Filled now) {e : Error} (he : (c.run now s).1 = .error e)
    (key : String) : (c.run now s).2.live? now key = s.live? now key := by
  rw [reply_run] at he
  rw [live?_run, (failsSafe_plan now c).run (filled_punctual.2 h) he, get?_punctual]

/-- The command only asks what keys hold. -/
def Call.asks : Call → Bool
  | .get _ | .has _ | .remaining _ | .range _ _ _ | .length _ | .members _ | .hasMember _ _
  | .union _ | .field _ _ | .fields _ | .scan _ _ _ => true
  | _ => false

theorem asks_plan (now : Nat) (hc : c.asks = true) : (c.plan now).Asks := by
  cases c with
  | get | has | remaining => exact Rule.asks_look _
  | range | length => exact (Rule.asks_container laws_listShape _ _ _).map _
  | members | hasMember => exact (Rule.asks_container laws_setShape _ _ _).map _
  | field | fields => exact (Rule.asks_container laws_hashShape _ _ _).map _
  | union keys => exact fun p hp => congrArg _ (PunctualStore.gather_same hp KeyMap.empty keys)
  | scan cursor pattern count => exact fun p hp => p.entries_scan cursor pattern count
  | _ => cases hc

/-- A command that only asks leaves every key of a filled store as it was. -/
theorem live?_asked (h : s.Filled now) (hc : c.asks = true) (key : String) :
    (c.run now s).2.live? now key = s.live? now key := by
  rw [live?_run, (asks_plan now hc).run (filled_punctual.2 h), get?_punctual]

end Store
end CacheLayer
