/-
Deadlines. What a command does to them is read off the punctual store, which has
no dead entries, and holds of every store by `run_punctual`: a key that is given
a life is as good as born with it (`live?_granted`); every other command leaves
the deadline of an entry as it is, also where it rewrites the value in part, and
what it creates lives for good (`deadline_live?`); a key that is only asked for,
or not mentioned, keeps its entry (`live?_spared`).
-/
import CacheLayer.Proofs.Store.Expiry

namespace CacheLayer

variable {α : Type}

/-! ## Rules that keep deadlines -/

namespace Rule

/-- On this entry, the rule keeps the deadline; what it makes of nothing lives for good. -/
def KeepsAt (r : Rule α) (e? : Option Entry) : Prop :=
  ∀ e', (r e?).2 = some e' → e'.deadline = e?.bind Entry.deadline

theorem keepsAt_same {r : Rule α} {e? : Option Entry} (h : (r e?).2 = e?) : r.KeepsAt e? := by
  intro e' he
  rw [h] at he
  simp [he]

theorem keepsAt_look (f : Option Entry → Except Error α) (e? : Option Entry) :
    (look f).KeepsAt e? := keepsAt_same rfl

theorem keepsAt_delete (e? : Option Entry) : delete.KeepsAt e? := by
  intro e' he
  cases he

theorem keepsAt_add (now : Nat) (key : String) (delta : Int) (e? : Option Entry) :
    (add now key delta).KeepsAt e? := by
  intro e' he
  cases e? with
  | none =>
    obtain rfl : Entry.born _ none now = e' := by simpa [add] using he
    rfl
  | some e =>
    cases hv : e.value with
    | bytes b =>
      cases hc : Store.counter? b with
      | none =>
        obtain rfl : e = e' := by simpa [add, hv, hc] using he
        rfl
      | some current =>
        by_cases hfits : Text.fitsInt64 (current + delta) = true
        · simp only [add, hv, hc, hfits, if_true, Option.some.injEq] at he
          subst he
          rfl
        · obtain rfl : e = e' := by simpa [add, hv, hc, hfits] using he
          rfl
    | list items =>
      obtain rfl : e = e' := by simpa [add, hv] using he
      rfl
    | set members =>
      obtain rfl : e = e' := by simpa [add, hv] using he
      rfl
    | hash fields =>
      obtain rfl : e = e' := by simpa [add, hv] using he
      rfl

/-- What becomes of a container that is there. -/
theorem container_some {C : Type} {shape : Store.Shape C} {create : Bool} {now : Nat} {key : String}
    {f : C → α × C} {e e' : Entry}
    (h : (container shape create now key f (some e)).2 = some e') : e'.deadline = e.deadline := by
  cases hv : shape.see? e.value with
  | none =>
    obtain rfl : e = e' := by simpa [container, hv] using h
    rfl
  | some c =>
    by_cases hnone : shape.isNone (f c).2 = true
    · simp [container, hv, hnone] at h
    · obtain rfl : { e with value := shape.keep (f c).2 } = e' := by
        simpa [container, hv, hnone] using h
      rfl

theorem keepsAt_container {C : Type} (shape : Store.Shape C) (create : Bool) (now : Nat)
    (key : String) (absent : α) (f : C → α × C) (e? : Option Entry) :
    ((container shape create now key f).orElse absent).KeepsAt e? := by
  intro e' he
  cases e? with
  | some e => exact container_some he
  | none =>
    cases create with
    | false => simp [orElse, map, container] at he
    | true =>
      by_cases hnone : shape.isNone (f shape.none).2 = true
      · simp [orElse, map, container, hnone] at he
      · obtain rfl : Entry.born (shape.keep (f shape.none).2) none now = e' := by
          simpa [orElse, map, container, hnone] using he
        rfl

theorem keepsAt_addMembers (now : Nat) (key : String) (members : List String)
    (e? : Option Entry) : (addMembers now key members).KeepsAt e? := by
  unfold addMembers
  split
  · exact keepsAt_look _ _
  · exact keepsAt_container _ _ _ _ _ _ _

theorem assign_of_ne {now : Nat} {b : Bytes} {life : Option Nat} {wanted : Option Entry → Bool}
    {e? : Option Entry} (h : (assign now b life wanted e?).1 ≠ .ok true) :
    (assign now b life wanted e?).2 = e? := by
  unfold assign at h ⊢
  split
  · next hw => simp [hw] at h
  · rfl

theorem assign_of_eq {now : Nat} {b : Bytes} {life : Option Nat} {wanted : Option Entry → Bool}
    {e? : Option Entry} (h : (assign now b life wanted e?).1 = .ok true) :
    (assign now b life wanted e?).2 = some (.born (.bytes b) life now) := by
  unfold assign at h ⊢
  split
  · rfl
  · next hw => simp [hw] at h

end Rule

namespace Store

/-! ## Commands that give a life -/

/-- The life that a key has been given, if it has been done. -/
def given (key : String) (life : Option Nat) : Except Error Bool → Option (String × Option Nat)
  | .ok true => some (key, life)
  | _ => none

theorem given_eq_some {k key : String} {life life' : Option Nat} {r : Except Error Bool}
    (h : given k life r = some (key, life')) : r = .ok true ∧ k = key ∧ life = life' := by
  cases r with
  | error e => cases h
  | ok yes =>
    cases yes with
    | false => cases h
    | true => simpa [given] using h

theorem given_ne {key : String} {life : Option Nat} {r : Except Error Bool}
    (h : ∀ life', given key life r ≠ some (key, life')) : r ≠ .ok true := by
  rintro rfl
  exact h life rfl

/-- The key to which a command has given a life of its own, by its answer, and that life. -/
def Call.granted? : (c : Call) → Except Error c.Reply → Option (String × Option Nat)
  | .set key _ life, r => given key life (r.map fun _ => true)
  | .setIfAbsent key _ life, r => given key life r
  | .setIfPresent key _ life, r => given key life r
  | .swap key _ _ life, r => given key life r
  | .expire key life, r => given key (some life) r
  | _, _ => none

/-- The command only asks what the key holds, or works on other keys. -/
def Call.spares (key : String) : Call → Bool
  | .get _ | .has _ | .remaining _ | .scan _ _ _ => true
  | .deleteMany keys | .union keys => !keys.contains key
  | .execute batch _ => batch.all fun b => b.key != key
  | .flush => false
  | .set k _ _ | .delete k | .expire k _ | .add k _ | .pushFront k _ | .pushBack k _
  | .range k _ _ | .trim k _ _ | .length k | .popFront k | .addMembers k _ | .removeMembers k _
  | .members k | .hasMember k _ | .setField k _ _ | .field k _ | .fields k | .removeFields k _
  | .setIfAbsent k _ _ | .setIfPresent k _ _ | .swap k _ _ _ => k != key

end Store

namespace PunctualStore

variable {p q : PunctualStore} {key k : String} {e' : Entry}

/-! ## Keys that are spared -/

theorem get?_obey_other (p : PunctualStore) (r : Rule α) (hne : (k != key) = true) :
    (p.obey k r).2.entries.get? key = p.entries.get? key :=
  p.get?_place_other _ (Ne.symm (by simpa using hne))

theorem get?_obey_look (p : PunctualStore) (k : String) (f : Option Entry → Except Error α)
    (key : String) : (p.obey k (Rule.look f)).2.entries.get? key = p.entries.get? key := by
  change (p.place k (p.entries.get? k)).entries.get? key = _
  rw [place_get?]

theorem get?_deleteMany {keys : List String} (p : PunctualStore) (h : key ∉ keys) :
    (p.deleteMany keys).2.entries.get? key = p.entries.get? key := by
  induction keys generalizing p with
  | nil => rfl
  | cons k keys ih =>
    obtain ⟨hne, hrest⟩ : key ≠ k ∧ key ∉ keys := by simpa using h
    exact (ih (p.place k none) hrest).trans (p.get?_place_other none hne)

theorem get?_gather {keys : List String} (p : PunctualStore) (got : KeySet) (h : key ∉ keys) :
    (p.gather got keys).2.entries.get? key = p.entries.get? key := by
  induction keys generalizing p got with
  | nil => rfl
  | cons k keys ih =>
    obtain ⟨hne, hrest⟩ : key ≠ k ∧ key ∉ keys := by simpa using h
    have hobey : (p.obey k (Rule.theSet p.now k)).2.entries.get? key = p.entries.get? key :=
      p.get?_place_other _ hne
    simp only [gather]
    rcases ho : p.obey k (Rule.theSet p.now k) with ⟨r, q⟩
    rw [ho] at hobey
    cases r with
    | error e => exact hobey
    | ok found =>
      cases found with
      | none => exact (ih q got hrest).trans hobey
      | some set => exact (ih q (got.union set) hrest).trans hobey

theorem get?_steps {batch : List BatchStep} (p : PunctualStore)
    (h : (batch.all fun b => b.key != key) = true) :
    (p.steps batch).2.entries.get? key = p.entries.get? key := by
  induction batch generalizing p with
  | nil => rfl
  | cons b bs ih =>
    obtain ⟨hne, hrest⟩ : (b.key != key) = true ∧ (bs.all fun b => b.key != key) = true := by
      simpa using h
    have hobey := p.get?_obey_other (b.rule p.now) hne
    simp only [steps]
    rcases ho : p.obey b.key (b.rule p.now) with ⟨r, q⟩
    rw [ho] at hobey
    cases r with
    | error e => exact hobey
    | ok reply => exact (ih q hrest).trans hobey

theorem get?_execute {batch : List BatchStep} (p : PunctualStore)
    (h : (batch.all fun b => b.key != key) = true) :
    (p.execute batch).2.entries.get? key = p.entries.get? key := by
  have hsteps := p.get?_steps h
  unfold execute
  rcases hs : p.steps batch with ⟨r, q⟩
  rw [hs] at hsteps
  cases r with
  | error e => rfl
  | ok replies => exact hsteps

theorem entries_page (p : PunctualStore) (after : Option String) (pattern : String) (count : Nat) :
    (p.page after pattern count).2.entries = p.entries := by
  simp only [page]
  split
  · rfl
  · split <;> rfl

theorem entries_scan (p : PunctualStore) (cursor : Nat) (pattern : String) (count : Nat) :
    (p.scan cursor pattern count).2.entries = p.entries := by
  simp only [scan]
  split
  · exact p.entries_page _ _ _
  · split
    · rfl
    · exact entries_page _ _ _ _

/-- A spared key holds what it held. -/
theorem get?_run_spared {c : Store.Call} (p : PunctualStore) (h : c.spares key = true) :
    ((c.plan p.now).run p).2.entries.get? key = p.entries.get? key := by
  cases c with
  | get k | has k | remaining k => exact p.get?_obey_look _ _ _
  | scan cursor pattern count =>
    exact congrArg (KeyMap.get? · key) (p.entries_scan cursor pattern count)
  | deleteMany keys => exact p.get?_deleteMany (by simpa [Store.Call.spares] using h)
  | union keys => exact p.get?_gather KeyMap.empty (by simpa [Store.Call.spares] using h)
  | execute batch atomic => exact p.get?_execute h
  | flush => cases h
  | _ => exact p.get?_obey_other _ h

/-! ## Keys that are given a life -/

theorem get?_place_born (p : PunctualStore) (key : String) (v : Value) (life : Option Nat) :
    (p.place key (some (.born v life p.now))).entries.get? key =
      (some (Entry.born v life p.now)).filter fun e => !e.isDead p.now :=
  p.get?_place_self key _

theorem get?_obey_assign {b : Bytes} {life life' : Option Nat} {wanted : Option Entry → Bool}
    (p : PunctualStore)
    (h : Store.given k life (p.obey k (Rule.assign p.now b life wanted)).1 = some (key, life')) :
    ∃ v, (p.obey k (Rule.assign p.now b life wanted)).2.entries.get? key =
      (some (Entry.born v life' p.now)).filter fun e => !e.isDead p.now := by
  obtain ⟨hyes, rfl, rfl⟩ := Store.given_eq_some h
  refine ⟨.bytes b, ?_⟩
  simp only [obey, Rule.assign_of_eq hyes]
  exact p.get?_place_born k _ _

/-- A key that is given a life is as good as born with it. -/
theorem get?_run_granted {c : Store.Call} {life : Option Nat} (p : PunctualStore)
    (h : c.granted? ((c.plan p.now).run p).1 = some (key, life)) :
    ∃ v, ((c.plan p.now).run p).2.entries.get? key =
      (some (Entry.born v life p.now)).filter fun e => !e.isDead p.now := by
  cases c with
  | set k b life' =>
    have hgiven : Store.given k life' (.ok true) = some (key, life) := h
    obtain ⟨-, rfl, rfl⟩ := Store.given_eq_some hgiven
    exact ⟨.bytes b, p.get?_place_born k _ _⟩
  | setIfAbsent k b life' => exact p.get?_obey_assign h
  | setIfPresent k b life' => exact p.get?_obey_assign h
  | swap k expected b life' => exact p.get?_obey_assign h
  | expire k ms =>
    obtain ⟨hyes, rfl, rfl⟩ := Store.given_eq_some h
    have hthere : (p.entries.get? k).isSome = true := Except.ok.inj hyes
    obtain ⟨e, he⟩ := Option.isSome_iff_exists.1 hthere
    refine ⟨e.value, ?_⟩
    change (p.place k ((p.entries.get? k).map _)).entries.get? k = _
    rw [he]
    exact p.get?_place_born k e.value (some ms)
  | _ => cases h

/-! ## Commands that give no life -/

theorem deadline_of_get?_eq (h : q.entries.get? key = p.entries.get? key)
    (he : q.entries.get? key = some e') :
    e'.deadline = (p.entries.get? key).bind Entry.deadline := by
  rw [← h, he]
  rfl

theorem deadline_obey {r : Rule α} (p : PunctualStore)
    (hkeeps : k = key → r.KeepsAt (p.entries.get? k))
    (he : (p.obey k r).2.entries.get? key = some e') :
    e'.deadline = (p.entries.get? key).bind Entry.deadline := by
  by_cases hk : key = k
  · subst hk
    have hplaced : (r (p.entries.get? key)).2.filter (fun e => !e.isDead p.now) = some e' :=
      (p.get?_place_self key _).symm.trans he
    exact hkeeps rfl e' (Option.filter_eq_some_iff.1 hplaced).1
  · exact deadline_of_get?_eq (p.get?_place_other _ hk) he

theorem deadline_obey_assign {b : Bytes} {life : Option Nat} {wanted : Option Entry → Bool}
    (p : PunctualStore)
    (h : ∀ life', Store.given k life (p.obey k (Rule.assign p.now b life wanted)).1 ≠
      some (key, life'))
    (he : (p.obey k (Rule.assign p.now b life wanted)).2.entries.get? key = some e') :
    e'.deadline = (p.entries.get? key).bind Entry.deadline := by
  refine p.deadline_obey (fun hk => ?_) he
  subst hk
  exact Rule.keepsAt_same (Rule.assign_of_ne (Store.given_ne h))

/-- Every entry was there before, with the deadline that it has. -/
def Thins (p q : PunctualStore) : Prop :=
  ∀ key e', q.entries.get? key = some e' → ∃ e, p.entries.get? key = some e ∧ e'.deadline = e.deadline

namespace Thins

theorem refl (p : PunctualStore) : Thins p p := fun _ e' he => ⟨e', he, rfl⟩

theorem trans {p q r : PunctualStore} (h : Thins p q) (h' : Thins q r) : Thins p r := by
  intro key e'' he''
  obtain ⟨e', he', hd'⟩ := h' key e'' he''
  obtain ⟨e, he, hd⟩ := h key e' he'
  exact ⟨e, he, hd'.trans hd⟩

theorem place_none (p : PunctualStore) (k : String) : Thins p (p.place k none) := by
  intro key e' he
  by_cases hk : key = k
  · subst hk
    rw [get?_place_self] at he
    cases he
  · rw [get?_place_other _ _ hk] at he
    exact ⟨e', he, rfl⟩

theorem theSet (p : PunctualStore) (k : String) :
    Thins p (p.obey k (Rule.theSet p.now k)).2 := by
  intro key e' he
  by_cases hk : key = k
  · subst hk
    have hplaced : (Rule.theSet p.now key (p.entries.get? key)).2.filter
        (fun e => !e.isDead p.now) = some e' := (p.get?_place_self key _).symm.trans he
    have hleft := (Option.filter_eq_some_iff.1 hplaced).1
    cases hp : p.entries.get? key with
    | none =>
      rw [hp] at hleft
      cases hleft
    | some e =>
      rw [hp] at hleft
      exact ⟨e, rfl, Rule.container_some hleft⟩
  · exact ⟨e', (p.get?_place_other _ hk).symm.trans he, rfl⟩

theorem deleteMany (keys : List String) (p : PunctualStore) : Thins p (p.deleteMany keys).2 := by
  induction keys generalizing p with
  | nil => exact refl p
  | cons k keys ih => exact (place_none p k).trans (ih (p.place k none))

theorem gather (keys : List String) (p : PunctualStore) (got : KeySet) :
    Thins p (p.gather got keys).2 := by
  induction keys generalizing p got with
  | nil => exact refl p
  | cons k keys ih =>
    have hset := theSet p k
    simp only [PunctualStore.gather]
    rcases ho : p.obey k (Rule.theSet p.now k) with ⟨r, q⟩
    rw [ho] at hset
    cases r with
    | error e => exact hset
    | ok found =>
      cases found with
      | none => exact hset.trans (ih q got)
      | some set => exact hset.trans (ih q (got.union set))

theorem deadline (h : Thins p q) (he : q.entries.get? key = some e') :
    e'.deadline = (p.entries.get? key).bind Entry.deadline := by
  obtain ⟨e, hp, hd⟩ := h key e' he
  rw [hd, hp]
  rfl

end Thins

/-- A command that has not given a key a life leaves its deadline as it is, and lets a key that it
creates live for good. -/
theorem deadline_run {c : Store.Call} (p : PunctualStore) (hc : c.method ≠ .execute)
    (h : ∀ life, c.granted? ((c.plan p.now).run p).1 ≠ some (key, life))
    (he : ((c.plan p.now).run p).2.entries.get? key = some e') :
    e'.deadline = (p.entries.get? key).bind Entry.deadline := by
  cases c with
  | get k | has k | remaining k =>
    exact p.deadline_obey (fun _ => Rule.keepsAt_look _ _) he
  | set k b life =>
    refine p.deadline_obey (fun hk => ?_) he
    subst hk
    exact absurd rfl (h life)
  | setIfAbsent k b life => exact p.deadline_obey_assign h he
  | setIfPresent k b life => exact p.deadline_obey_assign h he
  | swap k expected b life => exact p.deadline_obey_assign h he
  | expire k life =>
    refine p.deadline_obey (fun hk => ?_) he
    subst hk
    have hno : (p.entries.get? k).isSome ≠ true := fun hyes =>
      Store.given_ne h (congrArg Except.ok hyes)
    intro e' he'
    simp [Rule.expire, Option.not_isSome_iff_eq_none.1 hno] at he'
  | delete k => exact p.deadline_obey (fun _ => Rule.keepsAt_delete _) he
  | add k delta => exact p.deadline_obey (fun _ => Rule.keepsAt_add _ _ _ _) he
  | addMembers k ms => exact p.deadline_obey (fun _ => Rule.keepsAt_addMembers _ _ _ _) he
  | deleteMany keys => exact (Thins.deleteMany keys p).deadline he
  | union keys => exact (Thins.gather keys p KeyMap.empty).deadline he
  | scan cursor pattern count =>
    exact deadline_of_get?_eq (congrArg (KeyMap.get? · key) (p.entries_scan cursor pattern count)) he
  | execute batch atomic => exact absurd rfl hc
  | flush => cases he
  | _ => exact p.deadline_obey (fun _ => Rule.keepsAt_container _ _ _ _ _ _ _) he

end PunctualStore

namespace Store

variable {s : Store} {now later : Nat} {key : String}

/-! ## The same of a store -/

theorem live?_run (s : Store) (now : Nat) (c : Call) (key : String) :
    (c.run now s).2.live? now key =
      ((c.plan now).run (s.punctual now)).2.entries.get? key := by
  rw [← run_punctual]
  exact (get?_punctual _ _ _).symm

theorem reply_run (s : Store) (now : Nat) (c : Call) :
    (c.run now s).1 = ((c.plan now).run (s.punctual now)).1 :=
  congrArg Prod.fst (run_punctual s now c)

/-- What a command on one key answers and leaves there, by its rule. -/
theorem run_onKey (s : Store) (now : Nat) (c : Call) {r : Rule c.Reply}
    (hc : c.plan now = .onKey key r) :
    (c.run now s).1 = (r (s.live? now key)).1 ∧
      (c.run now s).2.live? now key =
        (r (s.live? now key)).2.filter fun e => !e.isDead now := by
  rw [reply_run, live?_run, hc]
  change (r ((s.punctual now).entries.get? key)).1 = _ ∧
    ((s.punctual now).place key (r ((s.punctual now).entries.get? key)).2).entries.get? key = _
  rw [PunctualStore.get?_place_self, get?_punctual]
  exact ⟨rfl, rfl⟩

/-- An entry with the deadline of a live one is alive. -/
theorem filter_of_live? {e e' : Entry} (h : s.live? now key = some e)
    (hd : e'.deadline = e.deadline) : (some e').filter (fun e => !e.isDead now) = some e' := by
  have halive : (!e.isDead now) = true := (Option.filter_eq_some_iff.1 h).2
  have hsame : e'.isDead now = e.isDead now := by
    unfold Entry.isDead
    rw [hd]
  rw [Option.filter_some, if_pos (hsame ▸ halive)]

theorem live?_granted {c : Call} {life : Option Nat}
    (h : c.granted? (c.run now s).1 = some (key, life)) :
    ∃ v, (c.run now s).2.live? now key =
      (some (Entry.born v life now)).filter fun e => !e.isDead now := by
  rw [reply_run] at h
  obtain ⟨v, hv⟩ := PunctualStore.get?_run_granted (s.punctual now) h
  exact ⟨v, (live?_run s now c key).trans hv⟩

theorem live?_spared {c : Call} (s : Store) (now : Nat) (h : c.spares key = true) :
    (c.run now s).2.live? now key = s.live? now key := by
  rw [live?_run, ← get?_punctual s now key]
  exact PunctualStore.get?_run_spared (s.punctual now) h

theorem deadline_live? {c : Call} {e' : Entry} (hc : c.method ≠ .execute)
    (h : ∀ life, c.granted? (c.run now s).1 ≠ some (key, life))
    (he : (c.run now s).2.live? now key = some e') :
    e'.deadline = (s.live? now key).bind Entry.deadline := by
  rw [reply_run] at h
  rw [live?_run] at he
  rw [← get?_punctual s now key]
  exact PunctualStore.deadline_run (s.punctual now) hc h he

end Store
end CacheLayer
