/-
No entry that lies in a store is an empty container, the dead ones included that
no command has met yet. `Filled` says this of what is seen at a time; here it is
said of all that is there (`Packed`), and holds of every store that commands have
made of an empty one (`packed_runAll`): every rule fills, deleting only takes
away, and a batch that fails gives back entries that were there.
-/
import CacheLayer.Proofs.Store.Entries
import CacheLayer.Proofs.Store.Filled

namespace CacheLayer.Store

variable {α C : Type} {s : Store} {now : Nat} {key : String}

/-- No entry, live or dead, is an empty container. -/
def Packed (s : Store) : Prop := ∀ key, Rule.IsFilled (s.entries.get? key)

theorem packed_empty : empty.Packed := fun _ => Rule.isFilled_none

/-- What is seen of a packed store is filled, at any time. -/
theorem Packed.filled (h : s.Packed) (now : Nat) : s.Filled now :=
  fun key e he => h key e (get?_of_live? he)

theorem Packed.of_entries {s' : Store} (h : s.Packed) (hsame : s'.entries = s.entries) :
    s'.Packed := fun key => hsame ▸ h key

/-! ## One key -/

theorem Packed.place (h : s.Packed) {e? : Option Entry} (he : Rule.IsFilled e?) :
    (s.place key e?).Packed := by
  intro other
  by_cases hkey : other = key
  · subst hkey
    rw [get?_place_self]
    exact he
  · rw [get?_place_other s e? hkey]
    exact h other

theorem Packed.obey (h : s.Packed) {r : Rule α} (hr : r.Fills) : (s.obey now key r).2.Packed :=
  h.place (hr _ (h.filled now key))

theorem Packed.of_eq {o : Outcome α} {r : Rule α} (h : s.Packed) (ho : o = s.obey now key r)
    (hr : r.Fills) : o.2.Packed := by
  rw [ho]
  exact h.obey hr

theorem Packed.container (h : s.Packed) {shape : Shape C} (hshape : shape.Laws) {create : Bool}
    {f : C → α × C} : (onContainer shape create f s now key).2.Packed :=
  h.of_eq (s.onContainer_eq now key shape create f) (Rule.fills_container hshape _ _ _ _)

theorem Packed.addMembers (h : s.Packed) (ms : List String) :
    (s.addMembers now key ms).2.Packed := by
  unfold Store.addMembers
  split
  · exact h
  · exact h.container laws_setShape

/-! ## Many keys -/

theorem Packed.deleteMany (h : s.Packed) (keys : List String) :
    (s.deleteMany now keys).2.Packed := by
  induction keys generalizing s with
  | nil => exact h
  | cons key keys ih =>
    have hdeleted : (s.delete now key).2.Packed :=
      h.of_eq (s.delete_eq now key) Rule.fills_delete
    exact ih hdeleted

theorem Packed.gather (h : s.Packed) (got : KeySet) (keys : List String) :
    (s.gather now got keys).2.Packed := by
  induction keys generalizing s got with
  | nil => exact h
  | cons key keys ih =>
    have hone : (onContainer setShape false (fun set => (set, set)) s now key).2.Packed :=
      h.container laws_setShape
    simp only [Store.gather]
    rcases ho : onContainer setShape false (fun set => (set, set)) s now key with ⟨r, after⟩
    rw [ho] at hone
    cases r with
    | error e => exact hone
    | ok found =>
      cases found with
      | none => exact ih hone got
      | some set => exact ih hone (got.union set)

theorem Packed.steps (h : s.Packed) (batch : List BatchStep) :
    (s.steps now batch).2.Packed := by
  induction batch generalizing s with
  | nil => exact h
  | cons b bs ih =>
    have hstep : (s.step now b).2.Packed := h.of_eq (s.step_eq now b) (b.fills_rule now)
    simp only [Store.steps]
    rcases hs : s.step now b with ⟨r, after⟩
    rw [hs] at hstep
    cases r with
    | error e => exact hstep
    | ok reply => exact ih hstep

/-- A batch that fails has given the store back as it was. -/
theorem Packed.execute (h : s.Packed) (batch : List BatchStep) :
    (s.execute now batch).2.Packed := by
  have hsteps : (s.steps now batch).2.Packed := h.steps batch
  rw [execute_eq]
  rcases hs : s.steps now batch with ⟨r, after⟩
  rw [hs] at hsteps
  cases r with
  | error e => exact h
  | ok replies => exact hsteps

theorem entries_page (s : Store) (now : Nat) (after : Option String) (pattern : String)
    (count : Nat) : (s.page now after pattern count).2.entries = s.entries := by
  simp only [page]
  split
  · split <;> rfl
  · rfl

/-- A page of a walk changes no entry. -/
theorem entries_scan (s : Store) (now cursor : Nat) (pattern : String) (count : Nat) :
    (s.scan now cursor pattern count).2.entries = s.entries := by
  simp only [scan, closeCursor]
  by_cases hcursor : cursor = 0
  · rw [if_pos hcursor]
    exact s.entries_page now none pattern count
  · rw [if_neg hcursor]
    cases (s.cursors.find? (·.1 == cursor)).map (·.2) with
    | none => rfl
    | some last => exact entries_page _ now _ pattern count

/-! ## Every command -/

/-- Every command leaves a packed store packed. -/
theorem Packed.run (h : s.Packed) (now : Nat) (c : Call) : (c.run now s).2.Packed := by
  cases c with
  | get key => exact h.of_eq (s.get_eq now key) (Rule.asks_look _).fills
  | set key b life => exact h.of_eq (s.set_eq now key b life) (Rule.fills_set now b life)
  | delete key => exact h.of_eq (s.delete_eq now key) Rule.fills_delete
  | has key => exact h.of_eq (s.has_eq now key) (Rule.asks_look _).fills
  | expire key life => exact h.of_eq (s.expire_eq now key life) (Rule.fills_expire now life)
  | remaining key => exact h.of_eq (s.remaining_eq now key) (Rule.asks_look _).fills
  | add key delta => exact h.of_eq (s.add_eq now key delta) (Rule.fills_add now key delta)
  | setIfAbsent key b life =>
    exact h.of_eq (s.setIfAbsent_eq now key b life) (Rule.fills_assign _ _ _ _)
  | setIfPresent key b life =>
    exact h.of_eq (s.setIfPresent_eq now key b life) (Rule.fills_assign _ _ _ _)
  | swap key expected b life =>
    exact h.of_eq (s.swap_eq now key expected b life) (Rule.fills_assign _ _ _ _)
  | pushFront | pushBack | range | trim | length | popFront => exact h.container laws_listShape
  | addMembers key ms => exact h.addMembers ms
  | removeMembers | members | hasMember => exact h.container laws_setShape
  | setField | field | fields | removeFields => exact h.container laws_hashShape
  | deleteMany keys => exact h.deleteMany keys
  | union keys => exact h.gather KeyMap.empty keys
  | scan cursor pattern count => exact h.of_entries (s.entries_scan now cursor pattern count)
  | execute batch atomic => exact h.execute batch
  | flush => exact fun key => Rule.isFilled_none

/-- **No empty containers.** Whatever is done to a packed store, and however time passes, it stays
packed. -/
theorem packed_runAll (h : s.Packed) (now : Nat) (ds : List Deed) :
    (Deed.runAll now s ds).2.2.Packed := by
  induction ds generalizing s now with
  | nil => exact h
  | cons d ds ih =>
    have hone : (d.run now s).2.2.Packed := by
      cases d with
      | call c => exact h.run now c
      | size => exact h
      | sleep ms => exact h
    exact ih hone _

end CacheLayer.Store
