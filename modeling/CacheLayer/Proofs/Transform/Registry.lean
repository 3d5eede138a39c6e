/-
Registries of transformers over time. Whatever is added, removed, replaced or
set anew, no name is there twice (`nodup_names_edited`), so a transformer that is
registered is the one found under its name (`find?_of_mem`). A registry that is
only added to and removed from is the stable sort of the latest transformers of
their names (`built_eq_sort`).
-/
import CacheLayer.Proofs.Priority
import CacheLayer.Transform.Registry

namespace CacheLayer.Transformers

variable {ts : Transformers} {name : String}

/-! ## Edits -/

/-- What can happen to a registry. -/
inductive Edit where
  | add (t : Transformer)
  | remove (name : String)
  /-- The transformer of a name gets another priority and wants other payloads, in its place. -/
  | retune (name : String) (priority : Int) (applies : String → Bytes → Bool)

/-- The transformer with another priority and test, if it has the name. -/
def retuned (name : String) (priority : Int) (applies : String → Bytes → Bool) (t : Transformer) :
    Transformer :=
  if t.name = name then { t with priority := priority, applies := applies } else t

def edit (ts : Transformers) : Edit → Transformers
  | .add t => ts.add t
  | .remove name => ts.remove name
  | .retune name priority applies => ts.map (retuned name priority applies)

/-- The registry after some edits. -/
def edited (ts : Transformers) (es : List Edit) : Transformers := es.foldl edit ts

/-- Registered are the new transformer and the others that do not have its name. -/
theorem mem_add_iff {t u : Transformer} : u ∈ ts.add t ↔ u ∈ ts ∧ u.name ≠ t.name ∨ u = t := by
  rw [add, Priority.register, Priority.sort, List.mem_mergeSort]
  simp

/-! ## Names -/

theorem name_retuned (name : String) (priority : Int) (applies : String → Bytes → Bool)
    (t : Transformer) : (retuned name priority applies t).name = t.name := by
  unfold retuned
  split <;> rfl

theorem nodup_names_filter (p : Transformer → Bool) (h : ts.names.Nodup) :
    (names (ts.filter p)).Nodup :=
  h.sublist (List.filter_sublist.map Transformer.name)

theorem nodup_names_add (t : Transformer) (h : ts.names.Nodup) : (ts.add t).names.Nodup := by
  have hperm : (ts.add t).names.Perm (names (ts.filter (fun u => u.name != t.name) ++ [t])) :=
    (List.mergeSort_perm _ _).map Transformer.name
  refine hperm.nodup_iff.2 ?_
  rw [names, List.map_append, List.map_singleton, List.nodup_append]
  refine ⟨nodup_names_filter _ h, List.nodup_singleton _, ?_⟩
  intro a ha b hb
  obtain ⟨u, hu, rfl⟩ := List.mem_map.1 ha
  obtain rfl := List.mem_singleton.1 hb
  simpa using (List.mem_filter.1 hu).2

theorem nodup_names_edit (e : Edit) (h : ts.names.Nodup) : (ts.edit e).names.Nodup := by
  cases e with
  | add t => exact nodup_names_add t h
  | remove name => exact nodup_names_filter _ h
  | retune name priority applies =>
    have hnames : names (ts.map (retuned name priority applies)) = ts.names := by
      rw [names, names, List.map_map]
      exact List.map_congr_left fun t _ => name_retuned name priority applies t
    rw [edit, hnames]
    exact h

/-- No name is in a registry twice. -/
theorem nodup_names_edited (es : List Edit) (h : ts.names.Nodup) : (ts.edited es).names.Nodup := by
  induction es generalizing ts with
  | nil => exact h
  | cons e es ih => exact ih (nodup_names_edit e h)

/-! ## Finding a transformer -/

theorem find?_of_mem {t : Transformer} (h : ts.names.Nodup) (ht : t ∈ ts) :
    ts.find? t.name = some t := by
  induction ts with
  | nil => cases ht
  | cons u ts ih =>
    obtain ⟨hu, hts⟩ := List.nodup_cons.1 h
    rcases List.mem_cons.1 ht with rfl | ht
    · simp [find?]
    · have hne : (u.name == t.name) = false := by
        rw [beq_eq_false_iff_ne]
        exact fun heq => hu (heq ▸ List.mem_map_of_mem ht)
      rw [find?, List.find?_cons_of_neg (by simp [hne])]
      exact ih hts ht

theorem find?_eq_none (h : name ∉ ts.names) : ts.find? name = none := by
  rw [find?, List.find?_eq_none]
  intro t ht heq
  exact h (List.mem_map.2 ⟨t, ht, by simpa using heq⟩)

/-! ## Order -/

/-- The registry after something was added or removed. -/
def amend (ts : Transformers) : Priority.Edit Transformer → Transformers
  | .add t => ts.add t
  | .remove name => (ts.discard name).2

/-- What is registered after some additions and removals. -/
def built (edits : List (Priority.Edit Transformer)) : Transformers := edits.foldl amend []

/-- A transformer is dropped by one of its name that is added later, and when its name is removed. -/
def drops : Priority.Edit Transformer → Transformer → Bool
  | .add t, u => u.name == t.name
  | .remove name, u => u.name == name

theorem built_eq_sort (edits : List (Priority.Edit Transformer)) :
    built edits = Priority.sort Transformer.priority (Priority.remaining drops edits) := by
  have hadd : ∀ (ts : Transformers) (t : Transformer), ts.amend (.add t) =
      Priority.register Transformer.priority (ts.filter (!drops (.add t) ·)) t := fun _ _ => rfl
  have hsort := Priority.foldl_eq_sort hadd (fun _ _ => rfl) edits []
  rwa [List.filter_nil, List.nil_append, Priority.sort, List.mergeSort_nil] at hsort

theorem nodup_names_built (edits : List (Priority.Edit Transformer)) : (built edits).names.Nodup := by
  have hgrows : ∀ {ts : Transformers}, ts.names.Nodup → (edits.foldl amend ts).names.Nodup := by
    induction edits with
    | nil => exact fun h => h
    | cons e edits ih =>
      intro ts h
      cases e with
      | add t => exact ih (nodup_names_add t h)
      | remove name => exact ih (nodup_names_filter _ h)
  exact hgrows List.nodup_nil

/-- Transformers with names of their own stand in the stable order of their priorities. -/
theorem foldl_add {ts : List Transformer} (h : (ts.map Transformer.name).Nodup) :
    ts.foldl add [] = Priority.sort Transformer.priority ts := by
  have hapart : ts.Pairwise fun t u => drops (.add u) t = false :=
    (List.pairwise_map.1 h).imp fun hne => beq_eq_false_iff_ne.2 hne
  have hbuilt := built_eq_sort (ts.map .add)
  rw [Priority.remaining_adds hapart, built, List.foldl_map] at hbuilt
  exact hbuilt

end CacheLayer.Transformers
