/-
The two registries of an engine, of hooks and of transformers, side by side. Both are stable sorts of
what remains of everything that was done to them; they differ in what drops an entry. So it does not
matter in which order entries are registered, as long as no two of them claim the same place.
-/
import CacheLayer.Proofs.Hook
import CacheLayer.Proofs.Transform.Registry

namespace CacheLayer

open Priority

variable {V : Type}

/-- **Registries stand in the stable order of priority.** After any additions and removals the hooks
are the stable sort of those that were added and not removed since; the transformers are the stable
sort of those that were added and neither removed nor replaced since, no name twice. A removal tells
whether there was an entry of the name. Entries with priorities of their own, and transformers with
names of their own, may be registered in any order: the names, the calls of hooks and what
transformers make of a payload are the same. Hooks are called as they stand, up to the first that
fails, and its failure is reported under its name. -/
theorem registries_ordered :
    (∀ edits : List (Edit (Hook V)),
      IsStableSort Hook.priority (remaining Hooks.drops edits) (Hooks.built edits) ∧
      ∀ name, ((Hooks.built edits).discard name).1 = true ↔
        ∃ hook ∈ Hooks.built edits, hook.name = name) ∧
    (∀ edits : List (Edit Transformer),
      IsStableSort Transformer.priority (remaining Transformers.drops edits)
        (Transformers.built edits) ∧
      (Transformers.built edits).names.Nodup ∧
      ∀ name, ((Transformers.built edits).discard name).1 = true ↔
        ∃ t ∈ Transformers.built edits, t.name = name) ∧
    (∀ hs hs' : List (Hook V), hs.Perm hs' → (hs.map Hook.priority).Nodup →
      Hooks.names (hs.foldl Hooks.add []) = Hooks.names (hs'.foldl Hooks.add []) ∧
      ∀ phase, Hooks.run phase (hs.foldl Hooks.add []) = Hooks.run phase (hs'.foldl Hooks.add [])) ∧
    (∀ ts ts' : List Transformer, ts.Perm ts' → (ts.map Transformer.priority).Nodup →
      (ts.map Transformer.name).Nodup →
      Transformers.names (ts.foldl Transformers.add []) =
        Transformers.names (ts'.foldl Transformers.add []) ∧
      ∀ fresh key b, Transformers.applyAll fresh key (ts.foldl Transformers.add []) b =
        Transformers.applyAll fresh key (ts'.foldl Transformers.add []) b) ∧
    ∀ (phase : HookPhase V) (hs : Hooks V), Hooks.Called phase hs (hs.run phase).1 (hs.run phase).2 := by
  refine ⟨fun edits => ⟨?_, fun name => discard_iff _ _ name⟩,
    fun edits => ⟨?_, Transformers.nodup_names_built edits, fun name => discard_iff _ _ name⟩,
    fun hs hs' hperm hdistinct => ?_, fun ts ts' hperm hdistinct hnames => ?_, Hooks.called_run⟩
  · exact sort_eq_iff.1 (Hooks.built_eq_sort edits).symm
  · exact sort_eq_iff.1 (Transformers.built_eq_sort edits).symm
  · have hsame : hs.foldl Hooks.add [] = hs'.foldl Hooks.add [] := by
      rw [Hooks.foldl_add, Hooks.foldl_add, sort_eq_of_perm hperm hdistinct]
    rw [hsame]
    exact ⟨rfl, fun _ => rfl⟩
  · have hnames' : (ts'.map Transformer.name).Nodup := (hperm.map _).nodup_iff.1 hnames
    have hsame : ts.foldl Transformers.add [] = ts'.foldl Transformers.add [] := by
      rw [Transformers.foldl_add hnames, Transformers.foldl_add hnames',
        sort_eq_of_perm hperm hdistinct]
    rw [hsame]
    exact ⟨rfl, fun _ _ _ => rfl⟩

/-- A hook that lets everything pass. -/
def bystander (name : String) (priority : Int) : Hook UInt8 := ⟨name, priority, true, fun _ => .ok ()⟩

/-- A step of some priority that leaves every payload as it is. -/
def pace (name : String) (priority : Int) : Transformer :=
  { Transformer.identity name with priority := priority }

theorem registries_ordered_swapped :
    [bystander "late" 2, bystander "early" 1].Perm [bystander "early" 1, bystander "late" 2] ∧
    [pace "late" 2, pace "early" 1].Perm [pace "early" 1, pace "late" 2] ∧
    Hooks.names ([bystander "late" 2, bystander "early" 1].foldl Hooks.add []) = ["early", "late"] ∧
    Transformers.names ([pace "late" 2, pace "early" 1].foldl Transformers.add []) =
      ["early", "late"] := by
  have hhooks : [bystander "late" 2, bystander "early" 1].Perm
      [bystander "early" 1, bystander "late" 2] := List.Perm.swap _ _ _
  have hsteps : [pace "late" 2, pace "early" 1].Perm [pace "early" 1, pace "late" 2] :=
    List.Perm.swap _ _ _
  obtain ⟨-, -, hnames, hnames', -⟩ := registries_ordered (V := UInt8)
  refine ⟨hhooks, hsteps, ?_, ?_⟩
  · rw [(hnames _ _ hhooks (by decide)).1, Hooks.foldl_add, sort,
      List.mergeSort_of_pairwise (by decide)]
    rfl
  · rw [(hnames' _ _ hsteps (by decide) (by decide)).1, Transformers.foldl_add (by decide), sort,
      List.mergeSort_of_pairwise (by decide)]
    rfl

end CacheLayer
