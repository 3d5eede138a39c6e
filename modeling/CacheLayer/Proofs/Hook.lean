/-
How hooks are called, and in which order. For a phase they are called as they stand, up to the first
that fails (`Hooks.Called`); and after any additions and removals they stand as the stable sort of the
hooks that were added and not removed since (`Hooks.built_eq_sort`).
-/
import CacheLayer.Hook
import CacheLayer.Proofs.Priority

namespace CacheLayer

variable {V : Type}

/-! ## Calls of hooks -/

def Hook.callFor (hook : Hook V) (phase : HookPhase V) : HookCall V := ⟨hook.name, hook.noted, phase⟩

/-- Hooks are called for a phase: all of them, if none fails, or up to the first that fails. -/
inductive Hooks.Called (phase : HookPhase V) :
    Hooks V → List (HookCall V) → Except Error Unit → Prop where
  | all {hs : Hooks V} (h : ∀ hook ∈ hs, hook.call phase = .ok ()) :
      Called phase hs (hs.map (·.callFor phase)) (.ok ())
  | upTo {before : Hooks V} {hook : Hook V} {e : Error} (after : Hooks V)
      (h : ∀ earlier ∈ before, earlier.call phase = .ok ()) (hfail : hook.call phase = .error e) :
      Called phase (before ++ hook :: after) ((before ++ [hook]).map (·.callFor phase))
        (.error (.hook hook.name e.message))

theorem Hooks.called_run (phase : HookPhase V) (hs : Hooks V) :
    Called phase hs (hs.run phase).1 (hs.run phase).2 := by
  induction hs with
  | nil => exact .all (List.forall_mem_nil _)
  | cons hook hs ih =>
    cases hcall : hook.call phase with
    | error e =>
      have hrun : run phase (hook :: hs) =
          ([hook.callFor phase], .error (.hook hook.name e.message)) := by
        simp only [run, hcall, Hook.callFor]
      rw [hrun]
      have hnone : ∀ earlier ∈ ([] : Hooks V), earlier.call phase = .ok () := by simp
      exact .upTo hs hnone hcall
    | ok =>
      have hrun : run phase (hook :: hs) =
          (hook.callFor phase :: (run phase hs).1, (run phase hs).2) := by
        simp only [run, hcall, Hook.callFor]
      rw [hrun]
      generalize run phase hs = others at ih ⊢
      obtain ⟨calls, r⟩ := others
      -- The others are called as they would be by themselves.
      cases ih with
      | all h => exact .all (List.forall_mem_cons.2 ⟨hcall, h⟩)
      | upTo after h hfail => exact .upTo after (List.forall_mem_cons.2 ⟨hcall, h⟩) hfail

/-- Where no hook fails, all of them are called. -/
theorem Hooks.Called.eq_of_ok {phase : HookPhase V} {hs : Hooks V} {calls : List (HookCall V)}
    {r : Except Error Unit} (h : Called phase hs calls r)
    (hok : ∀ hook ∈ hs, hook.call phase = .ok ()) : calls = hs.map (·.callFor phase) := by
  cases h with
  | all _ => rfl
  | @upTo before hook e after _ hfail =>
    have hsame := hok hook (List.mem_append_right _ List.mem_cons_self)
    rw [hfail] at hsame
    cases hsame

namespace Hooks

/-! ## Registered hooks -/

/-- The hooks after an edit. -/
def edit (hs : Hooks V) : Priority.Edit (Hook V) → Hooks V
  | .add hook => hs.add hook
  | .remove name => (hs.discard name).2

/-- The hooks that are registered after some edits. -/
def built (edits : List (Priority.Edit (Hook V))) : Hooks V := edits.foldl edit []

/-- To remove a name drops every hook of the name, and nothing else drops a hook. -/
def drops : Priority.Edit (Hook V) → Hook V → Bool
  | .add _, _ => false
  | .remove name, hook => hook.name == name

theorem built_eq_sort (edits : List (Priority.Edit (Hook V))) :
    built edits = Priority.sort Hook.priority (Priority.remaining drops edits) := by
  have hadd : ∀ (hs : Hooks V) (hook : Hook V), edit hs (.add hook) =
      Priority.register Hook.priority (hs.filter (!drops (.add hook) ·)) hook := fun hs hook => by
    have hall : hs.filter (!drops (.add hook) ·) = hs := List.filter_eq_self.2 fun _ _ => rfl
    rw [hall]
    rfl
  have hsort := Priority.foldl_eq_sort hadd (fun _ _ => rfl) edits []
  rwa [List.filter_nil, List.nil_append, Priority.sort, List.mergeSort_nil] at hsort

/-- Hooks that are only added stand in the stable order of their priorities. -/
theorem foldl_add (hs : Hooks V) : hs.foldl add [] = Priority.sort Hook.priority hs := by
  have hbuilt := built_eq_sort (hs.map .add)
  rw [Priority.remaining_adds (List.pairwise_of_forall fun _ _ => rfl), built, List.foldl_map] at hbuilt
  exact hbuilt

end Hooks
end CacheLayer
