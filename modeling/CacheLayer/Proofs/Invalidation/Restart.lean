/-
Dependencies outlive an engine, unless the next one registers before it looks. An engine that starts
has nothing on record. When the first that it does about a key is to ask for its dependents, it
takes the mirror over and then knows all of them (`Knows`); when it is to register some more, these
alone go on its record, and the mirror is never asked again.

Main statement: `invalidate_restarted`.
-/
import CacheLayer.Proofs.Invalidation.Cascade
import CacheLayer.Proofs.Invalidation.Mirror
import Mathlib.Data.List.TakeWhile

namespace CacheLayer

variable {V : Type} {s t : Scene V} {key : String} {known : List String} {left : Nat}

namespace Invalidation

open Scene

/-! ## What an engine knows -/

/-- The engine has these dependents of the key on record, or none at all while the store mirrors
none either. -/
def Knows (s : Scene V) (key : String) (known : List String) : Prop :=
  (∃ set, s.memory.dependents.get? key = some set ∧ ∀ d, d ∈ set.keys ↔ d ∈ known) ∨
    (known = [] ∧ s.memory.dependents.get? key = none ∧
      s.live? (Marker.dependency key) = none)

namespace Knows

theorem dependents (h : Knows s key known) :
    ∃ ks, s.dependents? key = some ks ∧ ∀ d, d ∈ ks ↔ d ∈ known := by
  rcases h with ⟨set, hset, hmem⟩ | ⟨rfl, hnone, hlive⟩
  · exact ⟨set.keys, by simp only [Scene.dependents?, hset], hmem⟩
  · exact ⟨[], by simp only [Scene.dependents?, hnone, hlive]; rfl, fun d => Iff.rfl⟩

/-- What is registered is known in addition. -/
theorem register (h : Knows s key known) {ds : List String} (hds : ds ≠ []) :
    Knows ((addDependency key ds).outcome.run s).2 key (known ++ ds) := by
  obtain ⟨set, hset, hmem⟩ : ∃ set : KeySet, (s.memory.dependents.get? key).getD KeyMap.empty = set ∧
      ∀ d, d ∈ set.keys ↔ d ∈ known := by
    rcases h with ⟨set, hset, hmem⟩ | ⟨rfl, hnone, -⟩
    · exact ⟨set, by rw [hset, Option.getD_some], hmem⟩
    · exact ⟨KeyMap.empty, by rw [hnone, Option.getD_none], fun d => Iff.rfl⟩
  refine .inl ⟨set.union (KeySet.ofMembers ds), ?_, fun d => ?_⟩
  · rw [memory_addDependency hds, ← hset]
    exact KeyMap.get?_insert_self _ _ _
  · rw [KeySet.mem_union, KeySet.mem_ofMembers, List.mem_append, hmem]

/-- An engine without a record of the key knows what it registers, and no more than that: the mirror
is not asked. -/
theorem anew (hnone : s.memory.dependents.get? key = none) {ds : List String} (hds : ds ≠ []) :
    Knows ((addDependency key ds).outcome.run s).2 key ds := by
  refine .inl ⟨KeySet.ofMembers ds, ?_, fun d => KeySet.mem_ofMembers⟩
  rw [memory_addDependency hds, addDependents, hnone, Option.getD_none, KeySet.empty_union]
  exact KeyMap.get?_insert_self _ _ _

/-- An engine without a record of the key knows what the store mirrors, once it has asked. -/
theorem lookUp (hs : s.Serving) (hnone : s.memory.dependents.get? key = none)
    (h : Mirrors s key known left) : Knows ((Errand.lookUp key).after s) key known := by
  obtain ⟨ks, hks, hmem⟩ := h.members
  obtain ⟨t, halike, hmemory, hrun⟩ := run_dependents_mirrored hs hnone
  rw [hks] at hrun
  rw [Errand.after, Errand.act, Action.run_bind, hrun]
  cases ks with
  | nil =>
    refine .inr ⟨List.eq_nil_iff_forall_not_mem.2 fun d hd => ?_, ?_, ?_⟩
    · exact List.not_mem_nil ((hmem d).2 hd)
    · exact hmemory.symm ▸ hnone
    · rcases h with ⟨-, -, hlive⟩ | ⟨-, set, hlive, -⟩
      · exact (halike.live _).trans hlive
      -- A set without members is not kept in the store.
      · rw [hlive] at hks
        have hkeys : set.keys = [] := Option.some.inj hks
        have hfilled : set.isEmpty = false := hs.isFilled (Marker.dependency key) _ hlive
        exact absurd hfilled (by simp [KeyMap.isEmpty, List.map_eq_nil_iff.1 hkeys])
  | cons k ks =>
    refine .inl ⟨KeySet.ofMembers (k :: ks), ?_, fun d => ?_⟩
    · change (addDependents key _ t.memory).dependents.get? key = _
      rw [addDependents, hmemory, hnone, Option.getD_none, KeySet.empty_union]
      exact KeyMap.get?_insert_self _ _ _
    · rw [← hmem]
      exact KeySet.mem_ofMembers

theorem errand (hs : s.Serving) (h : Knows s key known) (e : Errand) :
    Knows (e.after s) key (known ++ e.registers key) := by
  by_cases habout : e.isAbout key = true
  · rcases of_isAbout habout with rfl | ⟨ds, hds, rfl⟩
    · rw [show Errand.registers key (.lookUp key) = [] from rfl, List.append_nil]
      rcases h with ⟨set, hset, hmem⟩ | ⟨rfl, hnone, hlive⟩
      · have hafter : (Errand.lookUp key).after s = s := by
          rw [Errand.after, Errand.act, Invalidation.dependents]
          simp [hset]
        rw [hafter]
        exact .inl ⟨set, hset, hmem⟩
      · exact lookUp hs hnone (.inl ⟨rfl, rfl, hlive⟩)
    · rw [registers_self]
      exact h.register hds
  · have hidle : e.isAbout key = false := by simpa using habout
    have hnone := registers_idle hidle
    rw [hnone, List.append_nil]
    obtain ⟨-, hlive⟩ := mirror_idle hs hnone
    rcases h with ⟨set, hset, hmem⟩ | ⟨hknown, hrecord, hlive₀⟩
    · exact .inl ⟨set, (record_idle hidle s).trans hset, hmem⟩
    · exact .inr ⟨hknown, (record_idle hidle s).trans hrecord, by rw [hlive, hlive₀]; rfl⟩

theorem errands (hs : s.Serving) (h : Knows s key known) (es : List Errand) :
    Knows (afterErrands es s) key (known ++ registered key es) := by
  induction es generalizing s known with
  | nil => simpa [afterErrands, registered] using h
  | cons e es ih =>
    rw [registered, List.flatMap_cons, ← List.append_assoc]
    exact ih (Program.serving_run hs _) (h.errand hs e)

end Knows

/-! ## The first errand about a key -/

/-- What is done before the first errand about the key. -/
def idle (key : String) (es : List Errand) : List Errand := es.takeWhile fun e => !e.isAbout key

/-- The first errand about the key registers dependents. -/
def startsAnew (key : String) (es : List Errand) : Bool :=
  match es.dropWhile fun e => !e.isAbout key with
  | .register _ _ :: _ => true
  | _ => false

theorem isAbout_idle {es : List Errand} : ∀ e ∈ idle key es, e.isAbout key = false := fun e he => by
  simpa using List.mem_takeWhile_imp he

theorem registered_idle (key : String) (es : List Errand) : registered key (idle key es) = [] :=
  List.flatMap_eq_nil_iff.2 fun e he => registers_idle (isAbout_idle e he)

theorem registered_afterIdle {es rest : List Errand} {e : Errand}
    (h : es = idle key es ++ e :: rest) :
    registered key es = e.registers key ++ registered key rest := by
  calc registered key es
      = registered key (idle key es ++ e :: rest) := congrArg _ h
    _ = registered key (idle key es) ++ registered key (e :: rest) := List.flatMap_append
    _ = registered key (e :: rest) := by rw [registered_idle, List.nil_append]
    _ = e.registers key ++ registered key rest := List.flatMap_cons

/-- Before the first errand about the key, nothing is put on its record. -/
theorem record_afterIdle (key : String) (es : List Errand) (s : Scene V) :
    (afterErrands (idle key es) s).memory.dependents.get? key = s.memory.dependents.get? key := by
  suffices hall : ∀ es : List Errand, (∀ e ∈ es, e.isAbout key = false) →
      ∀ s : Scene V, (afterErrands es s).memory.dependents.get? key =
        s.memory.dependents.get? key from hall _ isAbout_idle s
  intro es hes s
  induction es generalizing s with
  | nil => rfl
  | cons e es ih =>
    obtain ⟨he, hes⟩ := List.forall_mem_cons.1 hes
    exact (ih hes _).trans (record_idle he s)

/-- The errands from the first one about the key. -/
theorem idle_append (key : String) (es : List Errand) :
    es = idle key es ∧ startsAnew key es = false ∨
    (∃ rest, es = idle key es ++ .lookUp key :: rest ∧ startsAnew key es = false) ∨
    ∃ ds rest, ds ≠ [] ∧ es = idle key es ++ .register key ds :: rest ∧
      startsAnew key es = true := by
  have hsplit : es = idle key es ++ es.dropWhile fun e => !e.isAbout key :=
    List.takeWhile_append_dropWhile.symm
  have hhead := List.head?_dropWhile_not (fun e => !Errand.isAbout key e) es
  unfold startsAnew
  cases hrest : es.dropWhile fun e => !e.isAbout key with
  | nil =>
    rw [hrest, List.append_nil] at hsplit
    exact .inl ⟨hsplit, rfl⟩
  | cons e rest =>
    rw [hrest] at hsplit hhead
    have habout : e.isAbout key = true := by simpa using hhead
    rcases of_isAbout habout with rfl | ⟨ds, hds, rfl⟩
    · exact .inr (.inl ⟨rest, hsplit, rfl⟩)
    · exact .inr (.inr ⟨ds, rest, hds, hsplit, rfl⟩)

/-! ## Invalidation after a restart -/

theorem run_invalidate_known (hs : s.Serving)
    (h : ∃ ks, s.dependents? key = some ks ∧ ∀ d, d ∈ ks ↔ d ∈ known) :
    ∃ n t, (invalidate key).outcome.run s = (.ok n, t) ∧ s.Removes t (key :: known) n := by
  obtain ⟨ks, hks, hmem⟩ := h
  rcases run_invalidate hs key with ⟨n, t, hrun, hremoves⟩ | ⟨hunknown, -⟩
  · refine ⟨n, t, hrun, hremoves.congr fun k => ?_⟩
    simp [Scene.mem_targets, hks, hmem]
  · exact absurd (by rw [hks]; rfl) hunknown

section

variable {before after : List Errand} {m : Memory V}

/-- The scene of an engine that starts with an empty record after errands of another one. -/
def restarted (before : List Errand) (m : Memory V) (s : Scene V) : Scene V :=
  ⟨(afterErrands before s).world, m⟩

theorem serving_restarted (hs : s.Serving) : (restarted before m s).Serving :=
  serving_afterErrands hs before

theorem record_restarted (hm : m.dependents = KeyMap.empty) (before : List Errand) (key : String)
    (after : List Errand) (s : Scene V) :
    (afterErrands (idle key after) (restarted before m s)).memory.dependents.get? key = none := by
  rw [record_afterIdle, restarted, hm]
  rfl

/-- An engine that looks first knows what was registered before it. -/
theorem dependents_looked (hs : s.Serving) (hm : m.dependents = KeyMap.empty)
    (h : Mirrors s key known left) (hanew : startsAnew key after = false)
    (hlasts : outlasts key left (before ++ idle key after) = true) :
    ∃ ks, (afterErrands after (restarted before m s)).dependents? key = some ks ∧
      ∀ d, d ∈ ks ↔ d ∈ known ++ registered key before ++ registered key after := by
  have hgone : (restarted before m s).Serving := serving_restarted hs
  have hidle := serving_afterErrands hgone (idle key after)
  have hrecord := record_restarted hm before key after s
  obtain ⟨left', hgoneMirrors, hlasts'⟩ := h.errands hs hlasts
  have hstart : Mirrors (restarted before m s) key (known ++ registered key before) left' :=
    hgoneMirrors
  obtain ⟨left'', hmirrors, -⟩ : ∃ left'', Mirrors (afterErrands (idle key after)
      (restarted before m s)) key (known ++ registered key before ++ registered key (idle key after))
      left'' ∧ outlasts key left'' [] = true :=
    hstart.errands hgone (by rwa [List.append_nil])
  rw [registered_idle, List.append_nil] at hmirrors
  -- The key is not looked up before it is invalidated, or it is; then the mirror is taken over.
  rcases idle_append key after with ⟨hafter, -⟩ | ⟨rest, hafter, -⟩ | ⟨ds, rest, -, -, hanew'⟩
  · have hnone := registered_idle key after
    rw [← hafter] at hrecord hmirrors hnone
    rw [hnone, List.append_nil]
    obtain ⟨ks, hks, hmem⟩ := hmirrors.members
    exact ⟨ks, by simp only [Scene.dependents?, hrecord, hks], hmem⟩
  · have hknows := (Knows.lookUp hidle hrecord hmirrors).errands (Program.serving_run hidle _) rest
    rw [registered_afterIdle hafter, hafter, afterErrands_append]
    exact hknows.dependents
  · rw [hanew] at hanew'
    cases hanew'

/-- An engine that registers first knows only what has been registered since. -/
theorem dependents_anew (hs : s.Serving) (hm : m.dependents = KeyMap.empty)
    (hanew : startsAnew key after = true) :
    ∃ ks, (afterErrands after (restarted before m s)).dependents? key = some ks ∧
      ∀ d, d ∈ ks ↔ d ∈ registered key after := by
  have hgone : (restarted before m s).Serving := serving_restarted hs
  have hidle := serving_afterErrands hgone (idle key after)
  rcases idle_append key after with ⟨-, hanew'⟩ | ⟨rest, -, hanew'⟩ | ⟨ds, rest, hds, hafter, -⟩
  · rw [hanew] at hanew'
    cases hanew'
  · rw [hanew] at hanew'
    cases hanew'
  · have hknows := (Knows.anew (record_restarted hm before key after s) hds).errands
      (Program.serving_run hidle _) rest
    rw [registered_afterIdle hafter, registers_self, hafter, afterErrands_append]
    exact hknows.dependents

theorem run_invalidate_anew (before : List Errand) (hs : s.Serving)
    (hm : m.dependents = KeyMap.empty) (hanew : startsAnew key after = true) :
    ∃ n t, (invalidate key).outcome.run (afterErrands after (restarted before m s)) = (.ok n, t) ∧
      (afterErrands after (restarted before m s)).Removes t (key :: registered key after) n :=
  run_invalidate_known (serving_afterErrands (serving_restarted hs) after)
    (dependents_anew hs hm hanew)

end

/-- **Dependencies survive a restart, unless the engine that follows registers before it looks.**
Whatever has been registered for a key and looked up, and an engine with an empty record follows
while the mirrored set lives. If the first that this engine does about the key is to look it up, or
if it does nothing about it, then invalidating the key removes it and all dependents that are
mirrored at first or were registered before or after the restart. If it first registers some, only
those go that were registered after the restart. Nothing else is removed in either case. -/
theorem invalidate_restarted (s : Scene V) (hs : s.Serving) (m : Memory V)
    (hm : m.dependents = KeyMap.empty) (key : String) (known : List String) (left : Nat)
    (h : Mirrors s key known left) (before after : List Errand) :
    (startsAnew key after = false → outlasts key left (before ++ idle key after) = true →
      ∃ n t, (invalidate key).outcome.run (afterErrands after (restarted before m s)) =
          (.ok n, t) ∧
        (afterErrands after (restarted before m s)).Removes t
          (key :: (known ++ registered key before ++ registered key after)) n) ∧
    (startsAnew key after = true →
      ∃ n t, (invalidate key).outcome.run (afterErrands after (restarted before m s)) =
          (.ok n, t) ∧
        (afterErrands after (restarted before m s)).Removes t (key :: registered key after) n) := by
  refine ⟨fun hanew hlasts => ?_, fun hanew => run_invalidate_anew before hs hm hanew⟩
  exact run_invalidate_known (serving_afterErrands (serving_restarted hs) after)
    (dependents_looked hs hm h hanew hlasts)

/-- Three keys of which none depends on another. -/
def unlinked : Scene UInt8 :=
  ((do
    for key in ["a", "b", "c"] do
      Action.command (.set key [1] none) : Action UInt8 Unit).outcome.run
    ⟨.start default, Client.byteMemory⟩).2

theorem serving_unlinked : unlinked.Serving :=
  Program.serving_run (s := ⟨_, Client.byteMemory⟩) (World.serving_start default) _

/-- An engine that has looked a minute later removes all dependents; one that has not keeps the
older one. -/
theorem invalidate_restarted_unlinked :
    unlinked.Serving ∧
    (∃ t, (invalidate "k").outcome.run (afterErrands [.lookUp "k", .register "k" ["b"]]
        (restarted [.register "k" ["a"], .pause 60000] Client.byteMemory unlinked)) = (.ok 2, t) ∧
      t.live? "a" = none ∧ t.live? "b" = none ∧ (t.live? "c").isSome = true) ∧
    ∃ t, (invalidate "k").outcome.run (afterErrands [.register "k" ["b"], .lookUp "k"]
        (restarted [.register "k" ["a"], .pause 60000] Client.byteMemory unlinked)) = (.ok 1, t) ∧
      (t.live? "a").isSome = true ∧ t.live? "b" = none := by
  have hnew : Mirrors unlinked "k" [] 0 := .inl ⟨rfl, rfl, by decide +kernel⟩
  refine ⟨serving_unlinked, ?_, ?_⟩
  · obtain ⟨n, t, hrun, hremoves⟩ := (invalidate_restarted unlinked serving_unlinked
      Client.byteMemory rfl "k" [] 0 hnew [.register "k" ["a"], .pause 60000]
      [.lookUp "k", .register "k" ["b"]]).1 (by decide) (by decide)
    obtain rfl : n = 2 := hremoves.count.trans (by decide +kernel)
    refine ⟨t, hrun, ?_, ?_, ?_⟩
    · exact hremoves.gone "a" (by decide +kernel) (by decide)
    · exact hremoves.gone "b" (by decide +kernel) (by decide)
    · rw [hremoves.kept "c" (by decide +kernel) (by decide)]
      decide +kernel
  · obtain ⟨n, t, hrun, hremoves⟩ := (invalidate_restarted unlinked serving_unlinked
      Client.byteMemory rfl "k" [] 0 hnew [.register "k" ["a"], .pause 60000]
      [.register "k" ["b"], .lookUp "k"]).2 (by decide)
    obtain rfl : n = 1 := hremoves.count.trans (by decide +kernel)
    refine ⟨t, hrun, ?_, ?_⟩
    · rw [hremoves.kept "a" (by decide +kernel) (by decide)]
      decide +kernel
    · exact hremoves.gone "b" (by decide +kernel) (by decide)

/-- It is not so that all dependents go that were registered before or after a restart within the
life of their mirror: an older one stays when another one is registered first. -/
theorem not_invalidate_restarted :
    ¬ ∀ (s : Scene UInt8) (m : Memory UInt8) (key : String) (before after : List Errand),
      s.Serving → m.dependents = KeyMap.empty → s.live? (Marker.dependency key) = none →
      outlasts key 0 (before ++ after) = true →
      ∃ n t, (invalidate key).outcome.run (afterErrands after (restarted before m s)) =
          (.ok n, t) ∧
        ∀ d ∈ registered key before ++ registered key after, d ≠ Marker.events →
          t.live? d = none := by
  intro hsurvive
  obtain ⟨n, t, hrun, hgone⟩ := hsurvive unlinked Client.byteMemory "k" [.register "k" ["a"]]
    [.register "k" ["b"]] serving_unlinked rfl (by decide +kernel) (by decide)
  have hanew : startsAnew "k" [.register "k" ["b"]] = true := by decide
  obtain ⟨n', t', hrun', hremoves⟩ := run_invalidate_anew (m := Client.byteMemory)
    [.register "k" ["a"]] serving_unlinked rfl hanew
  rw [hrun] at hrun'
  cases hrun'
  have hkept := hremoves.kept "a" (by decide) (by decide)
  rw [hgone "a" (by decide) (by decide)] at hkept
  exact absurd hkept (by decide +kernel)

end Invalidation
end CacheLayer
