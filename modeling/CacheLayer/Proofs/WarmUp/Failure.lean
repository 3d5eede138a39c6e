/-
A warm-up that fails. Either the store does not say whether the marker is there, or the keys cannot
be listed, or a chunk cannot be stored, or the marker cannot be left. In the first three cases the
engine knows as much as before. In the last one it does not: it puts its flag up before it leaves the
marker, and the flag stays up when the marker cannot be encoded or is refused by the store. From then
on the cache looks warm to this engine, and to no other.

Main statement: `warmUp_failed`.
-/
import CacheLayer.Proofs.WarmUp.Once
import CacheLayer.Transform.Standard

namespace CacheLayer

open CacheLayer.Program

variable {V α β : Type} {s t u : Scene V} {log : List (Exchange V)}

/-! ## Loads that leave the marker alone -/

/-- Requests that do nothing to the marker leave it where it is until it dies of age. -/
theorem Program.Course.sparesMarker {p : Program V α} {r : α} (h : p.Course s log r t)
    (hp : p.Each Fleet.IgnoresMarker) : s.world.now ≤ t.world.now ∧ t.live? Marker.warmedUp =
      (s.live? Marker.warmedUp).filter fun e => !e.isDead t.world.now := by
  refine h.preserves (P := fun u => s.world.now ≤ u.world.now ∧ u.live? Marker.warmedUp =
    (s.live? Marker.warmedUp).filter fun e => !e.isDead u.world.now) ?_ hp
    ⟨Nat.le_refl _, Store.live?_later _ (Nat.le_refl _) _⟩
  intro q u v a hq hget ⟨hle, hlive⟩
  have hle' := Ask.now_le_of_mayGet hget
  refine ⟨Nat.le_trans hle hle', ?_⟩
  rw [Fleet.IgnoresMarker.live? hq hget, hlive]
  exact Store.filter_later hle' _

/-- No command that is ready to be sent is about the key. -/
def Reload.Sorting.Avoids (key : String) (sorting : Reload.Sorting V) : Prop :=
  ∀ step ∈ sorting.steps, step.key ≠ key

namespace WarmUp

open Guard Fleet

/-- The guard that lets all requests pass but commands that do something to the marker. -/
abbrev sparing : Guard V := Guard.ofKind IgnoresMarker

theorem ignoresMarker_memory : (memory : Program V (Memory V)).Each IgnoresMarker :=
  each_lift (Q := IgnoresMarker) trivial

theorem ignoresMarker_request (id : SourceId) (c : Source.Call V) :
    (Action.request id c).outcome.Each IgnoresMarker :=
  each_request (Q := IgnoresMarker) (fun _ _ => trivial) trivial (fun _ => trivial)
    (fun _ _ => trivial) id c

theorem passes_sortKey (id : SourceId) (c : ReloadConfig) (f : Format V) (checkOnly : Bool)
    {sorting : Reload.Sorting V} (hsorting : sorting.Avoids Marker.warmedUp) {key : String}
    (hkey : key ≠ Marker.warmedUp) : sparing.Passes (Reload.sortKey id c f checkOnly sorting key)
      (fun sorted _ => sorted.Avoids Marker.warmedUp) log := by
  unfold Reload.sortKey
  cases sorting.loaded.get? key with
  | none => exact hsorting
  | some v =>
    refine along_then (Passes.mono (safe_ofKind (each_lift (Q := IgnoresMarker)
      (q := .judge id v) trivial)) fun r log' _ => ?_)
    cases r with
    | error e => exact hsorting
    | ok =>
      cases checkOnly with
      | true => exact hsorting
      | false =>
        refine along_then (Passes.mono (safe_ofKind (Client.each_encode (Q := IgnoresMarker)
          trivial (fun _ => trivial) f key v)) fun r log'' _ => ?_)
        cases r with
        | error e => exact hsorting
        | ok b =>
          intro step hstep
          rcases List.mem_append.1 hstep with hstep | hstep
          · exact hsorting step hstep
          · obtain rfl := List.mem_singleton.1 hstep
            exact hkey

theorem passes_sortKeys (id : SourceId) (c : ReloadConfig) (f : Format V) (checkOnly : Bool)
    {keys : List String} (hkeys : Marker.warmedUp ∉ keys) {sorting : Reload.Sorting V}
    (hsorting : sorting.Avoids Marker.warmedUp) :
    sparing.Passes (keys.foldlM (Reload.sortKey id c f checkOnly) sorting)
      (fun sorted _ => sorted.Avoids Marker.warmedUp) log := by
  induction keys generalizing sorting log with
  | nil => exact hsorting
  | cons key keys ih =>
    obtain ⟨hkey, hrest⟩ : Marker.warmedUp ≠ key ∧ Marker.warmedUp ∉ keys := by simpa using hkeys
    rw [List.foldlM_cons]
    exact along_then ((passes_sortKey id c f checkOnly hsorting hkey.symm).mono
      fun sorted _ hsorted => ih hrest hsorted)

theorem ignoresMarker_execute {steps : List BatchStep}
    (h : ∀ step ∈ steps, step.key ≠ Marker.warmedUp) (atomic : Bool) :
    (Client.execute steps atomic : Action V (List BatchReply)).outcome.Each IgnoresMarker := by
  unfold Client.execute
  split
  · exact each_pure _
  · refine each_lift (Q := IgnoresMarker) ?_
    exact List.all_eq_true.2 fun step hstep => bne_iff_ne.2 (h step hstep)

/-- The values of a chunk are stored under the keys of the chunk. -/
theorem ignoresMarker_storeLoaded (id : SourceId) (c : ReloadConfig) (checkOnly : Bool)
    {keys : List String} (hkeys : Marker.warmedUp ∉ keys) (loaded : KeyMap V) :
    (Reload.storeLoaded id c checkOnly keys loaded).outcome.Each IgnoresMarker := by
  refine each_then (each_always ignoresMarker_memory) fun m => ?_
  have hsafe : sparing.Safe [] (do
      let sorted ← Action.always (keys.foldlM (Reload.sortKey id c m.format checkOnly)
        ⟨{}, loaded, []⟩)
      let _ ← Client.execute sorted.steps false
      return sorted.result : Action V ReloadResult).outcome := by
    refine passes_always_then ((passes_sortKeys id c m.format checkOnly hkeys
      (by rintro _ ⟨⟩)).mono fun sorted _ hsorted => ?_)
    exact safe_ofKind (each_then (ignoresMarker_execute hsorted _) fun _ => each_pure _)
  exact each_of_safe hsafe

theorem ignoresMarker_loadChunk (checkOnly : Bool) {keys : List String}
    (hkeys : Marker.warmedUp ∉ keys) :
    (Reload.loadChunk checkOnly keys : Action V ReloadResult).outcome.Each IgnoresMarker := by
  refine each_then (each_always ignoresMarker_memory) fun m => ?_
  refine each_then (each_always (Reload.each_retry (Q := IgnoresMarker) trivial trivial
    (fun _ => trivial) _ (ignoresMarker_request _ _))) fun r => ?_
  cases r with
  | ok loaded => exact ignoresMarker_storeLoaded _ _ _ hkeys _
  | error e => exact each_pure _

theorem ignoresMarker_load {keys : List String} (hkeys : Marker.warmedUp ∉ keys) :
    (load keys : Action V ReloadResult).outcome.Each IgnoresMarker := by
  refine each_then (each_always ignoresMarker_memory) fun m => ?_
  refine each_then (each_always (each_gather (Q := IgnoresMarker) trivial trivial
    (fun _ => trivial) _ _ fun p hp => ?_)) fun _ => each_pure _
  obtain ⟨part, hpart, rfl⟩ := List.mem_map.1 hp
  refine ignoresMarker_loadChunk false fun hmem => hkeys ?_
  rw [← flatten_chunks m.reload.batchSize keys]
  exact List.mem_flatten_of_mem hpart hmem

theorem ignoresMarker_candidates : (candidates : Action V (List String)).outcome.Each
    IgnoresMarker := by
  refine each_then (each_always ignoresMarker_memory) fun m => ?_
  split
  · exact ignoresMarker_request _ _
  · exact each_pure _

/-! ## The steps of a warm-up -/

/-- The keys of a listing that a source has given. -/
def listing : Event V → List String
  | .asked _ .listKeys (.ok keys) => keys
  | _ => []

/-- The marker's own key is not among those that a warm-up is about. -/
structure LeavesMarker (m : Memory V) (log : List (Exchange V)) : Prop where
  named : Marker.warmedUp ∉ m.reload.warmUpKeys
  listed : ∀ event ∈ said log, Marker.warmedUp ∉ listing event

theorem LeavesMarker.of_append {m m' : Memory V} {log log' : List (Exchange V)}
    (h : LeavesMarker m (log ++ log')) (hm : m'.reload = m.reload) :
    LeavesMarker m log ∧ LeavesMarker m' log' := by
  obtain ⟨hnamed, hlisted⟩ := h
  rw [said_append] at hlisted
  obtain ⟨hfirst, hsecond⟩ := List.forall_mem_append.1 hlisted
  exact ⟨⟨hnamed, hfirst⟩, ⟨by rw [hm]; exact hnamed, hsecond⟩⟩

theorem not_mem_of_candidates {keys : List String}
    (h : candidates.outcome.Course s log (.ok keys) t) (hleaves : LeavesMarker s.memory log) :
    Marker.warmedUp ∉ keys := by
  obtain ⟨log₁, hrest, rfl⟩ := Action.course_memory_then h
  by_cases hnamed : s.memory.reload.warmUpKeys.isEmpty = true
  · rw [if_pos hnamed] at hrest
    obtain ⟨-, -, hasked⟩ := Action.course_request hrest
    refine hleaves.listed (.asked s.memory.reloadSource .listKeys (.ok keys)) ?_
    change _ ∈ said log₁
    rw [hasked]
    exact List.mem_singleton.2 rfl
  · rw [if_neg hnamed] at hrest
    obtain ⟨-, hkeys, -⟩ := hrest.of_pure
    rw [Except.ok.inj hkeys]
    exact hleaves.named

/-- A command is carried out, or it fails and does nothing. -/
theorem course_command_cases {c : Store.Call} {r : Except Error c.Reply}
    (h : (Action.command c : Action V c.Reply).outcome.Course s log r t) :
    log = [⟨s.world.now, .command c, r⟩] ∧ ∃ scripts,
      (∃ e, r = .error e ∧ t = { s with world := { s.world with scripts := scripts } }) ∨
      r = (c.run s.world.now s.world.store).1 ∧ t = { s with world := { s.world with
        store := (c.run s.world.now s.world.store).2, scripts := scripts } } := by
  obtain ⟨hget, rfl⟩ := h.of_lift
  obtain ⟨hreply, hscene⟩ := Prod.mk.inj hget
  change (s.world.command c).1 = r at hreply
  change { s with world := (s.world.command c).2 } = t at hscene
  refine ⟨rfl, ?_⟩
  obtain ⟨scripts, ⟨e, hfails⟩ | hdone⟩ := s.world.command_cases c
  · rw [hfails] at hreply hscene
    exact ⟨scripts, .inl ⟨e, hreply.symm, hscene.symm⟩⟩
  · rw [hdone] at hreply hscene
    exact ⟨scripts, .inr ⟨hreply.symm, hscene.symm⟩⟩

/-- Who asks for a key gets no answer, or the true one, and no key is touched. -/
theorem course_has {key : String} {r : Except Error Bool}
    (h : (Client.has key).outcome.Course s log r t) :
    t.memory = s.memory ∧ t.world.now = s.world.now ∧ (∀ k, t.live? k = s.live? k) ∧
      ((∃ e, r = .error e) ∨ r = .ok (s.live? key).isSome) := by
  obtain ⟨-, scripts, ⟨e, rfl, rfl⟩ | ⟨rfl, rfl⟩⟩ := course_command_cases h
  · exact ⟨rfl, rfl, fun _ => rfl, .inl ⟨e, rfl⟩⟩
  · refine ⟨rfl, rfl, fun k => ?_, .inr (Store.has_of_live? rfl)⟩
    exact Store.live?_purge _ _ _ (Nat.le_refl _) _ _

/-- Who asks whether the cache is warm gets no answer, or the true one. -/
theorem course_isWarm_cases {r : Except Error Bool} (h : isWarm.outcome.Course s log r t) :
    t.world.now = s.world.now ∧ (∀ key, t.live? key = s.live? key) ∧
      ((∃ e, r = .error e ∧ s.memory.warm = false ∧ t.memory = s.memory) ∨
        r = .ok s.seesWarm ∧ t.memory = { s.memory with warm := s.seesWarm }) := by
  cases hwarm : s.memory.warm with
  | true =>
    obtain ⟨rfl, -, store, hlive, rfl⟩ := course_isWarm (.inr hwarm) h
    exact ⟨rfl, hlive, .inr ⟨rfl, rfl⟩⟩
  | false =>
    have hsees : s.seesWarm = (s.live? Marker.warmedUp).isSome := by
      rw [Scene.seesWarm, hwarm, Bool.false_or]
    obtain ⟨log₁, hrest, rfl⟩ := Action.course_memory_then h
    rw [hwarm, if_neg Bool.false_ne_true] at hrest
    rcases Action.course_then hrest with ⟨log₂, marked, u, log₃, hhas, hknown, rfl⟩ |
      ⟨e, rfl, hhas⟩
    · obtain ⟨hmemory, hnow, hlive, ⟨e, he⟩ | hmarked⟩ := course_has hhas
      · cases he
      rw [hsees, ← Except.ok.inj hmarked]
      cases marked with
      | true =>
        obtain ⟨log₄, ⟨⟩, v, log₅, hraise, hreturn, rfl⟩ := Action.course_always_then hknown
        obtain rfl := hraise.of_change
        obtain ⟨-, rfl, rfl⟩ := hreturn.of_pure
        exact ⟨hnow, hlive, .inr ⟨rfl, by rw [hmemory]⟩⟩
      | false =>
        obtain ⟨-, rfl, rfl⟩ := hknown.of_pure
        refine ⟨hnow, hlive, .inr ⟨rfl, ?_⟩⟩
        rw [hmemory, ← hwarm]
    · obtain ⟨hmemory, hnow, hlive, -⟩ := course_has hhas
      exact ⟨hnow, hlive, .inl ⟨e, rfl, rfl, hmemory⟩⟩

/-- In the course a command has failed. -/
def Refused (log : List (Exchange V)) (c : Store.Call) (e : Error) : Prop :=
  ∃ time, ⟨time, .command c, .error e⟩ ∈ log

/-- The marker could not be encoded, or the store has refused it. -/
def MarkerFails (m : Memory V) (log : List (Exchange V)) (e : Error) : Prop :=
  (∃ fresh, Client.coded m Format.flag fresh Marker.warmedUp true = .error e) ∨
    ∃ b, Refused log (.set Marker.warmedUp b (some Marker.warmedUpLife)) e

theorem MarkerFails.mono {m : Memory V} {log log' : List (Exchange V)} {e : Error}
    (h : MarkerFails m log e) (hlog : log ⊆ log') : MarkerFails m log' e :=
  h.imp_right fun ⟨b, time, hmem⟩ => ⟨b, time, hlog hmem⟩

/-- A value that has not been stored has left no trace: it could not be encoded, or the store has
refused it. -/
theorem course_set_failed {f : Format α} {key : String} {a : α} {life : Option Nat} {e : Error}
    (h : (Client.set f key a life).outcome.Course s log (.error e) t) :
    t.memory = s.memory ∧ t.world.now = s.world.now ∧ t.world.store = s.world.store ∧
      (Client.coded s.memory f s.world.drawn key a = .error e ∨
        ∃ b, Refused log (.set key b life) e) := by
  rcases Action.course_then h with ⟨log₁, b, u, log₂, hencode, hcommand, rfl⟩ |
    ⟨e, he, hencode⟩
  · obtain ⟨-, -, rfl⟩ := Reload.course_encode hencode
    obtain ⟨rfl, scripts, ⟨e', he, rfl⟩ | ⟨hdone, -⟩⟩ := course_command_cases hcommand
    · cases he
      refine ⟨rfl, rfl, rfl, .inr ⟨b, s.world.now, ?_⟩⟩
      exact List.mem_append_right _ (List.mem_singleton.2 rfl)
    · cases hdone
  · cases he
    obtain ⟨hcoded, -, rfl⟩ := Reload.course_encode hencode
    exact ⟨rfl, rfl, rfl, .inl hcoded⟩

theorem course_markWarm_failed {e : Error} (h : markWarm.outcome.Course s log (.error e) t) :
    t.memory.warm = true ∧ t.live? Marker.warmedUp = s.live? Marker.warmedUp ∧
      MarkerFails s.memory log e := by
  obtain ⟨log₁, ⟨⟩, u, log₂, hraise, hset, rfl⟩ := Action.course_always_then h
  obtain rfl := hraise.of_change
  obtain ⟨hmemory, hnow, hstore, hwhy⟩ := course_set_failed hset
  refine ⟨by rw [hmemory], ?_, ?_⟩
  · rw [Scene.live?, hstore, hnow]
    rfl
  · rcases hwhy with hcoded | ⟨b, time, hmem⟩
    · exact .inl ⟨_, hcoded⟩
    · exact .inr ⟨b, time, List.mem_append_right _ hmem⟩

/-! ## Failures -/

/-- The engine knows no more of a warm-up than it did. -/
structure StaysCold (s : Scene V) (log : List (Exchange V)) (t : Scene V) : Prop where
  flag : t.memory.warm = false
  status : LeavesMarker s.memory log → t.seesWarm = s.seesWarm

/-- The engine takes the cache to be warm, which it was not. Its marker could not be left. -/
structure LooksWarm (s : Scene V) (log : List (Exchange V)) (e : Error) (t : Scene V) : Prop where
  before : s.seesWarm = false
  flag : t.memory.warm = true
  marker : LeavesMarker s.memory log → t.live? Marker.warmedUp = none
  cause : MarkerFails s.memory log e

theorem not_seesWarm_iff : s.seesWarm = false ↔
    s.memory.warm = false ∧ s.live? Marker.warmedUp = none := by
  rw [Scene.seesWarm, Bool.or_eq_false_iff, Option.isSome_eq_false_iff, Option.isNone_iff_eq_none]

/-- Where the marker is left alone and memory is only read, the cache stays cold. -/
theorem cold_of_course {p : Program V α} {r : α} (h : p.Course s log r t) (hreads : p.OnlyReads)
    (hspares : p.Each IgnoresMarker) (hcold : s.seesWarm = false) : t.seesWarm = false := by
  obtain ⟨hdown, hnone⟩ := not_seesWarm_iff.1 hcold
  refine not_seesWarm_iff.2 ⟨(h.keeps (hreads.keeps Memory.warm)).trans hdown, ?_⟩
  rw [(h.sparesMarker hspares).2, hnone]
  rfl

/-- What is left to do of a warm-up once the cache is known to be cold. -/
theorem course_perform_failed {e : Error} (h : perform.outcome.Course s log (.error e) t)
    (hcold : s.seesWarm = false) : StaysCold s log t ∨ LooksWarm s log e t := by
  have hdown := (not_seesWarm_iff.1 hcold).1
  rcases Action.course_then h with ⟨log₁, keys, u, log₂, hkeys, hrest, rfl⟩ | ⟨e, -, hkeys⟩
  · have hu : u.memory = s.memory := hkeys.keeps (onlyReads_candidates.keeps id)
    have hcold' := cold_of_course hkeys onlyReads_candidates ignoresMarker_candidates hcold
    have hfree (hleaves : LeavesMarker s.memory (log₁ ++ log₂)) : Marker.warmedUp ∉ keys :=
      not_mem_of_candidates hkeys (hleaves.of_append rfl).1
    rcases Action.course_then hrest with ⟨log₃, result, v, log₄, hload, hmark, rfl⟩ |
      ⟨e, -, hload⟩
    · have hv : v.memory = u.memory := hload.keeps ((onlyReads_load keys).keeps id)
      rcases Action.course_then hmark with ⟨log₅, ⟨⟩, w, log₆, -, hreturn, rfl⟩ | ⟨e, he, hmark⟩
      · obtain ⟨-, herror, -⟩ := hreturn.of_pure
        cases herror
      · cases he
        obtain ⟨hup, hmarker, hfails⟩ := course_markWarm_failed hmark
        refine .inr ⟨hcold, hup, fun hleaves => ?_, ?_⟩
        · rw [hmarker]
          exact (not_seesWarm_iff.1 (cold_of_course hload (onlyReads_load keys)
            (ignoresMarker_load (hfree hleaves)) hcold')).2
        · rw [← hu, ← hv]
          exact hfails.mono (List.Subset.trans (List.subset_append_right _ _)
            (List.subset_append_right _ _))
    · have ht : t.memory = u.memory := hload.keeps ((onlyReads_load keys).keeps id)
      refine .inl ⟨by rw [ht, hu, hdown], fun hleaves => ?_⟩
      rw [hcold]
      exact cold_of_course hload (onlyReads_load keys) (ignoresMarker_load (hfree hleaves)) hcold'
  · have hcold' := cold_of_course hkeys onlyReads_candidates ignoresMarker_candidates hcold
    exact .inl ⟨(not_seesWarm_iff.1 hcold').1, fun _ => hcold'.trans hcold.symm⟩

theorem course_warmUp_failed {e : Error} (h : warmUp.outcome.Course s log (.error e) t) :
    StaysCold s log t ∨ LooksWarm s log e t := by
  rcases Action.course_then h with ⟨log₁, warm, u, log₂, hwarm, hrest, rfl⟩ | ⟨e, -, hwarm⟩
  · obtain ⟨hnow, hlive, ⟨e, he, -⟩ | ⟨hr, hmemory⟩⟩ := course_isWarm_cases hwarm
    · cases he
    cases hsees : s.seesWarm with
    | true =>
      rw [hsees] at hr
      rw [Except.ok.inj hr, if_pos rfl] at hrest
      obtain ⟨-, herror, -⟩ := hrest.of_pure
      cases herror
    | false =>
      rw [hsees] at hr hmemory
      rw [Except.ok.inj hr, if_neg Bool.false_ne_true] at hrest
      have hkept : u.memory = s.memory := by
        rw [hmemory, ← (not_seesWarm_iff.1 hsees).1]
      have hcold : u.seesWarm = false := by
        rw [Scene.seesWarm, hkept, hlive]
        exact hsees
      have hleaves (h : LeavesMarker s.memory (log₁ ++ log₂)) : LeavesMarker u.memory log₂ :=
        (h.of_append (by rw [hkept])).2
      rcases course_perform_failed hrest hcold with hstays | hlooks
      · refine .inl ⟨hstays.flag, fun h => ?_⟩
        rw [hstays.status (hleaves h), hcold, hsees]
      · refine .inr ⟨hsees, hlooks.flag, fun h => hlooks.marker (hleaves h), ?_⟩
        rw [← hkept]
        exact hlooks.cause.mono (List.subset_append_right _ _)
  · obtain ⟨-, hlive, ⟨e, -, hdown, hmemory⟩ | ⟨hr, -⟩⟩ := course_isWarm_cases hwarm
    · refine .inl ⟨by rw [hmemory, hdown], fun _ => ?_⟩
      rw [Scene.seesWarm, hmemory, hlive]
      rfl
    · cases hr

end WarmUp

namespace Fleet

open WarmUp

variable {f : Fleet V} {i : Nat}

/-- **What a warm-up that has failed leaves behind.** If it could not find out whether the cache is
warm, or could not list, load or store the values, the engine knows no more than before: it still
answers that the cache is not warm, and its next warm-up is carried out. But if all values are stored
and the marker cannot be left, because it cannot be encoded or the store refuses it, then the engine
takes the cache to be warm: no warm-up of it is carried out any more until it is reset. -/
theorem warmUp_failed {e : Error} (h : warmUp.outcome.Course (f.scene i) log (.error e) t) :
    (StaysCold (f.scene i) log t ∧ (t.world.Steady → LeavesMarker (f.memory i) log →
      (∀ log r g, (f.put i t).Runs i isWarm.outcome log r g → r = .ok (f.seesWarm i)) ∧
        (f.seesWarm i = false → (f.put i t).Loads i))) ∨
    (LooksWarm (f.scene i) log e t ∧
      (∀ log r g, (f.put i t).Runs i isWarm.outcome log r g → r = .ok true) ∧
        ∀ g, (f.put i t).Lives (Remembers i) g → g.Skips i) := by
  rcases course_warmUp_failed h with hstays | hlooks
  · refine .inl ⟨hstays, fun hs hleaves => ?_⟩
    have hstatus : (f.put i t).seesWarm i = f.seesWarm i := by
      rw [seesWarm, scene_put_self]
      exact hstays.status hleaves
    refine ⟨fun log r g hrun => ?_, fun hcold => ?_⟩
    · rw [← hstatus]
      exact (Runs.isWarm (.inl hs) hrun).1
    · exact loads_of_not_seesWarm hs (hstatus.trans hcold)
  · have hup : ((f.put i t).memory i).warm = true := by
      rw [memory_put_self]
      exact hlooks.flag
    refine .inr ⟨hlooks, fun log r g hrun => ?_, fun g hlives => hlives.skips hup⟩
    rw [← seesWarm_of_flag hup]
    exact (Runs.isWarm (.inr hup) hrun).1

/-- An engine that lets no value of more than one byte pass, before a source with one row. -/
def narrow : Fleet UInt8 :=
  ⟨.start (Source.ofRows (KeyMap.empty.insert "k" 7)), fun _ => { Client.byteMemory with
    transformers := [Transformer.validation (some 1) none Transformer.validationPriority] }⟩

/-- The row is loaded and stored, but the marker is too long; from then on the engine skips its
warm-ups. -/
theorem warmUp_failed_narrow : ∃ log e t,
    warmUp.outcome.Course (narrow.scene 0) log (.error e) t ∧ LooksWarm (narrow.scene 0) log e t ∧
      ∀ g, (narrow.put 0 t).Lives (Remembers 0) g → g.Skips 0 := by
  have hcourse := Program.course_run warmUp.outcome (narrow.scene 0)
  have hup : (warmUp.outcome.run (narrow.scene 0)).2.memory.warm = true := by decide +kernel
  have hfailed : (warmUp.outcome.run (narrow.scene 0)).1.toBool = false := by decide +kernel
  cases hresult : (warmUp.outcome.run (narrow.scene 0)).1 with
  | ok r =>
    rw [hresult] at hfailed
    cases hfailed
  | error e =>
    rw [hresult] at hcourse
    rcases warmUp_failed hcourse with ⟨hstays, -⟩ | ⟨hlooks, -, hskips⟩
    · rw [hstays.flag] at hup
      cases hup
    · exact ⟨_, e, _, hcourse, hlooks, hskips⟩

/-- So a warm-up that has failed can count as one. -/
theorem not_status_of_warmUp_failed :
    ¬ ∀ (s t : Scene UInt8) (log : List (Exchange UInt8)) (e : Error),
      warmUp.outcome.Course s log (.error e) t → t.seesWarm = s.seesWarm := by
  intro hall
  have hcourse := Program.course_run warmUp.outcome (narrow.scene 0)
  have hfailed : (warmUp.outcome.run (narrow.scene 0)).1.toBool = false := by decide +kernel
  have hbefore : (narrow.scene 0).seesWarm = false := by decide +kernel
  have hafter : (warmUp.outcome.run (narrow.scene 0)).2.seesWarm = true := by decide +kernel
  cases hresult : (warmUp.outcome.run (narrow.scene 0)).1 with
  | ok r =>
    rw [hresult] at hfailed
    cases hfailed
  | error e =>
    rw [hresult] at hcourse
    have hsame := hall _ _ _ e hcourse
    rw [hbefore, hafter] at hsame
    cases hsame

end Fleet
end CacheLayer
