/-
Reloads of all that the source has. Everything is loaded at once, so all values are stored at one
time, chunk by chunk (`Fills`); the keys are distinct, so every one of them finds its row whatever
the size of the chunks is. How such a reload ends depends on the answers to the attempts alone
(`Refills`).

Main statement: `reloadAll_exact`.
-/
import CacheLayer.Proofs.Reload.Chunking

namespace CacheLayer

variable {V α : Type} {s t t' u : Scene V} {log log' : List (Exchange V)}
  {verdict : V → Except Error Unit}

namespace Reload

/-! ## Storing what was loaded -/

/-- Between the scenes the rows of some keys have been sorted and stored, part by part. -/
structure Fills (s t : Scene V) (parts : List (List String)) (got : KeyMap V)
    (each : List (Fates V)) (log : List (Exchange V)) : Prop where
  order : each.map (·.map Prod.fst) = parts
  said : said log = each.flatMap fun fates => fates.verdicts s.memory.reloadSource ++
    sent s.world.now fates.puts s.memory.reload.life
  memory : t.memory = s.memory
  scripts : t.world.scripts = s.world.scripts
  now : t.world.now = s.world.now
  live : ∀ key, t.live? key = (((Fates.lastPut each.flatten key).map fun b =>
    .born (.bytes b) s.memory.reload.life s.world.now).or (s.live? key)).filter
      fun e => !e.isDead s.world.now
  drawn : t.world.drawn = Fates.freshAfter s.memory s.world.drawn each.flatten
  ruled : ∀ verdict, Fates.JudgedBy verdict each.flatten → each.flatten =
    Fates.of s.memory verdict (s.memory.reload.mode == .lazy) s.world.drawn
      (parts.flatMap (offers got.get?))

namespace Fills

variable {parts : List (List String)} {got : KeyMap V} {each : List (Fates V)}

theorem none (s : Scene V) (got : KeyMap V) : Fills s s [] got [] [] where
  order := rfl
  said := rfl
  memory := rfl
  scripts := rfl
  now := rfl
  live key := Store.live?_later s.world.store (Nat.le_refl _) key
  drawn := rfl
  ruled _ _ := rfl

theorem steady (h : Fills s t parts got each log) (hs : s.world.Steady) : t.world.Steady :=
  fun m => by
    rw [h.scripts]
    exact hs m

theorem cons {part : List String} {fates : Fates V} (h : Fills s t [part] got [fates] log)
    (h' : Fills t u parts got each log') :
    Fills s u (part :: parts) got (fates :: each) (log ++ log') where
  order := by
    have hpart : fates.map Prod.fst = part := List.singleton_inj.1 h.order
    rw [List.map_cons, hpart, h'.order]
  said := by
    rw [said_append, h.said, h'.said, h.memory, h.now, List.flatMap_singleton, List.flatMap_cons]
  memory := h'.memory.trans h.memory
  scripts := h'.scripts.trans h.scripts
  now := h'.now.trans h.now
  live key := by
    rw [h'.live, h.live, h.memory, h.now, List.flatten_singleton, List.flatten_cons,
      Fates.lastPut_append]
    -- What a later part has given wins over what an earlier one has.
    cases Fates.lastPut each.flatten key with
    | some b => rfl
    | none => exact Store.filter_later (Nat.le_refl _) _
  drawn := by
    rw [h'.drawn, h.drawn, h.memory, ← Fates.freshAfter_append, List.flatten_singleton,
      List.flatten_cons]
  ruled verdict hjudged := by
    rw [List.flatten_cons] at hjudged ⊢
    have heq := h.ruled verdict (by rw [List.flatten_singleton]; exact hjudged.of_append.1)
    have heq' := h'.ruled verdict hjudged.of_append.2
    rw [List.flatten_singleton, List.flatMap_singleton] at heq
    rw [h.memory, h.drawn, List.flatten_singleton] at heq'
    rw [List.flatMap_cons, Fates.of_append, ← heq, ← heq']

end Fills

/-- One part is sorted, and then stored with one batch. -/
theorem course_fillPart (hs : s.world.Steady) {part : List String} {got : KeyMap V}
    {r : Except Error ReloadResult}
    (h : (storeLoaded s.memory.reloadSource s.memory.reload (s.memory.reload.mode == .lazy) part
      got).outcome.Course s log r t) :
    ∃ fates : Fates V, r = .ok fates.result ∧ Fills s t [part] got [fates] log := by
  obtain ⟨fates, s', z, log', hsorts, hstores, rfl, hsaid, hdrawn⟩ := course_storeLoaded hs h
  refine ⟨fates, rfl, ?_⟩
  exact {
    order := by rw [List.map_singleton, hsorts.order]
    said := by rw [hsaid, hsorts.said, List.flatMap_singleton]
    memory := hstores.memory.trans hsorts.memory
    scripts := hstores.scripts.trans hsorts.scripts
    now := hstores.now.trans hsorts.now
    live := fun key => by
      have hkept : s'.live? key = s.live? key := by
        unfold Scene.live?
        rw [hsorts.store, hsorts.now]
      rw [hstores.live, hkept, hsorts.now, Fates.lastGiven_puts, List.flatten_singleton]
    drawn := by rw [hdrawn, hsorts.drawn, List.flatten_singleton]
    ruled := fun verdict hjudged => by
      rw [List.flatten_singleton] at hjudged ⊢
      rw [List.flatMap_singleton]
      exact hsorts.ruled verdict hjudged }

theorem course_fill (hs : s.world.Steady) {parts : List (List String)} {got : KeyMap V}
    {r : Except Error ReloadResult}
    (h : (eachChunk (fun keys => storeLoaded s.memory.reloadSource s.memory.reload
      (s.memory.reload.mode == .lazy) keys got) parts).outcome.Course s log r t) :
    ∃ each : List (Fates V), r = .ok (Fates.result each.flatten) ∧
      Fills s t parts got each log := by
  induction parts generalizing s t log r with
  | nil =>
    obtain ⟨rfl, rfl, rfl⟩ := Program.Course.of_pure h
    exact ⟨[], rfl, .none _ _⟩
  | cons part parts ih =>
    rcases Action.course_then h with ⟨log₁, first, s₁, log₂, hfirst, hrest, rfl⟩ |
      ⟨e, -, hfirst⟩
    · obtain ⟨fates, hresult, hfills⟩ := course_fillPart hs hfirst
      cases hresult
      -- The other parts are stored by the same memory.
      rw [← hfills.memory] at hrest
      rcases Action.course_then hrest with ⟨log₃, others, s₂, log₄, hothers, hreturn, rfl⟩ |
        ⟨e, -, hothers⟩
      · obtain ⟨each, hresult', hfills'⟩ := ih (hfills.steady hs) hothers
        cases hresult'
        obtain ⟨rfl, rfl, rfl⟩ := hreturn.of_pure
        refine ⟨fates :: each, ?_, ?_⟩
        · rw [List.flatten_cons, Fates.result_append]
        · rw [List.append_nil]
          exact hfills.cons hfills'
      · obtain ⟨each, hresult', -⟩ := ih (hfills.steady hs) hothers
        cases hresult'
    · obtain ⟨fates, hresult, -⟩ := course_fillPart hs hfirst
      cases hresult

/-! ## What a full reload comes to -/

/-- What a key holds when everything is about to be stored: under `ReloadMode.replace` the cache is
emptied first. -/
def kept (s : Scene V) (key : String) : Option Entry :=
  if s.memory.reload.mode = .replace then none else s.live? key

/-- What becomes of the cache and of the counts when everything has been loaded. -/
structure Refill (s t : Scene V) (verdict : V → Except Error Unit) (got : KeyMap V)
    (fates : Fates V) : Prop where
  /-- Every key has its row. -/
  rows : fates = .of s.memory verdict (s.memory.reload.mode == .lazy) s.world.drawn
    (got.keys.map fun key => (key, got.get? key))
  order : fates.map Prod.fst = got.keys
  total : fates.result.reloaded + fates.result.failed = got.keys.length
  errors : fates.result.errors.length = fates.result.failed ∧
    (fates.result.errors.map Prod.fst).Sublist got.keys
  /-- Unless values are only checked, what counts as reloaded is stored. -/
  reloaded : s.memory.reload.mode ≠ .lazy → ∀ key fate, (key, fate) ∈ fates →
    fate.isReloaded = true → ∃ v b, fate = .stored v b
  lazily : s.memory.reload.mode = .lazy → ∀ key v b, (key, .stored v b) ∉ fates
  stored : ∀ key v b, (key, .stored v b) ∈ fates →
    got.get? key = some v ∧ verdict v = .ok () ∧
    (∃ fresh, Client.coded s.memory s.memory.format fresh key v = .ok b) ∧
    t.live? key = (some (.born (.bytes b) s.memory.reload.life t.world.now)).filter
      fun e => !e.isDead t.world.now
  others : ∀ key, (∀ v b, (key, .stored v b) ∉ fates) →
    t.live? key = (kept s key).filter fun e => !e.isDead t.world.now

theorem Refill.counted {got : KeyMap V} {fates : Fates V} (h : Refill s t verdict got fates)
    {ok : Bool} {start : Nat} : Refill s (counting ok start t) verdict got fates :=
  { h with }

/-- How a full reload ends, given the answers to the attempts at loading everything. -/
inductive Refills (s t : Scene V) (verdict : V → Except Error Unit) :
    List (Except Error (KeyMap V)) → Except Error ReloadResult → Prop where
  | failed {answers : List (Except Error (KeyMap V))} {e : Error}
      (h : Tried (retries s.memory.reload) answers (.error e))
      (hlive : ∀ key, t.live? key = (kept s key).filter fun e => !e.isDead t.world.now)
      (hmemory : t.memory = { s.memory with
        reloadStats := s.memory.reloadStats.reload false
          ((t.world.now - s.world.now) * 1000000) }) :
      Refills s t verdict answers (.error e)
  | loaded {answers : List (Except Error (KeyMap V))} {got : KeyMap V} {fates : Fates V}
      (h : Tried (retries s.memory.reload) answers (.ok got))
      (hrefill : Refill s t verdict got fates)
      (hmemory : t.memory = { s.memory with
        reloadStats := s.memory.reloadStats.reload (fates.result.failed == 0)
          ((t.world.now - s.world.now) * 1000000) }) :
      Refills s t verdict answers (.ok fates.result)

/-- The answer to an attempt at loading everything. -/
def Event.loadAll? : Event V → Option (Except Error (KeyMap V))
  | .asked _ .loadAll answer => some answer
  | _ => none

/-- The answers to the attempts at loading everything. -/
def fullLoads (log : List (Exchange V)) : List (Except Error (KeyMap V)) :=
  (said log).filterMap Event.loadAll?

theorem fullLoads_append (log log' : List (Exchange V)) :
    fullLoads (log ++ log') = fullLoads log ++ fullLoads log' := by
  rw [fullLoads, said_append, List.filterMap_append]
  rfl

theorem fullLoads_of_asked {id : SourceId} {answers : List (Except Error (KeyMap V))}
    (h : said log = answers.map (.asked id .loadAll)) : fullLoads log = answers := by
  rw [fullLoads, h, List.filterMap_map]
  exact List.filterMap_some

theorem mem_fullLoads {answer : Except Error (KeyMap V)} (h : answer ∈ fullLoads log) :
    ∃ id time, ⟨time, .request id .loadAll, answer⟩ ∈ log := by
  obtain ⟨event, hsaid, hanswer⟩ := List.mem_filterMap.1 h
  unfold Event.loadAll? at hanswer
  split at hanswer
  · next id got =>
    cases hanswer
    exact ⟨id, mem_said_asked hsaid⟩
  · cases hanswer

/-- To store what was loaded, nothing is loaded. -/
theorem Fills.fullLoads {parts : List (List String)} {got : KeyMap V} {each : List (Fates V)}
    (h : Fills s t parts got each log) : fullLoads log = [] := by
  rw [Reload.fullLoads, h.said]
  refine List.filterMap_eq_nil_iff.2 fun event hmem => ?_
  obtain ⟨fates, -, hmem⟩ := List.mem_flatMap.1 hmem
  rcases List.mem_append.1 hmem with hverdict | hsent
  · obtain ⟨x, -, rfl⟩ := List.mem_map.1 hverdict
    rfl
  · unfold sent at hsent
    split at hsent
    · cases hsent
    · obtain rfl := List.mem_singleton.1 hsent
      rfl

theorem Fills.judgedBy {parts : List (List String)} {got : KeyMap V} {each : List (Fates V)}
    (h : Fills s t parts got each log) (hjudges : Judges s.memory.reloadSource verdict log) :
    Fates.JudgedBy verdict each.flatten := by
  rw [← List.flatMap_id]
  refine .flatMap fun fates hfates => Fates.judgedBy_of_said
    fun v r (hmem : .judged s.memory.reloadSource v r ∈ Fates.verdicts _ _) => ?_
  refine hjudges v r ?_
  rw [h.said]
  exact List.mem_flatMap.2 ⟨fates, hfates, List.mem_append_left _ hmem⟩

/-! ## The course of a full reload -/

/-- Under `ReloadMode.replace` the cache is emptied first. -/
theorem course_clear (hs : s.world.Steady) {r : Except Error Unit}
    (h : (if s.memory.reload.mode = .replace then Client.flush else pure () :
      Action V Unit).outcome.Course s log r t) :
    r = .ok () ∧ t.memory = s.memory ∧ t.world.scripts = s.world.scripts ∧
      t.world.now = s.world.now ∧ t.world.drawn = s.world.drawn ∧ fullLoads log = [] ∧
      ∀ key, t.live? key = kept s key := by
  by_cases hmode : s.memory.reload.mode = .replace
  · rw [if_pos hmode] at h
    obtain ⟨rfl, rfl, hsaid⟩ := Action.course_command hs h
    refine ⟨rfl, rfl, rfl, rfl, rfl, ?_, fun key => ?_⟩
    · rw [fullLoads, hsaid]
      rfl
    · rw [kept, if_pos hmode]
      rfl
  · rw [if_neg hmode] at h
    obtain ⟨rfl, rfl, rfl⟩ := Program.Course.of_pure h
    refine ⟨rfl, rfl, rfl, rfl, rfl, rfl, fun key => ?_⟩
    rw [kept, if_neg hmode]

/-- Where all parts of the keys have been stored, the reload comes to what it should. -/
theorem refill_of_fills {size : Nat} {got : KeyMap V} {each : List (Fates V)}
    (hkept : ∀ key, u.live? key = (kept s key).filter fun e => !e.isDead u.world.now)
    (hmemory : u.memory = s.memory) (hdrawn : u.world.drawn = s.world.drawn)
    (hjudged : Fates.JudgedBy verdict each.flatten)
    (h : Fills u t (chunks size got.keys) got each log) :
    Refill s t verdict got each.flatten := by
  have hapart : ∀ part ∈ chunks size got.keys, Apart got.get? part := by
    intro part hpart
    have hsub : part.Sublist got.keys := by
      have hflat := List.sublist_flatten_of_mem hpart
      rwa [flatten_chunks] at hflat
    exact .of_nodup _ (got.nodup_keys.sublist hsub)
  have hrows := h.ruled verdict hjudged
  rw [hmemory, hdrawn, offers_of_apart hapart] at hrows
  have horder : each.flatten.map Prod.fst = got.keys := by
    rw [hrows, Fates.map_fst_of, List.map_map]
    exact List.map_id _
  have hlive : ∀ key, t.live? key = (((Fates.lastPut each.flatten key).map fun b =>
      .born (.bytes b) s.memory.reload.life t.world.now).or (kept s key)).filter
        fun e => !e.isDead t.world.now := by
    intro key
    rw [h.live, hkept, hmemory, h.now]
    cases Fates.lastPut each.flatten key with
    | some b => rfl
    | none => exact Store.filter_later (Nat.le_refl _) _
  have hfate : ∀ key fate, (key, fate) ∈ each.flatten → ∃ fresh, fate =
      Fate.of s.memory verdict (s.memory.reload.mode == .lazy) fresh key (got.get? key) := by
    intro key fate hmem
    rw [hrows] at hmem
    obtain ⟨v?, fresh, hrow, heq⟩ := Fates.exists_of_mem hmem
    obtain ⟨k, -, hk⟩ := List.mem_map.1 hrow
    obtain ⟨rfl, rfl⟩ := Prod.mk.inj hk
    exact ⟨fresh, heq⟩
  refine ⟨hrows, horder, ?_, ⟨Fates.length_errors _, horder ▸ Fates.errors_sublist _⟩, ?_, ?_, ?_, ?_⟩
  · rw [Fates.reloaded_add_failed, ← horder, List.length_map]
  · intro hmode key fate hmem hreloaded
    obtain ⟨fresh, rfl⟩ := hfate key fate hmem
    rw [beq_false_of_ne hmode] at hreloaded ⊢
    exact Fate.stored_of_isReloaded hreloaded
  · intro hmode key v b hmem
    rw [hrows, hmode] at hmem
    exact Fates.not_stored_of hmem
  · intro key v b hmem
    obtain ⟨fresh, heq⟩ := hfate key _ hmem
    obtain ⟨hrow, hverdict, -, hcoded⟩ := Fate.of_eq_stored heq.symm
    refine ⟨hrow, hverdict, ⟨fresh, hcoded⟩, ?_⟩
    rw [hlive, Fates.lastPut_of_mem (horder ▸ got.nodup_keys) hmem]
    rfl
  · intro key hnone
    rw [hlive, Fates.lastPut_of_not_mem hnone]
    rfl

theorem course_reloadAll (hs : s.world.Steady) {r : Except Error ReloadResult}
    (h : reloadAll.outcome.Course s log r t)
    (hjudges : Judges s.memory.reloadSource verdict log) :
    Refills s t verdict (fullLoads log) r := by
  obtain ⟨log', u, ok, ha, hsaid, rfl, hok, hfail⟩ := course_counted h
  obtain ⟨log'', hall, rfl⟩ := Action.course_memory_then ha
  have hsteps : ((if s.memory.reload.mode = .replace then Client.flush else pure () :
      Action V Unit) >>= fun _ =>
      retry s.memory.reload (Action.request s.memory.reloadSource .loadAll) >>= fun loaded =>
      eachChunk (fun keys => storeLoaded s.memory.reloadSource s.memory.reload
        (s.memory.reload.mode == .lazy) keys loaded)
        (chunks s.memory.reload.batchSize loaded.keys)).outcome.Course s log'' r u := by
    by_cases hmode : s.memory.reload.mode = .replace
    · simpa only [hmode, if_true] using hall
    · simpa only [hmode, if_false, pure_bind] using hall
  change said log = said log'' at hsaid
  have hloads : fullLoads log = fullLoads log'' := by rw [fullLoads, hsaid, fullLoads]
  rw [hloads]
  rcases Action.course_then hsteps with ⟨log₁, x, s₁, log₂, hclear, hrest, rfl⟩ | ⟨e, -, hclear⟩
  · obtain ⟨-, hmemory, hscripts, hnow, hdrawn, hnone, hlive⟩ := course_clear hs hclear
    have hs₁ : s₁.world.Steady := fun m => (congrFun hscripts m).trans (hs m)
    -- What a key holds when the load has ended, whether it has succeeded or not.
    have hkept : ∀ {s₂ : Scene V}, s₁.Idles s₂ → ∀ key, s₂.live? key =
        (kept s key).filter fun e => !e.isDead s₂.world.now := by
      intro s₂ hidles key
      rw [hidles.live?, hlive]
    rcases Action.course_then hrest with ⟨log₃, got, s₂, log₄, hretry, hfill, rfl⟩ |
      ⟨e, rfl, hretry⟩
    · obtain ⟨hidles, hdrawn', answers, htried, hasked⟩ := course_retry hretry
      have hmemory' : s₂.memory = s.memory := hidles.memory.trans hmemory
      rw [← hmemory'] at hfill hjudges
      obtain ⟨each, rfl, hfills⟩ := course_fill (hidles.steady hs₁) hfill
      rw [fullLoads_append, fullLoads_append, hnone, fullLoads_of_asked hasked, hfills.fullLoads,
        List.append_nil, List.nil_append]
      have hjudged : Fates.JudgedBy verdict each.flatten := by
        refine hfills.judgedBy fun v r hmem => hjudges v r ?_
        rw [hsaid, said_append, said_append]
        exact List.mem_append_right _ (List.mem_append_right _ hmem)
      rw [hmemory'] at hfills
      have hrefill := refill_of_fills (hkept hidles) hmemory' (hdrawn'.trans hdrawn) hjudged hfills
      refine .loaded htried hrefill.counted ?_
      rw [counting, hfills.memory, hmemory', hok _ rfl]
      rfl
    · obtain ⟨hidles, hdrawn', answers, htried, hasked⟩ := course_retry hretry
      rw [fullLoads_append, hnone, fullLoads_of_asked hasked, List.nil_append]
      have hlive' := hkept hidles
      refine .failed htried hlive' ?_
      rw [counting, hidles.memory, hmemory, hfail e rfl]
  · obtain ⟨hclear', -⟩ := course_clear hs hclear
    cases hclear'

/-- Two full reloads that load the same end alike, and leave the same at the same time. -/
theorem Refills.unique {size size' : Nat} {answers : List (Except Error (KeyMap V))}
    {r r' : Except Error ReloadResult} (h : Refills (s.inChunks size) t verdict answers r)
    (h' : Refills (s.inChunks size') t' verdict answers r') :
    r = r' ∧ (t.world.now = t'.world.now → ∀ key, t.live? key = t'.live? key) := by
  cases h with
  | failed htried hlive hmemory =>
    cases h' with
    | failed htried' hlive' hmemory' =>
      have hlast := htried.getLast?.symm.trans htried'.getLast?
      simp only [Option.some.injEq, Except.error.injEq] at hlast
      refine ⟨by rw [hlast], fun hnow key => ?_⟩
      rw [hlive, hlive', hnow]
      rfl
    | loaded htried' hrefill' hmemory' =>
      have hlast := htried.getLast?.symm.trans htried'.getLast?
      simp at hlast
  | @loaded got fates htried hrefill hmemory =>
    cases h' with
    | failed htried' hlive' hmemory' =>
      have hlast := htried.getLast?.symm.trans htried'.getLast?
      simp at hlast
    | @loaded got' fates' htried' hrefill' hmemory' =>
      have hlast := htried.getLast?.symm.trans htried'.getLast?
      simp only [Option.some.injEq, Except.ok.injEq] at hlast
      subst hlast
      have hfates : fates = fates' := by
        rw [hrefill.rows, hrefill'.rows, Fates.of_inChunks, Fates.of_inChunks]
        rfl
      subst hfates
      refine ⟨rfl, fun hnow key => ?_⟩
      by_cases hstored : ∃ v b, (key, .stored v b) ∈ fates
      · obtain ⟨v, b, hmem⟩ := hstored
        rw [(hrefill.stored key v b hmem).2.2.2, (hrefill'.stored key v b hmem).2.2.2, hnow]
        rfl
      · have hnone : ∀ v b, (key, .stored v b) ∉ fates := fun v b hmem => hstored ⟨v, b, hmem⟩
        rw [hrefill.others key hnone, hrefill'.others key hnone, hnow]
        rfl

/-- **A full reload leaves exactly what it should.** Whatever the source makes up its answers from,
the reload ends. If the last attempt to load everything has failed it ends with that error, and the
cache is as it was, or empty under `ReloadMode.replace`. Otherwise it ends with a result that counts
every row of the source, with the errors in the order of the keys: what passes and can be encoded is
stored, all of it at one time, and over what the cache held or, under `ReloadMode.replace`, over
nothing. The size of the chunks does not matter. -/
theorem reloadAll_exact (s : Scene V) (hs : s.world.Steady) :
    (∀ answer, ∃ log r t, reloadAll.outcome.Course s log r t ∧ Program.Heeds answer [] log) ∧
    (∀ verdict log r t, reloadAll.outcome.Course s log r t →
      Judges s.memory.reloadSource verdict log → Refills s t verdict (fullLoads log) r) ∧
    ∀ size size' verdict log log' r r' t t',
      reloadAll.outcome.Course (s.inChunks size) log r t →
      reloadAll.outcome.Course (s.inChunks size') log' r' t' →
      Judges s.memory.reloadSource verdict log → Judges s.memory.reloadSource verdict log' →
      fullLoads log = fullLoads log' →
      r = r' ∧ (t.world.now = t'.world.now → ∀ key, t.live? key = t'.live? key) := by
  refine ⟨fun answer => Program.exists_course answer _ s [], ?_, ?_⟩
  · intro verdict log r t h hjudges
    exact course_reloadAll hs h hjudges
  · intro size size' verdict log log' r r' t t' h h' hjudges hjudges' hloads
    have hsteady : (s.inChunks size).world.Steady := hs
    have hsteady' : (s.inChunks size').world.Steady := hs
    have hrefills := course_reloadAll hsteady h hjudges
    have hrefills' := course_reloadAll hsteady' h' hjudges'
    rw [← hloads] at hrefills'
    exact hrefills.unique hrefills'

/-! ## A source with two rows -/

/-- An engine that replaces what the cache holds, one key at a time. -/
def replacing : Scene UInt8 :=
  ⟨{ World.start default with store := Store.empty.set 0 "old" [9] none },
    { Client.byteMemory with reload := { mode := .replace, batchSize := 1, life := none } }⟩

/-- The answers of a source that gives its rows. -/
def pairAnswers : (q : Ask UInt8) → Answer q
  | .request _ .loadAll => .ok pairRows
  | .judge _ v => pairVerdict v
  | q => (q.perform replacing).1

/-- The accepted row is stored, and what the cache held is gone. -/
theorem reloadAll_exact_replacing :
    replacing.world.Steady ∧ (replacing.live? "old").isSome = true ∧ ∃ log t,
      reloadAll.outcome.Course replacing log (.ok ⟨1, 1, [("b", .invalid "two")]⟩) t ∧
      t.live? "a" = some (.born (.bytes [1]) none t.world.now) ∧ t.live? "old" = none := by
  have hs : replacing.world.Steady := fun _ => rfl
  obtain ⟨hexists, hrefills, -⟩ := reloadAll_exact replacing hs
  obtain ⟨log, r, t, hcourse, hheeds⟩ := hexists fun _ => pairAnswers
  have hanswer := Program.heeds_const hheeds
  have hjudges : Judges replacing.memory.reloadSource pairVerdict log := by
    intro v r hsaid
    obtain ⟨time, hmem⟩ := mem_said_judged hsaid
    exact hanswer _ hmem rfl
  have hloads : ∀ answer ∈ fullLoads log, answer = .ok pairRows := by
    intro answer hmem
    obtain ⟨id, time, hmem⟩ := mem_fullLoads hmem
    exact hanswer _ hmem rfl
  refine ⟨hs, by decide +kernel, log, t, ?_⟩
  cases hrefills _ _ _ _ hcourse hjudges with
  | failed htried hlive hmemory =>
    cases hloads _ (List.mem_of_getLast? htried.getLast?)
  | @loaded got fates htried hrefill hmemory =>
    obtain rfl : got = pairRows :=
      Except.ok.inj (hloads _ (List.mem_of_getLast? htried.getLast?))
    have hfates : fates = [("a", .stored 1 [1]), ("b", .rejected 2 (.invalid "two"))] :=
      hrefill.rows
    subst hfates
    refine ⟨hcourse, ?_, ?_⟩
    · exact (hrefill.stored "a" 1 [1] List.mem_cons_self).2.2.2
    · rw [hrefill.others "old" (by simp)]
      rfl

end Reload
end CacheLayer
