/-
Warm-ups do not depend on how many chunks are loaded at a time, nor on the order in which these come
to an end. Before a source that does not change, what becomes of each chunk follows from its keys
(`Supply.Yields`), so two warm-ups report the same up to the order of the errors (`Alike`) and give the
same values to the same keys. Only two things can tell them apart: the numbers that are drawn, if
encoding a value succeeds with some and not with others (`Supply.CodesSteadily`), and the times at
which the values are stored.

`warmUp` sets the marker of a warm cache when all values are stored, so what the source has under the
key of the marker is lost.

Main statement: `warmUp_confluent`.
-/
import CacheLayer.Proofs.WarmUp.Once
import CacheLayer.Proofs.WarmUp.Supply

namespace CacheLayer

open CacheLayer.Reload

variable {V α : Type} {s t t' u : Scene V} {log : List (Exchange V)} {m : Memory V}
  {x : Supply V}

/-- The scene in which so many chunks of a warm-up are loaded at a time. -/
def Scene.inParallel (s : Scene V) (width : Nat) : Scene V :=
  { s with memory := { s.memory with
    reload := { s.memory.reload with warmUpConcurrency := width } } }

namespace WarmUp

open Supply

/-! ## Ways to warm the cache up -/

/-- The ways to warm the cache up. -/
inductive Way where
  /-- Once, and with all keys that a warm-up is about. -/
  | all
  | these (keys : List String)
  /-- With those keys that pass a test. -/
  | those (test : String → Bool)

namespace Way

def act : Way → Action V WarmUpResult
  | all => warmUp
  | these keys => warmUpKeys keys
  | those test => warmUpSelective test

/-- The keys that are loaded, or why it is not known which. -/
def keys (x : Supply V) (m : Memory V) : Way → Except Error (List String)
  | all => x.candidates m
  | these keys => .ok keys
  | those test => (x.candidates m).map (List.filter test)

/-- The key is accepted in some chunk. -/
def Accepts (x : Supply V) (s : Scene V) (way : Way) (key : String) : Prop :=
  (way = all → s.seesWarm = false) ∧ ∃ keys, way.keys x s.memory = .ok keys ∧
    ∃ part ∈ chunks s.memory.reload.batchSize keys, x.AcceptsIn s.memory part key

end Way

/-- What a warm-up does when everything is stored: if it is made once, it sets the marker. -/
inductive Marks (m : Memory V) (s t : Scene V) (result : ReloadResult) :
    Way → Except Error WarmUpResult → Prop where
  | aside {way : Way} (hway : way ≠ .all) (hlive : ∀ key, t.live? key = s.live? key) :
      Marks m s t result way (.ok ⟨true, result⟩)
  | set {fresh : Nat} {b : Bytes}
      (hcoded : Client.coded m Format.flag fresh Marker.warmedUp true = .ok b)
      (hmarker : t.live? Marker.warmedUp =
        some (.born (.bytes b) (some Marker.warmedUpLife) t.world.now))
      (hlive : ∀ key, key ≠ Marker.warmedUp → t.live? key = s.live? key) :
      Marks m s t result .all (.ok ⟨true, result⟩)
  /-- The marker cannot be encoded. -/
  | failed {fresh : Nat} {e : Error}
      (hcoded : Client.coded m Format.flag fresh Marker.warmedUp true = .error e)
      (hlive : ∀ key, t.live? key = s.live? key) : Marks m s t result .all (.error e)

/-- How a warm-up ends. -/
inductive Ends (x : Supply V) (s t : Scene V) (way : Way) : Except Error WarmUpResult → Prop where
  /-- The cache is warm already. -/
  | skipped (hway : way = .all) (hwarm : s.seesWarm = true) (hkept : ∀ key, Kept s t key) :
      Ends x s t way (.ok ⟨false, {}⟩)
  /-- The keys could not be listed. -/
  | unlisted {e : Error} (hcold : way = .all → s.seesWarm = false)
      (hkeys : way.keys x s.memory = .error e) (hkept : ∀ key, Kept s t key) :
      Ends x s t way (.error e)
  | loaded {keys : List String} {each : List (Fates V)} {result : ReloadResult} {u : Scene V}
      {r : Except Error WarmUpResult} (hcold : way = .all → s.seesWarm = false)
      (hkeys : way.keys x s.memory = .ok keys) (hwarmed : Warmed x s u keys each result)
      (hnow : t.world.now = u.world.now) (hmarks : Marks s.memory u t result way r) :
      Ends x s t way r

/-! ## What courses come to -/

/-- A key that nothing has happened to. -/
theorem Kept.of_live (hnow : t.world.now = s.world.now) {key : String}
    (hlive : t.live? key = s.live? key) : Kept s t key := by
  rw [Kept, hlive, hnow]
  exact Store.live?_later _ (Nat.le_refl _) _

theorem Kept.of_idles (h : s.Idles t) (key : String) : Kept s t key := h.live? key

theorem Kept.trans {key : String} (h : Kept s t key) (h' : Kept t u key)
    (hnow : t.world.now ≤ u.world.now) : Kept s u key := by
  rw [Kept, h', h]
  exact Store.filter_later hnow _

/-- A load may begin some time after the warm-up. -/
theorem Warmed.later {keys : List String} {each : List (Fates V)} {result : ReloadResult}
    (h : Warmed x t u keys each result) (hmemory : t.memory = s.memory)
    (hnow : s.world.now ≤ t.world.now) (hkept : ∀ key, Kept s t key) :
    Warmed x s u keys each result where
  yields := hmemory ▸ h.yields
  reloaded := h.reloaded
  failed := h.failed
  errors := h.errors
  total := h.total
  now := Nat.le_trans hnow h.now
  given key v b hmem := by
    obtain ⟨hrow, hverdict, fresh, b', time, hcoded, hle, hge, hlive⟩ := h.given key v b hmem
    rw [hmemory] at hcoded hlive
    exact ⟨hrow, hverdict, fresh, b', time, hcoded, Nat.le_trans hnow hle, hge, hlive⟩
  kept key hnone := (hkept key).trans (h.kept key hnone) h.now

theorem course_candidates {r : Except Error (List String)}
    (h : candidates.outcome.Course s log r t) (htold : x.Told s.memory.reloadSource log) :
    r = x.candidates s.memory ∧ s.Idles t := by
  obtain ⟨log₁, hrest, rfl⟩ := Action.course_memory_then h
  unfold Supply.candidates
  by_cases hnamed : s.memory.reload.warmUpKeys.isEmpty = true
  · rw [if_pos hnamed] at hrest ⊢
    obtain ⟨hidles, -, hasked⟩ := Action.course_request hrest
    refine ⟨htold.lists r ?_, hidles⟩
    change _ ∈ said log₁
    rw [hasked]
    exact List.mem_singleton.2 rfl
  · rw [if_neg hnamed] at hrest ⊢
    obtain ⟨-, rfl, rfl⟩ := hrest.of_pure
    exact ⟨rfl, .refl _⟩

theorem course_warmUpKeys (hs : s.world.Steady) {keys : List String}
    {r : Except Error WarmUpResult} (h : (warmUpKeys keys).outcome.Course s log r t)
    (htold : x.Told s.memory.reloadSource log) :
    ∃ each result, r = .ok ⟨true, result⟩ ∧ Warmed x s t keys each result := by
  rcases Action.course_then h with ⟨log₁, result, u, log₂, hload, hreturn, rfl⟩ | ⟨e, -, hload⟩
  · obtain ⟨rfl, rfl, rfl⟩ := hreturn.of_pure
    rw [List.append_nil] at htold
    obtain ⟨each, result', hr, hwarmed⟩ := warmed_of_load hs hload htold
    obtain rfl := Except.ok.inj hr
    exact ⟨each, result, rfl, hwarmed⟩
  · obtain ⟨each, result, hr, -⟩ := warmed_of_load hs hload htold
    cases hr

theorem course_warmUpSelective (hs : s.world.Steady) {test : String → Bool}
    {r : Except Error WarmUpResult} (h : (warmUpSelective test).outcome.Course s log r t)
    (htold : x.Told s.memory.reloadSource log) : Ends x s t (.those test) r := by
  rcases Action.course_then h with ⟨log₁, keys, u, log₂, hkeys, hload, rfl⟩ | ⟨e, rfl, hkeys⟩
  · obtain ⟨hlisted, hload'⟩ := htold.of_append
    obtain ⟨hcandidates, hidles⟩ := course_candidates hkeys hlisted
    rw [← hidles.memory] at hload'
    change (warmUpKeys (keys.filter test)).outcome.Course u log₂ r t at hload
    obtain ⟨each, result, rfl, hwarmed⟩ := course_warmUpKeys (hidles.steady hs) hload hload'
    refine .loaded (by rintro ⟨⟩) ?_ (hwarmed.later hidles.memory hidles.now (.of_idles hidles))
      rfl (.aside (by rintro ⟨⟩) fun _ => rfl)
    rw [Way.keys, ← hcandidates]
    rfl
  · obtain ⟨hcandidates, hidles⟩ := course_candidates hkeys htold
    refine .unlisted (by rintro ⟨⟩) ?_ (.of_idles hidles)
    rw [Way.keys, ← hcandidates]
    rfl

/-- To set the marker takes no time and touches no other key. -/
theorem course_marks (hs : s.world.Steady) {r : Except Error Unit}
    (h : markWarm.outcome.Course s log r t) : t.world.now = s.world.now ∧ ∃ fresh,
      ((∃ e, Client.coded s.memory Format.flag fresh Marker.warmedUp true = .error e ∧
          r = .error e ∧ ∀ key, t.live? key = s.live? key) ∨
        ∃ b, Client.coded s.memory Format.flag fresh Marker.warmedUp true = .ok b ∧ r = .ok () ∧
          t.live? Marker.warmedUp =
            some (.born (.bytes b) (some Marker.warmedUpLife) t.world.now) ∧
          ∀ key, key ≠ Marker.warmedUp → t.live? key = s.live? key) := by
  obtain ⟨log₁, ⟨⟩, s₁, log₂, hraise, hset, rfl⟩ := Action.course_always_then h
  obtain rfl := hraise.of_change
  obtain ⟨-, -, hnow, ⟨e, hcoded, rfl, -, hstore⟩ | ⟨b, hcoded, rfl, -, hstore⟩⟩ :=
    Reload.course_set (s := { s with memory := { s.memory with warm := true } }) hs hset
  · refine ⟨hnow, s.world.drawn, .inl ⟨e, hcoded, rfl, fun key => ?_⟩⟩
    rw [Scene.live?, hstore, hnow]
    rfl
  · refine ⟨hnow, s.world.drawn, .inr ⟨b, hcoded, rfl, ?_, fun key hkey => ?_⟩⟩
    · have halive : (Entry.born (.bytes b) (some Marker.warmedUpLife) s.world.now).isDead
          s.world.now = false := by
        simp [Entry.isDead, Entry.born, Marker.warmedUpLife, Marker.hour]
      rw [Scene.live?, hstore, hnow, Store.set, Store.live?_put_self, halive]
      rfl
    · rw [Scene.live?, hstore, hnow, Store.set, Store.live?_put_other _ _ _ hkey]
      rfl

/-- What a warm-up does when it has found the cache cold. -/
theorem course_perform (hs : u.world.Steady) {r : Except Error WarmUpResult}
    (h : perform.outcome.Course u log r t) (htold : x.Told s.memory.reloadSource log)
    (hmemory : u.memory = s.memory) (hnow : u.world.now = s.world.now)
    (hlive : ∀ key, u.live? key = s.live? key) (hcold : s.seesWarm = false) :
    Ends x s t .all r := by
  have hkept : ∀ key, Kept s u key := fun key => .of_live hnow (hlive key)
  rw [← hmemory] at htold
  rcases Action.course_then h with ⟨log₁, keys, v, log₂, hkeys, hrest, rfl⟩ | ⟨e, rfl, hkeys⟩
  · obtain ⟨hlisted, htold'⟩ := htold.of_append
    obtain ⟨hcandidates, hidles⟩ := course_candidates hkeys hlisted
    rw [hmemory] at hcandidates
    rw [← hidles.memory] at htold'
    have hsteady := hidles.steady hs
    rcases Action.course_then hrest with ⟨log₃, result, w, log₄, hload, hmark, rfl⟩ |
      ⟨e, -, hload⟩
    · obtain ⟨each, result', hr, hwarmed⟩ := warmed_of_load hsteady hload htold'.of_append.1
      obtain rfl := Except.ok.inj hr
      have hwarmed' : Warmed x s w keys each result :=
        (hwarmed.later hidles.memory hidles.now (.of_idles hidles)).later hmemory
          (Nat.le_of_eq hnow.symm) hkept
      have hw : w.memory = s.memory :=
        ((hload.keeps ((onlyReads_load keys).keeps id)).trans hidles.memory).trans hmemory
      rcases Action.course_then hmark with ⟨log₅, ⟨⟩, t', log₆, hset, hreturn, rfl⟩ |
        ⟨e, rfl, hset⟩
      · obtain ⟨rfl, rfl, rfl⟩ := hreturn.of_pure
        obtain ⟨hnow', fresh, ⟨e, -, herror, -⟩ | ⟨b, hcoded, -, hmarker, hothers⟩⟩ :=
          course_marks (hload.steady hsteady) hset
        · cases herror
        · rw [hw] at hcoded
          exact .loaded (fun _ => hcold) hcandidates.symm hwarmed' hnow' (.set hcoded hmarker hothers)
      · obtain ⟨hnow', fresh, ⟨e', hcoded, herror, hsame⟩ | ⟨b, -, hdone, -⟩⟩ :=
          course_marks (hload.steady hsteady) hset
        · cases herror
          rw [hw] at hcoded
          exact .loaded (fun _ => hcold) hcandidates.symm hwarmed' hnow' (.failed hcoded hsame)
        · cases hdone
    · obtain ⟨each, result, hr, -⟩ := warmed_of_load hsteady hload htold'
      cases hr
  · obtain ⟨hcandidates, hidles⟩ := course_candidates hkeys htold
    rw [hmemory] at hcandidates
    exact .unlisted (fun _ => hcold) hcandidates.symm fun key =>
      (hkept key).trans (.of_idles hidles key) hidles.now

theorem ends_of_course (hs : s.world.Steady) {way : Way} {r : Except Error WarmUpResult}
    (h : way.act.outcome.Course s log r t) (htold : x.Told s.memory.reloadSource log) :
    Ends x s t way r := by
  cases way with
  | all =>
    rcases Action.course_then h with ⟨log₁, warm, u, log₂, hwarm, hrest, rfl⟩ | ⟨e, -, hwarm⟩
    · obtain ⟨hr, -, store, hlive, rfl⟩ := course_isWarm (.inl hs) hwarm
      obtain rfl := Except.ok.inj hr
      cases hsees : s.seesWarm with
      | true =>
        rw [hsees, if_pos rfl] at hrest
        obtain ⟨-, rfl, rfl⟩ := hrest.of_pure
        refine .skipped rfl hsees fun key => ?_
        exact Kept.of_live (s := s) (t := ⟨{ s.world with store := store }, _⟩) rfl (hlive key)
      | false =>
        rw [hsees] at hrest
        obtain ⟨hdown, -⟩ := Bool.or_eq_false_iff.1 hsees
        have hmemory : { s.memory with warm := false } = s.memory := by rw [← hdown]
        exact course_perform (u := ⟨{ s.world with store := store }, _⟩) hs hrest
          htold.of_append.2 hmemory rfl hlive hsees
    · obtain ⟨hr, -⟩ := course_isWarm (.inl hs) hwarm
      cases hr
  | these keys =>
    obtain ⟨each, result, rfl, hwarmed⟩ := course_warmUpKeys hs h htold
    exact .loaded (by rintro ⟨⟩) rfl hwarmed rfl (.aside (by rintro ⟨⟩) fun _ => rfl)
  | those test => exact course_warmUpSelective hs h htold

/-- How many chunks are loaded at a time does not matter for what becomes of one. -/
theorem yields_inParallel {width : Nat} {part : List String} {fates : Fates V}
    (h : x.Yields (s.inParallel width).memory part fates) : x.Yields s.memory part fates := by
  unfold Yields at h ⊢
  split at h
  · exact h
  · exact h.imp fun o y hfate => hfate

theorem Warmed.alone {width : Nat} {keys : List String} {each : List (Fates V)}
    {result : ReloadResult} (h : Warmed x (s.inParallel width) t keys each result) :
    Warmed x s t keys each result :=
  { h with yields := h.yields.imp fun _ _ hyields => yields_inParallel hyields }

theorem Ends.alone {width : Nat} {way : Way} {r : Except Error WarmUpResult}
    (h : Ends x (s.inParallel width) t way r) : Ends x s t way r := by
  have hsame : way.keys x (s.inParallel width).memory = way.keys x s.memory := by
    cases way <;> rfl
  cases h with
  | skipped hway hwarm hkept => exact .skipped hway hwarm hkept
  | unlisted hcold hkeys hkept => exact .unlisted hcold (hsame ▸ hkeys) hkept
  | loaded hcold hkeys hwarmed hnow hmarks =>
    refine .loaded hcold (hsame ▸ hkeys) hwarmed.alone hnow ?_
    cases hmarks with
    | aside hway hlive => exact .aside hway hlive
    | set hcoded hmarker hlive => exact .set hcoded hmarker hlive
    | failed hcoded hlive => exact .failed hcoded hlive

/-! ## Two warm-ups -/

/-- The reports are the same up to the order of the errors. -/
inductive Alike : Except Error WarmUpResult → Except Error WarmUpResult → Prop where
  | failed (e : Error) : Alike (.error e) (.error e)
  | done (performed : Bool) {result result' : ReloadResult}
      (hreloaded : result.reloaded = result'.reloaded) (hfailed : result.failed = result'.failed)
      (herrors : result.errors.Perm result'.errors) :
      Alike (.ok ⟨performed, result⟩) (.ok ⟨performed, result'⟩)

/-- Whether the values and the marker can be encoded does not depend on the numbers that are drawn. -/
structure CodesSteadily (x : Supply V) (m : Memory V) : Prop where
  rows : ∀ key v, x.rows key = some v → Client.Steadily m m.format key v
  marker : Client.Steadily m Format.flag Marker.warmedUp true

theorem codesSteadily_of_steady (h : m.transformers.Steady) (x : Supply V) : CodesSteadily x m :=
  ⟨fun key v _ => Client.steadily_of_steady h m.format key v,
    Client.steadily_of_steady h Format.flag Marker.warmedUp true⟩

theorem Warmed.alike {keys : List String} {each each' : List (Fates V)}
    {result result' : ReloadResult} (h : Warmed x s t keys each result)
    (h' : Warmed x s t' keys each' result') (hcodes : CodesSteadily x s.memory) :
    result.reloaded = result'.reloaded ∧ result.failed = result'.failed ∧
      result.errors.Perm result'.errors := by
  have hsame : Fates.result each.flatten = Fates.result each'.flatten := by
    rw [← Fates.result_bare, bare_of_yields h.yields h'.yields hcodes.rows,
      Fates.result_bare]
  rw [h.reloaded, h.failed, h'.reloaded, h'.failed, hsame]
  exact ⟨rfl, rfl, h.errors.trans (hsame ▸ h'.errors.symm)⟩

theorem Marks.alike {way : Way} {r r' : Except Error WarmUpResult} {result result' : ReloadResult}
    {u u' : Scene V} (h : Marks m u t result way r) (h' : Marks m u' t' result' way r')
    (hmarker : Client.Steadily m Format.flag Marker.warmedUp true)
    (hreloaded : result.reloaded = result'.reloaded) (hfailed : result.failed = result'.failed)
    (herrors : result.errors.Perm result'.errors) : Alike r r' := by
  cases h with
  | aside hway _ =>
    cases h' with
    | aside => exact .done true hreloaded hfailed herrors
    | set => exact absurd rfl hway
    | failed => exact absurd rfl hway
  | set hcoded _ _ =>
    cases h' with
    | aside hway _ => exact absurd rfl hway
    | set => exact .done true hreloaded hfailed herrors
    | @failed fresh _ hcoded' _ => cases (hmarker.error hcoded' _).symm.trans hcoded
  | failed hcoded _ =>
    cases h' with
    | aside hway _ => exact absurd rfl hway
    | set hcoded' _ _ => cases (hmarker.error hcoded _).symm.trans hcoded'
    | failed hcoded' _ =>
      obtain ⟨⟩ := (hmarker.error hcoded _).symm.trans hcoded'
      exact .failed _

theorem Marks.live {way : Way} {r : Except Error WarmUpResult} {result : ReloadResult}
    {u : Scene V} (h : Marks m u t result way r) {key : String}
    (hkey : way = .all → key ≠ Marker.warmedUp) : t.live? key = u.live? key := by
  cases h with
  | aside _ hlive => exact hlive key
  | set _ _ hlive => exact hlive key (hkey rfl)
  | failed _ hlive => exact hlive key

/-- Where a warm-up is skipped, nothing is loaded. -/
theorem not_cold {way : Way} (hway : way = .all) (hwarm : s.seesWarm = true) :
    ¬ (way = .all → s.seesWarm = false) := by
  intro hcold
  rw [hcold hway] at hwarm
  cases hwarm

theorem Ends.alike {way : Way} {r r' : Except Error WarmUpResult} (h : Ends x s t way r)
    (h' : Ends x s t' way r') (hcodes : CodesSteadily x s.memory) : Alike r r' := by
  cases h with
  | skipped hway hwarm _ =>
    cases h' with
    | skipped => exact .done false rfl rfl (.refl _)
    | unlisted hcold => exact absurd hcold (not_cold hway hwarm)
    | loaded hcold => exact absurd hcold (not_cold hway hwarm)
  | unlisted hcold hkeys _ =>
    cases h' with
    | skipped hway hwarm _ => exact absurd hcold (not_cold hway hwarm)
    | unlisted _ hkeys' _ =>
      obtain ⟨⟩ := hkeys.symm.trans hkeys'
      exact .failed _
    | loaded _ hkeys' => cases hkeys.symm.trans hkeys'
  | loaded hcold hkeys hwarmed hnow hmarks =>
    cases h' with
    | skipped hway hwarm _ => exact absurd hcold (not_cold hway hwarm)
    | unlisted _ hkeys' _ => cases hkeys.symm.trans hkeys'
    | loaded _ hkeys' hwarmed' _ hmarks' =>
      obtain ⟨⟩ := hkeys.symm.trans hkeys'
      obtain ⟨hreloaded, hfailed, herrors⟩ := hwarmed.alike hwarmed' hcodes
      exact hmarks.alike hmarks' hcodes.marker hreloaded hfailed herrors

theorem Ends.live {way : Way} {r : Except Error WarmUpResult} (h : Ends x s t way r)
    (hcodes : CodesSteadily x s.memory) {key : String}
    (hkey : way = .all → key ≠ Marker.warmedUp) :
    (way.Accepts x s key → ∃ v, x.rows key = some v ∧ Given s t key v) ∧
      (¬ way.Accepts x s key → Kept s t key) := by
  cases h with
  | skipped hway hwarm hkept =>
    exact ⟨fun ⟨hcold, _⟩ => absurd hcold (not_cold hway hwarm), fun _ => hkept key⟩
  | unlisted _ hkeys hkept =>
    refine ⟨fun ⟨_, keys, hkeys', _⟩ => ?_, fun _ => hkept key⟩
    cases hkeys.symm.trans hkeys'
  | @loaded keys each result u _ hcold hkeys hwarmed hnow hmarks =>
    have hlive := hmarks.live hkey
    refine ⟨fun ⟨_, keys', hkeys', part, hpart, haccepts⟩ => ?_, fun hnot => ?_⟩
    · obtain ⟨⟩ := hkeys.symm.trans hkeys'
      obtain ⟨fates, hfates, hyields⟩ := exists_of_forall₂ hwarmed.yields hpart
      obtain ⟨v, b, hstored⟩ := Yields.stored hyields (hcodes.rows key) haccepts
      obtain ⟨hrow, -, hgiven⟩ :=
        hwarmed.given key v b (List.mem_flatten.2 ⟨fates, hfates, hstored⟩)
      refine ⟨v, hrow, ?_⟩
      rwa [Given, hlive, hnow]
    · rw [Kept, hlive, hnow]
      refine hwarmed.kept key fun v b hmem => hnot ⟨hcold, keys, hkeys, ?_⟩
      exact (accepts_of_yields hwarmed.yields hmem).2.2

/-- **Warm-ups do not depend on concurrency.** Before a source that does not change, a warm-up comes to
an end however many chunks are loaded at a time and however long the source takes for each of them
(`Supply.answers`), and it ends as the source and the settings say (`Ends`), under any mode of
reloads. Two of them report the same up to the order of the errors, and give the same values to the
keys that are accepted; the others are left alone. All this is so except for the marker of a warm
cache, which `warmUp` sets afterwards, and as long as drawn numbers do not decide which values can be
encoded. -/
theorem warmUp_confluent (s : Scene V) (hs : s.world.Steady) (x : Supply V) (way : Way) :
    (∀ width delay, ∃ log r t, way.act.outcome.Course (s.inParallel width) log r t ∧
      Program.Heeds (x.answers s delay) [] log ∧ x.Told s.memory.reloadSource log) ∧
    (∀ width log r t, way.act.outcome.Course (s.inParallel width) log r t →
      x.Told s.memory.reloadSource log → Ends x s t way r) ∧
    (CodesSteadily x s.memory → ∀ width width' log log' r r' t t',
      way.act.outcome.Course (s.inParallel width) log r t →
      way.act.outcome.Course (s.inParallel width') log' r' t' →
      x.Told s.memory.reloadSource log → x.Told s.memory.reloadSource log' →
      Alike r r' ∧ ∀ key, (way = .all → key ≠ Marker.warmedUp) →
        (way.Accepts x s key → ∃ v, x.rows key = some v ∧ Given s t key v ∧ Given s t' key v) ∧
        (¬ way.Accepts x s key → Kept s t key ∧ Kept s t' key)) := by
  have hends : ∀ width log r t, way.act.outcome.Course (s.inParallel width) log r t →
      x.Told s.memory.reloadSource log → Ends x s t way r := fun width log r t h htold =>
    (ends_of_course (s := s.inParallel width) hs h htold).alone
  refine ⟨fun width delay => ?_, hends, ?_⟩
  · obtain ⟨log, r, t, hcourse, hheeds⟩ :=
      way.act.outcome.exists_course (x.answers s delay) (s.inParallel width) []
    exact ⟨log, r, t, hcourse, hheeds, told_of_heeds hheeds _⟩
  · intro hcodes width width' log log' r r' t t' h h' htold htold'
    have hend := hends width log r t h htold
    have hend' := hends width' log' r' t' h' htold'
    refine ⟨hend.alike hend' hcodes, fun key hkey => ?_⟩
    obtain ⟨hgiven, hkept⟩ := hend.live hcodes hkey
    obtain ⟨hgiven', hkept'⟩ := hend'.live hcodes hkey
    refine ⟨fun haccepts => ?_, fun hnot => ⟨hkept hnot, hkept' hnot⟩⟩
    obtain ⟨v, hrow, hv⟩ := hgiven haccepts
    obtain ⟨v', hrow', hv'⟩ := hgiven' haccepts
    obtain rfl : v = v' := Option.some.inj (hrow.symm.trans hrow')
    exact ⟨v, hrow, hv, hv'⟩

/-! ## A source with two rows -/

/-- A source has two rows, rejects one of them, and cannot load a third key. -/
def pairSupply : Supply UInt8 where
  listed := .ok ["a", "b", "x"]
  fault part := if "x" ∈ part then some (.source "down") else none
  rows := pairRows.get?
  verdict := pairVerdict

/-- An engine that loads one key at a time, checks the lengths of payloads and compresses long ones,
before `t`. -/
def sealingScene (t : Transformer) : Scene UInt8 :=
  ⟨.start default,
    { Client.byteMemory with
      reload := { batchSize := 1, mode := .lazy }
      transformers :=
        [.validation (some 4096) none Transformer.validationPriority, .usualCompression, t] }⟩

/-- Each request takes less time than the one before. -/
def hurrying (before : List (Exchange UInt8)) : Nat := 100 - before.length

/-- Three chunks at a time, the last of which is loaded first, come to the same as one at a time. -/
theorem warmUp_confluent_sealing : ∃ t log log' r r' u u',
    Transformer.encryption (List.replicate 32 0) Transformer.encryptionPriority = .ok t ∧
    (sealingScene t).world.Steady ∧
    warmUp.outcome.Course ((sealingScene t).inParallel 1) log r u ∧
    warmUp.outcome.Course ((sealingScene t).inParallel 3) log' r' u' ∧
    Program.Heeds (pairSupply.answers (sealingScene t) hurrying) [] log' ∧ Alike r r' ∧
    Given (sealingScene t) u "a" 1 ∧ Given (sealingScene t) u' "a" 1 ∧
    Kept (sealingScene t) u "b" ∧ Kept (sealingScene t) u' "b" := by
  obtain ⟨t, ht⟩ : ∃ t, Transformer.encryption (List.replicate 32 0)
      Transformer.encryptionPriority = .ok t := ⟨_, if_pos (by decide)⟩
  have hs : (sealingScene t).world.Steady := fun _ => rfl
  obtain ⟨hexists, -, hsame⟩ := warmUp_confluent (sealingScene t) hs pairSupply .all
  obtain ⟨log, r, u, hcourse, -, htold⟩ := hexists 1 fun _ => 0
  obtain ⟨log', r', u', hcourse', hheeds, htold'⟩ := hexists 3 hurrying
  have hsteady : (sealingScene t).memory.transformers.Steady :=
    ((Transformers.steady_encryption ht).cons (Transformer.ignoresNumber_compression _ _ _)).cons
      (Transformer.ignoresNumber_validation _ _ _)
  obtain ⟨halike, hkeys⟩ := hsame (codesSteadily_of_steady hsteady _)
    1 3 log log' r r' u u' hcourse hcourse' htold htold'
  have haccepts : Way.all.Accepts pairSupply (sealingScene t) "a" := by
    obtain rfl := Except.ok.inj ht
    refine ⟨fun _ => rfl, ["a", "b", "x"], rfl, ["a"], by decide +kernel, rfl, by decide, 1, ?_, rfl,
      0, _, rfl⟩
    decide +kernel
  have hrejects : ¬ Way.all.Accepts pairSupply (sealingScene t) "b" := by
    rintro ⟨-, keys, -, part, -, -, -, v, hrow, hverdict, -⟩
    have hrow' : pairSupply.rows "b" = some 2 := by decide +kernel
    obtain rfl : 2 = v := Option.some.inj (hrow'.symm.trans hrow)
    cases hverdict
  obtain ⟨v, hrow, hv, hv'⟩ := (hkeys "a" fun _ => by decide).1 haccepts
  obtain ⟨hkept, hkept'⟩ := (hkeys "b" fun _ => by decide).2 hrejects
  have hrow' : pairSupply.rows "a" = some 1 := by decide +kernel
  obtain rfl : 1 = v := Option.some.inj (hrow'.symm.trans hrow)
  exact ⟨t, log, log', r, r', u, u', ht, hs, hcourse, hcourse', hheeds, halike, hv, hv', hkept,
    hkept'⟩

/-! ## Where warm-ups differ -/

/-- A source with a row under the key of the marker. -/
def markerSupply : Supply UInt8 where
  listed := .ok [Marker.warmedUp]
  fault _ := none
  rows := (KeyMap.empty.insert Marker.warmedUp 5).get?
  verdict _ := .ok ()

def plainScene : Scene UInt8 := ⟨.start default, Client.byteMemory⟩

/-- Two rows, both accepted. -/
def easySupply : Supply UInt8 :=
  { pairSupply with verdict := fun _ => .ok () }

/-- A step that puts its number in front of a payload. -/
def salt : Transformer where
  name := "salt"
  priority := Transformer.encryptionPriority
  applies _ _ := true
  transform fresh _ b := .ok (UInt8.ofNat fresh :: b)
  restore _ b := .ok (b.drop 1)

/-- An engine that loads one key at a time and lets no salted payload pass that begins with a zero. -/
def saltyScene : Scene UInt8 :=
  ⟨.start default,
    { Client.byteMemory with
      reload := { batchSize := 1 }
      transformers := [salt, .validation none (some fun _ b => b.head? != some 0) 30] }⟩

/-- The entry holds more than one byte. -/
def isLonger (e : Entry) : Bool :=
  match e.value with
  | .bytes b => 1 < b.length
  | _ => false

theorem any_isLonger (v : UInt8) (life : Option Nat) (time : Nat) (p : Entry → Bool) :
    ((some (Entry.born (.bytes [v]) life time)).filter p).any isLonger = false := by
  rw [Option.any_filter]
  exact Bool.and_false _

/-- A warm-up does not give every key that it accepts the value of its row, since it sets the marker
afterwards; and where a validation looks at the numbers of others, it does matter how many chunks are
loaded at a time. -/
theorem not_warmUp_confluent :
    (¬ ∀ (s t : Scene UInt8) (x : Supply UInt8) (log : List (Exchange UInt8))
      (r : Except Error WarmUpResult) (key : String), s.world.Steady →
      warmUp.outcome.Course s log r t → x.Told s.memory.reloadSource log →
      Way.all.Accepts x s key → ∃ v, x.rows key = some v ∧ Given s t key v) ∧
    ¬ ∀ (s t t' : Scene UInt8) (x : Supply UInt8) (keys : List String) (width width' : Nat)
      (log log' : List (Exchange UInt8)) (r r' : Except Error WarmUpResult), s.world.Steady →
      (warmUpKeys keys).outcome.Course (s.inParallel width) log r t →
      (warmUpKeys keys).outcome.Course (s.inParallel width') log' r' t' →
      x.Told s.memory.reloadSource log → x.Told s.memory.reloadSource log' → Alike r r' := by
  constructor
  · intro hall
    have hrun := Program.course_runBefore (markerSupply.answers plainScene hurrying)
      warmUp.outcome plainScene []
    have hlonger : ((warmUp.outcome.runBefore (markerSupply.answers plainScene hurrying) plainScene
        []).2.2.live? Marker.warmedUp).any isLonger = true := by
      decide +kernel
    generalize warmUp.outcome.runBefore (markerSupply.answers plainScene hurrying) plainScene [] =
      run at hrun hlonger
    obtain ⟨log, r, t⟩ := run
    have haccepts : Way.all.Accepts markerSupply plainScene Marker.warmedUp :=
      ⟨fun _ => rfl, [Marker.warmedUp], rfl, [Marker.warmedUp], by decide +kernel, rfl, by decide, 5,
        by decide +kernel, rfl, 0, [5], rfl⟩
    obtain ⟨v, hrow, fresh, b, time, hcoded, -, -, hlive⟩ := hall plainScene t markerSupply log r
      Marker.warmedUp (fun _ => rfl) hrun.1 (told_of_heeds hrun.2 _) haccepts
    have hrow' : markerSupply.rows Marker.warmedUp = some 5 := by decide +kernel
    obtain rfl : 5 = v := Option.some.inj (hrow'.symm.trans hrow)
    have hcoded' : Client.coded plainScene.memory plainScene.memory.format fresh Marker.warmedUp 5 =
        .ok [5] := rfl
    obtain rfl : [5] = b := Except.ok.inj (hcoded'.symm.trans hcoded)
    rw [hlive, any_isLonger] at hlonger
    cases hlonger
  · intro hall
    obtain ⟨hcourse, hheeds⟩ := Program.course_runBefore (easySupply.answers saltyScene hurrying)
      (warmUpKeys ["a", "b"]).outcome (saltyScene.inParallel 1) []
    obtain ⟨hcourse', hheeds'⟩ := Program.course_runBefore (easySupply.answers saltyScene hurrying)
      (warmUpKeys ["a", "b"]).outcome (saltyScene.inParallel 2) []
    have halike := hall saltyScene _ _ easySupply ["a", "b"] 1 2 _ _ _ _ (fun _ => rfl) hcourse
      hcourse' (told_of_heeds hheeds _) (told_of_heeds hheeds' _)
    have hfirst : ((warmUpKeys ["a", "b"]).outcome.runBefore
        (easySupply.answers saltyScene hurrying) (saltyScene.inParallel 1) []).2.1.toOption.map
        (fun r => r.result.errors.map Prod.fst) = some ["a"] := by decide +kernel
    have hsecond : ((warmUpKeys ["a", "b"]).outcome.runBefore
        (easySupply.answers saltyScene hurrying) (saltyScene.inParallel 2) []).2.1.toOption.map
        (fun r => r.result.errors.map Prod.fst) = some ["b"] := by decide +kernel
    generalize ((warmUpKeys ["a", "b"]).outcome.runBefore
      (easySupply.answers saltyScene hurrying) (saltyScene.inParallel 1) []).2.1 = r at *
    generalize ((warmUpKeys ["a", "b"]).outcome.runBefore
      (easySupply.answers saltyScene hurrying) (saltyScene.inParallel 2) []).2.1 = r' at *
    cases halike with
    | failed e => cases hfirst
    | @done performed result result' _ _ herrors =>
      have hnames : result.errors.map Prod.fst = ["a"] := Option.some.inj hfirst
      have hnames' : result'.errors.map Prod.fst = ["b"] := Option.some.inj hsecond
      have hperm := herrors.map Prod.fst
      rw [hnames, hnames'] at hperm
      exact absurd hperm (by decide)

end WarmUp
end CacheLayer
