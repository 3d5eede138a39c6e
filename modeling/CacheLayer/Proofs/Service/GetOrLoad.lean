/-
The two ways to read a key through the cache: by the strategy in force, which loads a missing key and
hands on what it has loaded, and by a reload, after which the key is read back from the cache and, if
nothing was stored or it has died at once, loaded a second time. Where the source gives its values
and they can be stored and read back, both give the same answer (`answer`), whatever the mode of
reloads is and however long reloaded entries live.

Main statement: `getOrLoad_agrees`.
-/
import CacheLayer.Proofs.Strategy.Reading
import CacheLayer.Service

namespace CacheLayer

variable {V α : Type} {s t u : Scene V} {key : String}

/-! ## A source that gives its values -/

/-- When the source is asked for the key, it gives the value that it has, if it has one. -/
structure Site.Offers (site : Site V) (key : String) (v? : Option V) : Prop where
  unscripted : site.scripts .loadOne = []
  loads : site.source.load key = .ok v?

/-- The site after it has been asked for one key once more. -/
def Site.askedOnce (site : Site V) : Site V :=
  { site with source := { site.source with counts := site.source.counts.count .loadOne } }

theorem Site.Offers.serve {site : Site V} {v? : Option V} (h : site.Offers key v?) :
    site.serve (.loadOne key) = (.ok v?, site.askedOnce) := by
  have hload : Source.load { site.source with counts := site.source.counts.count .loadOne } key =
      .ok v? := h.loads
  simp [Site.serve, nextFault, Source.Call.method, h.unscripted, Source.Call.run, Source.Call.serve,
    hload, Site.askedOnce]

/-- Between the scenes sources have been asked for keys, and otherwise nothing has happened. -/
structure Scene.Loads (s t : Scene V) : Prop where
  idles : s.Idles t
  drawn : t.world.drawn = s.world.drawn
  offers : ∀ id key v?, (s.world.sites id).Offers key v? → (t.world.sites id).Offers key v?
  judge : ∀ id v, (t.world.sites id).source.judge v = (s.world.sites id).source.judge v

/-- A load of a key that the source offers. -/
theorem Action.run_load {id : SourceId} {v? : Option V} (h : (s.world.sites id).Offers key v?) :
    ∃ t, (request id (.loadOne key)).outcome.run s = (.ok v?, t) ∧ s.Loads t := by
  have hserve := h.serve
  have hreply : ((s.world.later ((s.world.sites id).latency .loadOne)).request id
      (.loadOne key)).1 = .ok v? := congrArg Prod.fst hserve
  rw [run_request]
  refine ⟨_, Prod.ext hreply rfl, ⟨rfl, rfl, rfl, ?_⟩, rfl, ?_, ?_⟩
  · exact Nat.le_add_right _ _
  · intro id' key' v?' hoffers
    change (if id' = id then ((s.world.sites id).serve (.loadOne key)).2
      else s.world.sites id').Offers key' v?'
    split
    · next hid =>
      rw [hserve]
      subst hid
      exact ⟨hoffers.unscripted, hoffers.loads⟩
    · exact hoffers
  · intro id' v
    change (if id' = id then ((s.world.sites id).serve (.loadOne key)).2
      else s.world.sites id').source.judge v = _
    split
    · next hid =>
      rw [hserve, hid]
      rfl
    · rfl

/-! ## Reading -/

/-- What a reader of a key gets, in view of the cache and of what the source has. -/
def answer (s : Scene V) (key : String) (v? : Option V) : Except Error V :=
  match s.live? key, v? with
  | some e, _ => Client.found s.memory s.memory.format key (some e)
  | none, some v => .ok v
  | none, none => .error (.notFound key)

namespace Strategy

/-- A strategy gives the answer. -/
theorem run_read_answer {z : Serializer V} (hs : s.world.Steady)
    (hformat : s.memory.format = .ofSerializer z) {v? : Option V}
    (hoffers : (s.world.sites .main).Offers key v?) :
    ((read key).outcome.run s).1 = answer s key v? := by
  have hlook := Client.run_get_found (hs .get) s.memory.format key
  unfold answer
  cases hlive : s.live? key with
  | some e =>
    rw [hlive] at hlook
    cases hfound : Client.found s.memory s.memory.format key (some e) with
    | ok v => simp [read, hlook, hfound, Except.map]
    | error error =>
      have hreal : error.isMiss = false := Client.not_isMiss_found (hformat ▸ hfound)
      simp [read, hlook, hfound, hreal, fail]
  | none =>
    rw [hlive] at hlook
    obtain ⟨t, hload, -⟩ := Action.run_load (s := s.withStore (s.world.store.purge s.world.now key))
      hoffers
    cases v? <;> simp [read, load, hlook, hload, Client.found, Error.isMiss, Except.map]

end Strategy

/-! ## Reloading -/

namespace Reload

theorem run_retry_ok {c : ReloadConfig} {a : Action V α} {x : α}
    (h : a.outcome.run s = (.ok x, t)) : (retry c a).outcome.run s = (.ok x, t) := by
  have htimes (more : Nat) : (retryTimes c.retryDelay a more).outcome.run s = (.ok x, t) := by
    cases more with
    | zero => exact h
    | succ more => simp [retryTimes, h]
  rw [retry, Action.run_always_bind, attempts, Program.run_word]
  exact htimes _

theorem run_runHooks_nil (phase : HookPhase V) (h : s.memory.hooks = []) :
    (runHooks phase).outcome.run s = (.ok (), s) := by
  simp [runHooks, h, Hooks.run]

/-- The memory after a reload. -/
def reloaded (m : Memory V) (ok : Bool) (elapsed : Nat) : Memory V :=
  { m with reloadStats := m.reloadStats.reload ok elapsed }

/-- Between the scenes a key has been brought up to date: if it is live now, it holds the value. -/
structure Renews (s t : Scene V) (key : String) (v : V) : Prop where
  steady : t.world.Steady
  offers : ∀ id key v?, (s.world.sites id).Offers key v? → (t.world.sites id).Offers key v?
  holds : ∀ e, t.live? key = some e → Client.Holds s.memory key e v

/-- A key that the source does not have cannot be reloaded. -/
theorem run_reload_missing (hhooks : s.memory.hooks = [])
    (hoffers : (s.world.sites s.memory.reloadSource).Offers key none) :
    ∃ t elapsed, (reload key).outcome.run s = (.error (.notFound key), t) ∧
      t.memory = reloaded s.memory false elapsed := by
  obtain ⟨t, hload, hloads⟩ := Action.run_load hoffers
  have hretry := run_retry_ok (c := s.memory.reload) hload
  have hsteps : (reloadSteps key).outcome.run s = (.error (.notFound key), t) := by
    simp [reloadSteps, run_runHooks_nil _ hhooks, hretry]
  refine ⟨{ t with memory := reloaded s.memory false ((t.world.now - s.world.now) * 1000000) }, _, ?_, rfl⟩
  simp [reload, hsteps, record, hloads.idles.memory, reloaded, run_runHooks_nil, hhooks]

/-- A value that can be encoded is stored, and can be read back as long as it is there. -/
theorem run_set_codes (hs : s.world.Steady) {v : V} (hcodes : Client.Codes s.memory key v)
    (life : Option Nat) :
    ∃ t, (Client.set s.memory.format key v life).outcome.run s = (.ok (), t) ∧
      t.memory = s.memory ∧ t.world.sites = s.world.sites ∧ t.world.Steady ∧
      ∀ e, t.live? key = some e → Client.Holds s.memory key e v := by
  obtain ⟨b, hcoded, hdecoded⟩ := hcodes s.world.drawn
  have hsteady : World.Steady { s.world with
      drawn := Client.freshAfter s.memory s.memory.format s.world.drawn v } := hs
  rw [Client.run_set, hcoded]
  simp only [hsteady.command]
  refine ⟨_, rfl, rfl, rfl, hs, fun e he => ⟨b, ?_, hdecoded⟩⟩
  have hborn := (Store.entries_set_self s.world.store s.world.now key b life).symm.trans
    (Store.get?_of_live? he)
  cases hborn
  rfl

/-- The steps of a reload of a value that is accepted: it is stored, unless it is only to be
checked. -/
theorem run_reloadSteps_found (hs : s.world.Steady) (hhooks : s.memory.hooks = [])
    (hgone : s.live? key = none) {v : V}
    (hoffers : (s.world.sites s.memory.reloadSource).Offers key (some v))
    (hvalid : (s.world.sites s.memory.reloadSource).source.judge v = .ok ())
    (hcodes : Client.Codes s.memory key v) :
    ∃ t, (reloadSteps key).outcome.run s = (.ok (), t) ∧ t.memory = s.memory ∧
      Renews s t key v := by
  obtain ⟨t, hload, hloads⟩ := Action.run_load hoffers
  have hretry := run_retry_ok (c := s.memory.reload) hload
  have hsteady := hloads.idles.steady hs
  have hmemory := hloads.idles.memory
  have hjudge : (Action.judge s.memory.reloadSource v).outcome.run t = (.ok (), t) :=
    Prod.ext ((hloads.judge _ v).trans hvalid) rfl
  by_cases hmode : s.memory.reload.mode = .lazy
  · refine ⟨t, ?_, hmemory, hsteady, hloads.offers, fun e he => ?_⟩
    · simp [reloadSteps, run_runHooks_nil, hhooks, hretry, hjudge, hmode, hmemory]
    · rw [hloads.idles.live?, hgone] at he
      cases he
  · obtain ⟨u, hset, hmemory', hsites, hsteady', hholds⟩ :=
      run_set_codes hsteady (hmemory ▸ hcodes) s.memory.reload.life
    rw [hmemory] at hset hmemory' hholds
    refine ⟨u, ?_, hmemory', hsteady', fun id key' v? hs => ?_, hholds⟩
    · simp [reloadSteps, run_runHooks_nil, hhooks, hretry, hjudge, hmode, hset, hmemory']
    · rw [hsites]
      exact hloads.offers id key' v? hs

/-- A value that is accepted is reloaded. -/
theorem run_reload_found (hs : s.world.Steady) (hhooks : s.memory.hooks = [])
    (hgone : s.live? key = none) {v : V}
    (hoffers : (s.world.sites s.memory.reloadSource).Offers key (some v))
    (hvalid : (s.world.sites s.memory.reloadSource).source.judge v = .ok ())
    (hcodes : Client.Codes s.memory key v) :
    ∃ t elapsed, (reload key).outcome.run s = (.ok (), t) ∧
      t.memory = reloaded s.memory true elapsed ∧ Renews s t key v := by
  obtain ⟨t, hsteps, hmemory, hrenews⟩ :=
    run_reloadSteps_found hs hhooks hgone hoffers hvalid hcodes
  refine ⟨{ t with memory := reloaded s.memory true ((t.world.now - s.world.now) * 1000000) }, _, ?_, rfl,
    hrenews.steady, hrenews.offers, hrenews.holds⟩
  simp [reload, hsteps, record, hmemory, reloaded]

end Reload

/-! ## Reading by way of a reload -/

namespace Service

/-- The scene after the cache was asked for a key, which is counted. -/
def accessed (s : Scene V) (hit : Bool) : Scene V :=
  { s with memory := { s.memory with reloadStats := s.memory.reloadStats.access hit } }

/-- What a live key holds is the answer; it counts as a hit if it can be decoded. -/
theorem run_getOrLoad_live {z : Serializer V} (hs : s.world.Steady)
    (hformat : s.memory.format = .ofSerializer z) {e : Entry} (hlive : s.live? key = some e) :
    (getOrLoad key).outcome.run s = (Client.found s.memory s.memory.format key (some e),
      if (Client.found s.memory s.memory.format key (some e)).toBool then accessed s true else s) := by
  have hlook := Client.run_get_found (hs .get) s.memory.format key
  have hsame : s.withStore (s.world.store.purge s.world.now key) = s :=
    congrArg s.withStore (Store.purge_eq_self hlive)
  rw [hlive, hsame] at hlook
  cases hfound : Client.found s.memory s.memory.format key (some e) with
  | ok v =>
    simp [getOrLoad, hlook, hfound, Except.map, Except.toBool, accessed]
  | error error =>
    have hreal : error.isMiss = false := Client.not_isMiss_found (hformat ▸ hfound)
    simp [getOrLoad, hlook, hfound, hreal, Except.toBool]

/-- A key that is not live is reloaded and read back, and otherwise loaded once more. -/
theorem run_getOrLoad_gone (hs : s.world.Steady) (hlazy : s.memory.reload.lazyLoading = true)
    (hhooks : s.memory.hooks = []) (hgone : s.live? key = none) {v? : Option V}
    (hoffers : (s.world.sites s.memory.reloadSource).Offers key v?)
    (hvalid : ∀ v ∈ v?, (s.world.sites s.memory.reloadSource).source.judge v = .ok ())
    (hcodes : ∀ v ∈ v?, Client.Codes s.memory key v) :
    ∃ t, (getOrLoad key).outcome.run s = (answer s key v?, t) ∧
      t.memory.reloadStats.hits = s.memory.reloadStats.hits ∧
      t.memory.reloadStats.misses = s.memory.reloadStats.misses + 1 := by
  have hlook := Client.run_get_found (hs .get) s.memory.format key
  rw [hgone] at hlook
  let u := accessed (s.withStore (s.world.store.purge s.world.now key)) false
  have hgone' : u.live? key = none :=
    (Store.live?_purge _ _ _ (Nat.le_refl _) key key).trans hgone
  cases v? with
  | none =>
    obtain ⟨t, elapsed, hreload, hmemory⟩ := Reload.run_reload_missing (s := u) hhooks hoffers
    refine ⟨t, ?_, ?_, ?_⟩
    · simp only [u, accessed] at hreload
      simp [getOrLoad, hlook, Client.found, Error.isMiss, hlazy, hreload, answer, hgone]
    · rw [hmemory]
      rfl
    · rw [hmemory]
      rfl
  | some v =>
    obtain ⟨t, elapsed, hreload, hmemory, hrenews⟩ := Reload.run_reload_found (s := u) hs hhooks hgone'
      hoffers (hvalid v rfl) (hcodes v rfl)
    have hback := Client.run_get_found (hrenews.steady .get) s.memory.format key
    have hmisses : t.memory.reloadStats.hits = s.memory.reloadStats.hits ∧
        t.memory.reloadStats.misses = s.memory.reloadStats.misses + 1 := by
      rw [hmemory]
      exact ⟨rfl, rfl⟩
    simp only [u, accessed] at hreload
    cases hkept : t.live? key with
    | none =>
      rw [hkept] at hback
      obtain ⟨t', hload, hloads⟩ := Action.run_load
        (s := t.withStore (t.world.store.purge t.world.now key)) (hrenews.offers _ _ _ hoffers)
      refine ⟨t', ?_, ?_⟩
      · simp [getOrLoad, hlook, Client.found, Error.isMiss, hlazy, hreload, hback, hload, answer, hgone]
      · rw [hloads.idles.memory]
        exact hmisses
    | some e =>
      obtain ⟨b, hbytes, hdecoded⟩ := hrenews.holds e hkept
      have hfound : Client.found t.memory s.memory.format key (some e) = .ok v := by
        simp only [Client.found, hbytes, hmemory]
        exact hdecoded
      rw [hkept, hfound] at hback
      refine ⟨t.withStore (t.world.store.purge t.world.now key), ?_, hmisses⟩
      simp [getOrLoad, hlook, Client.found, Error.isMiss, hlazy, hreload, hback, answer, hgone]

/-- Without lazy loading a missing key is a miss, and nobody is asked for it. -/
theorem course_getOrLoad_shut {log : List (Exchange V)} {r : Except Error V}
    (hget : s.world.scripts .get = []) (hlazy : s.memory.reload.lazyLoading = false)
    (hgone : s.live? key = none) (h : (getOrLoad key).outcome.Course s log r t) :
    r = .error (.cacheMiss key) ∧ asked log = [] ∧
      t = accessed (s.withStore (s.world.store.purge s.world.now key)) false := by
  obtain ⟨log₁, hready, rfl⟩ := Action.course_memory_then h
  obtain ⟨log₂, result, s₁, log₃, hlook, hrest, rfl⟩ := Action.course_always_then hready
  obtain ⟨rfl, rfl, hnone⟩ := Client.course_get hget hlook
  rw [hgone] at hrest
  simp only [Client.found, Error.isMiss, hlazy, Bool.not_true, Bool.not_false, Bool.false_eq_true,
    if_false, if_true] at hrest
  obtain ⟨log₄, ⟨⟩, s₂, log₅, hcounted, hthrow, rfl⟩ := Action.course_always_then hrest
  obtain ⟨-, hsilent⟩ := hcounted.of_local (Program.each_bind (Program.each_lift rfl) fun _ =>
    Program.each_pure _)
  obtain rfl := hcounted.of_change
  have hend : Program.Course (pure (.error (.cacheMiss key)) : Program V (Except Error V)) _ log₅ r t :=
    hthrow
  obtain ⟨rfl, rfl, rfl⟩ := hend.of_pure
  refine ⟨rfl, ?_, rfl⟩
  change asked (log₂ ++ (log₄ ++ [])) = []
  rw [List.append_nil, asked_append, hnone, hsilent]
  rfl

/-- The two sources that a key can be loaded from give the same value for it, if any, and it can be
reloaded and read back. -/
structure Supplies (s : Scene V) (key : String) (v? : Option V) : Prop where
  main : (s.world.sites .main).Offers key v?
  reloads : (s.world.sites s.memory.reloadSource).Offers key v?
  valid : ∀ v ∈ v?, (s.world.sites s.memory.reloadSource).source.judge v = .ok ()
  codes : ∀ v ∈ v?, Client.Codes s.memory key v

/-- **Both ways to read a key agree.** With lazy loading, and where the source gives its value and
that can be read back, a read by way of a reload gives what the strategy in force reads: the answer,
in every mode of reloads and for every life of reloaded entries. It counts as one hit if the key is
live and can be decoded, as one miss if it is not live, and otherwise not at all. Without lazy
loading a key that is not live is a miss: no source is asked, and nothing else happens. -/
theorem getOrLoad_agrees (s : Scene V) (key : String) {z : Serializer V} (hs : s.world.Steady)
    (hformat : s.memory.format = .ofSerializer z) :
    (s.memory.reload.lazyLoading = true → s.memory.hooks = [] → ∀ v?, Supplies s key v? →
      ∃ t, (getOrLoad key).outcome.run s = (((Strategy.read key).outcome.run s).1, t) ∧
        ((Strategy.read key).outcome.run s).1 = answer s key v? ∧
        t.memory.reloadStats.hits = s.memory.reloadStats.hits +
          (if (Client.found s.memory s.memory.format key (s.live? key)).toBool then 1 else 0) ∧
        t.memory.reloadStats.misses = s.memory.reloadStats.misses +
          (if (s.live? key).isNone then 1 else 0)) ∧
    (s.memory.reload.lazyLoading = false → s.live? key = none →
      ∀ log r t, (getOrLoad key).outcome.Course s log r t →
        r = .error (.cacheMiss key) ∧ asked log = [] ∧
          t = accessed (s.withStore (s.world.store.purge s.world.now key)) false) := by
  refine ⟨fun hlazy hhooks v? hsupplies => ?_, fun hlazy hgone log r t h => ?_⟩
  · have hread := Strategy.run_read_answer hs hformat hsupplies.main
    rw [hread]
    cases hlive : s.live? key with
    | some e =>
      have hrun := run_getOrLoad_live hs hformat hlive
      have hanswer : answer s key v? = Client.found s.memory s.memory.format key (some e) := by
        simp only [answer, hlive]
      rw [hanswer]
      refine ⟨_, hrun, rfl, ?_, ?_⟩
      · cases (Client.found s.memory s.memory.format key (some e)).toBool <;> rfl
      · cases (Client.found s.memory s.memory.format key (some e)).toBool <;> rfl
    | none =>
      obtain ⟨t, hrun, hhits, hmisses⟩ := run_getOrLoad_gone hs hlazy hhooks hlive hsupplies.reloads
        hsupplies.valid hsupplies.codes
      exact ⟨t, hrun, rfl, hhits, hmisses⟩
  · exact course_getOrLoad_shut (hs .get) hlazy hgone h

/-- A key that is missing in the cache, and a reloader whose entries die at once. -/
def fleeting : Scene UInt8 where
  world := World.start (.ofRows (KeyMap.empty.insert "k" 2))
  memory := { Client.byteMemory with reload := { life := some 0 } }

theorem supplies_fleeting : Supplies fleeting "k" (some 2) where
  main := ⟨rfl, rfl⟩
  reloads := ⟨rfl, rfl⟩
  valid _ _ := rfl
  codes v _ := Client.codes_byte rfl rfl "k" v

theorem getOrLoad_agrees_fleeting :
    fleeting.world.Steady ∧ fleeting.memory.format = .ofSerializer Client.byteSerializer ∧
    fleeting.memory.reload.lazyLoading = true ∧ fleeting.memory.hooks = [] ∧
    ((getOrLoad "k").outcome.run fleeting).1 = .ok 2 := by
  have hs : fleeting.world.Steady := fun _ => rfl
  have hagrees := (getOrLoad_agrees fleeting "k" hs Client.byteFormat_eq).1 rfl rfl (some 2)
    supplies_fleeting
  obtain ⟨t, hrun, hanswer, -⟩ := hagrees
  refine ⟨hs, Client.byteFormat_eq, rfl, rfl, ?_⟩
  rw [hrun, hanswer]
  rfl

end Service
end CacheLayer
