/-
Reloads of many keys. The keys are loaded in chunks, one leg each: the attempts at loading the chunk,
the fates of its keys, and when their values were stored. The legs account for all occurrences in
order (`Accounts`), and the result, what the store holds and what was said to the source are read off
them (`Report`).

Main statement: `reloadBatch_accounts`.
-/
import CacheLayer.Proofs.Reload.Sorting

namespace CacheLayer

variable {V α : Type} {s t u : Scene V} {log log' : List (Exchange V)}

namespace Reload

/-! ## Legs -/

/-- The batch that sets keys, unless there are none. -/
def sent (time : Nat) (puts : List (String × Bytes)) (life : Option Nat) : List (Event V) :=
  if puts.isEmpty then [] else [.sent time (.execute (puts.map fun p => .set p.1 p.2 life) false)]

/-- What becomes of a chunk of keys. -/
structure Leg (V : Type) where
  /-- When the values were stored. -/
  time : Nat
  /-- The answers to the attempts at loading the chunk. -/
  answers : List (Except Error (KeyMap V))
  fates : Fates V

namespace Leg

def keys (leg : Leg V) : List String := leg.fates.map Prod.fst

/-- The entries that the batch makes. -/
def given (leg : Leg V) (life : Option Nat) : List (String × Entry) :=
  leg.fates.puts.map fun p => (p.1, .born (.bytes p.2) life leg.time)

/-- What is said to the source and to the store: the attempts at loading the chunk, a question for
each value, and one batch. -/
def events (leg : Leg V) (m : Memory V) : List (Event V) :=
  leg.answers.map (.asked m.reloadSource (.loadBatch leg.keys)) ++
    leg.fates.verdicts m.reloadSource ++ sent leg.time leg.fates.puts m.reload.life

/-- The fates of the keys of a chunk follow from the answer to the last attempt: they are all lost if
that has failed. -/
inductive Fair (m : Memory V) : Leg V → Prop where
  | lost {answers : List (Except Error (KeyMap V))} {e : Error} (time : Nat) (keys : List String)
      (h : Tried (retries m.reload) answers (.error e)) :
      Fair m ⟨time, answers, .allLost keys e⟩
  | loaded {answers : List (Except Error (KeyMap V))} {got : KeyMap V} {fates : Fates V} (time : Nat)
      (h : Tried (retries m.reload) answers (.ok got))
      (hsorted : Fates.Sorted m (m.reload.mode == .lazy) got fates) :
      Fair m ⟨time, answers, fates⟩

end Leg

/-- The legs tell what has happened between the scenes: what was said, and what the keys hold. -/
structure Accounts (s t : Scene V) (legs : List (Leg V)) (log : List (Exchange V)) : Prop where
  fair : ∀ leg ∈ legs, leg.Fair s.memory
  times : ∀ leg ∈ legs, s.world.now ≤ leg.time ∧ leg.time ≤ t.world.now
  said : said log = legs.flatMap (·.events s.memory)
  memory : t.memory = s.memory
  scripts : t.world.scripts = s.world.scripts
  now : s.world.now ≤ t.world.now
  live : ∀ key, t.live? key =
    ((Store.lastGiven (legs.flatMap (·.given s.memory.reload.life)) key).or (s.live? key)).filter
      fun e => !e.isDead t.world.now

namespace Accounts

theorem none (s : Scene V) : Accounts s s [] [] where
  fair := by simp
  times := by simp
  said := rfl
  memory := rfl
  scripts := rfl
  now := Nat.le_refl _
  live key := Store.live?_later s.world.store (Nat.le_refl _) key

theorem steady {legs : List (Leg V)} (h : Accounts s t legs log) (hs : s.world.Steady) :
    t.world.Steady := fun m => by
  rw [h.scripts]
  exact hs m

theorem append {legs legs' : List (Leg V)} (h : Accounts s t legs log)
    (h' : Accounts t u legs' log') : Accounts s u (legs ++ legs') (log ++ log') where
  fair leg hleg := by
    rcases List.mem_append.1 hleg with hleg | hleg
    · exact h.fair leg hleg
    · exact h.memory ▸ h'.fair leg hleg
  times leg hleg := by
    rcases List.mem_append.1 hleg with hleg | hleg
    · exact (h.times leg hleg).imp_right fun hle => Nat.le_trans hle h'.now
    · exact (h'.times leg hleg).imp_left fun hle => Nat.le_trans h.now hle
  said := by rw [said_append, h.said, h'.said, h.memory, List.flatMap_append]
  memory := h'.memory.trans h.memory
  scripts := h'.scripts.trans h.scripts
  now := Nat.le_trans h.now h'.now
  live key := by
    rw [h'.live, h.live, h.memory, List.flatMap_append, Store.lastGiven_append]
    cases Store.lastGiven (legs'.flatMap (·.given s.memory.reload.life)) key with
    | some e => rfl
    | none => exact Store.filter_later h'.now _

end Accounts

/-! ## Storing -/

/-- Between the scenes the keys have been set. -/
structure Stores (s t : Scene V) (puts : List (String × Bytes)) (life : Option Nat) : Prop where
  memory : t.memory = s.memory
  scripts : t.world.scripts = s.world.scripts
  now : t.world.now = s.world.now
  live : ∀ key, t.live? key = ((Store.lastGiven
    (puts.map fun p => (p.1, .born (.bytes p.2) life s.world.now)) key).or (s.live? key)).filter
      fun e => !e.isDead s.world.now

theorem course_execute (hs : s.world.Steady) {puts : List (String × Bytes)} {life : Option Nat}
    {r : Except Error (List BatchReply)}
    (h : (Client.execute (puts.map fun p => .set p.1 p.2 life) false).outcome.Course s log r t) :
    (∃ replies, r = .ok replies) ∧ Stores s t puts life ∧
      said log = sent s.world.now puts life ∧ t.world.drawn = s.world.drawn := by
  cases puts with
  | nil =>
    obtain ⟨rfl, rfl, rfl⟩ := Program.Course.of_pure h
    refine ⟨⟨_, rfl⟩, ⟨rfl, rfl, rfl, fun key => ?_⟩, rfl, rfl⟩
    exact Store.live?_later t.world.store (Nat.le_refl _) key
  | cons p puts =>
    change (Action.command (.execute ((p :: puts).map fun p => .set p.1 p.2 life) false) :
      Action V _).outcome.Course s log r t at h
    obtain ⟨replies, hreplies, hlive⟩ :=
      Store.run_execute_sets (p :: puts) life false s.world.store s.world.now
    obtain ⟨rfl, rfl, hsaid⟩ := Action.course_command hs h
    exact ⟨⟨replies, hreplies⟩, ⟨rfl, rfl, rfl, hlive⟩, hsaid, rfl⟩

/-- What was loaded is sorted, and what has passed is stored. No time passes. -/
theorem course_storeLoaded (hs : s.world.Steady) {id : SourceId} {c : ReloadConfig}
    {checkOnly : Bool} {keys : List String} {got : KeyMap V} {r : Except Error ReloadResult}
    (h : (storeLoaded id c checkOnly keys got).outcome.Course s log r t) :
    ∃ (fates : Fates V) (s' : Scene V) (z : Sorting V) (log' : List (Exchange V)),
      Sorts s s' id c.life checkOnly keys ⟨{}, got, []⟩ z fates log' ∧
      Stores s' t fates.puts c.life ∧ r = .ok fates.result ∧
      said log = said log' ++ sent s.world.now fates.puts c.life ∧
      t.world.drawn = s'.world.drawn := by
  obtain ⟨log₁, hsorting, rfl⟩ := Action.course_memory_then h
  obtain ⟨log₂, z, s', log₃, hsort, hstore, rfl⟩ := Action.course_always_then hsorting
  obtain ⟨fates, hsorts⟩ := course_sortKeys hsort
  have hresult : z.result = fates.result := hsorts.result.trans (empty_merge _)
  have hsteady : s'.world.Steady := hsorts.idles.steady hs
  rw [hsorts.steps, List.nil_append] at hstore
  rcases Action.course_then hstore with ⟨log₄, replies, u, log₅, hexecute, hreturn, rfl⟩ |
    ⟨e, -, hexecute⟩
  · obtain ⟨-, hstores, hsaid, hdrawn⟩ := course_execute hsteady hexecute
    obtain ⟨rfl, rfl, rfl⟩ := hreturn.of_pure
    rw [hsorts.now] at hsaid
    refine ⟨fates, s', z, log₂, hsorts, hstores, congrArg _ hresult, ?_, hdrawn⟩
    rw [← hsaid, ← said_append, List.append_nil]
    rfl
  · obtain ⟨⟨replies, hreplies⟩, -⟩ := course_execute hsteady hexecute
    cases hreplies

/-! ## Chunks -/

/-- The leg has got the rows of its keys. -/
def Leg.Gets (rows : String → Option V) (leg : Leg V) : Prop :=
  ∃ got, leg.answers.getLast? = some (.ok got) ∧ ∀ key ∈ leg.keys, got.get? key = rows key

/-- Where the source judges values by a rule and the legs get their rows, the fates are those of what
is offered in each leg. -/
structure Ruled (s t : Scene V) (legs : List (Leg V)) : Prop where
  drawn : t.world.drawn = Fates.freshAfter s.memory s.world.drawn (legs.flatMap Leg.fates)
  fates : ∀ verdict rows, Fates.JudgedBy verdict (legs.flatMap Leg.fates) →
    (∀ leg ∈ legs, leg.Gets rows) → legs.flatMap Leg.fates =
      Fates.of s.memory verdict (s.memory.reload.mode == .lazy) s.world.drawn
        (legs.flatMap fun leg => offers rows leg.keys)

namespace Ruled

theorem none (s : Scene V) : Ruled s s [] := ⟨rfl, fun _ _ _ _ => rfl⟩

theorem append {legs legs' : List (Leg V)} (hmemory : t.memory = s.memory) (h : Ruled s t legs)
    (h' : Ruled t u legs') : Ruled s u (legs ++ legs') where
  drawn := by
    rw [h'.drawn, h.drawn, hmemory, List.flatMap_append, Fates.freshAfter_append]
  fates verdict rows hjudged hgets := by
    rw [List.flatMap_append] at hjudged
    have heq := h.fates verdict rows hjudged.of_append.1 fun leg hleg =>
      hgets leg (List.mem_append_left _ hleg)
    have heq' := h'.fates verdict rows hjudged.of_append.2 fun leg hleg =>
      hgets leg (List.mem_append_right _ hleg)
    rw [hmemory, h.drawn] at heq'
    rw [List.flatMap_append, List.flatMap_append, Fates.of_append, ← heq, ← heq']

end Ruled

section

variable {keys : List String} {answers : List (Except Error (KeyMap V))}

/-- When the attempts at a load are used up, nothing is asked of values and nothing is sent. -/
theorem Accounts.lost {e : Error} (hidles : s.Idles t)
    (htried : Tried (retries s.memory.reload) answers (.error e))
    (hsaid : CacheLayer.said log = answers.map (.asked s.memory.reloadSource (.loadBatch keys))) :
    Accounts s t [⟨t.world.now, answers, .allLost keys e⟩] log where
  fair := by simpa using Leg.Fair.lost _ keys htried
  times := by simpa using hidles.now
  said := by
    rw [List.flatMap_singleton, Leg.events, Leg.keys, map_fst_allLost, Fates.verdicts_allLost,
      Fates.puts_allLost, hsaid]
    exact ((List.append_nil _).trans (List.append_nil _)).symm
  memory := hidles.memory
  scripts := hidles.scripts
  now := hidles.now
  live key := by
    rw [List.flatMap_singleton, Leg.given, Fates.puts_allLost]
    exact hidles.live? key

/-- A leg whose last attempt has failed has got nothing. -/
theorem Ruled.lost {e : Error} {more time : Nat} (hdrawn : t.world.drawn = s.world.drawn)
    (htried : Tried more answers (.error e)) :
    Ruled s t [⟨time, answers, .allLost keys e⟩] where
  drawn := by
    rw [List.flatMap_singleton, Fates.freshAfter_allLost]
    exact hdrawn
  fates verdict rows _ hgets := by
    obtain ⟨got, hlast, -⟩ := hgets _ List.mem_cons_self
    rw [htried.getLast?] at hlast
    cases hlast

variable {got : KeyMap V} {z : Sorting V} {fates : Fates V} {s₁ s₂ : Scene V} {life : Option Nat}

/-- The values are stored after the last one was judged, all of them at that time. -/
theorem Accounts.loaded (hidles : s.Idles s₁)
    (htried : Tried (retries s.memory.reload) answers (.ok got))
    (hsorts : Sorts s₁ s₂ s.memory.reloadSource life (s.memory.reload.mode == .lazy) keys
      ⟨{}, got, []⟩ z fates log') (hstores : Stores s₂ t fates.puts s.memory.reload.life)
    (hsaid : CacheLayer.said log = answers.map (.asked s.memory.reloadSource (.loadBatch keys)) ++
      CacheLayer.said log' ++ sent s₁.world.now fates.puts s.memory.reload.life) :
    Accounts s t [⟨s₁.world.now, answers, fates⟩] log where
  fair := by
    have hsorted := hsorts.sorted [] (.nil _)
    rw [hidles.memory, List.append_nil] at hsorted
    simpa using Leg.Fair.loaded _ htried hsorted
  times := by simpa [hstores.now, hsorts.now] using hidles.now
  said := by
    have hkeys : fates.map Prod.fst = keys := hsorts.order
    rw [List.flatMap_singleton, Leg.events, Leg.keys, hkeys, ← hsorts.said, hsaid]
  memory := hstores.memory.trans (hidles.trans hsorts.idles).memory
  scripts := hstores.scripts.trans (hidles.trans hsorts.idles).scripts
  now := hstores.now ▸ (hidles.trans hsorts.idles).now
  live key := by
    rw [hstores.live, hstores.now, (hidles.trans hsorts.idles).live?, List.flatMap_singleton,
      Leg.given, ← hsorts.now]
    cases Store.lastGiven (fates.puts.map fun p =>
      (p.1, .born (.bytes p.2) s.memory.reload.life s₂.world.now)) key with
    | some e => rfl
    | none => exact Store.filter_later (Nat.le_refl _) _

theorem Ruled.loaded {id : SourceId} {more time : Nat} (hmemory : s₁.memory = s.memory)
    (hidle : s₁.world.drawn = s.world.drawn) (htried : Tried more answers (.ok got))
    (hsorts : Sorts s₁ s₂ id life (s.memory.reload.mode == .lazy) keys ⟨{}, got, []⟩ z fates log')
    (hdrawn : t.world.drawn = s₂.world.drawn) : Ruled s t [⟨time, answers, fates⟩] where
  drawn := by rw [hdrawn, hsorts.drawn, hmemory, hidle, List.flatMap_singleton]
  fates verdict rows hjudged hgets := by
    have hkeys : fates.map Prod.fst = keys := hsorts.order
    obtain ⟨got', hlast, hrows⟩ := hgets _ List.mem_cons_self
    rw [htried.getLast?] at hlast
    cases hlast
    rw [List.flatMap_singleton] at hjudged
    have heq := hsorts.ruled verdict hjudged
    rw [hmemory, hidle] at heq
    rw [List.flatMap_singleton, List.flatMap_singleton, ← offers_congr hrows, Leg.keys, hkeys]
    exact heq

end

theorem course_loadChunk (hs : s.world.Steady) {keys : List String}
    {r : Except Error ReloadResult}
    (h : (loadChunk (s.memory.reload.mode == .lazy) keys).outcome.Course s log r t) :
    ∃ leg : Leg V, leg.keys = keys ∧ r = .ok leg.fates.result ∧ Accounts s t [leg] log ∧
      Ruled s t [leg] := by
  obtain ⟨log₁, hload, rfl⟩ := Action.course_memory_then h
  obtain ⟨log₂, answer, s₁, log₃, hretry, hrest, rfl⟩ := Action.course_always_then hload
  obtain ⟨hidles, hdrawn, answers, htried, hsaid⟩ := course_retry hretry
  cases answer with
  | error e =>
    obtain ⟨rfl, rfl, rfl⟩ := hrest.of_pure
    refine ⟨⟨t.world.now, answers, .allLost keys e⟩, map_fst_allLost keys e,
      congrArg _ ((foldl_fail keys e {}).trans (empty_merge _)), ?_, .lost hdrawn htried⟩
    refine .lost hidles htried ?_
    rw [List.append_nil]
    exact hsaid
  | ok got =>
    obtain ⟨fates, s₂, z, log₄, hsorts, hstores, rfl, hsaid', hdrawn'⟩ :=
      course_storeLoaded (hidles.steady hs) hrest
    refine ⟨⟨s₁.world.now, answers, fates⟩, hsorts.order, rfl, ?_,
      .loaded hidles.memory hdrawn htried hsorts hdrawn'⟩
    refine .loaded hidles htried hsorts hstores ?_
    rw [List.append_assoc, ← hsaid', ← hsaid, ← said_append]
    rfl

theorem course_eachChunk (hs : s.world.Steady) {parts : List (List String)}
    {r : Except Error ReloadResult}
    (h : (eachChunk (loadChunk (s.memory.reload.mode == .lazy)) parts).outcome.Course s log r t) :
    ∃ legs : List (Leg V), legs.map Leg.keys = parts ∧
      r = .ok (Fates.result (legs.flatMap Leg.fates)) ∧ Accounts s t legs log ∧
      Ruled s t legs := by
  induction parts generalizing s t log r with
  | nil =>
    obtain ⟨rfl, rfl, rfl⟩ := Program.Course.of_pure h
    exact ⟨[], rfl, rfl, .none _, .none _⟩
  | cons part parts ih =>
    rcases Action.course_then h with ⟨log₁, first, s₁, log₂, hfirst, hrest, rfl⟩ |
      ⟨e, -, hfirst⟩
    · obtain ⟨leg, hkeys, hresult, haccounts, hruled⟩ := course_loadChunk hs hfirst
      cases hresult
      -- The mode is the same for the chunks that follow, since memory has not changed.
      rw [← haccounts.memory] at hrest
      rcases Action.course_then hrest with ⟨log₃, others, s₂, log₄, hothers, hreturn, rfl⟩ |
        ⟨e, -, hothers⟩
      · obtain ⟨legs, hkeys', hresult', haccounts', hruled'⟩ := ih (haccounts.steady hs) hothers
        cases hresult'
        obtain ⟨rfl, rfl, rfl⟩ := hreturn.of_pure
        refine ⟨leg :: legs, by rw [List.map_cons, hkeys, hkeys'], ?_, ?_, ?_⟩
        · rw [List.flatMap_cons, Fates.result_append]
        · rw [List.append_nil]
          exact haccounts.append haccounts'
        · exact hruled.append haccounts.memory hruled'
      · obtain ⟨legs, -, hresult', -⟩ := ih (haccounts.steady hs) hothers
        cases hresult'
    · obtain ⟨leg, -, hresult, -⟩ := course_loadChunk hs hfirst
      cases hresult

/-! ## Counting -/

/-- The scene in which a reload that began at some time has been counted. -/
def counting (ok : Bool) (start : Nat) (s : Scene V) : Scene V :=
  { s with memory := { s.memory with
    reloadStats := s.memory.reloadStats.reload ok ((s.world.now - start) * 1000000) } }

theorem course_record {ok : Bool} {start : Nat}
    (h : (record ok start : Program V Unit).Course s log () t) :
    t = counting ok start s ∧ said log = [] := by
  obtain ⟨hrun, hsilent⟩ := h.of_silent
    (Program.each_bind (Program.each_lift (Q := fun q => q.isSilent = true) rfl) fun _ =>
      ⟨rfl, fun _ => trivial⟩)
  exact ⟨(Prod.mk.inj hrun).2.symm, hsilent⟩

/-- A counted reload is counted once, when it has ended. -/
theorem course_counted {a : Action V ReloadResult} {r : Except Error ReloadResult}
    (h : (counted a).outcome.Course s log r t) :
    ∃ (log' : List (Exchange V)) (u : Scene V) (ok : Bool), a.outcome.Course s log' r u ∧
      said log = said log' ∧ t = counting ok s.world.now u ∧
      (∀ result, r = .ok result → ok = result.isSuccess) ∧ ∀ e, r = .error e → ok = false := by
  obtain ⟨log₁, start, s₁, log₂, hnow, hrest, rfl⟩ := Action.course_always_then h
  obtain ⟨hget, rfl⟩ := hnow.of_lift
  obtain ⟨rfl, rfl⟩ := Prod.mk.inj hget
  obtain ⟨log₃, r', u, log₄, ha, hcount, rfl⟩ := Action.course_always_then hrest
  obtain ⟨log₅, ⟨⟩, s₂, log₆, hrecord, hreturn, rfl⟩ := Action.course_always_then hcount
  obtain ⟨rfl, hsilent⟩ := course_record hrecord
  obtain ⟨rfl, rfl, rfl⟩ := hreturn.of_pure
  refine ⟨log₃, u, _, ha, ?_, rfl, ?_, ?_⟩
  · rw [said_append, said_append, said_append, hsilent]
    exact List.append_nil _
  · rintro result rfl
    rfl
  · rintro e rfl
    rfl

/-! ## What the legs come to -/

theorem Leg.Fair.lost_iff {m : Memory V} {leg : Leg V} (h : leg.Fair m) {o : String × Fate V}
    (ho : o ∈ leg.fates) (e : Error) :
    o.2 = .lost e ↔ leg.answers.getLast? = some (.error e) := by
  cases h with
  | lost time keys htried =>
    obtain ⟨key, -, rfl⟩ := List.mem_map.1 ho
    simp [htried.getLast?]
  | loaded time htried hsorted =>
    have hfits := hsorted.fits o ho
    rw [htried.getLast?]
    constructor
    · intro hlost
      rw [hlost] at hfits
      exact hfits.elim
    · rintro ⟨⟩

theorem Leg.Fair.puts_checked {m : Memory V} {leg : Leg V} (h : leg.Fair m)
    (hmode : m.reload.mode = .lazy) : leg.fates.puts = [] := by
  cases h with
  | lost time keys htried => exact Fates.puts_allLost _ _
  | loaded time htried hsorted =>
    rw [hmode] at hsorted
    exact Fates.puts_checked hsorted.fits

theorem Leg.Fair.puts_stored {m : Memory V} {leg : Leg V} (h : leg.Fair m)
    (hmode : m.reload.mode ≠ .lazy) :
    leg.fates.puts.map Prod.fst = (leg.fates.filter (·.2.isReloaded)).map Prod.fst := by
  cases h with
  | lost time keys htried =>
    rw [Fates.puts_allLost]
    simp [Fates.allLost, Fate.isReloaded]
  | loaded time htried hsorted =>
    rw [beq_false_of_ne hmode] at hsorted
    exact Fates.puts_stored hsorted.fits

/-- The legs of a reload of keys, and what they come to. -/
structure Report (s t : Scene V) (keys : List String) (log : List (Exchange V))
    (legs : List (Leg V)) (result : ReloadResult) : Prop where
  /-- Every chunk of the keys has its leg. -/
  parts : legs.map Leg.keys = chunks s.memory.reload.batchSize keys
  fair : ∀ leg ∈ legs, leg.Fair s.memory
  times : ∀ leg ∈ legs, s.world.now ≤ leg.time ∧ leg.time ≤ t.world.now
  /-- Nothing else has been said to the source or to the store. -/
  said : said log = legs.flatMap (·.events s.memory)
  counts : result = Fates.result (legs.flatMap Leg.fates)
  total : result.reloaded + result.failed = keys.length
  errors : result.errors.length = result.failed ∧ (result.errors.map Prod.fst).Sublist keys
  /-- If a chunk cannot be loaded, just its keys are lost, with the error of the last attempt. -/
  lost : ∀ leg ∈ legs, ∀ o ∈ leg.fates, ∀ e,
    o.2 = .lost e ↔ leg.answers.getLast? = some (.error e)
  stored : s.memory.reload.mode ≠ .lazy → ∀ leg ∈ legs,
    leg.fates.puts.map Prod.fst = (leg.fates.filter (·.2.isReloaded)).map Prod.fst
  /-- A key holds what it was given last, from the time of that leg on, or else what it held. -/
  live : ∀ key, t.live? key =
    ((Store.lastGiven (legs.flatMap (·.given s.memory.reload.life)) key).or (s.live? key)).filter
      fun e => !e.isDead t.world.now
  kept : s.memory.reload.mode = .lazy → ∀ key,
    t.live? key = (s.live? key).filter fun e => !e.isDead t.world.now
  /-- The reload is counted once, and nothing else is remembered of it. -/
  memory : t.memory =
    { s.memory with
      reloadStats := s.memory.reloadStats.reload (result.failed == 0)
        ((t.world.now - s.world.now) * 1000000) }

/-- A reload of many keys goes leg by leg, and then it is counted. -/
theorem legs_of_course (hs : s.world.Steady) {keys : List String} {r : Except Error ReloadResult}
    (h : (reloadBatch keys).outcome.Course s log r t) :
    ∃ (legs : List (Leg V)) (u : Scene V) (log' : List (Exchange V)),
      legs.map Leg.keys = chunks s.memory.reload.batchSize keys ∧
      r = .ok (Fates.result (legs.flatMap Leg.fates)) ∧ Accounts s u legs log' ∧ Ruled s u legs ∧
      said log = said log' ∧
      t = counting (Fates.result (legs.flatMap Leg.fates)).isSuccess s.world.now u := by
  obtain ⟨log', u, ok, ha, hsaid, rfl, hok, -⟩ := course_counted h
  obtain ⟨log'', hchunks, rfl⟩ := Action.course_memory_then ha
  obtain ⟨legs, hkeys, rfl, haccounts, hruled⟩ := course_eachChunk hs hchunks
  exact ⟨legs, u, log'', hkeys, rfl, haccounts, hruled, hsaid, by rw [hok _ rfl]⟩

theorem report_of_course (hs : s.world.Steady) {keys : List String} {r : Except Error ReloadResult}
    (h : (reloadBatch keys).outcome.Course s log r t) :
    ∃ legs result, r = .ok result ∧ Report s t keys log legs result := by
  obtain ⟨legs, u, log', hkeys, rfl, haccounts, -, hsaid, rfl⟩ := legs_of_course hs h
  have hall : (legs.flatMap Leg.fates).map Prod.fst = keys := by
    calc (legs.flatMap Leg.fates).map Prod.fst
        = legs.flatMap Leg.keys := List.map_flatMap
      _ = (legs.map Leg.keys).flatten := List.flatMap_def
      _ = keys := by rw [hkeys, flatten_chunks]
  refine ⟨legs, _, rfl, ?_⟩
  exact {
    parts := hkeys
    fair := haccounts.fair
    times := haccounts.times
    said := hsaid.trans haccounts.said
    counts := rfl
    total := by rw [Fates.reloaded_add_failed, ← hall, List.length_map]
    errors := ⟨Fates.length_errors _, hall ▸ Fates.errors_sublist _⟩
    lost := fun leg hleg o ho => (haccounts.fair leg hleg).lost_iff ho
    stored := fun hmode leg hleg => (haccounts.fair leg hleg).puts_stored hmode
    live := haccounts.live
    kept := fun hmode key => by
      have hnone : legs.flatMap (·.given s.memory.reload.life) = [] :=
        List.flatMap_eq_nil_iff.2 fun leg hleg => by
          rw [Leg.given, (haccounts.fair leg hleg).puts_checked hmode, List.map_nil]
      have hlive := haccounts.live key
      rw [hnone] at hlive
      exact hlive
    memory := by
      rw [counting, haccounts.memory]
      rfl }

/-- **A reload of many keys accounts for every key and isolates failures.** Whatever the source
answers, and however often, the reload ends with a result. Every occurrence of a key is reloaded or
has one error, in the order of the keys; a chunk that cannot be loaded takes no other keys with it;
what counts as reloaded is stored, unless values are only checked, and no other key is touched; and
the reload is counted as one, successful if there are no errors. -/
theorem reloadBatch_accounts (s : Scene V) (hs : s.world.Steady) (keys : List String) :
    (∃ log result t, (reloadBatch keys).outcome.Course s log (.ok result) t) ∧
      ∀ log r t, (reloadBatch keys).outcome.Course s log r t →
        ∃ legs result, r = .ok result ∧ Report s t keys log legs result := by
  refine ⟨?_, fun log r t h => report_of_course hs h⟩
  have hcourse := Program.course_run (reloadBatch keys).outcome s
  obtain ⟨legs, result, hresult, -⟩ := report_of_course hs hcourse
  rw [hresult] at hcourse
  exact ⟨_, result, _, hcourse⟩

/-- A source with three rows, which rejects the second one and cannot load a fourth key, before an
engine that reloads two keys at a time and tries each load twice. -/
def mixed : Scene UInt8 :=
  ⟨.start (((Source.ofRows (((KeyMap.empty.insert "a" 1).insert "b" 2).insert "c" 3)).markInvalid
      (· == ·) "b").failKey "x"),
    { Client.byteMemory with reload := { batchSize := 2, maxRetries := 1 } }⟩

/-- The first occurrence of a key is stored and the second has no value left; a rejected value does
not keep the other one of its chunk from being stored; and the last chunk is lost. -/
theorem reloadBatch_accounts_mixed :
    mixed.world.Steady ∧ ∃ log t legs result,
      (reloadBatch ["a", "a", "b", "c", "x", "d"]).outcome.Course mixed log (.ok result) t ∧
      Report mixed t ["a", "a", "b", "c", "x", "d"] log legs result ∧
      result.reloaded = 2 ∧ result.errors.map Prod.fst = ["a", "b", "x", "d"] := by
  have hs : mixed.world.Steady := fun _ => rfl
  have hcourse := Program.course_run (reloadBatch ["a", "a", "b", "c", "x", "d"]).outcome mixed
  obtain ⟨legs, result, hresult, hreport⟩ := (reloadBatch_accounts mixed hs _).2 _ _ _ hcourse
  have hcounts : (((reloadBatch ["a", "a", "b", "c", "x", "d"]).outcome.run mixed).1.toOption.map
      fun r => (r.reloaded, r.errors.map Prod.fst)) = some (2, ["a", "b", "x", "d"]) := by
    decide +kernel
  rw [hresult] at hcounts hcourse
  obtain ⟨hreloaded, herrors⟩ := Prod.mk.inj (Option.some.inj hcounts)
  exact ⟨hs, _, _, legs, result, hcourse, hreport, hreloaded, herrors⟩

end Reload
end CacheLayer
