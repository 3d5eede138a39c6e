/-
Reloads of many keys, and how the keys fall into chunks. Before a source that does not change and
whose loads do not fail (`Unchanging`), the fates of all keys can be told beforehand: each occurrence
has the row of its key, unless the key has come before in the same chunk (`getElem?_offers`). So the
size of the chunks does not matter as long as no key that has a row comes twice in a chunk (`Apart`),
and otherwise it does.

Main statements: `reloadBatch_chunked`, `not_reloadBatch_chunked`.
-/
import CacheLayer.Proofs.Reload.Batch

namespace CacheLayer

variable {V α : Type} {s t t' : Scene V} {log : List (Exchange V)} {id : SourceId}
  {rows : String → Option V} {verdict : V → Except Error Unit}

/-- The scene in which keys are reloaded in chunks of a size. -/
def Scene.inChunks (s : Scene V) (size : Nat) : Scene V :=
  { s with memory := { s.memory with reload := { s.memory.reload with batchSize := size } } }

/-! ## What was said -/

theorem mem_said_asked {c : Source.Call V} {answer : Except Error c.Reply}
    (h : .asked id c answer ∈ said log) : ∃ time, ⟨time, .request id c, answer⟩ ∈ log := by
  obtain ⟨⟨time, q, a⟩, hmem, hevent⟩ := List.mem_filterMap.1 h
  cases q <;> simp only [Exchange.event?, Option.some.injEq, reduceCtorEq] at hevent
  cases hevent
  exact ⟨time, hmem⟩

theorem mem_said_judged {v : V} {r : Except Error Unit} (h : .judged id v r ∈ said log) :
    ∃ time, ⟨time, .judge id v, r⟩ ∈ log := by
  obtain ⟨⟨time, q, a⟩, hmem, hevent⟩ := List.mem_filterMap.1 h
  cases q <;> simp only [Exchange.event?, Option.some.injEq, reduceCtorEq] at hevent
  cases hevent
  exact ⟨time, hmem⟩

namespace Reload

/-- The source judges values by a rule. -/
def Judges (id : SourceId) (verdict : V → Except Error Unit) (log : List (Exchange V)) : Prop :=
  ∀ v r, .judged id v r ∈ said log → r = verdict v

/-! ## Sources that do not change -/

/-- No load of a chunk fails, all of them give the same rows, and values are judged by a rule. -/
structure Unchanging (id : SourceId) (rows : String → Option V) (verdict : V → Except Error Unit)
    (log : List (Exchange V)) : Prop where
  loads : ∀ keys answer, .asked id (.loadBatch keys) answer ∈ said log →
    ∃ got, answer = .ok got ∧ ∀ key ∈ keys, got.get? key = rows key
  verdicts : Judges id verdict log

/-- The rows of some keys. -/
def pick (rows : String → Option V) : List String → KeyMap V
  | [] => KeyMap.empty
  | key :: keys =>
    match rows key with
    | none => pick rows keys
    | some v => (pick rows keys).insert key v

theorem get?_pick (rows : String → Option V) (keys : List String) (key : String) :
    (pick rows keys).get? key = if key ∈ keys then rows key else none := by
  induction keys with
  | nil => rfl
  | cons k keys ih =>
    rw [pick]
    by_cases hkey : key = k
    · subst hkey
      cases hrow : rows key <;> simp [ih, hrow]
    · have hother : ∀ v, ((pick rows keys).insert k v).get? key = (pick rows keys).get? key :=
        fun v => KeyMap.get?_insert_other _ v hkey
      cases rows k <;> simp [ih, hkey, hother]

/-- The answers of a source that does not change. -/
def steadily (s : Scene V) (rows : String → Option V) (verdict : V → Except Error Unit) :
    (q : Ask V) → Answer q
  | .request _ (.loadBatch keys) => .ok (pick rows keys)
  | .judge _ v => verdict v
  | q => (q.perform s).1

/-- There are such sources. -/
theorem exists_unchanging (id : SourceId) (rows : String → Option V)
    (verdict : V → Except Error Unit) (p : Program V α) (s : Scene V) :
    ∃ log r t, p.Course s log r t ∧ Unchanging id rows verdict log := by
  obtain ⟨log, r, t, hcourse, hheeds⟩ :=
    p.exists_course (fun _ => steadily s rows verdict) s []
  have hanswer := Program.heeds_const hheeds
  refine ⟨log, r, t, hcourse, fun keys answer hsaid => ?_, fun v r hsaid => ?_⟩
  · obtain ⟨time, hmem⟩ := mem_said_asked hsaid
    refine ⟨pick rows keys, hanswer _ hmem rfl, fun key hkey => ?_⟩
    rw [get?_pick, if_pos hkey]
  · obtain ⟨time, hmem⟩ := mem_said_judged hsaid
    exact hanswer _ hmem rfl

/-- Where no key that has a row comes twice in a chunk, each occurrence has its row. -/
theorem offers_of_apart {size : Nat} {keys : List String}
    (h : ∀ part ∈ chunks size keys, Apart rows part) :
    (chunks size keys).flatMap (offers rows) = keys.map fun key => (key, rows key) := by
  calc (chunks size keys).flatMap (offers rows)
      = ((chunks size keys).map fun part => part.map fun key => (key, rows key)).flatten := by
        rw [List.flatMap_def, List.map_congr_left fun part hpart => (h part hpart).offers]
    _ = (chunks size keys).flatten.map fun key => (key, rows key) := List.map_flatten.symm
    _ = keys.map fun key => (key, rows key) := by rw [flatten_chunks]

/-! ## What a reload comes to -/

/-- A reload ends with these fates, and each key holds what it was given last, from some time of the
reload on, or else what it held. -/
structure Comes (s t : Scene V) (fates : Fates V) (r : Except Error ReloadResult) : Prop where
  result : r = .ok fates.result
  now : s.world.now ≤ t.world.now
  live : ∀ key, ∃ time, s.world.now ≤ time ∧ time ≤ t.world.now ∧ t.live? key =
    (((fates.lastPut key).map fun b => .born (.bytes b) s.memory.reload.life time).or
      (s.live? key)).filter fun e => !e.isDead t.world.now

/-- If no time passes, the fates decide what the cache holds. -/
theorem Comes.live?_eq {fates : Fates V} {r r' : Except Error ReloadResult}
    (h : Comes s t fates r) (h' : Comes s t' fates r') (hnow : t.world.now = s.world.now)
    (hnow' : t'.world.now = s.world.now) (key : String) : t.live? key = t'.live? key := by
  obtain ⟨time, hle, hge, hlive⟩ := h.live key
  obtain ⟨time', hle', hge', hlive'⟩ := h'.live key
  have htime : time = s.world.now := by omega
  have htime' : time' = s.world.now := by omega
  rw [hlive, hlive', htime, htime', hnow, hnow']

/-- The entry that a key is given last comes from the leg that gave it last. -/
theorem lastGiven_legs (legs : List (Leg V)) (life : Option Nat) (key : String) :
    (Fates.lastPut (legs.flatMap Leg.fates) key = none ∧
      Store.lastGiven (legs.flatMap (·.given life)) key = none) ∨
    ∃ leg ∈ legs, ∃ b, Fates.lastPut (legs.flatMap Leg.fates) key = some b ∧
      Store.lastGiven (legs.flatMap (·.given life)) key =
        some (.born (.bytes b) life leg.time) := by
  induction legs with
  | nil => exact .inl ⟨rfl, rfl⟩
  | cons leg legs ih =>
    have hgiven : Store.lastGiven (leg.given life) key =
        (leg.fates.lastPut key).map fun b => .born (.bytes b) life leg.time :=
      Fates.lastGiven_puts leg.fates life leg.time key
    simp only [List.flatMap_cons, Fates.lastPut_append, Store.lastGiven_append, hgiven]
    rcases ih with ⟨hput, hnone⟩ | ⟨later, hlater, b, hput, hsome⟩
    · rw [hput, hnone]
      cases hleg : leg.fates.lastPut key with
      | none => exact .inl ⟨rfl, rfl⟩
      | some b => exact .inr ⟨leg, List.mem_cons_self, b, rfl, rfl⟩
    · rw [hput, hsome]
      exact .inr ⟨later, List.mem_cons_of_mem _ hlater, b, rfl, rfl⟩

/-- If no load fails, every leg gets its rows. -/
theorem gets_of_unchanging {legs : List (Leg V)} {u : Scene V} {log' : List (Exchange V)}
    (haccounts : Accounts s u legs log') (hsaid : said log = said log')
    (h : Unchanging s.memory.reloadSource rows verdict log) : ∀ leg ∈ legs, leg.Gets rows := by
  intro leg hleg
  obtain ⟨answer, hlast⟩ : ∃ answer, leg.answers.getLast? = some answer := by
    cases haccounts.fair leg hleg with
    | lost time keys htried => exact ⟨_, htried.getLast?⟩
    | loaded time htried hsorted => exact ⟨_, htried.getLast?⟩
  have hasked : .asked s.memory.reloadSource (.loadBatch leg.keys) answer ∈ said log := by
    rw [hsaid, haccounts.said]
    refine List.mem_flatMap.2 ⟨leg, hleg, List.mem_append_left _ (List.mem_append_left _ ?_)⟩
    exact List.mem_map_of_mem (List.mem_of_getLast? hlast)
  obtain ⟨got, rfl, hrows⟩ := h.loads _ _ hasked
  exact ⟨got, hlast, hrows⟩

/-- How a value is encoded does not depend on the size of the chunks. -/
theorem Fates.of_inChunks (s : Scene V) (size : Nat) (checkOnly : Bool) (fresh : Nat)
    (xs : List (String × Option V)) :
    of (s.inChunks size).memory verdict checkOnly fresh xs =
      of s.memory verdict checkOnly fresh xs := by
  induction xs generalizing fresh with
  | nil => rfl
  | cons x xs ih => exact congrArg (_ :: ·) (ih _)

theorem comes_of_course (hs : s.world.Steady) {keys : List String} {size : Nat}
    {r : Except Error ReloadResult}
    (h : (reloadBatch keys).outcome.Course (s.inChunks size) log r t)
    (hsource : Unchanging s.memory.reloadSource rows verdict log) :
    Comes s t (.of s.memory verdict (s.memory.reload.mode == .lazy) s.world.drawn
      ((chunks size keys).flatMap (offers rows))) r := by
  have hsteady : (s.inChunks size).world.Steady := hs
  obtain ⟨legs, u, log', hkeys, rfl, haccounts, hruled, hsaid, rfl⟩ := legs_of_course hsteady h
  have hjudged : Fates.JudgedBy verdict (legs.flatMap Leg.fates) := by
    refine .flatMap fun leg hleg => Fates.judgedBy_of_said
      fun v r (hmem : .judged s.memory.reloadSource v r ∈ Fates.verdicts _ _) => ?_
    refine hsource.verdicts v r ?_
    rw [hsaid, haccounts.said]
    exact List.mem_flatMap.2
      ⟨leg, hleg, List.mem_append_left _ (List.mem_append_right _ hmem)⟩
  have hoffers : (legs.flatMap fun leg => offers rows leg.keys) =
      (chunks size keys).flatMap (offers rows) := by
    change legs.map Leg.keys = chunks size keys at hkeys
    rw [← hkeys, List.flatMap_map]
  -- The size of the chunks decides what is offered, and nothing else.
  have hfates : legs.flatMap Leg.fates =
      Fates.of s.memory verdict (s.memory.reload.mode == .lazy) s.world.drawn
        ((chunks size keys).flatMap (offers rows)) := by
    rw [← hoffers, ← Fates.of_inChunks s size]
    exact hruled.fates verdict rows hjudged (gets_of_unchanging haccounts hsaid hsource)
  rw [← hfates]
  refine ⟨rfl, haccounts.now, fun key => ?_⟩
  have hlive := haccounts.live key
  rcases lastGiven_legs legs s.memory.reload.life key with ⟨hput, hnone⟩ |
    ⟨leg, hleg, b, hput, hsome⟩
  · refine ⟨s.world.now, Nat.le_refl _, haccounts.now, ?_⟩
    rw [hput, Option.map_none, ← hnone]
    exact hlive
  · obtain ⟨hle, hge⟩ := haccounts.times leg hleg
    refine ⟨leg.time, hle, hge, ?_⟩
    rw [hput, Option.map_some, ← hsome]
    exact hlive

/-- **Where no key that has a row comes twice in a chunk, the size of the chunks does not matter.**
Before a source that does not change and whose loads do not fail, a reload of many keys in chunks of
any size ends with the fates of what the chunks offer. Two sizes in whose chunks no key that has a
row comes twice give the same result: each occurrence of a key has its row, whatever else is in its
chunk. The cache is the same then, up to the times at which the chunks were loaded. -/
theorem reloadBatch_chunked (s : Scene V) (hs : s.world.Steady) (keys : List String)
    (rows : String → Option V) (verdict : V → Except Error Unit) :
    (∀ size, ∃ log result t, (reloadBatch keys).outcome.Course (s.inChunks size) log (.ok result) t ∧
      Unchanging s.memory.reloadSource rows verdict log) ∧
    (∀ size log r t, (reloadBatch keys).outcome.Course (s.inChunks size) log r t →
      Unchanging s.memory.reloadSource rows verdict log →
      Comes s t (.of s.memory verdict (s.memory.reload.mode == .lazy) s.world.drawn
        ((chunks size keys).flatMap (offers rows))) r) ∧
    ∀ size size', (∀ part ∈ chunks size keys, Apart rows part) →
      (∀ part ∈ chunks size' keys, Apart rows part) → ∀ log log' r r' t t',
      (reloadBatch keys).outcome.Course (s.inChunks size) log r t →
      (reloadBatch keys).outcome.Course (s.inChunks size') log' r' t' →
      Unchanging s.memory.reloadSource rows verdict log →
      Unchanging s.memory.reloadSource rows verdict log' →
      r = r' ∧
      Comes s t (.of s.memory verdict (s.memory.reload.mode == .lazy) s.world.drawn
        (keys.map fun key => (key, rows key))) r ∧
      Comes s t' (.of s.memory verdict (s.memory.reload.mode == .lazy) s.world.drawn
        (keys.map fun key => (key, rows key))) r' ∧
      (t.world.now = s.world.now → t'.world.now = s.world.now →
        ∀ key, t.live? key = t'.live? key) := by
  refine ⟨fun size => ?_, fun size log r t h hsource => comes_of_course hs h hsource, ?_⟩
  · obtain ⟨log, r, t, hcourse, hsource⟩ := exists_unchanging s.memory.reloadSource rows verdict
      (reloadBatch keys).outcome (s.inChunks size)
    obtain ⟨result, -, -⟩ := comes_of_course hs hcourse hsource
    subst result
    exact ⟨log, _, t, hcourse, hsource⟩
  · intro size size' hapart hapart' log log' r r' t t' hcourse hcourse' hsource hsource'
    have hcomes := comes_of_course hs hcourse hsource
    have hcomes' := comes_of_course hs hcourse' hsource'
    rw [offers_of_apart hapart] at hcomes
    rw [offers_of_apart hapart'] at hcomes'
    exact ⟨hcomes.result.trans hcomes'.result.symm, hcomes, hcomes', hcomes.live?_eq hcomes'⟩

/-! ## A source with two rows -/

/-- What a source has. -/
def pairRows : KeyMap UInt8 := (KeyMap.empty.insert "a" 1).insert "b" 2

/-- The source rejects the second of its values. -/
def pairVerdict : UInt8 → Except Error Unit := fun v =>
  if v = 2 then .error (.invalid "two") else .ok ()

/-- An engine before a source of bytes. -/
def pairScene : Scene UInt8 := ⟨.start default, Client.byteMemory⟩

/-- A key that comes again in another chunk is reloaded again, as it is with one key at a time. -/
theorem reloadBatch_chunked_pair :
    pairScene.world.Steady ∧ ∃ log log' r r' t t',
      (reloadBatch ["a", "b", "a"]).outcome.Course (pairScene.inChunks 1) log r t ∧
      (reloadBatch ["a", "b", "a"]).outcome.Course (pairScene.inChunks 2) log' r' t' ∧
      r = .ok ⟨2, 1, [("b", .invalid "two")]⟩ ∧ r' = r := by
  have hs : pairScene.world.Steady := fun _ => rfl
  obtain ⟨hexists, -, hsame⟩ := reloadBatch_chunked pairScene hs ["a", "b", "a"]
    pairRows.get? pairVerdict
  obtain ⟨log, result, t, hcourse, hsource⟩ := hexists 1
  obtain ⟨log', result', t', hcourse', hsource'⟩ := hexists 2
  have hchunks : chunks 1 ["a", "b", "a"] = [["a"], ["b"], ["a"]] := by decide +kernel
  have hchunks' : chunks 2 ["a", "b", "a"] = [["a", "b"], ["a"]] := by decide +kernel
  have hapart : ∀ part ∈ chunks 1 ["a", "b", "a"], Apart pairRows.get? part := by
    rw [hchunks]
    intro part hpart
    exact .of_nodup _ ((by decide : ∀ part ∈ [["a"], ["b"], ["a"]], part.Nodup) part hpart)
  have hapart' : ∀ part ∈ chunks 2 ["a", "b", "a"], Apart pairRows.get? part := by
    rw [hchunks']
    intro part hpart
    exact .of_nodup _ ((by decide : ∀ part ∈ [["a", "b"], ["a"]], part.Nodup) part hpart)
  obtain ⟨heq, hcomes, -⟩ :=
    hsame 1 2 hapart hapart' _ _ _ _ _ _ hcourse hcourse' hsource hsource'
  have hresult : (Fates.of pairScene.memory pairVerdict (pairScene.memory.reload.mode == .lazy)
      pairScene.world.drawn (["a", "b", "a"].map fun key => (key, pairRows.get? key))).result =
      ⟨2, 1, [("b", .invalid "two")]⟩ := by
    decide +kernel
  exact ⟨hs, log, log', _, _, t, t', hcourse, hcourse', hcomes.result.trans (by rw [hresult]),
    heq.symm⟩

/-- It is not so that the size of the chunks never matters: a key that the source has, and that it
accepts, is not found where it comes twice in a chunk. -/
theorem not_reloadBatch_chunked :
    ¬ ∀ (s : Scene UInt8) (keys : List String) (rows : String → Option UInt8)
      (verdict : UInt8 → Except Error Unit) (size size' : Nat) (log log' : List (Exchange UInt8))
      (r r' : Except Error ReloadResult) (t t' : Scene UInt8),
      s.world.Steady → 1 ≤ size → 1 ≤ size' →
      (reloadBatch keys).outcome.Course (s.inChunks size) log r t →
      (reloadBatch keys).outcome.Course (s.inChunks size') log' r' t' →
      Unchanging s.memory.reloadSource rows verdict log →
      Unchanging s.memory.reloadSource rows verdict log' → r = r' := by
  intro hsame
  have hs : pairScene.world.Steady := fun _ => rfl
  obtain ⟨log, r, t, hcourse, hsource⟩ := exists_unchanging pairScene.memory.reloadSource
    pairRows.get? pairVerdict (reloadBatch ["a", "a"]).outcome (pairScene.inChunks 1)
  obtain ⟨log', r', t', hcourse', hsource'⟩ := exists_unchanging pairScene.memory.reloadSource
    pairRows.get? pairVerdict (reloadBatch ["a", "a"]).outcome (pairScene.inChunks 2)
  have heq := hsame pairScene ["a", "a"] pairRows.get? pairVerdict 1 2 _ _ _ _ _ _ hs (by decide)
    (by decide) hcourse hcourse' hsource hsource'
  rw [(comes_of_course hs hcourse hsource).result, (comes_of_course hs hcourse' hsource').result]
    at heq
  have hchunks : chunks 1 ["a", "a"] = [["a"], ["a"]] := by decide +kernel
  have hchunks' : chunks 2 ["a", "a"] = [["a", "a"]] := by decide +kernel
  rw [hchunks, hchunks'] at heq
  exact absurd (congrArg ReloadResult.failed (Except.ok.inj heq)) (by decide +kernel)

end Reload
end CacheLayer
