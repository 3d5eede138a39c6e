/-
Warm-ups from a source that does not change. What it has is a `Supply`: the keys that it lists, which
chunks it cannot load, its rows, and its rule for values. It may take any time for each request. What
becomes of a chunk follows from its keys alone, except that the numbers with which its values are
encoded are those that are free when their turn comes (`Supply.Yields`).

Main statement: `Supply.warmed_of_load`.
-/
import CacheLayer.Proofs.Client.Numbers
import CacheLayer.Proofs.Reload.Chunking
import CacheLayer.Proofs.WarmUp.Filling

namespace CacheLayer

open CacheLayer.Reload

variable {V α : Type} {s t u : Scene V} {log : List (Exchange V)} {m : Memory V}

theorem exists_of_forall₂ {β : Type} {R : α → β → Prop} {xs : List α} {ys : List β}
    (h : List.Forall₂ R xs ys) {a : α} (ha : a ∈ xs) : ∃ b ∈ ys, R a b := by
  induction h with
  | nil => cases ha
  | cons hfirst hrest ih =>
    rcases List.mem_cons.1 ha with rfl | hmem
    · exact ⟨_, List.mem_cons_self, hfirst⟩
    · obtain ⟨b, hb, hR⟩ := ih hmem
      exact ⟨b, List.mem_cons_of_mem _ hb, hR⟩

namespace Reload

/-! ## Fates in any order -/

theorem Fates.result_perm {os os' : Fates V} (h : os.Perm os') :
    os.result.reloaded = os'.result.reloaded ∧ os.result.failed = os'.result.failed ∧
      os.result.errors.Perm os'.result.errors :=
  ⟨h.countP_eq _, h.countP_eq _, h.filterMap _⟩

theorem Fates.mem_puts {os : Fates V} {key : String} {b : Bytes} :
    (key, b) ∈ os.puts ↔ ∃ v, (key, .stored v b) ∈ os := by
  constructor
  · intro h
    obtain ⟨⟨k, fate⟩, hmem, hbytes⟩ := List.mem_filterMap.1 h
    cases fate with
    | stored v b' =>
      obtain ⟨rfl, rfl⟩ := Prod.mk.inj (Option.some.inj hbytes)
      exact ⟨v, hmem⟩
    | _ => cases hbytes
  · rintro ⟨v, hmem⟩
    exact List.mem_filterMap.2 ⟨_, hmem, rfl⟩

theorem map_fst_offers (rows : String → Option V) (keys : List String) :
    (offers rows keys).map Prod.fst = keys := by
  induction keys generalizing rows with
  | nil => rfl
  | cons key keys ih => rw [offers, List.map_cons, ih]

/-- What is offered is the row of the key. -/
theorem eq_of_mem_offers {rows : String → Option V} {keys : List String} {key : String} {v : V}
    (h : (key, some v) ∈ offers rows keys) : rows key = some v := by
  induction keys generalizing rows with
  | nil => cases h
  | cons k keys ih =>
    rcases List.mem_cons.1 h with heq | hrest
    · obtain ⟨rfl, hrow⟩ := Prod.mk.inj heq
      exact hrow.symm
    · have hleft : taken rows k key = some v := ih hrest
      unfold taken at hleft
      split at hleft
      · cases hleft
      · exact hleft

/-- The row of a key is offered to the first occurrence. -/
theorem mem_offers {rows : String → Option V} {keys : List String} {key : String}
    (h : key ∈ keys) : (key, rows key) ∈ offers rows keys := by
  induction keys generalizing rows with
  | nil => cases h
  | cons k keys ih =>
    by_cases hkey : key = k
    · subst hkey
      exact List.mem_cons_self
    · have hleft : taken rows k key = rows key := if_neg hkey
      rw [← hleft]
      exact List.mem_cons_of_mem _ (ih (List.mem_of_ne_of_mem hkey h))

/-- The fate without the bytes that are stored. -/
def Fate.bare : Fate V → Fate V
  | .stored v _ => .stored v []
  | fate => fate

def Fates.bare (os : Fates V) : Fates V := os.map fun o => (o.1, o.2.bare)

/-- The bytes are not reported. -/
theorem Fates.result_bare (os : Fates V) : Fates.result os.bare = os.result := by
  have hreloaded (fate : Fate V) : fate.bare.isReloaded = fate.isReloaded := by
    cases fate <;> rfl
  have herror (key : String) (fate : Fate V) : fate.bare.error? key = fate.error? key := by
    cases fate <;> rfl
  simp only [Fates.result, Fates.bare, List.countP_map, List.filterMap_map, Function.comp_def,
    hreloaded, herror]

/-- Other numbers make other bytes, and nothing else. -/
theorem Fate.bare_of {verdict : V → Except Error Unit} {key : String} {v? : Option V}
    (hcodes : ∀ v, v? = some v → Client.Steadily m m.format key v) (fresh fresh' : Nat) :
    (Fate.of m verdict false fresh key v?).bare = (Fate.of m verdict false fresh' key v?).bare := by
  cases v? with
  | none => rfl
  | some v =>
    cases hverdict : verdict v with
    | error e => simp only [Fate.of, hverdict]
    | ok =>
      cases hcoded : Client.coded m m.format fresh key v with
      | error e =>
        have hcoded' := (hcodes v rfl).error hcoded fresh'
        simp only [Fate.of, hverdict, hcoded, hcoded']
      | ok b =>
        obtain ⟨b', hcoded'⟩ := (hcodes v rfl).ok hcoded fresh'
        simp only [Fate.of, hverdict, hcoded, hcoded', Bool.false_eq_true, if_false, Fate.bare]

theorem Fates.Drawn.bare {verdict : V → Except Error Unit} {fates fates' : Fates V}
    {xs : List (String × Option V)} (h : fates.Drawn m verdict xs) (h' : fates'.Drawn m verdict xs)
    (hcodes : ∀ y ∈ xs, ∀ v, y.2 = some v → Client.Steadily m m.format y.1 v) :
    fates.bare = fates'.bare := by
  induction h generalizing fates' with
  | nil =>
    cases h'
    rfl
  | @cons o y os ys hfirst hrest ih =>
    cases h' with
    | @cons o' _ os' _ hfirst' hrest' =>
      obtain ⟨hy, hys⟩ := List.forall_mem_cons.1 hcodes
      obtain ⟨hkey, fresh, hfate⟩ := hfirst
      obtain ⟨hkey', fresh', hfate'⟩ := hfirst'
      have hhead : (o.1, o.2.bare) = (o'.1, o'.2.bare) := by
        rw [hkey, hkey', hfate, hfate', Fate.bare_of hy fresh fresh']
      exact congrArg₂ List.cons hhead (ih hrest' hys)

end Reload

/-! ## Supplies -/

/-- What a source has that does not change. -/
structure Supply (V : Type) where
  /-- All its keys, or why it cannot list them. -/
  listed : Except Error (List String)
  /-- Why it cannot load some keys together. -/
  fault : List String → Option Error
  rows : String → Option V
  verdict : V → Except Error Unit

namespace Supply

/-- The keys that a warm-up is about: those of the settings, or else all of the source. -/
def candidates (x : Supply V) (m : Memory V) : Except Error (List String) :=
  if m.reload.warmUpKeys.isEmpty then x.listed else .ok m.reload.warmUpKeys

/-- The source has given the answers of the supply. -/
structure Told (x : Supply V) (id : SourceId) (log : List (Exchange V)) : Prop where
  lists : ∀ answer, .asked id .listKeys answer ∈ said log → answer = x.listed
  lost : ∀ keys answer e, .asked id (.loadBatch keys) answer ∈ said log → x.fault keys = some e →
    answer = .error e
  loads : ∀ keys answer, .asked id (.loadBatch keys) answer ∈ said log → x.fault keys = none →
    ∃ got, answer = .ok got ∧ ∀ key ∈ keys, got.get? key = x.rows key
  judges : Judges id x.verdict log

/-- The answers of the source, which takes so much time for each request. -/
def answers (x : Supply V) (s : Scene V) (delay : List (Exchange V) → Nat)
    (before : List (Exchange V)) : (q : Ask V) → Answer q
  | .latency _ _ => delay before
  | .request _ .listKeys => x.listed
  | .request _ (.loadBatch keys) =>
    match x.fault keys with
    | some e => .error e
    | none => .ok (pick x.rows keys)
  | .judge _ v => x.verdict v
  | q => (q.perform s).1

theorem told_of_heeds {x : Supply V} {delay : List (Exchange V) → Nat}
    {before : List (Exchange V)} (h : Program.Heeds (x.answers s delay) before log)
    (id : SourceId) : x.Told id log where
  lists answer hsaid := by
    obtain ⟨time, hmem⟩ := mem_said_asked hsaid
    obtain ⟨before, hanswer⟩ := Program.exists_of_heeds h _ hmem rfl
    exact hanswer
  lost keys answer e hsaid hfault := by
    obtain ⟨time, hmem⟩ := mem_said_asked hsaid
    obtain ⟨before, hanswer⟩ := Program.exists_of_heeds h _ hmem rfl
    simpa only [answers, hfault] using hanswer
  loads keys answer hsaid hfault := by
    obtain ⟨time, hmem⟩ := mem_said_asked hsaid
    obtain ⟨before, hanswer⟩ := Program.exists_of_heeds h _ hmem rfl
    simp only [answers, hfault] at hanswer
    refine ⟨pick x.rows keys, hanswer, fun key hkey => ?_⟩
    rw [get?_pick, if_pos hkey]
  judges v r hsaid := by
    obtain ⟨time, hmem⟩ := mem_said_judged hsaid
    obtain ⟨before, hanswer⟩ := Program.exists_of_heeds h _ hmem rfl
    exact hanswer

/-- What has been said in a part is what the supply has. -/
theorem Told.mono {x : Supply V} {id : SourceId} {log' : List (Exchange V)} (h : x.Told id log')
    (hsaid : said log ⊆ said log') : x.Told id log where
  lists answer hasked := h.lists answer (hsaid hasked)
  lost keys answer e hasked := h.lost keys answer e (hsaid hasked)
  loads keys answer hasked := h.loads keys answer (hsaid hasked)
  judges v r hjudged := h.judges v r (hsaid hjudged)

theorem Told.of_append {x : Supply V} {id : SourceId} {log' : List (Exchange V)}
    (h : x.Told id (log ++ log')) : x.Told id log ∧ x.Told id log' := by
  constructor <;> refine h.mono ?_ <;> rw [said_append]
  · exact List.subset_append_left _ _
  · exact List.subset_append_right _ _

/-! ## Chunks -/

/-- The fates of a chunk: all its keys are lost, or each of them has the fate of its row. -/
def Yields (x : Supply V) (m : Memory V) (part : List String) (fates : Fates V) : Prop :=
  match x.fault part with
  | some e => fates = .allLost part e
  | none => fates.Drawn m x.verdict (offers x.rows part)

/-- A key is accepted in a chunk if the chunk can be loaded and the row passes and can be encoded. -/
def AcceptsIn (x : Supply V) (m : Memory V) (part : List String) (key : String) : Prop :=
  x.fault part = none ∧ key ∈ part ∧ ∃ v, x.rows key = some v ∧ x.verdict v = .ok () ∧
    ∃ fresh b, Client.coded m m.format fresh key v = .ok b

variable {x : Supply V} {part : List String} {fates : Fates V}

theorem Yields.order (h : x.Yields m part fates) : fates.map Prod.fst = part := by
  unfold Yields at h
  split at h
  · rw [h, map_fst_allLost]
  · rw [← map_fst_offers x.rows part, ← List.forall₂_eq_eq_eq, List.forall₂_map_left_iff,
      List.forall₂_map_right_iff]
    exact h.imp fun _ _ hsame => hsame.1

theorem Yields.accepts {key : String} {v : V} {b : Bytes} (h : x.Yields m part fates)
    (hmem : (key, .stored v b) ∈ fates) : x.AcceptsIn m part key ∧ x.rows key = some v ∧
      ∃ fresh, Client.coded m m.format fresh key v = .ok b := by
  have hkey : key ∈ part := by
    rw [← h.order]
    exact List.mem_map_of_mem hmem
  unfold Yields at h
  split at h
  · rw [h] at hmem
    obtain ⟨_, -, hlost⟩ := List.mem_map.1 hmem
    cases hlost
  · next hfault =>
    obtain ⟨⟨k, v?⟩, hoffer, hsame, fresh, hfate⟩ := exists_of_forall₂ h hmem
    obtain rfl : key = k := hsame
    obtain ⟨rfl, hverdict, -, hcoded⟩ := Fate.of_eq_stored hfate.symm
    have hrow := eq_of_mem_offers hoffer
    exact ⟨⟨hfault, hkey, v, hrow, hverdict, fresh, b, hcoded⟩, hrow, fresh, hcoded⟩

theorem yields_of_warms {leg : Leg V} (h : leg.Warms m part) (htold : x.Told m.reloadSource log)
    (hsaid : ∀ e ∈ leg.events m, e ∈ said log) : x.Yields m part leg.fates := by
  have hasked (hkeys : leg.keys = part) {answer : Except Error (KeyMap V)}
      (hlast : leg.answers.getLast? = some answer) :
      .asked m.reloadSource (.loadBatch part) answer ∈ said log := by
    refine hsaid _ (List.mem_append_left _ (List.mem_append_left _ ?_))
    rw [hkeys]
    exact List.mem_map_of_mem (List.mem_of_getLast? hlast)
  unfold Yields
  cases h with
  | lost time htried =>
    have hanswer := hasked (map_fst_allLost part _) htried.getLast?
    cases hfault : x.fault part with
    | some e =>
      obtain ⟨⟩ := htold.lost _ _ e hanswer hfault
      rfl
    | none =>
      obtain ⟨got, herror, -⟩ := htold.loads _ _ hanswer hfault
      cases herror
  | @loaded _ _ fates time htried horder hruled =>
    have hanswer := hasked horder htried.getLast?
    cases hfault : x.fault part with
    | some e => cases htold.lost _ _ e hanswer hfault
    | none =>
      obtain ⟨got, hgot, hrows⟩ := htold.loads _ _ hanswer hfault
      obtain ⟨⟩ := hgot
      rw [← offers_congr hrows]
      refine hruled x.verdict (Fates.judgedBy_of_said
        fun v r (hjudged : .judged m.reloadSource v r ∈ fates.verdicts _) => ?_)
      exact htold.judges v r (hsaid _ (List.mem_append_left _ (List.mem_append_right _ hjudged)))

/-- What is encoded regardless of the numbers that are drawn is accepted in each course. -/
theorem Yields.stored {key : String} (h : x.Yields m part fates)
    (hcodes : ∀ v, x.rows key = some v → Client.Steadily m m.format key v)
    (haccepts : x.AcceptsIn m part key) : ∃ v b, (key, .stored v b) ∈ fates := by
  obtain ⟨hfault, hkey, v, hrow, hverdict, fresh, b, hcoded⟩ := haccepts
  unfold Yields at h
  rw [hfault] at h
  have hoffer : (key, x.rows key) ∈ offers x.rows part := mem_offers hkey
  obtain ⟨⟨k, fate⟩, hmem, hsame, fresh', hfate⟩ := exists_of_forall₂ h.flip hoffer
  obtain rfl : k = key := hsame
  obtain ⟨b', hcoded'⟩ := (hcodes v hrow).ok hcoded fresh'
  refine ⟨v, b', ?_⟩
  rw [hrow] at hfate
  simp only [Fate.of, hverdict, Bool.false_eq_true, if_false, hcoded'] at hfate
  exact hfate ▸ hmem

/-- A chunk has the same fates whenever its turn comes, up to the bytes that are stored. -/
theorem Yields.bare {fates' : Fates V} (h : x.Yields m part fates) (h' : x.Yields m part fates')
    (hcodes : ∀ key v, x.rows key = some v → Client.Steadily m m.format key v) :
    fates.bare = fates'.bare := by
  unfold Yields at h h'
  cases hfault : x.fault part with
  | some e =>
    rw [hfault] at h h'
    rw [h, h']
  | none =>
    rw [hfault] at h h'
    refine Fates.Drawn.bare h h' fun y hy v hv => hcodes y.1 v ?_
    have hoffer : (y.1, some v) ∈ offers x.rows part := hv ▸ hy
    exact eq_of_mem_offers hoffer

/-- What is stored is accepted in a chunk. -/
theorem accepts_of_yields {parts : List (List String)} {each : List (Fates V)}
    (h : List.Forall₂ (x.Yields m) parts each) {key : String} {v : V} {b : Bytes}
    (hmem : (key, .stored v b) ∈ each.flatten) :
    x.rows key = some v ∧ (∃ fresh, Client.coded m m.format fresh key v = .ok b) ∧
      ∃ part ∈ parts, x.AcceptsIn m part key := by
  obtain ⟨fates, hfates, hstored⟩ := List.mem_flatten.1 hmem
  obtain ⟨part, hpart, hyields⟩ := exists_of_forall₂ h.flip hfates
  obtain ⟨haccepts, hrow, hcoded⟩ := Yields.accepts hyields hstored
  exact ⟨hrow, hcoded, part, hpart, haccepts⟩

/-- Chunks have the same fates whenever their turns come, up to the bytes that are stored. -/
theorem bare_of_yields {parts : List (List String)} {each each' : List (Fates V)}
    (h : List.Forall₂ (x.Yields m) parts each) (h' : List.Forall₂ (x.Yields m) parts each')
    (hcodes : ∀ key v, x.rows key = some v → Client.Steadily m m.format key v) :
    Fates.bare each.flatten = Fates.bare each'.flatten := by
  induction h generalizing each' with
  | nil =>
    cases h'
    rfl
  | cons hfirst hrest ih =>
    cases h' with
    | cons hfirst' hrest' =>
      rw [List.flatten_cons, List.flatten_cons, Fates.bare, Fates.bare, List.map_append,
        List.map_append]
      exact congrArg₂ (· ++ ·) (Yields.bare hfirst hfirst' hcodes) (ih hrest')

/-- Every key has one fate. -/
theorem map_fst_of_yields {parts : List (List String)} {each : List (Fates V)}
    (h : List.Forall₂ (x.Yields m) parts each) : each.flatten.map Prod.fst = parts.flatten := by
  rw [List.map_flatten]
  congr 1
  rw [← List.forall₂_eq_eq_eq, List.forall₂_map_left_iff]
  exact h.flip.imp fun _ _ hyields => Yields.order hyields

end Supply

/-! ## Loads -/

namespace WarmUp

open Supply

/-- Between the scenes the key was given a value. It holds that from then on, for the life of
reloads. -/
def Given (s t : Scene V) (key : String) (v : V) : Prop :=
  ∃ fresh b time, Client.coded s.memory s.memory.format fresh key v = .ok b ∧
    s.world.now ≤ time ∧ time ≤ t.world.now ∧ t.live? key =
      (some (.born (.bytes b) s.memory.reload.life time)).filter fun e => !e.isDead t.world.now

/-- Between the scenes the key was left alone. -/
def Kept (s t : Scene V) (key : String) : Prop :=
  t.live? key = (s.live? key).filter fun e => !e.isDead t.world.now

/-- Between the scenes keys have been loaded and stored, chunk by chunk. -/
structure Warmed (x : Supply V) (s t : Scene V) (keys : List String) (each : List (Fates V))
    (result : ReloadResult) : Prop where
  yields : List.Forall₂ (x.Yields s.memory) (chunks s.memory.reload.batchSize keys) each
  reloaded : result.reloaded = (Fates.result each.flatten).reloaded
  failed : result.failed = (Fates.result each.flatten).failed
  errors : result.errors.Perm (Fates.result each.flatten).errors
  total : result.reloaded + result.failed = keys.length
  now : s.world.now ≤ t.world.now
  given : ∀ key v b, (key, .stored v b) ∈ each.flatten →
    x.rows key = some v ∧ x.verdict v = .ok () ∧ Given s t key v
  kept : ∀ key, (∀ v b, (key, .stored v b) ∉ each.flatten) → Kept s t key

variable {x : Supply V} {keys : List String} {each : List (Fates V)} {result : ReloadResult}

/-- What the batches give to keys is what is stored according to the fates. -/
theorem mem_given_iff {legs : List (Leg V)}
    (hsaid : ∀ e, e ∈ said log ↔ ∃ leg ∈ legs, e ∈ leg.events m) {key : String} {e : Entry} :
    (key, e) ∈ (said log).flatMap Event.given ↔ ∃ leg ∈ legs, ∃ v b,
      (key, .stored v b) ∈ leg.fates ∧ e = .born (.bytes b) m.reload.life leg.time := by
  rw [List.mem_flatMap]
  constructor
  · rintro ⟨event, hevent, hgiven⟩
    obtain ⟨leg, hleg, hmem⟩ := (hsaid event).1 hevent
    have hleg' : (key, e) ∈ leg.given m.reload.life := by
      rw [← leg.given_events m]
      exact List.mem_flatMap.2 ⟨event, hmem, hgiven⟩
    obtain ⟨⟨k, b⟩, hput, hentry⟩ := List.mem_map.1 hleg'
    obtain ⟨rfl, rfl⟩ := Prod.mk.inj hentry
    obtain ⟨v, hstored⟩ := Fates.mem_puts.1 hput
    exact ⟨leg, hleg, v, b, hstored, rfl⟩
  · rintro ⟨leg, hleg, v, b, hstored, rfl⟩
    have hgiven : (key, .born (.bytes b) m.reload.life leg.time) ∈
        (leg.events m).flatMap Event.given := by
      rw [leg.given_events m]
      exact List.mem_map.2 ⟨(key, b), Fates.mem_puts.2 ⟨v, hstored⟩, rfl⟩
    obtain ⟨event, hevent, hentry⟩ := List.mem_flatMap.1 hgiven
    exact ⟨event, (hsaid event).2 ⟨leg, hleg, hevent⟩, hentry⟩

/-- A chunk is stored while the warm-up runs. -/
theorem time_of_stored {legs : List (Leg V)}
    (hsaid : ∀ e, e ∈ said log ↔ ∃ leg ∈ legs, e ∈ leg.events m) {P : Nat → Prop}
    (htimes : ∀ e ∈ log, P e.time) {leg : Leg V} (hleg : leg ∈ legs) {key : String} {v : V}
    {b : Bytes} (hstored : (key, .stored v b) ∈ leg.fates) : P leg.time := by
  have hput := Fates.mem_puts.2 ⟨v, hstored⟩
  have hsent : .sent leg.time (.execute (leg.fates.puts.map fun p => .set p.1 p.2 m.reload.life)
      false) ∈ said log := by
    refine (hsaid _).2 ⟨leg, hleg, List.mem_append_right _ ?_⟩
    rw [sent, if_neg (by simpa using List.ne_nil_of_mem hput)]
    exact List.mem_singleton.2 rfl
  obtain ⟨r, hmem⟩ := mem_said_sent hsent
  exact htimes _ hmem

/-- **A load from a source that does not change.** However long the source takes for each chunk, and
in whatever order the chunks come to an end, each of them has the fates of its keys; the result counts
them, keys that are accepted hold the values of their rows, and all others are left alone. -/
theorem warmed_of_load (hs : s.world.Steady) {r : Except Error ReloadResult}
    (h : (load keys).outcome.Course s log r t) (htold : x.Told s.memory.reloadSource log) :
    ∃ each result, r = .ok result ∧ Warmed x s t keys each result := by
  obtain ⟨legs, order, hlegs, horder, rfl, hsaid⟩ := legs_of_load hs h
  have hevents : ∀ leg ∈ legs, ∀ e ∈ leg.events s.memory, e ∈ said log :=
    fun leg hleg e he => (hsaid e).2 ⟨leg, hleg, he⟩
  have hyields : List.Forall₂ (x.Yields s.memory) (chunks s.memory.reload.batchSize keys)
      (legs.map Leg.fates) := by
    rw [List.forall₂_map_right_iff]
    have hboth := (List.forall₂_and_left _ _).2 ⟨hevents, hlegs.flip⟩
    exact hboth.flip.imp fun part leg hleg => yields_of_warms hleg.2 htold hleg.1
  have hfills : ∀ e ∈ said log, e.Fills s.memory.reload.life := fun e he => by
    obtain ⟨leg, -, hleg⟩ := (hsaid e).1 he
    exact leg.fills s.memory e hleg
  have hlive := h.filled hs hfills
  obtain ⟨hreloaded, hfailed, herrors⟩ := Fates.result_perm (horder.flatMap_right Leg.fates)
  have hkeys := map_fst_of_yields hyields
  rw [flatten_chunks] at hkeys
  refine ⟨legs.map Leg.fates, _, rfl, hyields, hreloaded, hfailed, herrors, ?_, h.times.1, ?_, ?_⟩
  · rw [hreloaded, hfailed, ← hkeys, List.length_map]
    exact Fates.reloaded_add_failed _
  · intro key v b hmem
    obtain ⟨hrow, -, part, -, -, -, w, hrow', hverdict, -⟩ := accepts_of_yields hyields hmem
    obtain rfl : w = v := Option.some.inj (hrow'.symm.trans hrow)
    refine ⟨hrow, hverdict, ?_⟩
    rcases Store.lastGiven_cases ((said log).flatMap Event.given) key with
      ⟨e, hlast, he⟩ | ⟨-, hnone⟩
    · obtain ⟨leg, hleg, v', b', hstored, rfl⟩ := (mem_given_iff hsaid).1 he
      obtain ⟨hrow', ⟨fresh, hcoded⟩, -⟩ := accepts_of_yields hyields
        (List.mem_flatten.2 ⟨_, List.mem_map_of_mem hleg, hstored⟩)
      obtain rfl : v' = w := Option.some.inj (hrow'.symm.trans hrow)
      obtain ⟨hle, hge⟩ := time_of_stored (P := fun time => s.world.now ≤ time ∧ time ≤ t.world.now)
        hsaid h.times.2 hleg hstored
      refine ⟨fresh, b', leg.time, hcoded, hle, hge, ?_⟩
      rw [hlive, hlast, Option.some_or]
    · obtain ⟨fates, hfates, hstored⟩ := List.mem_flatten.1 hmem
      obtain ⟨leg, hleg, rfl⟩ := List.mem_map.1 hfates
      exact absurd ((mem_given_iff hsaid).2 ⟨leg, hleg, w, b, hstored, rfl⟩) (hnone _)
  · intro key hnone
    rcases Store.lastGiven_cases ((said log).flatMap Event.given) key with
      ⟨e, -, he⟩ | ⟨hlast, -⟩
    · obtain ⟨leg, hleg, v, b, hstored, -⟩ := (mem_given_iff hsaid).1 he
      exact absurd (List.mem_flatten.2 ⟨_, List.mem_map_of_mem hleg, hstored⟩) (hnone v b)
    · rw [Kept, hlive, hlast, Option.none_or]

end WarmUp
end CacheLayer
