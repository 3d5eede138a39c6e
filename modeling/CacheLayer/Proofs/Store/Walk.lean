/-
Walks through the keys while other things are done to the store. Between two
pages anything may happen, other walks with cursors of their own included; only
the cursor that a walk has been given is left to it.

A walk goes on behind the last key that it has looked at. That key is kept under
a number that no later cursor gets, and nothing but a page asked for at that
number takes it away (`StandsAt.run`). So the pages show ever greater keys, and
a key that is always there is shown when the walk comes by its place.

The numbers of cursors go on without an end here. Those of a counter of 64 bits
are the same ones until so many have been given out.

Main statement: `walk_complete`.
-/
import CacheLayer.Proofs.Store.Expiry
import Mathlib.Data.List.Nodup

namespace CacheLayer

variable {α : Type}

namespace PunctualStore

/-! ## Cursors of a punctual store -/

/-- The open cursors are the same, and so is their count. -/
def SameCursors (p q : PunctualStore) : Prop := q.cursors = p.cursors ∧ q.opened = p.opened

namespace SameCursors

theorem refl (p : PunctualStore) : SameCursors p p := ⟨rfl, rfl⟩

theorem trans {p q r : PunctualStore} (h : SameCursors p q) (h' : SameCursors q r) :
    SameCursors p r := ⟨h'.1.trans h.1, h'.2.trans h.2⟩

theorem deleteMany (keys : List String) (p : PunctualStore) :
    SameCursors p (p.deleteMany keys).2 := by
  induction keys generalizing p with
  | nil => exact refl p
  | cons key keys ih => exact ih (p.place key none)

theorem gather (keys : List String) (p : PunctualStore) (got : KeySet) :
    SameCursors p (p.gather got keys).2 := by
  induction keys generalizing p got with
  | nil => exact refl p
  | cons key keys ih =>
    have hobey : SameCursors p (p.obey key (Rule.theSet p.now key)).2 := refl p
    simp only [PunctualStore.gather]
    rcases ho : p.obey key (Rule.theSet p.now key) with ⟨r, q⟩
    rw [ho] at hobey
    cases r with
    | error e => exact hobey
    | ok found =>
      cases found with
      | none => exact hobey.trans (ih q got)
      | some set => exact hobey.trans (ih q (got.union set))

theorem steps (batch : List BatchStep) (p : PunctualStore) : SameCursors p (p.steps batch).2 := by
  induction batch generalizing p with
  | nil => exact refl p
  | cons b bs ih =>
    have hobey : SameCursors p (p.obey b.key (b.rule p.now)).2 := refl p
    simp only [PunctualStore.steps]
    rcases ho : p.obey b.key (b.rule p.now) with ⟨r, q⟩
    rw [ho] at hobey
    cases r with
    | error e => exact hobey
    | ok reply => exact hobey.trans (ih q)

theorem execute (batch : List BatchStep) (p : PunctualStore) :
    SameCursors p (p.execute batch).2 := by
  have hsteps := steps batch p
  unfold PunctualStore.execute
  rcases hs : p.steps batch with ⟨r, q⟩
  rw [hs] at hsteps
  cases r with
  | error e => exact refl p
  | ok replies => exact hsteps

/-- Only pages open and close cursors. -/
theorem run {c : Store.Call} (p : PunctualStore) (h : c.method ≠ .scan) :
    SameCursors p ((c.plan p.now).run p).2 := by
  cases c with
  | deleteMany keys => exact deleteMany keys p
  | union keys => exact gather keys p KeyMap.empty
  | execute batch atomic => exact execute batch p
  | scan cursor pattern count => exact absurd rfl h
  | _ => exact refl p

end SameCursors

end PunctualStore

namespace Store

variable {s : Store} {now cursor count : Nat} {pattern key last : String} {after : Option String}

/-! ## The place of a walk -/

/-- A walk at this cursor has passed this key, or is about to begin. -/
def StandsAt (s : Store) (cursor : Nat) : Option String → Prop
  | none => cursor = 0
  | some last =>
    cursor ≠ 0 ∧ cursor ≤ s.opened ∧ s.cursors.find? (·.1 == cursor) = some (cursor, last)

/-- The keys behind the place of a walk. -/
def behind (after : Option String) (keys : List String) : List String :=
  keys.filter fun k => after.all (· < k)

theorem keysAfter_eq (s : Store) (now : Nat) (after : Option String) :
    s.keysAfter now after = behind after (s.liveKeys now) := by
  cases after with
  | none => exact (List.filter_eq_self.2 fun _ _ => rfl).symm
  | some last => rfl

theorem all_lt_trans {after : Option String} {last key : String}
    (h : after.all (· < last) = true) (hlt : last < key) : after.all (· < key) = true := by
  cases after with
  | none => rfl
  | some place =>
    simp only [Option.all_some, decide_eq_true_eq] at h ⊢
    exact String.lt_trans h hlt

/-- Once a key is passed, fewer are left behind the place of the walk. -/
theorem length_behind_lt {keys : List String} (hmem : last ∈ keys)
    (hafter : after.all (· < last) = true) :
    (behind (some last) keys).length < (behind after keys).length := by
  have hfilter : behind (some last) keys = (behind after keys).filter (last < ·) := by
    unfold behind
    rw [List.filter_filter]
    refine List.filter_congr fun k _ => ?_
    rw [Option.all_some]
    by_cases hlt : last < k
    · rw [decide_eq_true hlt, all_lt_trans hafter hlt]
      rfl
    · rw [decide_eq_false hlt]
      rfl
  rw [hfilter, List.length_filter_lt_length_iff_exists]
  refine ⟨last, List.mem_filter.2 ⟨hmem, hafter⟩, fun hself => ?_⟩
  exact String.lt_irrefl last (of_decide_eq_true hself)

theorem mem_liveKeys_iff : key ∈ s.liveKeys now ↔ (s.live? now key).isSome = true := by
  rw [liveKeys, KeyMap.mem_keys_iff, KeyMap.get?_filter]
  rfl

theorem sorted_liveKeys (s : Store) (now : Nat) : (s.liveKeys now).Pairwise (· < ·) :=
  KeyMap.sorted_keys _

theorem cursors_run {c : Call} (s : Store) (now : Nat) (h : c.method ≠ .scan) :
    (c.run now s).2.cursors = s.cursors ∧ (c.run now s).2.opened = s.opened := by
  have hrun : (c.run now s).2.punctual now = ((c.plan now).run (s.punctual now)).2 :=
    congrArg Prod.snd (run_punctual s now c)
  have hsame := PunctualStore.SameCursors.run (s.punctual now) h
  rw [now_punctual, ← hrun] at hsame
  exact hsame

/-! ## One page -/

/-- A page looks at some of the keys behind the place of the walk and shows those that match. Either
none is left then, or a new cursor keeps the last of them. -/
theorem page_cases (s : Store) (now : Nat) (after : Option String) (pattern : String)
    (count : Nat) :
    ∃ seen rest, behind after (s.liveKeys now) = seen ++ rest ∧
      (s.page now after pattern count).1.2 = seen.filter (Glob.accepts pattern) ∧
      ((s.page now after pattern count).1.1 = 0 ∧ rest = [] ∨
        ∃ last, seen.getLast? = some last ∧
          (s.page now after pattern count).2.StandsAt (s.page now after pattern count).1.1
            (some last)) := by
  rw [← keysAfter_eq]
  refine ⟨(s.keysAfter now after).take (max count 1), (s.keysAfter now after).drop (max count 1),
    (List.take_append_drop _ _).symm, ?_⟩
  simp only [page]
  generalize s.keysAfter now after = keys
  split
  · next last hlast =>
    split
    · exact ⟨rfl, .inr ⟨last, hlast, Nat.succ_ne_zero _, Nat.le_refl _, by simp⟩⟩
    · next hall =>
      rw [List.length_take] at hall
      exact ⟨rfl, .inl ⟨rfl, List.drop_eq_nil_of_le (by omega)⟩⟩
  · next hnone =>
    have hempty := List.getLast?_eq_none_iff.1 hnone
    refine ⟨rfl, .inl ⟨rfl, List.drop_eq_nil_of_le ?_⟩⟩
    rcases List.take_eq_nil_iff.1 hempty with hzero | rfl
    · omega
    · exact Nat.zero_le _

/-- The page of a walk that stands at a place. -/
theorem scan_cases (h : s.StandsAt cursor after) (now : Nat) (pattern : String) (count : Nat) :
    ∃ seen rest, behind after (s.liveKeys now) = seen ++ rest ∧
      (s.scan now cursor pattern count).1.2 = seen.filter (Glob.accepts pattern) ∧
      ((s.scan now cursor pattern count).1.1 = 0 ∧ rest = [] ∨
        ∃ last, seen.getLast? = some last ∧
          (s.scan now cursor pattern count).2.StandsAt (s.scan now cursor pattern count).1.1
            (some last)) := by
  cases after with
  | none =>
    obtain rfl : cursor = 0 := h
    exact page_cases s now none pattern count
  | some last =>
    obtain ⟨hne, -, hfind⟩ := h
    simp only [scan, hne, if_false, closeCursor, hfind]
    exact page_cases { s with cursors := s.cursors.filter (·.1 != cursor) } now (some last) pattern
      count

/-! ## What is done between pages -/

theorem StandsAt.of_same {s' : Store} (h : s.StandsAt cursor (some last))
    (hsame : s'.cursors = s.cursors ∧ s'.opened = s.opened) : s'.StandsAt cursor (some last) := by
  unfold StandsAt
  rw [hsame.1, hsame.2]
  exact h

theorem StandsAt.page (h : s.StandsAt cursor (some last)) :
    (s.page now after pattern count).2.StandsAt cursor (some last) := by
  obtain ⟨hne, hle, hfind⟩ := h
  unfold Store.page
  simp only
  split
  · split
    · have hother : s.opened + 1 ≠ cursor := by omega
      exact ⟨hne, Nat.le_succ_of_le hle, by simpa [hother] using hfind⟩
    · exact ⟨hne, hle, hfind⟩
  · exact ⟨hne, hle, hfind⟩

/-- A page that closes another cursor leaves this one open. -/
theorem StandsAt.scan {other : Nat} (h : s.StandsAt cursor (some last)) (hother : other ≠ cursor) :
    (s.scan now other pattern count).2.StandsAt cursor (some last) := by
  have hclosed : { s with cursors := s.cursors.filter (·.1 != other) }.StandsAt cursor
      (some last) := by
    obtain ⟨hne, hle, hfind⟩ := h
    refine ⟨hne, hle, ?_⟩
    rw [List.find?_filter, ← hfind]
    congr 1
    funext c
    by_cases hc : c.1 = cursor
    · simp [hc, Ne.symm hother]
    · simp [hc]
  unfold Store.scan closeCursor
  split
  · exact h.page
  · cases (s.cursors.find? (·.1 == other)).map (·.2) with
    | none => exact hclosed
    | some last' => exact hclosed.page

namespace Deed

/-- The deed asks for the page at a cursor of a walk under way. -/
def uses (cursor : Nat) : Deed → Bool
  | call (.scan c _ _) => c != 0 && c == cursor
  | _ => false

theorem standsAt_run {d : Deed} (h : s.StandsAt cursor (some last)) (now : Nat)
    (huses : d.uses cursor = false) : (d.run now s).2.2.StandsAt cursor (some last) := by
  cases d with
  | size | sleep ms => exact h
  | call c =>
    by_cases hc : c.method = .scan
    · cases c with
      | scan other pattern count =>
        refine h.scan ?_
        rintro rfl
        simp [uses, h.1] at huses
      | _ => cases hc
    · exact h.of_same (cursors_run s now hc)

/-- A walk stands where it stood after deeds that do not use its cursor. -/
theorem standsAt_runAll {ds : List Deed} (h : s.StandsAt cursor (some last)) (now : Nat)
    (huses : ∀ d ∈ ds, d.uses cursor = false) :
    (runAll now s ds).2.2.StandsAt cursor (some last) := by
  induction ds generalizing s now with
  | nil => exact h
  | cons d ds ih =>
    obtain ⟨hd, hrest⟩ : d.uses cursor = false ∧ ∀ d ∈ ds, d.uses cursor = false := by
      simpa using huses
    exact ih (standsAt_run h now hd) _ hrest

end Deed

/-! ## Whole walks -/

/-- How a walk goes on: how many keys its next page looks at, and what is done to the store after
that page. -/
structure Leg where
  count : Nat
  meanwhile : List Deed

/-- A page of a walk: when and of which store it was asked for, the keys that it shows, the cursor
of the page behind it, and what is done until that one. -/
structure Page where
  now : Nat
  store : Store
  keys : List String
  next : Nat
  meanwhile : List Deed

/-- The key is live when the page is made. -/
def Page.HasLive (p : Page) (key : String) : Prop := (p.store.live? p.now key).isSome = true

instance (p : Page) (key : String) : Decidable (p.HasLive key) :=
  inferInstanceAs (Decidable (_ = true))

/-- The pages of a walk from a cursor on, until cursor zero comes back. -/
def pagesAmid (pattern : String) (cursor now : Nat) (s : Store) : List Leg → List Page
  | [] => []
  | leg :: legs =>
    let ((next, keys), after) := s.scan now cursor pattern leg.count
    ⟨now, s, keys, next, leg.meanwhile⟩ ::
      if next = 0 then []
      else
        let (_, later, after) := Deed.runAll now after leg.meanwhile
        pagesAmid pattern next later after legs

/-- Cursor zero has come back. -/
def IsOver (pages : List Page) : Prop := ∃ p, pages.getLast? = some p ∧ p.next = 0

theorem IsOver.of_cons {p : Page} {pages : List Page} (h : IsOver (p :: pages))
    (hnext : p.next ≠ 0) : IsOver pages := by
  obtain ⟨q, hlast, hq⟩ := h
  cases pages with
  | nil =>
    obtain rfl : p = q := Option.some.inj hlast
    exact absurd hq hnext
  | cons p' pages => exact ⟨q, by simpa [List.getLast?_cons_cons] using hlast, hq⟩

theorem IsOver.cons {pages : List Page} (p : Page) (h : IsOver pages) : IsOver (p :: pages) := by
  obtain ⟨q, hlast, hq⟩ := h
  cases pages with
  | nil => cases hlast
  | cons p' pages => exact ⟨q, by simpa [List.getLast?_cons_cons] using hlast, hq⟩

/-- Of the keys behind the place of the walk, the page has looked at the first ones and shows those
of them that match. -/
structure Page.Looks (pattern : String) (after : Option String) (p : Page)
    (seen rest : List String) : Prop where
  split : behind after (p.store.liveKeys p.now) = seen ++ rest
  shown : p.keys = seen.filter (Glob.accepts pattern)

namespace Page.Looks

variable {p : Page} {seen rest : List String}

theorem sorted (h : p.Looks pattern after seen rest) : (seen ++ rest).Pairwise (· < ·) :=
  h.split ▸ (sorted_liveKeys p.store p.now).filter _

theorem of_mem_keys (h : p.Looks pattern after seen rest) (hk : key ∈ p.keys) :
    key ∈ seen ∧ Glob.accepts pattern key = true := by
  rw [h.shown] at hk
  exact List.mem_filter.1 hk

theorem of_mem (h : p.Looks pattern after seen rest) (hk : key ∈ seen) :
    p.HasLive key ∧ after.all (· < key) = true := by
  have hbehind : key ∈ behind after (p.store.liveKeys p.now) := by
    rw [h.split]
    exact List.mem_append_left _ hk
  obtain ⟨hlive, hafter⟩ := List.mem_filter.1 hbehind
  exact ⟨mem_liveKeys_iff.1 hlive, hafter⟩

theorem mem_append (h : p.Looks pattern after seen rest) (hlive : p.HasLive key)
    (hafter : after.all (· < key) = true) : key ∈ seen ++ rest := by
  rw [← h.split]
  exact List.mem_filter.2 ⟨mem_liveKeys_iff.2 hlive, hafter⟩

/-- The last key that was looked at parts the others from those that are left. -/
theorem part (h : p.Looks pattern after seen rest) (hlast : seen.getLast? = some last) :
    last ∈ seen ∧ (∀ k ∈ seen, k = last ∨ k < last) ∧ ∀ k ∈ rest, last < k := by
  obtain ⟨before, rfl⟩ := List.getLast?_eq_some_iff.1 hlast
  obtain ⟨hseen, -, hrest⟩ := List.pairwise_append.1 h.sorted
  have hmem : last ∈ before ++ [last] := by simp
  refine ⟨hmem, fun k hk => ?_, fun k hk => hrest last hmem k hk⟩
  rcases List.mem_append.1 hk with hk | hk
  · exact .inr ((List.pairwise_append.1 hseen).2.2 k hk last (List.mem_singleton_self _))
  · exact .inl (List.mem_singleton.1 hk)

end Page.Looks

/-- Pages that follow one another from a place on, each behind the last key that the one before it
has looked at. -/
inductive Trail (pattern : String) : Option String → List Page → Prop where
  | stopped {after : Option String} : Trail pattern after []
  | ended {after : Option String} {p : Page} {seen : List String}
    (looks : p.Looks pattern after seen []) (hnext : p.next = 0) : Trail pattern after [p]
  | on {after : Option String} {p : Page} {seen rest : List String} {last : String}
    {pages : List Page} (looks : p.Looks pattern after seen rest)
    (hlast : seen.getLast? = some last) (hnext : p.next ≠ 0)
    (more : Trail pattern (some last) pages) : Trail pattern after (p :: pages)

/-- The pages of a walk whose cursors nobody else uses follow one another. -/
theorem trail_pagesAmid {legs : List Leg} (h : s.StandsAt cursor after)
    (hown : ∀ p ∈ pagesAmid pattern cursor now s legs, ∀ d ∈ p.meanwhile, d.uses p.next = false) :
    Trail pattern after (pagesAmid pattern cursor now s legs) := by
  induction legs generalizing cursor now s after with
  | nil => exact .stopped
  | cons leg legs ih =>
    obtain ⟨seen, rest, hsplit, hshown, hnext⟩ := scan_cases h now pattern leg.count
    simp only [pagesAmid] at hown ⊢
    generalize s.scan now cursor pattern leg.count = scanned at *
    obtain ⟨⟨next, keys⟩, left⟩ := scanned
    rcases hnext with ⟨hzero, rfl⟩ | ⟨last, hlast, hstands⟩
    · rw [if_pos hzero]
      exact .ended ⟨hsplit, hshown⟩ hzero
    · have hne : next ≠ 0 := hstands.1
      simp only [hne, if_false, List.forall_mem_cons] at hown ⊢
      refine .on ⟨hsplit, hshown⟩ hlast hne (ih ?_ hown.2)
      exact Deed.standsAt_runAll hstands now hown.1

namespace Trail

variable {pages : List Page}

theorem after_keys (h : Trail pattern after pages) :
    ∀ k ∈ pages.flatMap Page.keys, after.all (· < k) = true := by
  induction h with
  | stopped => simp
  | ended looks hnext =>
    intro k hk
    rw [List.flatMap_singleton] at hk
    exact (looks.of_mem (looks.of_mem_keys hk).1).2
  | @on after p seen rest last pages looks hlast hnext more ih =>
    intro k hk
    rcases List.mem_append.1 hk with hk | hk
    · exact (looks.of_mem (looks.of_mem_keys hk).1).2
    · have hbehind : last < k := of_decide_eq_true (ih k hk)
      have hpassed := (looks.of_mem (looks.part hlast).1).2
      exact all_lt_trans hpassed hbehind

/-- Pages show ever greater keys. -/
theorem sorted_keys (h : Trail pattern after pages) :
    (pages.flatMap Page.keys).Pairwise (· < ·) := by
  induction h with
  | stopped => exact .nil
  | ended looks hnext =>
    rw [List.flatMap_singleton, looks.shown]
    exact (List.pairwise_append.1 looks.sorted).1.filter _
  | @on after p seen rest last pages looks hlast hnext more ih =>
    refine List.pairwise_append.2 ⟨?_, ih, fun a ha b hb => ?_⟩
    · rw [looks.shown]
      exact (List.pairwise_append.1 looks.sorted).1.filter _
    · have hbehind : last < b := of_decide_eq_true (more.after_keys b hb)
      rcases (looks.part hlast).2.1 a (looks.of_mem_keys ha).1 with rfl | hlt
      · exact hbehind
      · exact String.lt_trans hlt hbehind

theorem shown (h : Trail pattern after pages) :
    ∀ p ∈ pages, ∀ k ∈ p.keys, p.HasLive k ∧ Glob.accepts pattern k = true := by
  induction h with
  | stopped => simp
  | ended looks hnext =>
    rintro p hp k hk
    obtain rfl := List.mem_singleton.1 hp
    obtain ⟨hseen, haccepts⟩ := looks.of_mem_keys hk
    exact ⟨(looks.of_mem hseen).1, haccepts⟩
  | on looks hlast hnext more ih =>
    intro p hp k hk
    rcases List.mem_cons.1 hp with rfl | hp
    · obtain ⟨hseen, haccepts⟩ := looks.of_mem_keys hk
      exact ⟨(looks.of_mem hseen).1, haccepts⟩
    · exact ih p hp k hk

/-- A key behind the place of the walk that is live at every page is on one of them. -/
theorem mem_keys (h : Trail pattern after pages) (hover : IsOver pages)
    (haccepts : Glob.accepts pattern key = true) (hafter : after.all (· < key) = true)
    (hlive : ∀ p ∈ pages, p.HasLive key) : key ∈ pages.flatMap Page.keys := by
  induction h with
  | stopped =>
    obtain ⟨p, hlast, -⟩ := hover
    cases hlast
  | ended looks hnext =>
    have hseen := looks.mem_append (hlive _ (List.mem_singleton_self _)) hafter
    rw [List.append_nil] at hseen
    rw [List.flatMap_singleton, looks.shown]
    exact List.mem_filter.2 ⟨hseen, haccepts⟩
  | on looks hlast hnext more ih =>
    have hsplit := looks.mem_append (hlive _ List.mem_cons_self) hafter
    refine List.mem_append.2 ?_
    rcases List.mem_append.1 hsplit with hseen | hrest
    · rw [looks.shown]
      exact .inl (List.mem_filter.2 ⟨hseen, haccepts⟩)
    · have hpassed := (looks.part hlast).2.2 key hrest
      refine .inr (ih (hover.of_cons hnext) (decide_eq_true hpassed) fun p hp => ?_)
      exact hlive p (List.mem_cons_of_mem _ hp)

/-- Every page that gives a cursor has passed one more key. -/
theorem countP_next_le {keys : List String} (h : Trail pattern after pages)
    (hold : ∀ p ∈ pages, ∀ key, p.HasLive key → key ∈ keys) :
    pages.countP (·.next != 0) ≤ (behind after keys).length := by
  induction h with
  | stopped => exact Nat.zero_le _
  | ended looks hnext => simp [hnext]
  | on looks hlast hnext more ih =>
    obtain ⟨hlive, hafter⟩ := looks.of_mem (looks.part hlast).1
    have hmem := hold _ List.mem_cons_self _ hlive
    have hrest := ih fun p hp => hold p (List.mem_cons_of_mem _ hp)
    have hfewer := length_behind_lt hmem hafter
    rw [List.countP_cons_of_pos (by simpa using hnext)]
    omega

end Trail

/-- A walk that is not over has a page for every leg, and each has given a cursor. -/
theorem length_pagesAmid (pattern : String) (cursor now : Nat) (s : Store) (legs : List Leg) :
    let pages := pagesAmid pattern cursor now s legs
    (IsOver pages ∧ pages.length = pages.countP (·.next != 0) + 1) ∨
      (pages.length = legs.length ∧ pages.length = pages.countP (·.next != 0)) := by
  induction legs generalizing cursor now s with
  | nil => exact .inr ⟨rfl, rfl⟩
  | cons leg legs ih =>
    simp only [pagesAmid]
    generalize s.scan now cursor pattern leg.count = scanned
    obtain ⟨⟨next, keys⟩, left⟩ := scanned
    by_cases hzero : next = 0
    · simp only [hzero, if_true]
      exact .inl ⟨⟨_, rfl, rfl⟩, rfl⟩
    · simp only [hzero, if_false]
      rw [List.countP_cons_of_pos (by simpa using hzero), List.length_cons, List.length_cons]
      rcases ih next (Deed.runAll now left leg.meanwhile).2.1
        (Deed.runAll now left leg.meanwhile).2.2 with ⟨hover, hlength⟩ | ⟨hlegs, hlength⟩
      · exact .inl ⟨hover.cons _, congrArg (· + 1) hlength⟩
      · exact .inr ⟨congrArg (· + 1) hlegs, congrArg (· + 1) hlength⟩

/-- **A walk misses nothing and repeats nothing.** Whatever is done to the store between its pages,
as long as nobody else uses its cursors: no key is on two pages; a key on a page is live then and
matches; a matching key that is live at every page of a walk that is over is on exactly one of them;
and if no key is inserted, that is, none is live at a page that was not at the start, then the walk
is over after at most one page more than there were live keys. -/
theorem walk_complete {pattern : String} {s : Store} {now : Nat} {legs : List Leg}
    {pages : List Page} (hpages : pagesAmid pattern 0 now s legs = pages)
    (hown : ∀ p ∈ pages, ∀ d ∈ p.meanwhile, d.uses p.next = false) :
    (pages.flatMap Page.keys).Nodup ∧
    (∀ p ∈ pages, ∀ key ∈ p.keys, p.HasLive key ∧ Glob.accepts pattern key = true) ∧
    (IsOver pages → ∀ key, Glob.accepts pattern key = true → (∀ p ∈ pages, p.HasLive key) →
      (pages.flatMap Page.keys).count key = 1) ∧
    ((∀ p ∈ pages, ∀ key, p.HasLive key → (s.live? now key).isSome = true) →
      pages.length ≤ s.size now + 1 ∧ (s.size now < legs.length → IsOver pages)) := by
  subst hpages
  have htrail : Trail pattern none (pagesAmid pattern 0 now s legs) := trail_pagesAmid rfl hown
  have hnodup : ((pagesAmid pattern 0 now s legs).flatMap Page.keys).Nodup :=
    htrail.sorted_keys.imp String.ne_of_lt
  refine ⟨hnodup, htrail.shown, fun hover key haccepts hlive => ?_, fun hold => ?_⟩
  · exact List.count_eq_one_of_mem hnodup (htrail.mem_keys hover haccepts rfl hlive)
  · have hcount := htrail.countP_next_le fun p hp key hlive =>
      mem_liveKeys_iff.2 (hold p hp key hlive)
    have hall : (behind none (s.liveKeys now)).length = s.size now := by
      rw [← keysAfter_eq]
      rfl
    rcases length_pagesAmid pattern 0 now s legs with ⟨hover, hlength⟩ | ⟨hlegs, hlength⟩
    · exact ⟨by omega, fun _ => hover⟩
    · exact ⟨by omega, fun hmore => by omega⟩

/-- A store with some keys, one of which soon dies. -/
def lettered : Store :=
  (Deed.runAll 0 empty [.call (.set "a" [1] none), .call (.set "b" [2] (some 5)),
    .call (.set "c" [3] none), .call (.set "dd" [4] none), .call (.set "e" [5] none)]).2.2

/-- What is done during a walk: a key is deleted and set anew, another walk comes and goes, a key
dies, and keys are added before and behind the place of the walk. -/
def restlessLegs : List Leg :=
  [⟨0, [.call (.delete "a"), .call (.set "a" [6] none), .call (.scan 0 "?" 2),
      .call (.scan 2 "?" 9)]⟩,
    ⟨1, [.sleep 5, .call (.set "bb" [7] none), .call (.delete "c"), .call (.set "c" [8] none)]⟩,
    ⟨2, [.call (.set "0" [9] none), .size]⟩, ⟨9, []⟩]

theorem walk_complete_restless :
    (∀ p ∈ pagesAmid "?" 0 0 lettered restlessLegs, ∀ d ∈ p.meanwhile, d.uses p.next = false) ∧
    (pagesAmid "?" 0 0 lettered restlessLegs).flatMap Page.keys = ["a", "b", "c", "e"] ∧
    ((pagesAmid "?" 0 0 lettered restlessLegs).flatMap Page.keys).count "e" = 1 := by
  have hown : ∀ p ∈ pagesAmid "?" 0 0 lettered restlessLegs, ∀ d ∈ p.meanwhile,
      d.uses p.next = false := by decide +kernel
  have hlast : (pagesAmid "?" 0 0 lettered restlessLegs).getLast?.map Page.next = some 0 := by
    decide +kernel
  have hlive : ∀ p ∈ pagesAmid "?" 0 0 lettered restlessLegs, p.HasLive "e" := by decide +kernel
  obtain ⟨-, -, hall, -⟩ := walk_complete rfl hown
  have haccepts : Glob.accepts "?" "e" = true := by decide +kernel
  exact ⟨hown, by decide +kernel, hall (Option.map_eq_some_iff.1 hlast) "e" haccepts hlive⟩

end Store
end CacheLayer
