/-
What the cache holds while changes travel on a lane. A key strays when its row is
loaded before its newest change has been sent: then an old row may get into the
cache. Of a key that has not strayed, each live entry holds what the key is
intended to hold, however far the worker has come.

Between the steps of a request there is more to know, and for one key less: the
`Mark` of the caller says how far its request has come. `Cached` is what always
holds for a mark. The worker does nothing that the cache has to do with (`aside`);
each request of the caller's that has leads from one mark to the next.
-/
import CacheLayer.Proofs.Strategy.Effect
import CacheLayer.Proofs.WriteBehind.Convergence

namespace CacheLayer

variable {V α : Type} {m m' : Memory V} {i : Nat}

/-! ## Memories -/

/-- The memories differ in their lanes and statistics only. -/
def Memory.IsLike (m m' : Memory V) : Prop :=
  ∃ stats lanes, m' = { m.withStats stats with lanes := lanes }

theorem Memory.IsLike.trans {m'' : Memory V} (h : m.IsLike m') (h' : m'.IsLike m'') :
    m.IsLike m'' := by
  obtain ⟨stats, lanes, rfl⟩ := h
  obtain ⟨stats', lanes', rfl⟩ := h'
  exact ⟨stats', lanes', rfl⟩

/-- The change writes a value that is read back as it is. -/
def Change.Codes (m : Memory V) (c : Change V) : Prop :=
  ∀ v, c.value = some v → Client.Codes m c.key v

/-- The request does not touch the cache, and issues and loads nothing. -/
def Ask.IsAside (i : Nat) : Ask V → Prop
  | .update f => ∀ m, m.IsLike (f m) ∧ ((f m).lane i).issued = (m.lane i).issued
  | .request .main (.store _ _) | .request .main (.remove _) => True
  | .command _ | .request _ _ => False
  | _ => True

theorem Ask.IsIdle.isAside {q : Ask V} (h : q.IsIdle) : q.IsAside i := by
  cases q with
  | update f =>
    intro m
    obtain ⟨stats, hf⟩ := h m
    rw [hf]
    exact ⟨⟨stats, m.lanes, rfl⟩, rfl⟩
  | request id c => cases h
  | command c => cases h
  | _ => trivial

namespace WriteBehind

variable {original : KeyMap V} {key other : String} {v : V} {c : Change V} {number : Nat}
  {row : Option V} {side : Side} {r : Record V}

/-! ## Keys that stray -/

namespace History

/-- The newest change of the key has not been sent. -/
def isBehind (key : String) (h : History V) : Bool :=
  match newest? key h.issues with
  | some x => h.sendings.all fun s => s.number != x.1
  | none => false

/-- Since the newest change of the key its row was loaded, the last time before that change was
sent. -/
def strayed (key : String) : History V → Bool
  | [] => false
  | .issued _ c :: h => if c.key = key then false else strayed key h
  | .loaded k :: h => if k = key then isBehind key h else strayed key h
  | _ :: h => strayed key h

/-- Unless it has strayed, this is what the key is intended to hold. -/
def Fits (original : KeyMap V) (h : History V) (key : String) (row : Option V) : Prop :=
  strayed key h = false → row = intended original key h.issues

end History

/-- The event leaves the cache and the caller alone. -/
def Event.isAside : Event V → Bool
  | taken _ _ => true
  | sent s => s.succeeded
  | _ => false

namespace History

variable {e : Event V} {h : History V}

theorem isNews_of_isAside (he : e.isAside = true) : e.isNews = true := by
  cases e <;> first | rfl | cases he

theorem issues_aside (he : e.isAside = true) : issues (e :: h) = issues h := by
  cases e <;> first | rfl | cases he

theorem fits_aside (he : e.isAside = true) : Fits original (e :: h) key row = Fits original h key row := by
  cases e <;> first | rfl | cases he

theorem fits_loaded_other (hne : other ≠ key) :
    Fits original (.loaded key :: h) other row = Fits original h other row := by
  simp [Fits, strayed, hne.symm]

theorem fits_issued_self (hrow : row = c.value) :
    Fits original (.issued number c :: h) c.key row := by
  intro _
  simp [intended, newest?_cons_self, hrow]

theorem fits_issued_other (hne : other ≠ c.key) :
    Fits original (.issued number c :: h) other row = Fits original h other row := by
  simp [Fits, strayed, hne.symm, intended, newest?_cons_other]

end History

/-! ## Marks -/

/-- How far the caller has come with its request, as far as the cache shows it. -/
inductive Mark (V : Type) where
  | calm
  /-- The cache is about to be changed. -/
  | about (c : Change V)
  /-- The cache was changed, and the change is not issued yet. -/
  | ready (c : Change V)
  /-- The key has no live entry. -/
  | missed (key : String)
  /-- The row of the key was loaded, and the key has no live entry. -/
  | fetched (key : String) (row : Option V)
  /-- This is what will be replied. -/
  | told (key : String) (row : Option V)

/-- The live entry of a key. -/
def Record.live? (r : Record V) (key : String) : Option Entry :=
  r.scene.world.store.live? r.scene.world.now key

namespace Mark

/-- A live entry of the key may hold the value. -/
def Allows (original : KeyMap V) (h : History V) (key : String) (v : V) : Mark V → Prop
  | ready c => if c.key = key then c.value = some v else h.Fits original key (some v)
  | _ => h.Fits original key (some v)

/-- What the caller knows. -/
def Knows (m : Memory V) (original : KeyMap V) (r : Record V) : Mark V → Prop
  | calm => True
  | about c | ready c => r.history.wish? = some c ∧ c.Codes m
  | missed key => r.live? key = none
  | fetched key row => r.live? key = none ∧ r.history.Fits original key row ∧
      ∀ v, row = some v → Client.Codes m key v
  | told key row => r.history.Fits original key row

end Mark

/-- What always holds of the cache. -/
structure Cached (m : Memory V) (original : KeyMap V) (mark : Mark V) (r : Record V) : Prop where
  smooth : r.scene.world.Smooth
  memory : m.IsLike r.scene.memory
  issues : ∀ x ∈ r.history.issues, x.2.Codes m
  went : ∀ s ∈ r.history.sendings, s.succeeded = true
  entries : ∀ key e, r.live? key = some e →
    ∃ v, Client.Holds m key e v ∧ mark.Allows original r.history key v
  mark : mark.Knows m original r
  replies : ∀ older key reply, (.replied (.call (.read key)) reply :: older) <:+ r.history →
    ∃ row, History.Fits original older key row ∧ reply = Strategy.Reply.lookup key row

namespace Cached

variable {mark mark' : Mark V}

/-- Time passes, or something is done that leaves the store as it is; entries may die meanwhile. -/
theorem fade (h : Cached m original mark r) {s : Scene V} (hsmooth : s.world.Smooth)
    (hmemory : m.IsLike s.memory)
    (hlive : ∀ key e, s.world.store.live? s.world.now key = some e → r.live? key = some e) :
    Cached m original mark ⟨s, r.history⟩ := by
  have hdead : ∀ key, r.live? key = none → s.world.store.live? s.world.now key = none := by
    intro key hnone
    cases hl : s.world.store.live? s.world.now key with
    | none => rfl
    | some e =>
      rw [hlive key e hl] at hnone
      cases hnone
  refine ⟨hsmooth, hmemory, h.issues, h.went, fun key e hl => h.entries key e (hlive key e hl), ?_,
    h.replies⟩
  have hmark := h.mark
  cases mark with
  | missed key => exact hdead key hmark
  | fetched key row => exact ⟨hdead key hmark.1, hmark.2⟩
  | _ => exact hmark

theorem observed (h : Cached m original mark r) {e : Event V} (he : e.isAside = true) :
    Cached m original mark ⟨r.scene, e :: r.history⟩ := by
  have hnews := History.isNews_of_isAside he
  refine ⟨h.smooth, h.memory, ?_, ?_, fun key e' hl => ?_, ?_, fun older key reply hs => ?_⟩
  · show ∀ x ∈ History.issues (e :: r.history), x.2.Codes m
    rw [History.issues_aside he]
    exact h.issues
  · intro s hs
    cases e with
    | sent t =>
      rcases List.mem_cons.1 hs with rfl | hs
      · exact he
      · exact h.went s hs
    | taken number c => exact h.went s hs
    | _ => cases he
  · obtain ⟨v, hv, hallows⟩ := h.entries key e' hl
    refine ⟨v, hv, ?_⟩
    cases mark <;> simpa [Mark.Allows, History.fits_aside he] using hallows
  · have hmark := h.mark
    cases mark with
    | about c | ready c => exact ⟨(History.wish?_news hnews).trans hmark.1, hmark.2⟩
    | fetched key row =>
      refine ⟨hmark.1, ?_, hmark.2.2⟩
      simpa [History.fits_aside he] using hmark.2.1
    | told key row => simpa [Mark.Knows, History.fits_aside he] using hmark
    | _ => exact hmark
  · exact h.replies older key reply
      (History.suffix_of_not_reply (Event.isReply_of_isNews hnews) hs)

end Cached

/-! ## Requests that the cache has nothing to do with -/

theorem isAside_changed {h : History V} {l l' : Lane V} (hissued : l'.issued = l.issued) :
    ∀ e ∈ changed side h l l', e.isAside = true := by
  intro e he
  cases side with
  | caller =>
    rw [changed_caller hissued] at he
    cases he
  | worker =>
    simp only [changed] at he
    split at he
    · obtain ⟨x, -, rfl⟩ := Option.map_eq_some_iff.1 he
      rfl
    · cases he

namespace Cached

variable {mark mark' : Mark V}

theorem perform_of (h : Cached m original mark r) {q : Ask V}
    (hsmooth : (q.perform r.scene).2.world.Smooth) (hmemory : m.IsLike (q.perform r.scene).2.memory)
    (hstore : (q.perform r.scene).2.world.store = r.scene.world.store)
    (hnow : (q.perform r.scene).2.world.now = r.scene.world.now)
    (he : ∀ e ∈ observe side r.history (r.scene.memory.lane i)
      ((q.perform r.scene).2.memory.lane i) q (q.perform r.scene).1, e.isAside = true) :
    Cached m original mark (r.perform i side q).2 := by
  have hfade : Cached m original mark ⟨(q.perform r.scene).2, r.history⟩ := by
    refine h.fade hsmooth hmemory fun key e hl => ?_
    rw [hstore, hnow] at hl
    exact hl
  show Cached m original mark ⟨(q.perform r.scene).2, (observe side r.history
    (r.scene.memory.lane i) ((q.perform r.scene).2.memory.lane i) q (q.perform r.scene).1).toList ++
      r.history⟩
  cases hevent : observe side r.history (r.scene.memory.lane i)
      ((q.perform r.scene).2.memory.lane i) q (q.perform r.scene).1 with
  | none => exact hfade
  | some e => exact hfade.observed (he e hevent)

theorem perform (h : Cached m original mark r) {q : Ask V} (hq : q.IsAside i) :
    Cached m original mark (r.perform i side q).2 := by
  have hsmooth := h.smooth
  cases q with
  | update f =>
    obtain ⟨hlike, hissued⟩ := hq r.scene.memory
    exact h.perform_of hsmooth (h.memory.trans hlike) rfl rfl (isAside_changed hissued)
  | request id call =>
    cases id with
    | other j => cases call <;> cases hq
    | main =>
      have hsmooth' := hsmooth.after_request call
      cases call with
      | store key v =>
        refine h.perform_of hsmooth' h.memory rfl rfl fun e he => ?_
        cases he
        exact congrArg Except.toBool (hsmooth.store key v)
      | remove key =>
        refine h.perform_of hsmooth' h.memory rfl rfl fun e he => ?_
        cases he
        exact congrArg Except.toBool (hsmooth.remove key)
      | _ => cases hq
  | command call => cases hq
  | health =>
    have hhealth : r.scene.world.checkHealth.2.Smooth ∧
        r.scene.world.checkHealth.2.store = r.scene.world.store ∧
        r.scene.world.checkHealth.2.now = r.scene.world.now := by
      unfold World.checkHealth
      split
      · exact ⟨hsmooth, rfl, rfl⟩
      · exact ⟨⟨hsmooth.commands, hsmooth.requests, hsmooth.accepts, hsmooth.loads⟩, rfl, rfl⟩
    exact h.perform_of hhealth.1 h.memory hhealth.2.1 hhealth.2.2 fun _ he => by cases he
  | draw _ | note _ =>
    exact h.perform_of ⟨hsmooth.commands, hsmooth.requests, hsmooth.accepts, hsmooth.loads⟩
      h.memory rfl rfl fun _ he => by cases he
  | _ => exact h.perform_of hsmooth h.memory rfl rfl fun _ he => by cases he

end Cached

/-! ## Issuing and loading -/

theorem exists_sent_of_not_behind {h : History V} (hbehind : h.isBehind key = false)
    {x : Nat × Change V} (hnewest : newest? key h.issues = some x) :
    ∃ s ∈ h.sendings, s.number = x.1 := by
  rw [History.isBehind, hnewest] at hbehind
  simpa using hbehind

/-- A row has a value that was there from the beginning, or one that was written. -/
theorem Ledger.rows_codes {rows : KeyMap V} {hands : Hands V} {l : Lane V}
    {issues : List (Nat × Change V)} {sendings : List (Sending V)}
    (h : Ledger original hands l issues sendings rows)
    (horiginal : ∀ key v, original.get? key = some v → Client.Codes m key v)
    (hissues : ∀ x ∈ issues, x.2.Codes m) (hrow : rows.get? key = some v) :
    Client.Codes m key v := by
  rw [h.rows key, written] at hrow
  split at hrow
  · next s hfind =>
    have hkey : s.change.key = key := by
      have hp := List.find?_some hfind
      simp only [Bool.and_eq_true, beq_iff_eq] at hp
      exact hp.1
    have hs := h.sentIssued s (List.mem_of_find?_eq_some hfind)
    exact hkey ▸ hissues _ hs v hrow
  · exact horiginal key v hrow

namespace Cached

variable {mark mark' : Mark V}

theorem issue (h : Cached m original (.ready c) r) (hrange : i < r.scene.memory.lanes.length) :
    Cached m original .calm
      (r.perform i .caller (.update fun m => m.onLane i (·.issue c.key))).2 := by
  obtain ⟨hwish, hcodes⟩ := h.mark
  have hevent : (r.perform i .caller (.update fun m => m.onLane i (·.issue c.key))).2.history =
      .issued ((r.scene.memory.lane i).issued + 1) c :: r.history := by
    have hlane := Memory.lane_onLane hrange (·.issue c.key)
    simp [Record.perform, Ask.perform, observe, hlane, changed_issue hwish]
  have hlike : m.IsLike (r.scene.memory.onLane i (·.issue c.key)) :=
    h.memory.trans ⟨r.scene.memory.strategy.stats, _, rfl⟩
  refine ⟨h.smooth, hlike, ?_, ?_, ?_, trivial, ?_⟩
  · rw [hevent]
    intro x hx
    rcases List.mem_cons.1 hx with rfl | hx
    · exact hcodes
    · exact h.issues x hx
  · rw [hevent]
    exact h.went
  · rw [hevent]
    intro key e hl
    obtain ⟨v, hv, hallows⟩ := h.entries key e hl
    refine ⟨v, hv, ?_⟩
    by_cases hkey : key = c.key
    · subst hkey
      have hvalue : c.value = some v := by simpa [Mark.Allows] using hallows
      exact History.fits_issued_self hvalue.symm
    · have hfits : History.Fits original r.history key (some v) := by
        simpa [Mark.Allows, Ne.symm hkey] using hallows
      simpa [Mark.Allows, History.fits_issued_other hkey] using hfits
  · rw [hevent]
    exact fun older key reply hs =>
      h.replies older key reply (History.suffix_of_not_reply rfl hs)

theorem load (h : Cached m original (.missed key) r) {ph : Phases V}
    (hbooks : Ledger original ph.hands (r.scene.memory.lane i) r.history.issues r.history.sendings
      r.scene.world.rows)
    (horiginal : ∀ key v, original.get? key = some v → Client.Codes m key v) :
    (r.perform i .caller (.request .main (.loadOne key))).1 =
        .ok (r.scene.world.rows.get? key) ∧
      Cached m original (.fetched key (r.scene.world.rows.get? key))
        (r.perform i .caller (.request .main (.loadOne key))).2 := by
  refine ⟨h.smooth.load key, h.smooth.after_request _, h.memory, h.issues, h.went, ?_, ?_, ?_⟩
  · intro other e hl
    obtain ⟨v, hv, hallows⟩ := h.entries other e hl
    -- only a key that was missed is loaded, so no live entry is of this key
    have hne : other ≠ key := by
      intro heq
      have hnone : r.live? key = none := h.mark
      rw [← heq, show r.live? other = some e from hl] at hnone
      cases hnone
    refine ⟨v, hv, ?_⟩
    show History.Fits original (.loaded key :: r.history) other (some v)
    rw [History.fits_loaded_other hne]
    exact hallows
  · refine ⟨h.mark, fun hstrayed => ?_, fun v hrow => ?_⟩
    -- not strayed right after the load means that the newest change has been sent
    · have hbehind : r.history.isBehind key = false := by
        simpa [Record.perform, Ask.perform, observe, History.strayed] using hstrayed
      exact hbooks.rows_intended h.went fun x hx => exists_sent_of_not_behind hbehind hx
    · exact hbooks.rows_codes horiginal h.issues hrow
  · exact fun older key reply hs =>
      h.replies older key reply (History.suffix_of_not_reply rfl hs)

theorem tell (h : Cached m original (.fetched key row) r) : Cached m original (.told key row) r :=
  ⟨h.smooth, h.memory, h.issues, h.went, h.entries, h.mark.2.1, h.replies⟩

/-! ## Commands -/

theorem perform_command (h : Cached m original mark r) (c : Store.Call) :
    r.perform i .caller (.command c) =
      ((c.run r.scene.world.now r.scene.world.store).1,
        ⟨Strategy.stored r.scene (c.run r.scene.world.now r.scene.world.store).2, r.history⟩) := by
  simp [Record.perform, Ask.perform, observe, h.smooth.command, Strategy.stored]

theorem restock (h : Cached m original mark r) {store : Store}
    (hentries : ∀ key e, store.live? r.scene.world.now key = some e →
      ∃ v, Client.Holds m key e v ∧ mark'.Allows original r.history key v)
    (hmark : mark'.Knows m original ⟨Strategy.stored r.scene store, r.history⟩) :
    Cached m original mark' ⟨Strategy.stored r.scene store, r.history⟩ where
  smooth := ⟨h.smooth.commands, h.smooth.requests, h.smooth.accepts, h.smooth.loads⟩
  memory := h.memory
  issues := h.issues
  went := h.went
  entries := hentries
  mark := hmark
  replies := h.replies

/-- The store is changed, but no entry is new. -/
theorem thin (h : Cached m original .calm r) {store : Store}
    (hstore : ∀ key e, store.entries.get? key = some e →
      r.scene.world.store.entries.get? key = some e)
    (hmark' : ∀ key v, Mark.calm.Allows original r.history key v →
      mark'.Allows original r.history key v)
    (hmark : mark'.Knows m original ⟨Strategy.stored r.scene store, r.history⟩) :
    Cached m original mark' ⟨Strategy.stored r.scene store, r.history⟩ := by
  refine h.restock (fun key e hl => ?_) hmark
  obtain ⟨v, hv, hallows⟩ := h.entries key e (Store.live?_of_entries (hstore key e) hl)
  exact ⟨v, hv, hmark' key v hallows⟩

theorem get (h : Cached m original .calm r) (key : String) :
    ((r.perform i .caller (.command (.get key))).1 = .ok none ∧
      Cached m original (.missed key) (r.perform i .caller (.command (.get key))).2) ∨
    ∃ b v, (r.perform i .caller (.command (.get key))).1 = .ok (some b) ∧
      Client.decoded m m.format key b = .ok v ∧
      Cached m original (.told key (some v)) (r.perform i .caller (.command (.get key))).2 := by
  rw [h.perform_command]
  have hpurged : ∀ other e, (r.scene.world.store.purge r.scene.world.now key).entries.get? other =
      some e → r.scene.world.store.entries.get? other = some e :=
    fun _ _ => Store.entries_purge
  simp only [Store.Call.run, Store.get, Store.get?_purge_self]
  cases hl : r.scene.world.store.live? r.scene.world.now key with
  | none =>
    refine .inl ⟨rfl, h.thin hpurged (fun _ _ hv => hv) ?_⟩
    show (r.scene.world.store.purge r.scene.world.now key).live? r.scene.world.now key = none
    rw [Store.live?_purge _ _ _ (Nat.le_refl _), hl]
  | some e =>
    obtain ⟨v, ⟨b, hb, hd⟩, hallows⟩ := h.entries key e hl
    simp only [hb]
    exact .inr ⟨b, v, rfl, hd, h.thin hpurged (fun _ _ hv => hv) hallows⟩

theorem set (h : Cached m original mark r) {b : Bytes}
    (hb : Client.decoded m m.format key b = .ok v) (life : Option Nat)
    (hself : mark'.Allows original r.history key v)
    (hother : ∀ other u, other ≠ key → mark.Allows original r.history other u →
      mark'.Allows original r.history other u)
    (hmark : ∀ store, mark'.Knows m original ⟨Strategy.stored r.scene store, r.history⟩) :
    Cached m original mark' (r.perform i .caller (.command (.set key b life))).2 := by
  rw [h.perform_command]
  refine h.restock (fun other e hl => ?_) (hmark _)
  by_cases hkey : other = key
  · subst hkey
    have he := Store.get?_of_live? hl
    rw [Store.Call.run, Store.entries_set_self] at he
    cases he
    exact ⟨v, ⟨b, rfl, hb⟩, hself⟩
  · rw [Store.Call.run, Store.set, Store.live?_put_other _ _ _ hkey] at hl
    obtain ⟨u, hu, hallows⟩ := h.entries other e hl
    exact ⟨u, hu, hother other u hkey hallows⟩

theorem setAbout (h : Cached m original (.about ⟨key, some v⟩) r) {b : Bytes}
    (hb : Client.decoded m m.format key b = .ok v) (life : Option Nat) :
    Cached m original (.ready ⟨key, some v⟩)
      (r.perform i .caller (.command (.set key b life))).2 := by
  refine h.set hb life ?_ (fun other u hne hu => ?_) fun _ => h.mark
  · simp [Mark.Allows]
  · simpa [Mark.Allows, hne.symm] using hu

theorem setFetched (h : Cached m original (.fetched key (some v)) r) {b : Bytes}
    (hb : Client.decoded m m.format key b = .ok v) (life : Option Nat) :
    Cached m original (.told key (some v))
      (r.perform i .caller (.command (.set key b life))).2 :=
  h.set hb life h.mark.2.1 (fun _ _ _ hu => hu) fun _ => h.mark.2.1

theorem deleteAbout (h : Cached m original (.about ⟨key, none⟩) r) :
    Cached m original (.ready ⟨key, none⟩) (r.perform i .caller (.command (.delete key))).2 := by
  rw [h.perform_command]
  refine h.restock (fun other e hl => ?_) h.mark
  have hne := (Store.entries_delete (Store.get?_of_live? hl)).1
  obtain ⟨v, hv, hallows⟩ := h.entries other e
    (Store.live?_of_entries (fun he => (Store.entries_delete he).2) hl)
  refine ⟨v, hv, ?_⟩
  simpa [Mark.Allows, hne.symm] using hallows

theorem has (h : Cached m original .calm r) (key : String) :
    Cached m original .calm (r.perform i .caller (.command (.has key))).2 := by
  rw [h.perform_command]
  exact h.thin (fun _ _ => Store.entries_purge) (fun _ _ hv => hv) trivial

theorem flush (h : Cached m original .calm r) :
    Cached m original .calm (r.perform i .caller (.command .flush)).2 := by
  rw [h.perform_command]
  refine h.thin (fun key e he => ?_) (fun _ _ hv => hv) trivial
  simp [Store.Call.run, Store.flush] at he

/-! ## Requests and replies of the caller -/

theorem later (h : Cached m original mark r) (ms : Nat) :
    Cached m original mark ⟨{ r.scene with world := r.scene.world.later ms }, r.history⟩ :=
  h.fade ⟨h.smooth.commands, h.smooth.requests, h.smooth.accepts, h.smooth.loads⟩ h.memory
    fun _ _ hl => Store.live?_of_later (Nat.le_add_right _ _) hl

end Cached

/-- Where a call begins. -/
def Mark.before (c : Strategy.Call V) : Mark V :=
  match c.change? with
  | some d => .about d
  | none => .calm

/-- The call may end like this. -/
def Mark.Ends (c : Strategy.Call V) (reply : Strategy.Reply V) (mark : Mark V) : Prop :=
  match c with
  | .read key => ∃ row, mark = .told key row ∧ reply = Strategy.Reply.lookup key row
  | _ => mark = .calm

namespace Cached

variable {mark : Mark V}

theorem asked (h : Cached m original .calm r) {c : Strategy.Call V} (hc : c.Codes m) :
    Cached m original (Mark.before c) { r with history := .asked (.call c) :: r.history } := by
  refine ⟨h.smooth, h.memory, h.issues, h.went, fun key e hl => ?_, ?_, fun older key reply hs =>
    h.replies older key reply (History.suffix_of_not_reply rfl hs)⟩
  · obtain ⟨v, hv, hallows⟩ := h.entries key e hl
    exact ⟨v, hv, by cases c <;> exact hallows⟩
  · cases c with
    | write key v life =>
      refine ⟨rfl, fun u hu => ?_⟩
      cases hu
      exact hc
    | delete key => exact ⟨rfl, by rintro u ⟨⟩⟩
    | _ => trivial

theorem replied (h : Cached m original mark r) {c : Strategy.Call V} {reply : Strategy.Reply V}
    (hends : mark.Ends c reply) :
    Cached m original .calm { r with history := .replied (.call c) reply :: r.history } := by
  refine ⟨h.smooth, h.memory, h.issues, h.went, fun key e hl => ?_, trivial,
    fun older key reply' hs => ?_⟩
  · obtain ⟨v, hv, hallows⟩ := h.entries key e hl
    refine ⟨v, hv, ?_⟩
    cases c with
    | read key' =>
      obtain ⟨row, rfl, -⟩ := hends
      exact hallows
    | _ =>
      rw [show mark = .calm from hends] at hallows
      exact hallows
  · rcases List.suffix_cons_iff.1 hs with heq | hs
    · cases heq
      obtain ⟨row, rfl, hreply⟩ := hends
      exact ⟨row, h.mark, hreply⟩
    · exact h.replies older key reply' hs

end Cached
end WriteBehind
end CacheLayer
