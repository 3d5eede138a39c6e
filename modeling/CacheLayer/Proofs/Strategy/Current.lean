/-
Whether the cache is current when the source may fail and values may fail to be
encoded or decoded. The formats and the transformers may be others for every
call, so that any call can fail there at any time; all that is assumed is that
what is read back at all is what was written. The invariant is that the entry of
a key, dead or alive, was stored for the value of its row. A call breaks it for a
key only by changing the row and failing nevertheless (`Turnout.current`). Under
write-through no call does that; under cache-aside a write does whose value the
source takes and the cache cannot encode, and the key lags as long as it keeps
the entry that it had.

Main statements: `writeThrough_current` and `cacheAside_current`.
-/
import CacheLayer.Proofs.Strategy.Turnout
import CacheLayer.Transform.Standard

namespace CacheLayer

variable {V : Type}

/-! ## Kits -/

/-- What values are encoded and decoded with. -/
structure Kit (V : Type) where
  format : Format V
  transformers : Transformers

/-- The memory with a kit in use. -/
def Memory.equip (m : Memory V) (k : Kit V) : Memory V :=
  { m with format := k.format, transformers := k.transformers }

/-- What one of the kits has encoded, each of them decodes to the same value or not at all. -/
def Kit.ReadBack (m : Memory V) (K : Kit V → Prop) : Prop :=
  ∀ k k', K k → K k' → ∀ fresh key v b v', Client.coded (m.equip k) k.format fresh key v = .ok b →
    Client.decoded (m.equip k') k'.format key b = .ok v' → v' = v

namespace Strategy

/-- The entry was stored for a value, with one of the kits. -/
def Bears (m : Memory V) (K : Kit V → Prop) (key : String) (e : Entry) (v : V) : Prop :=
  ∃ k fresh b, K k ∧ Client.coded (m.equip k) k.format fresh key v = .ok b ∧ e.value = .bytes b

/-- The entry of a key, dead or alive, was stored for the value of its row. -/
def Current (m : Memory V) (K : Kit V → Prop) (store : Store) (rows : KeyMap V) (key : String) :
    Prop :=
  ∀ e, store.entries.get? key = some e → ∃ v, Bears m K key e v ∧ rows.get? key = some v

variable {m : Memory V} {K : Kit V → Prop} {store store' : Store} {rows rows' : KeyMap V}
  {key : String} {p : Step V} {r : Reply V}

theorem Current.value {e : Entry} {v : V} {k : Kit V} (h : Current m K store rows key)
    (hread : Kit.ReadBack m K) (hk : K k) (he : store.entries.get? key = some e)
    (hv : Client.Holds (m.equip k) key e v) : rows.get? key = some v := by
  obtain ⟨b, hb, hdecoded⟩ := hv
  obtain ⟨u, ⟨k', fresh, b', hk', hcoded, hb'⟩, hrow⟩ := h e he
  obtain rfl : b = b' := Value.bytes.inj (hb.symm.trans hb')
  rw [hread k' k hk' hk fresh key u b v hcoded hdecoded]
  exact hrow

/-! ## What a step does to it -/

/-- The step has written the key. -/
def Step.writes (key : String) : Step V → Reply V → Bool
  | .call (.write k _ _), .done => k == key
  | _, _ => false

/-- The reply is an error. -/
def Reply.isFailed : Reply V → Bool
  | .failed _ => true
  | _ => false

namespace Turnout

variable {k : Kit V} {stats : StrategyStats}

theorem bears {v : V} {fresh t : Nat} {b : Bytes} (hk : K k)
    (hcoded : Client.coded ((m.equip k).withStats stats) ((m.equip k).withStats stats).format fresh
      key v = .ok b) (life : Option Nat) : Bears m K key (.born (.bytes b) life t) v :=
  ⟨k, fresh, b, hk, hcoded, rfl⟩

/-- A key stays current unless the step changes its row and fails nevertheless. -/
theorem current (ht : Turnout ((m.equip k).withStats stats) store rows p r store' rows')
    (hk : K k) (hcur : Current m K store rows key)
    (hrow : r.isFailed = true → rows'.get? key = rows.get? key) :
    Current m K store' rows' key := by
  intro e he
  cases ht with
  | slept | notWritten | notDeleted => exact hcur e he
  | looked | asked => exact hcur e (Store.entries_purge he)
  | @loaded k' v fresh now t b row coded =>
    by_cases hkey : key = k'
    · subst hkey
      rw [Store.entries_set_self] at he
      cases he
      exact ⟨v, bears hk coded _, row⟩
    · rw [Store.entries_set_other _ _ _ _ hkey] at he
      exact hcur e (Store.entries_purge he)
  | @written k' v life fresh t b coded =>
    by_cases hkey : key = k'
    · subst hkey
      rw [Store.entries_set_self] at he
      cases he
      exact ⟨v, bears hk coded _, KeyMap.get?_insert_self _ _ _⟩
    · rw [Store.entries_set_other _ _ _ _ hkey] at he
      rw [KeyMap.get?_insert_other _ _ hkey]
      exact hcur e he
  | takenBack through =>
    obtain ⟨hne, he⟩ := Store.entries_delete he
    rw [Store.entries_set_other _ _ _ _ hne] at he
    exact hcur e he
  | leftBehind aside =>
    rw [hrow rfl]
    exact hcur e he
  | deleted =>
    obtain ⟨hne, he⟩ := Store.entries_delete he
    rw [KeyMap.get?_erase_other _ hne]
    exact hcur e he
  | forgotten through => exact hcur e (Store.entries_delete he).2
  | cleared => simp [Store.flush] at he

theorem current_of_writes (ht : Turnout ((m.equip k).withStats stats) store rows p r store' rows')
    (hk : K k) (hwrites : p.writes key r = true) : Current m K store' rows' key := by
  intro e he
  cases ht with
  | @written k' v life fresh t b coded =>
    obtain rfl : k' = key := by simpa [Step.writes] using hwrites
    rw [Store.entries_set_self] at he
    cases he
    exact ⟨v, bears hk coded _, KeyMap.get?_insert_self _ _ _⟩
  | _ => cases hwrites

/-- Under write-through a step that fails changes no row. -/
theorem rows_of_failed {m : Memory V} (ht : Turnout m store rows p r store' rows')
    (hp : m.strategy.policy = .writeThrough) (hfailed : r.isFailed = true) : rows' = rows := by
  cases ht with
  | leftBehind aside => rw [hp] at aside; cases aside
  | written | deleted | cleared => cases hfailed
  | _ => rfl

/-- A write that fails leaves the rows, and the entry of its key is as it was or taken back; or,
under cache-aside, it leaves the store, and the row is new. -/
theorem of_failed_write {m : Memory V} {v : V} {life : Option Nat} {e : Error}
    (ht : Turnout m store rows (.call (.write key v life)) (.failed e) store' rows') :
    (store' = store ∧ rows' = rows) ∨
    (m.strategy.policy = .writeThrough ∧ rows' = rows ∧ store'.entries.get? key = none) ∨
    (m.strategy.policy = .cacheAside ∧ store' = store ∧ rows' = rows.insert key v) := by
  cases ht with
  | notWritten => exact .inl ⟨rfl, rfl⟩
  | takenBack through => exact .inr (.inl ⟨through, rfl, KeyMap.get?_erase_self _ _⟩)
  | leftBehind aside => exact .inr (.inr ⟨aside, rfl, rfl⟩)

end Turnout

/-! ## Runs -/

/-- A step, and the kit that is in use by then. -/
structure Turn (V : Type) where
  kit : Kit V
  step : Step V

/-- The reply to a step with its kit, and the scene after it. -/
def Turn.run (p : Turn V) (s : Scene V) : Reply V × Scene V :=
  p.step.program.run { s with memory := s.memory.equip p.kit }

/-- The scene after steps one after the other. -/
def afterTurns : List (Turn V) → Scene V → Scene V
  | [], s => s
  | p :: ps, s => afterTurns ps (p.run s).2

/-- Whether a key lags after some steps, by whether it lagged before them. It lags as long as it has
an entry from before a step that failed and nevertheless changed its row. -/
def Lags (key : String) : List (Turn V) → Scene V → Prop → Prop
  | [], _, lag => lag
  | p :: ps, s, lag =>
    Lags key ps (p.run s).2 ((p.run s).2.world.store.entries.contains key = true ∧
      p.step.writes key (p.run s).1 = false ∧
      (lag ∨ (p.run s).1.isFailed = true ∧
        (p.run s).2.world.rows.get? key ≠ s.world.rows.get? key))

/-- Where a run has come to: the store does not fail, and the memory is as it was but for kit and
statistics. -/
structure Abides (m : Memory V) (s : Scene V) : Prop where
  steady : s.world.Steady
  memory : ∃ k stats, s.memory = (m.equip k).withStats stats

theorem Abides.turn {s : Scene V} (h : Abides m s) (hp : Pairs m.strategy.policy) (p : Turn V) :
    Abides m (p.run s).2 ∧ ∃ stats, Turnout ((m.equip p.kit).withStats stats) s.world.store
      s.world.rows p.step (p.run s).1 (p.run s).2.world.store (p.run s).2.world.rows := by
  obtain ⟨k, stats, hm⟩ := h.memory
  have hequip : s.memory.equip p.kit = (m.equip p.kit).withStats stats := by rw [hm]; rfl
  have hp' : Pairs (s.memory.equip p.kit).strategy.policy := by rw [hequip]; exact hp
  obtain ⟨hturn, hsteady, stats', hm'⟩ :=
    turned_step (s := { s with memory := s.memory.equip p.kit }) h.steady hp' p.step
  refine ⟨⟨hsteady, p.kit, stats', ?_⟩, stats, ?_⟩
  · rw [Turn.run, hm', hequip]
    rfl
  · rw [← hequip]
    exact hturn

theorem Abides.turns {ps : List (Turn V)} {s : Scene V} (h : Abides m s)
    (hp : Pairs m.strategy.policy) : Abides m (afterTurns ps s) := by
  induction ps generalizing s with
  | nil => exact h
  | cons p ps ih => exact ih (h.turn hp p).1

/-- A key that does not lag is current. -/
theorem current_afterTurns {ps : List (Turn V)} {s : Scene V} {lag : Prop} (h : Abides m s)
    (hp : Pairs m.strategy.policy) (hps : ∀ p ∈ ps, K p.kit)
    (hcur : ¬ lag → Current m K s.world.store s.world.rows key) (hlags : ¬ Lags key ps s lag) :
    Current m K (afterTurns ps s).world.store (afterTurns ps s).world.rows key := by
  induction ps generalizing s lag with
  | nil => exact hcur hlags
  | cons p ps ih =>
    obtain ⟨hafter, stats, hturn⟩ := h.turn hp p
    have hk : K p.kit := hps p List.mem_cons_self
    refine ih hafter (fun q hq => hps q (List.mem_cons_of_mem p hq)) (fun hnot => ?_) hlags
    -- Before the step the key may have lagged. It is current again if the step has written it, or
    -- if nothing is left that could lag.
    by_cases hthere : (p.run s).2.world.store.entries.contains key = true
    · by_cases hwrites : p.step.writes key (p.run s).1 = true
      · exact hturn.current_of_writes hk hwrites
      · have hclean : ¬ (lag ∨ (p.run s).1.isFailed = true ∧
            (p.run s).2.world.rows.get? key ≠ s.world.rows.get? key) :=
          fun hlag => hnot ⟨hthere, Bool.eq_false_iff.2 hwrites, hlag⟩
        refine hturn.current hk (hcur fun hlag => hclean (.inl hlag)) fun hfailed => ?_
        by_contra hchanged
        exact hclean (.inr ⟨hfailed, hchanged⟩)
    · intro e he
      exact absurd (by rw [KeyMap.contains, he]; rfl) hthere

/-- Under write-through no key ever lags. -/
theorem not_lags {ps : List (Turn V)} {s : Scene V} {lag : Prop} (h : Abides m s)
    (hp : m.strategy.policy = .writeThrough) (hlag : ¬ lag) : ¬ Lags key ps s lag := by
  induction ps generalizing s lag with
  | nil => exact hlag
  | cons p ps ih =>
    obtain ⟨hafter, stats, hturn⟩ := h.turn (.inl hp) p
    refine ih hafter ?_
    rintro ⟨-, -, hbefore | ⟨hfailed, hchanged⟩⟩
    · exact hlag hbefore
    · rw [hturn.rows_of_failed hp hfailed] at hchanged
      exact hchanged rfl

theorem abides_start {w : World V} (hw : w.Steady) (m : Memory V) (p : Policy) :
    Abides (under m p) ⟨w, under m p⟩ :=
  ⟨hw, ⟨m.format, m.transformers⟩, m.strategy.stats, rfl⟩

/-- What is read back of a live entry after a run from an empty store, if its key does not lag. -/
theorem row_of_live {w : World V} {p : Policy} {turns : List (Turn V)} {k : Kit V} {e : Entry}
    {v : V} (hp : Pairs p) (hw : w.Steady) (hempty : w.store.entries = KeyMap.empty)
    (hread : Kit.ReadBack m K) (hturns : ∀ q ∈ turns, K q.kit) (hk : K k)
    (hlags : ¬ Lags key turns ⟨w, under m p⟩ False)
    (hlive : (afterTurns turns ⟨w, under m p⟩).world.store.live?
      (afterTurns turns ⟨w, under m p⟩).world.now key = some e)
    (hv : Client.Holds (m.equip k) key e v) :
    (afterTurns turns ⟨w, under m p⟩).world.rows.get? key = some v := by
  have hstart : Current (under m p) K w.store w.rows key := by
    intro e he
    rw [hempty] at he
    cases he
  have hafter := current_afterTurns (abides_start hw m p) hp hturns (fun _ => hstart) hlags
  exact hafter.value hread hk (Store.get?_of_live? hlive) hv

/-- **Write-through stays current.** The store starts empty and does not fail; the source may, as
may every encoding and decoding, but what is read back at all is what was written. Then after every
run no live entry is read back as anything but the value of its row; and a write that fails leaves
the rows as they were, and the entry of its key as it was or gone. -/
theorem writeThrough_current {w : World V} {m : Memory V} {K : Kit V → Prop}
    {turns : List (Turn V)} {s : Scene V} (hw : w.Steady)
    (hempty : w.store.entries = KeyMap.empty) (hread : Kit.ReadBack m K)
    (hturns : ∀ p ∈ turns, K p.kit) (hrun : afterTurns turns ⟨w, under m .writeThrough⟩ = s) :
    (∀ k key e v, K k → s.world.store.live? s.world.now key = some e →
      Client.Holds (m.equip k) key e v → s.world.rows.get? key = some v) ∧
    ∀ k key v life err s', Turn.run ⟨k, .call (.write key v life)⟩ s = (.failed err, s') →
      s'.world.rows = s.world.rows ∧
      (s'.world.store.entries.get? key = s.world.store.entries.get? key ∨
        s'.world.store.entries.get? key = none) := by
  subst hrun
  have hstart := abides_start hw m .writeThrough
  refine ⟨fun k key e v hk hlive hv => ?_, fun k key v life err s' hfails => ?_⟩
  · have hlags : ¬ Lags key turns ⟨w, under m .writeThrough⟩ False :=
      not_lags hstart rfl not_false
    exact row_of_live (.inl rfl) hw hempty hread hturns hk hlags hlive hv
  · obtain ⟨-, stats, hturn⟩ := (hstart.turns (.inl rfl)).turn (.inl rfl)
      ⟨k, .call (.write key v life)⟩
    rw [hfails] at hturn
    rcases hturn.of_failed_write with ⟨hstore, hrows⟩ | ⟨-, hrows, hgone⟩ | ⟨haside, -, -⟩
    · exact ⟨hrows, .inl (by rw [hstore])⟩
    · exact ⟨hrows, .inr hgone⟩
    · cases haside

/-- Bytes as they are, of which a transformer refuses those that are greater than nine. -/
def digits : Kit UInt8 where
  format := Client.byteFormat
  transformers :=
    [(Transformer.validation none (some fun _ _ => false) 0).restrictTo fun _ b => b.any (9 < ·)]

theorem readBack_digits (m : Memory UInt8) : Kit.ReadBack m (· = digits) := by
  rintro k k' rfl rfl fresh key v b v' hcoded hdecoded
  have hb : [v] = b := by
    by_cases hv : 9 < v
    · simp [Client.coded, Memory.equip, digits, Client.byteFormat, Transformers.applyAll,
        Transformer.restrictTo, Transformer.validation, bind, Except.bind, hv] at hcoded
    · simpa [Client.coded, Memory.equip, digits, Client.byteFormat, Transformers.applyAll,
        Transformer.restrictTo, Envelope.wrap, bind, Except.bind, hv] using hcoded
  subst hb
  have hv : v = v' := by
    simpa [Client.decoded, digits, Client.byteFormat, Envelope.unwrap, Envelope.magic, bind,
      Except.bind] using hdecoded
  exact hv.symm

/-- An empty world whose source will fail the second time that it is asked to store a value. -/
def fragile : World UInt8 :=
  World.onSite (.start default) .main fun site => site.script .store [none, some (.source "down")]

/-- A value that cannot be encoded changes nothing, and one that the source refuses is taken back. -/
theorem writeThrough_current_fragile :
    (afterTurns [⟨digits, .call (.write "k" 7 none)⟩, ⟨digits, .call (.write "k" 12 none)⟩]
      ⟨fragile, under Client.byteMemory .writeThrough⟩).world.rows.get? "k" = some 7 ∧
    ∃ s', Turn.run ⟨digits, .call (.write "k" 8 none)⟩
        (afterTurns [⟨digits, .call (.write "k" 7 none)⟩, ⟨digits, .call (.write "k" 12 none)⟩]
          ⟨fragile, under Client.byteMemory .writeThrough⟩) = (.failed (.source "down"), s') ∧
      s'.world.rows.get? "k" = some 7 ∧ s'.world.store.entries.get? "k" = none := by
  have hturns : ∀ p ∈ [(⟨digits, .call (.write "k" 7 none)⟩ : Turn UInt8),
      ⟨digits, .call (.write "k" 12 none)⟩], p.kit = digits := by simp
  have hboth := writeThrough_current (w := fragile) (m := Client.byteMemory) (K := (· = digits))
    (fun _ => rfl) rfl (readBack_digits _) hturns rfl
  have hrow := hboth.1 digits "k" ⟨.bytes [7], none⟩ 7 rfl rfl ⟨[7], rfl, rfl⟩
  refine ⟨hrow, _, rfl, ?_, rfl⟩
  rw [(hboth.2 digits "k" 8 none (.source "down") _ rfl).1]
  exact hrow

/-- **Cache-aside is current but for keys that lag.** As for write-through; but a write that fails
may have changed the row, and then the entry of its key is left as it was. -/
theorem cacheAside_current {w : World V} {m : Memory V} {K : Kit V → Prop}
    {turns : List (Turn V)} {s : Scene V} (hw : w.Steady)
    (hempty : w.store.entries = KeyMap.empty) (hread : Kit.ReadBack m K)
    (hturns : ∀ p ∈ turns, K p.kit) (hrun : afterTurns turns ⟨w, under m .cacheAside⟩ = s) :
    (∀ k key e v, K k → ¬ Lags key turns ⟨w, under m .cacheAside⟩ False →
      s.world.store.live? s.world.now key = some e → Client.Holds (m.equip k) key e v →
      s.world.rows.get? key = some v) ∧
    ∀ k key v life err s', Turn.run ⟨k, .call (.write key v life)⟩ s = (.failed err, s') →
      s'.world.store = s.world.store ∧
      (s'.world.rows = s.world.rows ∨ s'.world.rows = s.world.rows.insert key v) := by
  subst hrun
  have hstart := abides_start hw m .cacheAside
  refine ⟨fun k key e v hk hlags hlive hv => ?_, fun k key v life err s' hfails => ?_⟩
  · exact row_of_live (.inr rfl) hw hempty hread hturns hk hlags hlive hv
  · obtain ⟨-, stats, hturn⟩ := (hstart.turns (.inr rfl)).turn (.inr rfl)
      ⟨k, .call (.write key v life)⟩
    rw [hfails] at hturn
    rcases hturn.of_failed_write with ⟨hstore, hrows⟩ | ⟨hthrough, -, -⟩ | ⟨-, hstore, hrows⟩
    · exact ⟨hstore, .inl hrows⟩
    · cases hthrough
    · exact ⟨hstore, .inr hrows⟩

/-- A key that was written well is current while another one lags. -/
theorem cacheAside_current_beside_lagging :
    (afterTurns [⟨digits, .call (.write "a" 7 none)⟩, ⟨digits, .call (.write "k" 5 none)⟩,
        ⟨digits, .call (.write "k" 12 none)⟩]
      ⟨.start default, under Client.byteMemory .cacheAside⟩).world.rows.get? "a" = some 7 ∧
    ∃ err s', Turn.run ⟨digits, .call (.write "a" 12 none)⟩
        (afterTurns [⟨digits, .call (.write "a" 7 none)⟩, ⟨digits, .call (.write "k" 5 none)⟩,
          ⟨digits, .call (.write "k" 12 none)⟩]
        ⟨.start default, under Client.byteMemory .cacheAside⟩) = (.failed err, s') ∧
      s'.world.store.live? s'.world.now "a" = some ⟨.bytes [7], none⟩ := by
  have hturns : ∀ p ∈ [(⟨digits, .call (.write "a" 7 none)⟩ : Turn UInt8),
      ⟨digits, .call (.write "k" 5 none)⟩, ⟨digits, .call (.write "k" 12 none)⟩],
      p.kit = digits := by simp
  have hboth := cacheAside_current (w := .start default) (m := Client.byteMemory)
    (K := (· = digits)) (fun _ => rfl) rfl (readBack_digits _) hturns rfl
  have hlags : ¬ Lags "a" [⟨digits, .call (.write "a" 7 none)⟩, ⟨digits, .call (.write "k" 5 none)⟩,
      ⟨digits, .call (.write "k" 12 none)⟩] ⟨.start default, under Client.byteMemory .cacheAside⟩
      False := by
    simp only [Lags]
    decide +kernel
  have hrow := hboth.1 digits "a" ⟨.bytes [7], none⟩ 7 rfl hlags rfl ⟨[7], rfl, rfl⟩
  refine ⟨hrow, _, _, rfl, ?_⟩
  rw [(hboth.2 digits "a" 12 none _ _ rfl).1]
  rfl

/-- Cache-aside is not current throughout: the source has taken the second value, which the cache
could not encode, and the first one is still read back. -/
theorem not_cacheAside_current :
    (World.start (default : Source UInt8)).Steady ∧
    (World.start (default : Source UInt8)).store.entries = KeyMap.empty ∧
    Kit.ReadBack Client.byteMemory (· = digits) ∧
    (Turn.run ⟨digits, .call (.read "k")⟩
      (afterTurns [⟨digits, .call (.write "k" 7 none)⟩, ⟨digits, .call (.write "k" 12 none)⟩]
        ⟨.start default, under Client.byteMemory .cacheAside⟩)).1 = .value 7 ∧
    (afterTurns [⟨digits, .call (.write "k" 7 none)⟩, ⟨digits, .call (.write "k" 12 none)⟩]
      ⟨.start default, under Client.byteMemory .cacheAside⟩).world.rows.get? "k" = some 12 ∧
    ∃ e, (afterTurns [⟨digits, .call (.write "k" 7 none)⟩, ⟨digits, .call (.write "k" 12 none)⟩]
        ⟨.start default, under Client.byteMemory .cacheAside⟩).world.store.live? 0 "k" = some e ∧
      Client.Holds (Client.byteMemory.equip digits) "k" e 7 :=
  ⟨fun _ => rfl, rfl, readBack_digits _, by decide +kernel, by decide +kernel,
    ⟨.bytes [7], none⟩, rfl, [7], rfl, rfl⟩

end Strategy
end CacheLayer
