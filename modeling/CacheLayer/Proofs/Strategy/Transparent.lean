/-
The cache cannot be seen through a policy that writes to the source before a
call returns. What carries the proof is coherence: every entry of the store,
dead or alive, holds the value of its row. A read keeps it because a value is
stored only as the source has given it, and a write because the row is changed
to the very value that is stored; expiry and clearing only take entries away.

Main statement: `replies_of_plain_map`, over runs of any length with any lives,
pauses and latencies.
-/
import Mathlib.Data.List.Forall2
import CacheLayer.Proofs.Strategy.Effect

namespace CacheLayer

variable {V : Type}

/-! ## Coherence -/

namespace View

variable {m : Memory V} {x : View V} {key : String} {v : V}

/-- Once a value is kept, its key has an entry that holds it, and no other entry is new. -/
theorem entries_keep (hv : Client.Codes m key v) (t : Nat) (life : Option Nat) (x : View V)
    {other : String} {e : Entry}
    (h : (x.keep m t key v life).store.entries.get? other = some e) :
    (other = key ∧ Client.Holds m key e v) ∨ (other ≠ key ∧ x.store.entries.get? other = some e) := by
  obtain ⟨b, hb, hd⟩ := hv x.drawn
  simp only [keep, hb] at h
  by_cases hne : other = key
  · subst hne
    rw [Store.entries_set_self] at h
    cases h
    exact .inl ⟨rfl, b, rfl, hd⟩
  · rw [Store.entries_set_other _ _ _ _ hne] at h
    exact .inr ⟨hne, h⟩

theorem Coherent.purge (h : x.Coherent m) (now : Nat) (key : String) :
    ({ x with store := x.store.purge now key } : View V).Coherent m :=
  fun _ _ he => h _ _ (Store.entries_purge he)

theorem Coherent.keep (h : x.Coherent m) (hv : Client.Codes m key v)
    (hrow : x.rows.get? key = some v) (t : Nat) (life : Option Nat) :
    (x.keep m t key v life).Coherent m := by
  intro other e he
  rw [Strategy.rows_keep]
  rcases entries_keep hv t life x he with ⟨rfl, hh⟩ | ⟨-, he⟩
  · exact ⟨v, hh, hrow⟩
  · exact h other e he

theorem Coherent.write (h : x.Coherent m) (hv : Client.Codes m key v) (t : Nat)
    (life : Option Nat) :
    ({ x.keep m t key v life with rows := x.rows.insert key v } : View V).Coherent m := by
  intro other e he
  rcases entries_keep hv t life x he with ⟨rfl, hh⟩ | ⟨hne, he⟩
  · exact ⟨v, hh, KeyMap.get?_insert_self _ _ _⟩
  · obtain ⟨u, hu, hr⟩ := h other e he
    exact ⟨u, hu, by rw [← hr]; exact KeyMap.get?_insert_other _ _ hne⟩

theorem Coherent.delete (h : x.Coherent m) (t : Nat) (key : String) :
    (⟨(x.store.delete t key).2, x.drawn, x.rows.erase key⟩ : View V).Coherent m := by
  intro other e he
  obtain ⟨hne, he⟩ := Store.entries_delete he
  obtain ⟨u, hu, hr⟩ := h other e he
  exact ⟨u, hu, by rw [← hr]; exact KeyMap.get?_erase_other _ hne⟩

end View

namespace Strategy

variable {m : Memory V} {x : View V}

theorem effect_coherent (h : x.Coherent m) (hv : x.Codes m) {c : Call V} (hc : c.Codes m)
    (now t : Nat) : (c.effect m now t x).2.Coherent m := by
  cases c with
  | read key =>
    simp only [Call.effect, View.fetch]
    split
    · next v _ hrow => exact (h.purge now key).keep (hv key v hrow) hrow t _
    · exact h.purge now key
  | write key v life => exact h.write hc t _
  | delete key => exact h.delete t key
  | has key => exact h.purge now key
  | clear => intro key e he; simp [Call.effect, Store.flush] at he

theorem effect_rows (c : Call V) (now t : Nat) (m : Memory V) (x : View V) :
    (c.effect m now t x).2.rows = (c.plain x.rows).2 := by
  cases c with
  | read key =>
    simp only [Call.effect, View.fetch, Call.plain]
    split
    · rw [rows_keep]
    · rfl
  | _ => rfl

theorem effect_reply (c : Call V) (now t : Nat) (m : Memory V) (x : View V) :
    ∀ r ∈ (c.plain x.rows).1, (c.effect m now t x).1 = r := by
  cases c <;> simp [Call.effect, Call.plain]

theorem plain_codes {rows : KeyMap V} (hv : ∀ key v, rows.get? key = some v → Client.Codes m key v)
    {c : Call V} (hc : c.Codes m) (key : String) (v : V)
    (h : (c.plain rows).2.get? key = some v) : Client.Codes m key v := by
  cases c with
  | write k u life =>
    simp only [Call.plain] at h
    by_cases hk : key = k
    · subst hk
      rw [KeyMap.get?_insert_self] at h
      cases h
      exact hc
    · rw [KeyMap.get?_insert_other _ _ hk] at h
      exact hv key v h
  | delete k =>
    simp only [Call.plain] at h
    by_cases hk : key = k
    · subst hk
      rw [KeyMap.get?_erase_self] at h
      cases h
    · rw [KeyMap.get?_erase_other _ hk] at h
      exact hv key v h
  | _ => exact hv key v h

/-! ## Runs -/

/-- A step of a caller: a call, or some time without one. -/
inductive Step (V : Type) where
  | call (c : Call V)
  | sleep (ms : Nat)

namespace Step

/-- What a step does. -/
def program : Step V → Program V (Reply V)
  | call c => c.program
  | sleep ms => do
    Program.pause ms
    return .done

/-- The step on a plain map. -/
def plain (rows : KeyMap V) : Step V → Option (Reply V) × KeyMap V
  | call c => c.plain rows
  | sleep _ => (some .done, rows)

/-- The values that a step writes can be encoded. -/
def Codes (m : Memory V) : Step V → Prop
  | call c => c.Codes m
  | sleep _ => True

/-- The effect of a step during which the source answers at once. -/
def effect (m : Memory V) (now : Nat) (x : View V) : Step V → Reply V × Nat × View V
  | call c => ((c.effect m now now x).1, now, (c.effect m now now x).2)
  | sleep ms => (.done, now + ms, x)

end Step

/-- The replies to steps one after the other, and the scene after them. -/
def runSteps : List (Step V) → Scene V → List (Reply V) × Scene V
  | [], s => ([], s)
  | p :: ps, s => ((p.program.run s).1 :: (runSteps ps (p.program.run s).2).1,
      (runSteps ps (p.program.run s).2).2)

/-- The replies of a plain map to steps one after the other, and the map after them. -/
def plainSteps : List (Step V) → KeyMap V → List (Option (Reply V)) × KeyMap V
  | [], rows => ([], rows)
  | p :: ps, rows => ((p.plain rows).1 :: (plainSteps ps (p.plain rows).2).1,
      (plainSteps ps (p.plain rows).2).2)

/-- The reply is the one of the plain map, if a plain map has one. -/
def Matches (r : Reply V) (o : Option (Reply V)) : Prop := ∀ r' ∈ o, r = r'

/-- Where a run has come to, under some policy that is synchronous. -/
structure Tracks (m : Memory V) (s : Scene V) : Prop where
  smooth : s.world.Smooth
  memory : ∃ stats, s.memory = m.withStats stats
  coherent : s.world.view.Coherent m
  codes : s.world.view.Codes m

/-- One step replies as a plain map, changes the rows as a plain map, and keeps the cache coherent.
If the source answers at once, the step has an effect that no policy has a part in. -/
theorem Tracks.step {s : Scene V} (h : Tracks m s) (hp : m.strategy.policy.isSynchronous = true)
    {p : Step V} (hc : p.Codes m) :
    Tracks m (p.program.run s).2 ∧ Matches (p.program.run s).1 (p.plain s.world.rows).1 ∧
      (p.program.run s).2.world.rows = (p.plain s.world.rows).2 ∧
      (s.world.Immediate → (p.program.run s).2.world.Immediate ∧
        ((p.program.run s).1, (p.program.run s).2.world.now, (p.program.run s).2.world.view) =
          p.effect m s.world.now s.world.view) := by
  cases p with
  | sleep ms =>
    have hrun : (Step.sleep ms : Step V).program.run s =
        (.done, { s with world := s.world.later ms }) := by simp [Step.program]
    rw [hrun]
    refine ⟨⟨⟨h.smooth.commands, h.smooth.requests, h.smooth.accepts, h.smooth.loads⟩, h.memory,
      h.coherent, h.codes⟩, fun r hr => ?_, rfl, fun hi => ⟨hi, rfl⟩⟩
    cases hr; rfl
  | call c =>
    obtain ⟨stats, hm⟩ := h.memory
    have hp' : s.memory.strategy.policy.isSynchronous = true := by rw [hm]; exact hp
    have heff : ∀ now t x, c.effect s.memory now t x = c.effect m now t x := by
      intro now t x
      rw [hm]
      cases c <;> rfl
    obtain ⟨t, s', hrun, hl⟩ := effect_of_call h.smooth hp' (by rw [hm]; exact h.coherent)
      (by rw [hm]; exact h.codes) (c := c) (by rw [hm]; cases c <;> exact hc)
    rw [heff] at hrun hl
    change Tracks m (c.program.run s).2 ∧ _
    simp only [Step.program, Step.plain, hrun]
    have hrows : s'.world.rows = (c.plain s.world.rows).2 := by
      rw [← World.view_rows, hl.view, effect_rows, World.view_rows]
    refine ⟨⟨hl.follows.smooth, ?_, ?_, ?_⟩, effect_reply c _ _ m s.world.view, hrows, ?_⟩
    · obtain ⟨stats', hm'⟩ := hl.follows.memory
      exact ⟨stats', by rw [hm', hm]; rfl⟩
    · rw [hl.view]
      exact effect_coherent h.coherent h.codes hc _ _
    · intro key v hv
      rw [World.view_rows, hrows] at hv
      exact plain_codes h.codes hc key v hv
    · intro hi
      refine ⟨hl.follows.immediate hi, ?_⟩
      rw [hl.view, hl.follows.still hi, hl.soon hi]
      rfl

/-- The memory with another policy in force. -/
def under (m : Memory V) (p : Policy) : Memory V :=
  { m with strategy := { m.strategy with policy := p } }

theorem Step.codes_under {m : Memory V} {c : Step V} (h : c.Codes m) (p : Policy) :
    c.Codes (under m p) := by
  cases c with
  | call c => cases c <;> exact h
  | sleep ms => trivial

theorem runSteps_tracks {m : Memory V} (hp : m.strategy.policy.isSynchronous = true) :
    ∀ {ps : List (Step V)} {s : Scene V}, Tracks m s → (∀ p ∈ ps, p.Codes m) →
      List.Forall₂ Matches (runSteps ps s).1 (plainSteps ps s.world.rows).1 ∧
        (runSteps ps s).2.world.rows = (plainSteps ps s.world.rows).2
  | [], _, _, _ => ⟨.nil, rfl⟩
  | p :: ps, s, h, hc => by
    obtain ⟨h', hreply, hrows, -⟩ := h.step hp (hc p (by simp))
    obtain ⟨hrest, hlast⟩ := runSteps_tracks hp h' fun q hq => hc q (List.mem_cons_of_mem p hq)
    rw [hrows] at hrest hlast
    exact ⟨.cons hreply hrest, hlast⟩

theorem Step.exists_plain {p : Step V} (h : ∀ key, p ≠ .call (.has key)) (rows : KeyMap V) :
    ∃ r, (p.plain rows).1 = some r := by
  cases p with
  | sleep ms => exact ⟨_, rfl⟩
  | call c =>
    cases c with
    | has key => exact absurd rfl (h key)
    | _ => exact ⟨_, rfl⟩

theorem runSteps_agree :
    ∀ {i : Nat} {ps : List (Step V)} {rows : KeyMap V} {s t : Scene V},
      List.Forall₂ Matches (runSteps ps s).1 (plainSteps ps rows).1 →
      List.Forall₂ Matches (runSteps ps t).1 (plainSteps ps rows).1 →
      (∀ key, ps[i]? ≠ some (.call (.has key))) →
      (runSteps ps s).1[i]? = (runSteps ps t).1[i]?
  | _, [], _, _, _, _, _, _ => rfl
  | 0, p :: ps, rows, s, t, hs, ht, hne => by
    obtain ⟨r, hr⟩ := Step.exists_plain (fun key hp => hne key (congrArg some hp)) rows
    obtain _ | ⟨hs, -⟩ := hs
    obtain _ | ⟨ht, -⟩ := ht
    exact congrArg some ((hs r hr).trans (ht r hr).symm)
  | i + 1, p :: ps, rows, s, t, hs, ht, hne => by
    obtain _ | ⟨-, hs⟩ := hs
    obtain _ | ⟨-, ht⟩ := ht
    show (runSteps ps _).1[i]? = (runSteps ps _).1[i]?
    exact runSteps_agree hs ht hne

/-- If the source answers at once, two policies cannot be told apart. -/
theorem runSteps_alike {m n : Memory V} (hm : m.strategy.policy.isSynchronous = true)
    (hn : n.strategy.policy.isSynchronous = true)
    (heff : ∀ (p : Step V) now x, p.effect m now x = p.effect n now x) :
    ∀ {ps : List (Step V)} {s t : Scene V}, Tracks m s → Tracks n t →
      (∀ p ∈ ps, p.Codes m) → (∀ p ∈ ps, p.Codes n) → s.world.Immediate → t.world.Immediate →
      s.world.now = t.world.now → s.world.view = t.world.view →
      (runSteps ps s).1 = (runSteps ps t).1
  | [], _, _, _, _, _, _, _, _, _, _ => rfl
  | p :: ps, s, t, hs, ht, hcm, hcn, hsi, hti, hnow, hview => by
    obtain ⟨hs', -, -, hse⟩ := hs.step hm (hcm p (by simp))
    obtain ⟨ht', -, -, hte⟩ := ht.step hn (hcn p (by simp))
    obtain ⟨hsi', hse⟩ := hse hsi
    obtain ⟨hti', hte⟩ := hte hti
    rw [heff, hnow, hview, ← hte] at hse
    simp only [Prod.mk.injEq] at hse
    obtain ⟨hreply, hnow', hview'⟩ := hse
    simp only [runSteps, hreply, List.cons.injEq, true_and]
    exact runSteps_alike hm hn heff hs' ht' (fun q hq => hcm q (List.mem_cons_of_mem p hq))
      (fun q hq => hcn q (List.mem_cons_of_mem p hq)) hsi' hti' hnow' hview'

/-- **A synchronous cache is transparent.** Nothing fails, and the values of the source and of the
writes can be encoded and are read back as they are. Then, from an empty cache and under any of the
three policies, every step of every run replies as a map that starts with the rows of the source
(whether a key is in the cache is nothing that such a map could say), and the source ends with the
rows of that map. So two policies give the same replies and leave the same rows; and if the source
answers at once, so that no entry comes to live longer under one policy than under the other, they
also agree on what is in the cache. -/
theorem replies_of_plain_map {w : World V} {m : Memory V} {steps : List (Step V)} (hw : w.Smooth)
    (hempty : w.store.entries = KeyMap.empty) (hrows : w.view.Codes m)
    (hsteps : ∀ p ∈ steps, p.Codes m) :
    (∀ p : Policy, p.isSynchronous = true →
      List.Forall₂ Matches (runSteps steps ⟨w, under m p⟩).1 (plainSteps steps w.rows).1 ∧
      (runSteps steps ⟨w, under m p⟩).2.world.rows = (plainSteps steps w.rows).2) ∧
    ∀ p q : Policy, p.isSynchronous = true → q.isSynchronous = true →
      (∀ i : Nat, (∀ key, steps[i]? ≠ some (.call (.has key))) →
        (runSteps steps ⟨w, under m p⟩).1[i]? = (runSteps steps ⟨w, under m q⟩).1[i]?) ∧
      (runSteps steps ⟨w, under m p⟩).2.world.rows =
        (runSteps steps ⟨w, under m q⟩).2.world.rows ∧
      (w.Immediate →
        (runSteps steps ⟨w, under m p⟩).1 = (runSteps steps ⟨w, under m q⟩).1) := by
  have start : ∀ p, Tracks (under m p) ⟨w, under m p⟩ := by
    intro p
    refine ⟨hw, ⟨m.strategy.stats, rfl⟩, fun key e he => ?_, hrows⟩
    rw [World.view_store, hempty] at he
    cases he
  have plain := fun p (hp : Policy.isSynchronous p = true) =>
    runSteps_tracks hp (start p) fun c hc => Step.codes_under (hsteps c hc) p
  refine ⟨plain, fun p q hp hq => ⟨?_, (plain p hp).2.trans (plain q hq).2.symm, ?_⟩⟩
  · exact fun i hne => runSteps_agree (plain p hp).1 (plain q hq).1 hne
  · intro hi
    refine runSteps_alike hp hq ?_ (start p) (start q) (fun c hc => Step.codes_under (hsteps c hc) p)
      (fun c hc => Step.codes_under (hsteps c hc) q) hi hi rfl rfl
    intro c now x
    cases c with
    | call c => cases c <;> rfl
    | sleep ms => rfl

/-- A key is read, written with a short life, read when that is over, deleted and read again. -/
def shortRun : List (Step UInt8) :=
  [.call (.read "k"), .call (.write "k" 9 (some 5)), .sleep 10, .call (.read "k"),
    .call (.has "k"), .call .clear, .call (.delete "k"), .call (.read "k")]

/-- A source with one row, behind an empty cache. -/
def oneRow : World UInt8 := .start (.ofRows (KeyMap.empty.insert "k" 7))

theorem replies_of_shortRun :
    List.Forall₂ Matches (runSteps shortRun ⟨oneRow, under Client.byteMemory .cacheAside⟩).1
      [some (.value 7), some .done, some .done, some (.value 9), none, some .done, some .done,
        some (.failed (.notFound "k"))] ∧
    (runSteps shortRun ⟨oneRow, under Client.byteMemory .cacheAside⟩).1 =
      (runSteps shortRun ⟨oneRow, under Client.byteMemory .writeThrough⟩).1 := by
  have smooth : oneRow.Smooth := ⟨fun _ => rfl, fun _ => rfl, rfl, fun _ => rfl⟩
  have codes : ∀ key v, Client.Codes Client.byteMemory key v := Client.codes_byte rfl rfl
  have steps : ∀ p ∈ shortRun, p.Codes Client.byteMemory := by
    intro p _
    cases p with
    | sleep ms => trivial
    | call c =>
      cases c with
      | write key v life => exact codes key v
      | _ => trivial
  obtain ⟨plain, alike⟩ := replies_of_plain_map smooth rfl (fun key v _ => codes key v) steps
  exact ⟨(plain .cacheAside rfl).1, (alike .cacheAside .writeThrough rfl rfl).2.2 fun _ => rfl⟩

end Strategy
end CacheLayer
