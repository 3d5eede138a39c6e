/-
A chunk of a warm-up. While it is loaded, other chunks may be loaded, judged and stored; time may
pass and numbers may be drawn. So a chunk is told by its dialogue: the attempts at loading it, a
question for each of its values, and one batch (`dialogue_loadChunk`). The only thing that the others
can do to it is to draw numbers, so that its values may be encoded with any (`Fates.Drawn`).
-/
import CacheLayer.Proofs.Program.Dialogue
import CacheLayer.Proofs.Reload.Batch
import Mathlib.Data.List.Forall2

namespace CacheLayer

variable {V α : Type} {P : Exchange V → Prop} {log : List (Exchange V)} {m : Memory V}

namespace Reload

/-! ## Attempts -/

theorem dialogue_retryTimes {id : SourceId} {c : Source.Call V} {delay more : Nat}
    {r : Except Error c.Reply}
    (h : (retryTimes delay (Action.request id c) more).outcome.Dialogue P log r) :
    ∃ answers, Tried more answers r ∧ said log = answers.map (.asked id c) := by
  induction more generalizing log with
  | zero =>
    refine ⟨[r], ?_, Action.dialogue_request h⟩
    cases r with
    | ok x => exact .loaded x
    | error e => exact .failed e
  | succ more ih =>
    obtain ⟨log₁, first, log₂, hfirst, hrest, rfl⟩ := Action.dialogue_always_then h
    rw [said_append, Action.dialogue_request hfirst]
    cases first with
    | ok x =>
      obtain ⟨rfl, rfl⟩ := hrest.of_pure
      exact ⟨[.ok x], .loaded x, rfl⟩
    | error e =>
      obtain ⟨log₃, ⟨⟩, log₄, hpause, hmore, rfl⟩ := Action.dialogue_always_then hrest
      obtain ⟨answers, htried, hsaid⟩ := ih hmore
      refine ⟨.error e :: answers, .again e htried, ?_⟩
      rw [said_append, Action.dialogue_pause hpause, hsaid]
      rfl

theorem dialogue_retry {c : ReloadConfig} {id : SourceId} {call : Source.Call V}
    {r : Except Error call.Reply}
    (h : (retry c (Action.request id call)).outcome.Dialogue P log r) :
    ∃ answers, Tried (retries c) answers r ∧ said log = answers.map (.asked id call) := by
  rw [retry, Action.outcome_always_bind] at h
  obtain ⟨log₁, times, log₂, htimes, hload, rfl⟩ := h.of_bind
  obtain rfl := htimes.of_word
  rw [said_append, htimes.of_silent (Program.each_word (Q := fun q => q.isSilent = true) rfl _ _)]
  exact dialogue_retryTimes hload

/-! ## Occurrences -/

/-- A value is encoded with the numbers that are drawn for it. -/
theorem dialogue_encode (hP : ∀ e, P e → e.Heard m) {f : Format α} {key : String} {a : α}
    {r : Except Error Bytes} (h : (Client.encode f key a).outcome.Dialogue P log r) :
    (∃ fresh, Client.coded m f fresh key a = r) ∧ said log = [] := by
  refine ⟨?_, h.of_silent
    (Client.each_encode (Q := fun q => q.isSilent = true) rfl (fun _ => rfl) f key a)⟩
  obtain ⟨log₁, hcode, -⟩ := Action.dialogue_memory_then hP h
  unfold Client.coded
  cases hplain : f.encode m.config.codec a with
  | error e =>
    rw [hplain] at hcode
    exact ⟨0, hcode.of_pure.2.symm⟩
  | ok b =>
    rw [hplain] at hcode
    obtain ⟨log₂, fresh, log₃, -, happly, -⟩ := Action.dialogue_always_then hcode
    refine ⟨fresh, ?_⟩
    change ((m.transformers.applyAll fresh key b).bind fun x => Envelope.wrap x.1 x.2) = r
    cases hx : m.transformers.applyAll fresh key b with
    | error e =>
      rw [hx] at happly
      exact happly.of_pure.2.symm
    | ok x =>
      rw [hx] at happly
      exact happly.of_pure.2.symm

theorem dialogue_judge {id : SourceId} {v : V} {r : Except Error Unit}
    (h : (Action.judge id v).outcome.Dialogue P log r) : said log = [.judged id v r] := by
  obtain ⟨time, -, rfl⟩ := Program.Dialogue.of_lift h
  rfl

/-- The fates are those of what is offered, if each value is encoded with some numbers. -/
def Fates.Drawn (m : Memory V) (verdict : V → Except Error Unit) :
    Fates V → List (String × Option V) → Prop :=
  List.Forall₂ fun o x => o.1 = x.1 ∧ ∃ fresh, o.2 = Fate.of m verdict false fresh x.1 x.2

/-- Occurrences of keys have found their fates, with others in between. -/
structure Sifts (m : Memory V) (id : SourceId) (life : Option Nat) (keys : List String)
    (z z' : Sorting V) (fates : Fates V) (log : List (Exchange V)) : Prop where
  order : fates.map Prod.fst = keys
  left : z'.loaded.get? = keys.foldl taken z.loaded.get?
  result : z'.result = z.result.merge fates.result
  steps : z'.steps = z.steps ++ fates.puts.map fun p => .set p.1 p.2 life
  said : said log = fates.verdicts id
  ruled : ∀ verdict, fates.JudgedBy verdict →
    fates.Drawn m verdict (offers z.loaded.get? keys)

namespace Sifts

variable {id : SourceId} {life : Option Nat} {keys keys' : List String} {z z' z'' : Sorting V}
  {fates fates' : Fates V} {log' : List (Exchange V)}

theorem none (m : Memory V) (id : SourceId) (life : Option Nat) (z : Sorting V) :
    Sifts m id life [] z z [] [] where
  order := rfl
  left := rfl
  result := (merge_empty _).symm
  steps := (List.append_nil _).symm
  said := rfl
  ruled _ _ := .nil

theorem append (h : Sifts m id life keys z z' fates log)
    (h' : Sifts m id life keys' z' z'' fates' log') :
    Sifts m id life (keys ++ keys') z z'' (fates ++ fates') (log ++ log') where
  order := by rw [List.map_append, h.order, h'.order]
  left := by rw [h'.left, h.left, List.foldl_append]
  result := by rw [h'.result, h.result, merge_assoc, Fates.result_append]
  steps := by rw [h'.steps, h.steps, List.append_assoc, ← List.map_append, Fates.puts_append]
  said := by
    rw [said_append, h.said, h'.said, Fates.verdicts, Fates.verdicts, ← List.map_append,
      ← List.filterMap_append]
    rfl
  ruled verdict hjudged := by
    obtain ⟨hfirst, hrest⟩ := hjudged.of_append
    have hdrawn := h'.ruled verdict hrest
    rw [h.left] at hdrawn
    rw [offers_append]
    exact List.rel_append (h.ruled verdict hfirst) hdrawn

/-- One occurrence has found its fate. -/
theorem single {key : String} {fate : Fate V} (fresh : Nat)
    (hleft : z'.loaded.get? = taken z.loaded.get? key)
    (hresult : z'.result = z.result.merge (Fates.result [(key, fate)]))
    (hsteps : z'.steps = z.steps ++ (Fates.puts [(key, fate)]).map fun p => .set p.1 p.2 life)
    (hsaid : CacheLayer.said log = Fates.verdicts id [(key, fate)])
    (hruled : ∀ verdict, (∀ x, fate.verdict? = some x → x.2 = verdict x.1) →
      fate = Fate.of m verdict false fresh key (z.loaded.get? key)) :
    Sifts m id life [key] z z' [(key, fate)] log where
  order := rfl
  left := hleft
  result := hresult
  steps := hsteps
  said := hsaid
  ruled verdict hjudged :=
    .cons ⟨rfl, fresh, hruled verdict (hjudged _ List.mem_cons_self)⟩ .nil

end Sifts

theorem dialogue_sortKey (hP : ∀ e, P e → e.Heard m) {id : SourceId} {c : ReloadConfig}
    {key : String} {z z' : Sorting V}
    (h : (sortKey id c m.format false z key).Dialogue P log z') :
    ∃ fate : Fate V, Sifts m id c.life [key] z z' [(key, fate)] log := by
  unfold sortKey at h
  cases hv : z.loaded.get? key with
  | none =>
    rw [hv] at h
    obtain ⟨rfl, rfl⟩ := h.of_pure
    refine ⟨.missing, .single 0 (taken_of_none hv).symm rfl (List.append_nil _).symm rfl
      fun verdict _ => ?_⟩
    rw [hv, Fate.of]
  | some v =>
    rw [hv] at h
    obtain ⟨log₁, answer, log₂, hjudge, hrest, rfl⟩ := h.of_bind
    have hleft : (z.loaded.erase key).get? = taken z.loaded.get? key := taken_get? z.loaded key
    cases answer with
    | error e =>
      obtain ⟨rfl, rfl⟩ := hrest.of_pure
      refine ⟨.rejected v e, .single 0 hleft rfl (List.append_nil _).symm
        (by rw [List.append_nil, dialogue_judge hjudge]; rfl) fun verdict hjudged => ?_⟩
      have hverdict : verdict v = .error e := (hjudged _ rfl).symm
      simp only [hv, Fate.of, hverdict]
    | ok =>
      obtain ⟨log₃, r, log₄, hencode, hrest, rfl⟩ := Program.Dialogue.of_bind hrest
      obtain ⟨⟨fresh, hcoded⟩, hsilent⟩ := dialogue_encode hP hencode
      have hsaid : said (log₁ ++ (log₃ ++ [])) = [.judged id v (.ok ())] := by
        rw [List.append_nil, said_append, dialogue_judge hjudge, hsilent, List.append_nil]
      cases r with
      | error e =>
        obtain ⟨rfl, rfl⟩ := hrest.of_pure
        refine ⟨.unfit v e, .single fresh hleft rfl (List.append_nil _).symm hsaid
          fun verdict hjudged => ?_⟩
        have hverdict : verdict v = .ok () := (hjudged _ rfl).symm
        simp only [hv, Fate.of, hverdict, Bool.false_eq_true, if_false, hcoded]
      | ok b =>
        obtain ⟨rfl, rfl⟩ := hrest.of_pure
        refine ⟨.stored v b, .single fresh hleft (succeed_eq _) rfl hsaid
          fun verdict hjudged => ?_⟩
        have hverdict : verdict v = .ok () := (hjudged _ rfl).symm
        simp only [hv, Fate.of, hverdict, Bool.false_eq_true, if_false, hcoded]

theorem dialogue_sortKeys (hP : ∀ e, P e → e.Heard m) {id : SourceId} {c : ReloadConfig}
    {keys : List String} {z z' : Sorting V}
    (h : (keys.foldlM (sortKey id c m.format false) z).Dialogue P log z') :
    ∃ fates : Fates V, Sifts m id c.life keys z z' fates log := by
  induction keys generalizing z log with
  | nil =>
    obtain ⟨rfl, rfl⟩ := h.of_pure
    exact ⟨[], .none _ _ _ _⟩
  | cons key keys ih =>
    rw [List.foldlM_cons] at h
    obtain ⟨log₁, z₁, log₂, hkey, hkeys, rfl⟩ := h.of_bind
    obtain ⟨fate, hsifts⟩ := dialogue_sortKey hP hkey
    obtain ⟨fates, hsifts'⟩ := ih hkeys
    exact ⟨(key, fate) :: fates, hsifts.append hsifts'⟩

/-! ## Chunks -/

/-- A batch that sets keys does not fail. -/
theorem dialogue_execute (hP : ∀ e, P e → e.Heard m) {puts : List (String × Bytes)}
    {life : Option Nat} {r : Except Error (List BatchReply)}
    (h : (Client.execute (puts.map fun p => .set p.1 p.2 life) false).outcome.Dialogue P log r) :
    (∃ replies, r = .ok replies) ∧ ∃ time, said log = sent time puts life := by
  cases puts with
  | nil =>
    obtain ⟨rfl, rfl⟩ := Program.Dialogue.of_pure h
    exact ⟨⟨_, rfl⟩, 0, rfl⟩
  | cons p puts =>
    obtain ⟨time, hheard, rfl⟩ := Program.Dialogue.of_lift
      (q := .command (.execute ((p :: puts).map fun p => .set p.1 p.2 life) false)) h
    obtain ⟨now, store, rfl⟩ := hP _ hheard
    obtain ⟨replies, hreplies, -⟩ := Store.run_execute_sets (p :: puts) life false store now
    exact ⟨⟨replies, hreplies⟩, time, rfl⟩

theorem dialogue_storeLoaded (hP : ∀ e, P e → e.Heard m) {id : SourceId} {c : ReloadConfig}
    {keys : List String} {got : KeyMap V} {r : Except Error ReloadResult}
    (h : (storeLoaded id c false keys got).outcome.Dialogue P log r) :
    ∃ (fates : Fates V) (time : Nat), fates.map Prod.fst = keys ∧ r = .ok fates.result ∧
      said log = fates.verdicts id ++ sent time fates.puts c.life ∧
      ∀ verdict, fates.JudgedBy verdict → fates.Drawn m verdict (offers got.get? keys) := by
  obtain ⟨log₁, hsorting, hsaid⟩ := Action.dialogue_memory_then hP h
  obtain ⟨log₂, z, log₃, hsort, hstore, rfl⟩ := Action.dialogue_always_then hsorting
  obtain ⟨fates, hsifts⟩ := dialogue_sortKeys hP hsort
  have hresult : z.result = fates.result := hsifts.result.trans (empty_merge _)
  rw [hsifts.steps, List.nil_append] at hstore
  rcases Action.dialogue_then hstore with ⟨log₄, replies, log₅, hexecute, hreturn, rfl⟩ |
    ⟨e, -, hexecute⟩
  · obtain ⟨-, time, hsent⟩ := dialogue_execute hP hexecute
    obtain ⟨rfl, rfl⟩ := hreturn.of_pure
    refine ⟨fates, time, hsifts.order, congrArg _ hresult, ?_, hsifts.ruled⟩
    rw [hsaid, List.append_nil, said_append, hsifts.said, hsent]
  · obtain ⟨⟨replies, hreplies⟩, -⟩ := dialogue_execute hP hexecute
    cases hreplies

/-- The fates of the keys of a chunk follow from the answer to the last attempt. -/
inductive Leg.Warms (m : Memory V) (keys : List String) : Leg V → Prop where
  | lost {answers : List (Except Error (KeyMap V))} {e : Error} (time : Nat)
      (h : Tried (retries m.reload) answers (.error e)) :
      Warms m keys ⟨time, answers, .allLost keys e⟩
  | loaded {answers : List (Except Error (KeyMap V))} {got : KeyMap V} {fates : Fates V} (time : Nat)
      (h : Tried (retries m.reload) answers (.ok got)) (horder : fates.map Prod.fst = keys)
      (hruled : ∀ verdict, fates.JudgedBy verdict → fates.Drawn m verdict (offers got.get? keys)) :
      Warms m keys ⟨time, answers, fates⟩

theorem dialogue_loadChunk (hP : ∀ e, P e → e.Heard m) {keys : List String}
    {r : Except Error ReloadResult}
    (h : (loadChunk false keys).outcome.Dialogue P log r) :
    ∃ leg : Leg V, leg.Warms m keys ∧ r = .ok leg.fates.result ∧ said log = leg.events m := by
  obtain ⟨log₁, hload, hsaid⟩ := Action.dialogue_memory_then hP h
  obtain ⟨log₂, answer, log₃, hretry, hrest, rfl⟩ := Action.dialogue_always_then hload
  obtain ⟨answers, htried, hasked⟩ := dialogue_retry hretry
  rw [said_append, hasked] at hsaid
  cases answer with
  | error e =>
    obtain ⟨rfl, rfl⟩ := hrest.of_pure
    refine ⟨⟨0, answers, .allLost keys e⟩, .lost 0 htried,
      congrArg _ ((foldl_fail keys e {}).trans (empty_merge _)), ?_⟩
    rw [hsaid, Leg.events, Leg.keys, map_fst_allLost, Fates.verdicts_allLost, Fates.puts_allLost]
    exact (List.append_nil _).symm
  | ok got =>
    obtain ⟨fates, time, horder, rfl, hstored, hruled⟩ := dialogue_storeLoaded hP hrest
    refine ⟨⟨time, answers, fates⟩, .loaded time htried horder hruled, rfl, ?_⟩
    rw [hsaid, hstored, Leg.events, Leg.keys, horder, List.append_assoc]

end Reload
end CacheLayer
