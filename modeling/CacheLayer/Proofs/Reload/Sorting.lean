/-
What was loaded is sorted, occurrence by occurrence: each finds its fate, the result counts it, and
its bytes are added to the commands to be sent (`Sorts`). No time passes meanwhile. Where the source
judges values by a rule, the fates are those of what was offered (`Sorts.ruled`), so they can be told
beforehand.
-/
import CacheLayer.Proofs.Reload.Fates

namespace CacheLayer

variable {V α : Type} {s t u : Scene V} {log log' : List (Exchange V)}

namespace Reload

/-! ## One occurrence -/

/-- Encoding a value asks nobody. -/
theorem course_encode {f : Format α} {key : String} {a : α} {r : Except Error Bytes}
    (h : (Client.encode f key a).outcome.Course s log r t) :
    Client.coded s.memory f s.world.drawn key a = r ∧ said log = [] ∧
      t = { s with world :=
        { s.world with drawn := Client.freshAfter s.memory f s.world.drawn a } } := by
  obtain ⟨hrun, hsilent⟩ := h.of_silent
    (Client.each_encode (Q := fun q => q.isSilent = true) rfl (fun _ => rfl) f key a)
  rw [Client.run_encode] at hrun
  obtain ⟨hcoded, rfl⟩ := Prod.mk.inj hrun
  exact ⟨hcoded, hsilent, rfl⟩

theorem course_judge {id : SourceId} {v : V} {r : Except Error Unit}
    (h : (Action.judge id v).outcome.Course s log r t) :
    said log = [.judged id v r] ∧
      ∃ sites, t = { s with world := { s.world with sites := sites } } := by
  obtain ⟨hget, rfl⟩ := Program.Course.of_lift h
  exact ⟨rfl, hget⟩

/-- Between the scenes occurrences of keys have found their fates. -/
structure Sorts (s t : Scene V) (id : SourceId) (life : Option Nat) (checkOnly : Bool)
    (keys : List String) (z z' : Sorting V) (fates : Fates V) (log : List (Exchange V)) : Prop where
  order : fates.map Prod.fst = keys
  left : z'.loaded.get? = keys.foldl taken z.loaded.get?
  sorted : ∀ os, Fates.Sorted s.memory checkOnly z'.loaded os →
    Fates.Sorted s.memory checkOnly z.loaded (fates ++ os)
  result : z'.result = z.result.merge fates.result
  steps : z'.steps = z.steps ++ fates.puts.map fun p => .set p.1 p.2 life
  said : said log = fates.verdicts id
  memory : t.memory = s.memory
  store : t.world.store = s.world.store
  scripts : t.world.scripts = s.world.scripts
  now : t.world.now = s.world.now
  drawn : t.world.drawn = fates.freshAfter s.memory s.world.drawn
  ruled : ∀ verdict, fates.JudgedBy verdict →
    fates = Fates.of s.memory verdict checkOnly s.world.drawn (offers z.loaded.get? keys)

namespace Sorts

variable {id : SourceId} {life : Option Nat} {checkOnly : Bool} {keys keys' : List String}
  {z z' z'' : Sorting V} {fates fates' : Fates V}

theorem none (s : Scene V) (id : SourceId) (life : Option Nat) (checkOnly : Bool) (z : Sorting V) :
    Sorts s s id life checkOnly [] z z [] [] where
  order := rfl
  left := rfl
  sorted _ hos := hos
  result := (merge_empty _).symm
  steps := (List.append_nil _).symm
  said := rfl
  memory := rfl
  store := rfl
  scripts := rfl
  now := rfl
  drawn := rfl
  ruled _ _ := rfl

theorem append (h : Sorts s t id life checkOnly keys z z' fates log)
    (h' : Sorts t u id life checkOnly keys' z' z'' fates' log') :
    Sorts s u id life checkOnly (keys ++ keys') z z'' (fates ++ fates') (log ++ log') where
  order := by rw [List.map_append, h.order, h'.order]
  left := by rw [h'.left, h.left, List.foldl_append]
  sorted os hos := by
    rw [List.append_assoc]
    exact h.sorted _ (h.memory ▸ h'.sorted os (h.memory.symm ▸ hos))
  result := by rw [h'.result, h.result, merge_assoc, Fates.result_append]
  steps := by
    rw [h'.steps, h.steps, List.append_assoc, ← List.map_append, Fates.puts, Fates.puts,
      ← List.filterMap_append]
    rfl
  said := by
    rw [said_append, h.said, h'.said, Fates.verdicts, Fates.verdicts, ← List.map_append,
      ← List.filterMap_append]
    rfl
  memory := h'.memory.trans h.memory
  store := h'.store.trans h.store
  scripts := h'.scripts.trans h.scripts
  now := h'.now.trans h.now
  drawn := by rw [h'.drawn, h.drawn, h.memory, Fates.freshAfter_append]
  ruled verdict hjudged := by
    obtain ⟨hfirst, hrest⟩ := hjudged.of_append
    have heq := h.ruled verdict hfirst
    have heq' := h'.ruled verdict hrest
    -- The second part goes on with the rows and the numbers that the first one has left.
    rw [h.memory, h.drawn, h.left] at heq'
    rw [offers_append, Fates.of_append, ← heq, ← heq']

theorem idles (h : Sorts s t id life checkOnly keys z z' fates log) : s.Idles t :=
  ⟨h.memory, h.store, h.scripts, Nat.le_of_eq h.now.symm⟩

/-- To sort a key, a source may be asked and numbers may be drawn. -/
theorem single {key : String} {fate : Fate V} {sites : SourceId → Site V}
    (ht : t = { s with world := { s.world with
      sites := sites, drawn := fate.freshAfter s.memory s.world.drawn } })
    (hleft : z'.loaded.get? = taken z.loaded.get? key)
    (hsorted : ∀ os, Fates.Sorted s.memory checkOnly z'.loaded os →
      Fates.Sorted s.memory checkOnly z.loaded ((key, fate) :: os))
    (hresult : z'.result = z.result.merge (Fates.result [(key, fate)]))
    (hsteps : z'.steps = z.steps ++ (Fates.puts [(key, fate)]).map fun p => .set p.1 p.2 life)
    (hsaid : CacheLayer.said log = Fates.verdicts id [(key, fate)])
    (hruled : ∀ verdict, (∀ x, fate.verdict? = some x → x.2 = verdict x.1) →
      fate = Fate.of s.memory verdict checkOnly s.world.drawn key (z.loaded.get? key)) :
    Sorts s t id life checkOnly [key] z z' [(key, fate)] log where
  order := rfl
  left := hleft
  sorted := hsorted
  result := hresult
  steps := hsteps
  said := hsaid
  memory := by rw [ht]
  store := by rw [ht]
  scripts := by rw [ht]
  now := by rw [ht]
  drawn := by rw [ht]; rfl
  ruled verdict hjudged := by
    have hfate := hruled verdict (hjudged _ List.mem_cons_self)
    simp only [offers, Fates.of, ← hfate]

end Sorts

/-- An occurrence of a key finds its fate. -/
theorem course_sortKey {id : SourceId} {c : ReloadConfig} {checkOnly : Bool} {key : String}
    {z z' : Sorting V}
    (h : (sortKey id c s.memory.format checkOnly z key).Course s log z' t) :
    ∃ fate : Fate V, Sorts s t id c.life checkOnly [key] z z' [(key, fate)] log := by
  unfold sortKey at h
  cases hv : z.loaded.get? key with
  | none =>
    rw [hv] at h
    obtain ⟨rfl, rfl, rfl⟩ := h.of_pure
    refine ⟨.missing, .single rfl (taken_of_none hv).symm
      (fun os hos => .missing hv hos) rfl (List.append_nil _).symm rfl fun verdict _ => ?_⟩
    rw [hv, Fate.of]
  | some v =>
    rw [hv] at h
    obtain ⟨log₁, answer, s₁, log₂, hjudge, hrest, rfl⟩ := Program.Course.of_bind h
    obtain ⟨hsaid, sites, rfl⟩ := course_judge hjudge
    have hleft : (z.loaded.erase key).get? = taken z.loaded.get? key := taken_get? z.loaded key
    cases answer with
    | error e =>
      obtain ⟨rfl, rfl, rfl⟩ := hrest.of_pure
      refine ⟨.rejected v e, .single rfl hleft (fun os hos => .rejected e hv hos) rfl
        (List.append_nil _).symm (by rw [List.append_nil, hsaid]; rfl) fun verdict hjudged => ?_⟩
      have hverdict : verdict v = .error e := (hjudged _ rfl).symm
      simp only [hv, Fate.of, hverdict]
    | ok =>
      cases checkOnly with
      | true =>
        obtain ⟨rfl, rfl, rfl⟩ := hrest.of_pure
        refine ⟨.checked v, .single rfl hleft (fun os hos => .checked hv rfl hos)
          (succeed_eq _) (List.append_nil _).symm (by rw [List.append_nil, hsaid]; rfl)
          fun verdict hjudged => ?_⟩
        have hverdict : verdict v = .ok () := (hjudged _ rfl).symm
        simp only [hv, Fate.of, hverdict, if_true]
      | false =>
        obtain ⟨log₃, r, s₂, log₄, hencode, hrest, rfl⟩ := Program.Course.of_bind hrest
        obtain ⟨hcoded, hsilent, rfl⟩ := course_encode hencode
        have hsaid' : said (log₁ ++ (log₃ ++ [])) = [.judged id v (.ok ())] := by
          rw [List.append_nil, said_append, hsaid, hsilent, List.append_nil]
        cases r with
        | error e =>
          obtain ⟨rfl, rfl, rfl⟩ := hrest.of_pure
          refine ⟨.unfit v e, .single rfl hleft
            (fun os hos => .unfit hv rfl hcoded hos) rfl (List.append_nil _).symm hsaid'
            fun verdict hjudged => ?_⟩
          have hverdict : verdict v = .ok () := (hjudged _ rfl).symm
          simp only [hv, Fate.of, hverdict, Bool.false_eq_true, if_false]
          rw [show Client.coded s.memory s.memory.format s.world.drawn key v = .error e from hcoded]
        | ok b =>
          obtain ⟨rfl, rfl, rfl⟩ := hrest.of_pure
          refine ⟨.stored v b, .single rfl hleft
            (fun os hos => .stored hv rfl hcoded hos) (succeed_eq _) rfl hsaid'
            fun verdict hjudged => ?_⟩
          have hverdict : verdict v = .ok () := (hjudged _ rfl).symm
          simp only [hv, Fate.of, hverdict, Bool.false_eq_true, if_false]
          rw [show Client.coded s.memory s.memory.format s.world.drawn key v = .ok b from hcoded]

/-! ## All occurrences -/

theorem course_sortKeys {id : SourceId} {c : ReloadConfig} {checkOnly : Bool} {keys : List String}
    {z z' : Sorting V}
    (h : (keys.foldlM (sortKey id c s.memory.format checkOnly) z).Course s log z' t) :
    ∃ fates : Fates V, Sorts s t id c.life checkOnly keys z z' fates log := by
  induction keys generalizing s z log with
  | nil =>
    obtain ⟨rfl, rfl, rfl⟩ := h.of_pure
    exact ⟨[], .none _ _ _ _ _⟩
  | cons key keys ih =>
    rw [List.foldlM_cons] at h
    obtain ⟨log₁, z₁, s₁, log₂, hkey, hkeys, rfl⟩ := h.of_bind
    obtain ⟨fate, hsorts⟩ := course_sortKey hkey
    -- The next occurrences are sorted by the same memory.
    rw [← hsorts.memory] at hkeys
    obtain ⟨fates, hsorts'⟩ := ih hkeys
    exact ⟨(key, fate) :: fates, hsorts.append hsorts'⟩

end Reload
end CacheLayer
