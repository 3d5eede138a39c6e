/-
The fates of keys that are reloaded. What becomes of an occurrence of a key is its fate: it is lost
with its chunk, or there is no value for it, or its value is rejected or cannot be encoded, or it is
reloaded. The counts, the errors and the bytes to be stored are read off the fates.

Where the source judges values by a rule, the fates of all occurrences follow from what is offered
for each of them (`Fates.of`). A value serves one occurrence of its key, so in `offers` a key that
comes again finds nothing left.
-/
import CacheLayer.Proofs.Client.Coding
import CacheLayer.Proofs.Reload.Attempts

namespace CacheLayer

variable {V α : Type} {s t u : Scene V} {log : List (Exchange V)}

namespace Reload

/-! ## Fates -/

/-- What becomes of an occurrence of a key. -/
inductive Fate (V : Type) where
  /-- The chunk could not be loaded. -/
  | lost (e : Error)
  /-- There is no value, or it has served an earlier occurrence. -/
  | missing
  | rejected (v : V) (e : Error)
  /-- The value cannot be encoded. -/
  | unfit (v : V) (e : Error)
  /-- The value is accepted and not to be stored. -/
  | checked (v : V)
  | stored (v : V) (b : Bytes)

namespace Fate

/-- The error with which the key is listed. -/
def error? (key : String) : Fate V → Option Error
  | lost e | rejected _ e | unfit _ e => some e
  | missing => some (.notFound key)
  | checked _ | stored _ _ => none

/-- The occurrence counts as reloaded. -/
def isReloaded : Fate V → Bool
  | checked _ | stored _ _ => true
  | _ => false

/-- What the source says of the value. -/
def verdict? : Fate V → Option (V × Except Error Unit)
  | rejected v e => some (v, .error e)
  | unfit v _ | checked v | stored v _ => some (v, .ok ())
  | lost _ | missing => none

def bytes? : Fate V → Option Bytes
  | stored _ b => some b
  | _ => none

/-- A value is stored as it is encoded, unless values are only checked. -/
def Fits (m : Memory V) (checkOnly : Bool) (key : String) : Fate V → Prop
  | lost _ => False
  | missing | rejected _ _ => True
  | unfit v e =>
    checkOnly = false ∧ ∃ fresh, Client.coded m m.format fresh key v = .error e
  | checked _ => checkOnly = true
  | stored v b =>
    checkOnly = false ∧ ∃ fresh, Client.coded m m.format fresh key v = .ok b

end Fate

/-- Occurrences of keys with their fates. -/
abbrev Fates (V : Type) := List (String × Fate V)

namespace Fates

def result (os : Fates V) : ReloadResult where
  reloaded := os.countP (·.2.isReloaded)
  failed := os.countP (!·.2.isReloaded)
  errors := os.filterMap fun o => (o.2.error? o.1).map (o.1, ·)

def puts (os : Fates V) : List (String × Bytes) := os.filterMap fun o => o.2.bytes?.map (o.1, ·)

def verdicts (id : SourceId) (os : Fates V) : List (Event V) :=
  (os.filterMap (·.2.verdict?)).map fun v => .judged id v.1 v.2

/-- All keys of a chunk that could not be loaded. -/
def allLost (keys : List String) (e : Error) : Fates V := keys.map fun key => (key, .lost e)

/-- The fates of occurrences, given what was loaded for them. A value serves one occurrence. -/
inductive Sorted (m : Memory V) (checkOnly : Bool) : KeyMap V → Fates V → Prop where
  | nil (loaded : KeyMap V) : Sorted m checkOnly loaded []
  | missing {loaded : KeyMap V} {key : String} {os : Fates V} (h : loaded.get? key = none)
      (rest : Sorted m checkOnly loaded os) : Sorted m checkOnly loaded ((key, .missing) :: os)
  | rejected {loaded : KeyMap V} {key : String} {v : V} {os : Fates V} (e : Error)
      (h : loaded.get? key = some v) (rest : Sorted m checkOnly (loaded.erase key) os) :
      Sorted m checkOnly loaded ((key, .rejected v e) :: os)
  | unfit {loaded : KeyMap V} {key : String} {v : V} {os : Fates V} {e : Error} {fresh : Nat}
      (h : loaded.get? key = some v) (hmode : checkOnly = false)
      (hcoded : Client.coded m m.format fresh key v = .error e)
      (rest : Sorted m checkOnly (loaded.erase key) os) :
      Sorted m checkOnly loaded ((key, .unfit v e) :: os)
  | checked {loaded : KeyMap V} {key : String} {v : V} {os : Fates V}
      (h : loaded.get? key = some v) (hmode : checkOnly = true)
      (rest : Sorted m checkOnly (loaded.erase key) os) :
      Sorted m checkOnly loaded ((key, .checked v) :: os)
  | stored {loaded : KeyMap V} {key : String} {v : V} {os : Fates V} {b : Bytes} {fresh : Nat}
      (h : loaded.get? key = some v) (hmode : checkOnly = false)
      (hcoded : Client.coded m m.format fresh key v = .ok b)
      (rest : Sorted m checkOnly (loaded.erase key) os) :
      Sorted m checkOnly loaded ((key, .stored v b) :: os)

end Fates

/-! ## Results of fates -/

theorem Fates.result_append (os os' : Fates V) :
    Fates.result (os ++ os') = os.result.merge os'.result := by
  simp only [Fates.result, ReloadResult.merge, List.countP_append, List.filterMap_append]

theorem Fates.result_cons (o : String × Fate V) (os : Fates V) :
    Fates.result (o :: os) = (Fates.result [o]).merge (Fates.result os) :=
  Fates.result_append [o] os

theorem merge_empty (r : ReloadResult) : r.merge {} = r := by
  simp [ReloadResult.merge]

theorem empty_merge (r : ReloadResult) : ReloadResult.merge {} r = r := by
  simp [ReloadResult.merge]

theorem succeed_eq (r : ReloadResult) : r.succeed = r.merge ⟨1, 0, []⟩ := by
  simp [ReloadResult.succeed, ReloadResult.merge]

theorem merge_assoc (r r' r'' : ReloadResult) :
    (r.merge r').merge r'' = r.merge (r'.merge r'') := by
  simp [ReloadResult.merge, Nat.add_assoc]

theorem foldl_fail (keys : List String) (e : Error) (r : ReloadResult) :
    keys.foldl (fun r key => r.fail key e) r =
      r.merge (Fates.allLost keys e : Fates V).result := by
  induction keys generalizing r with
  | nil => exact (merge_empty r).symm
  | cons key keys ih =>
    have hfail : r.fail key e = r.merge (Fates.result [(key, (.lost e : Fate V))]) := rfl
    rw [List.foldl_cons, ih, hfail, merge_assoc, Fates.allLost, Fates.allLost, List.map_cons,
      ← Fates.result_cons]

theorem map_fst_allLost (keys : List String) (e : Error) :
    (Fates.allLost keys e : Fates V).map Prod.fst = keys := by
  simp [Fates.allLost, Function.comp_def]

theorem Fates.puts_allLost (keys : List String) (e : Error) :
    (Fates.allLost keys e : Fates V).puts = [] := by
  simp [Fates.puts, Fates.allLost, Fate.bytes?]

theorem Fates.verdicts_allLost (id : SourceId) (keys : List String) (e : Error) :
    (Fates.allLost keys e : Fates V).verdicts id = [] := by
  simp [Fates.verdicts, Fates.allLost, Fate.verdict?]

namespace Fates

variable {m : Memory V} {got : KeyMap V} {os : Fates V} {checkOnly : Bool}

theorem Sorted.fits (h : Sorted m checkOnly got os) :
    ∀ o ∈ os, o.2.Fits m checkOnly o.1 := by
  induction h with
  | nil => exact List.forall_mem_nil _
  | missing h rest ih => exact List.forall_mem_cons.2 ⟨trivial, ih⟩
  | rejected e h rest ih => exact List.forall_mem_cons.2 ⟨trivial, ih⟩
  | unfit h hmode hcoded rest ih => exact List.forall_mem_cons.2 ⟨⟨hmode, _, hcoded⟩, ih⟩
  | checked h hmode rest ih => exact List.forall_mem_cons.2 ⟨hmode, ih⟩
  | stored h hmode hcoded rest ih => exact List.forall_mem_cons.2 ⟨⟨hmode, _, hcoded⟩, ih⟩

/-- Where values are only checked, nothing is stored. -/
theorem puts_checked (h : ∀ o ∈ os, o.2.Fits m true o.1) : os.puts = [] := by
  refine List.filterMap_eq_nil_iff.2 fun o ho => ?_
  have hfits := h o ho
  obtain ⟨key, fate⟩ := o
  cases fate with
  | stored v b => cases hfits.1
  | _ => rfl

/-- Otherwise, what counts as reloaded is stored. -/
theorem puts_stored (h : ∀ o ∈ os, o.2.Fits m false o.1) :
    os.puts.map Prod.fst = (os.filter (·.2.isReloaded)).map Prod.fst := by
  induction os with
  | nil => rfl
  | cons o os ih =>
    obtain ⟨hfits, hos⟩ := List.forall_mem_cons.1 h
    obtain ⟨key, fate⟩ := o
    cases fate with
    | checked v => cases hfits
    | stored v b => exact congrArg (key :: ·) (ih hos)
    | _ => exact ih hos

theorem length_errors (os : Fates V) : os.result.errors.length = os.result.failed := by
  induction os with
  | nil => rfl
  | cons o os ih =>
    rw [result_cons]
    simp only [ReloadResult.merge, List.length_append, ih]
    obtain ⟨key, fate⟩ := o
    cases fate <;> rfl

theorem reloaded_add_failed (os : Fates V) :
    os.result.reloaded + os.result.failed = os.length := by
  simp [result, List.length_eq_countP_add_countP (fun o : String × Fate V => o.2.isReloaded)]

/-- The keys with errors are in the order of the occurrences. -/
theorem errors_sublist (os : Fates V) :
    (os.result.errors.map Prod.fst).Sublist (os.map Prod.fst) := by
  induction os with
  | nil => exact .slnil
  | cons o os ih =>
    rw [result_cons, List.map_cons]
    simp only [ReloadResult.merge, List.map_append]
    obtain ⟨key, fate⟩ := o
    cases fate <;> first | exact ih.cons_cons key | exact ih.cons key

/-! ### What keys are given -/

/-- The bytes that a key is given last. -/
def lastPut (os : Fates V) (key : String) : Option Bytes :=
  (os.puts.filter (·.1 == key)).getLast?.map Prod.snd

theorem puts_append (os os' : Fates V) : puts (os ++ os') = os.puts ++ os'.puts :=
  List.filterMap_append

theorem lastPut_append (os os' : Fates V) (key : String) :
    lastPut (os ++ os') key = (os'.lastPut key).or (os.lastPut key) := by
  simp only [lastPut, puts_append, List.filter_append, List.getLast?_append]
  cases (os'.puts.filter (·.1 == key)).getLast? <;> rfl

theorem lastPut_of_not_mem {key : String} (h : ∀ v b, (key, .stored v b) ∉ os) :
    os.lastPut key = none := by
  induction os with
  | nil => rfl
  | cons o os ih =>
    have hrest : lastPut os key = none := ih fun v b hmem => h v b (List.mem_cons_of_mem _ hmem)
    obtain ⟨k, fate⟩ := o
    rw [← List.singleton_append, lastPut_append, hrest, Option.none_or]
    cases fate with
    | stored v b =>
      have hne : k ≠ key := fun heq => h v b (heq ▸ List.mem_cons_self)
      simp [lastPut, puts, Fate.bytes?, hne]
    | _ => rfl

/-- A key that comes once is given its bytes. -/
theorem lastPut_of_mem {key : String} {v : V} {b : Bytes} (hnodup : (os.map Prod.fst).Nodup)
    (h : (key, .stored v b) ∈ os) : os.lastPut key = some b := by
  induction os with
  | nil => cases h
  | cons o os ih =>
    obtain ⟨hnew, hrest⟩ := List.nodup_cons.1 hnodup
    rw [← List.singleton_append, lastPut_append]
    rcases List.mem_cons.1 h with rfl | hmem
    · have hnone : lastPut os key = none := lastPut_of_not_mem fun v b hmem =>
        hnew (List.mem_map.2 ⟨_, hmem, rfl⟩)
      rw [hnone, Option.none_or]
      simp [lastPut, puts, Fate.bytes?]
    · rw [ih hrest hmem, Option.some_or]

/-- The entry that a key is given last holds the bytes that it is given last. -/
theorem lastGiven_puts (os : Fates V) (life : Option Nat) (time : Nat) (key : String) :
    Store.lastGiven (os.puts.map fun p => (p.1, .born (.bytes p.2) life time)) key =
      (os.lastPut key).map fun b => .born (.bytes b) life time := by
  simp only [Store.lastGiven, lastPut, List.filter_map, List.getLast?_map, Option.map_map]
  rfl

end Fates

/-! ## Offers -/

/-- What is left of the rows when one of them has been given away. -/
def taken (rows : String → Option V) (key : String) : String → Option V :=
  fun k => if k = key then none else rows k

/-- What is there for each of the occurrences of keys. A row serves one of them. -/
def offers (rows : String → Option V) : List String → List (String × Option V)
  | [] => []
  | key :: keys => (key, rows key) :: offers (taken rows key) keys

theorem taken_get? (loaded : KeyMap V) (key : String) :
    (loaded.erase key).get? = taken loaded.get? key := by
  funext k
  unfold taken
  by_cases hk : k = key
  · subst hk
    simp
  · rw [if_neg hk, KeyMap.get?_erase_other _ hk]

theorem taken_of_none {rows : String → Option V} {key : String} (h : rows key = none) :
    taken rows key = rows := by
  funext k
  unfold taken
  split
  · next hk => rw [hk, h]
  · rfl

theorem offers_append (rows : String → Option V) (keys keys' : List String) :
    offers rows (keys ++ keys') = offers rows keys ++ offers (keys.foldl taken rows) keys' := by
  induction keys generalizing rows with
  | nil => rfl
  | cons key keys ih => simp [offers, ih]

/-- An occurrence finds the row of its key, unless the key has come before. -/
theorem getElem?_offers (rows : String → Option V) (keys : List String) (i : Nat) :
    (offers rows keys)[i]? =
      keys[i]?.map fun key => (key, if key ∈ keys.take i then none else rows key) := by
  induction keys generalizing rows i with
  | nil => rfl
  | cons key keys ih =>
    cases i with
    | zero => simp [offers]
    | succ i =>
      simp only [offers, List.getElem?_cons_succ, ih, taken, List.take_succ_cons, List.mem_cons]
      congr 1
      funext k
      by_cases hk : k = key <;> simp [hk]

/-- Only the rows of the keys matter. -/
theorem offers_congr {rows rows' : String → Option V} {keys : List String}
    (h : ∀ key ∈ keys, rows key = rows' key) : offers rows keys = offers rows' keys := by
  induction keys generalizing rows rows' with
  | nil => rfl
  | cons key keys ih =>
    obtain ⟨hkey, hkeys⟩ := List.forall_mem_cons.1 h
    have hrest : ∀ k ∈ keys, taken rows key k = taken rows' key k := by
      intro k hk
      simp only [taken, hkeys k hk]
    rw [offers, offers, hkey, ih hrest]

/-- No key that has a row comes twice. -/
def Apart (rows : String → Option V) (keys : List String) : Prop :=
  keys.Pairwise fun key key' => key = key' → rows key = none

theorem Apart.of_nodup (rows : String → Option V) {keys : List String} (h : keys.Nodup) :
    Apart rows keys :=
  List.Pairwise.imp (fun hne heq => absurd heq hne) h

/-- Where no key that has a row comes twice, there is a row for each occurrence. -/
theorem Apart.offers {rows : String → Option V} {keys : List String} (h : Apart rows keys) :
    offers rows keys = keys.map fun key => (key, rows key) := by
  induction keys generalizing rows with
  | nil => rfl
  | cons key keys ih =>
    obtain ⟨hkey, hkeys⟩ := List.pairwise_cons.1 h
    have hsame : ∀ k ∈ keys, taken rows key k = rows k := by
      intro k hk
      unfold taken
      split
      · next heq =>
        subst heq
        exact (hkey k hk rfl).symm
      · rfl
    rw [Reload.offers, offers_congr hsame, ih hkeys, List.map_cons]

/-! ## Fates by a rule -/

/-- What becomes of a key with what is there for it, where the source judges values by a rule and
the numbers from `fresh` on are free. -/
def Fate.of (m : Memory V) (verdict : V → Except Error Unit) (checkOnly : Bool) (fresh : Nat)
    (key : String) : Option V → Fate V
  | none => .missing
  | some v =>
    match verdict v with
    | .error e => .rejected v e
    | .ok () =>
      if checkOnly then .checked v
      else
        match Client.coded m m.format fresh key v with
        | .error e => .unfit v e
        | .ok b => .stored v b

/-- The first number that is free afterwards. -/
def Fate.freshAfter (m : Memory V) (fresh : Nat) : Fate V → Nat
  | unfit v _ | stored v _ => Client.freshAfter m m.format fresh v
  | _ => fresh

/-- What is stored is there, it is accepted, and these are its bytes. -/
theorem Fate.of_eq_stored {m : Memory V} {verdict : V → Except Error Unit} {checkOnly : Bool}
    {fresh : Nat} {key : String} {v? : Option V} {v : V} {b : Bytes}
    (h : Fate.of m verdict checkOnly fresh key v? = .stored v b) :
    v? = some v ∧ verdict v = .ok () ∧ checkOnly = false ∧
      Client.coded m m.format fresh key v = .ok b := by
  unfold Fate.of at h
  split at h
  · cases h
  · next w =>
    cases hverdict : verdict w with
    | error e => simp [hverdict] at h
    | ok =>
      cases checkOnly with
      | true => simp [hverdict] at h
      | false =>
        cases hcoded : Client.coded m m.format fresh key w with
        | error e => simp [hverdict, hcoded] at h
        | ok b' =>
          simp only [hverdict, hcoded, Bool.false_eq_true, if_false, stored.injEq] at h
          obtain ⟨rfl, rfl⟩ := h
          exact ⟨rfl, hverdict, rfl, hcoded⟩

/-- Unless values are only checked, what counts as reloaded is stored. -/
theorem Fate.stored_of_isReloaded {m : Memory V} {verdict : V → Except Error Unit} {fresh : Nat}
    {key : String} {v? : Option V}
    (h : (Fate.of m verdict false fresh key v?).isReloaded = true) :
    ∃ v b, Fate.of m verdict false fresh key v? = .stored v b := by
  cases hfate : Fate.of m verdict false fresh key v? with
  | stored v b => exact ⟨v, b, rfl⟩
  | checked v =>
    unfold Fate.of at hfate
    split at hfate
    · cases hfate
    · split at hfate
      · cases hfate
      · split at hfate <;> first | contradiction | (split at hfate <;> cases hfate)
  | _ =>
    rw [hfate] at h
    cases h

namespace Fates

/-- The fates of all occurrences. -/
def of (m : Memory V) (verdict : V → Except Error Unit) (checkOnly : Bool) :
    Nat → List (String × Option V) → Fates V
  | _, [] => []
  | fresh, (key, v?) :: rest =>
    let fate := Fate.of m verdict checkOnly fresh key v?
    (key, fate) :: of m verdict checkOnly (fate.freshAfter m fresh) rest

/-- The first number that is free after all occurrences. -/
def freshAfter (m : Memory V) (fresh : Nat) (os : Fates V) : Nat :=
  os.foldl (fun fresh o => o.2.freshAfter m fresh) fresh

/-- The source has judged the values by the rule. -/
def JudgedBy (verdict : V → Except Error Unit) (os : Fates V) : Prop :=
  ∀ o ∈ os, ∀ x, o.2.verdict? = some x → x.2 = verdict x.1

variable {m : Memory V} {verdict : V → Except Error Unit} {checkOnly : Bool} {fresh : Nat}

theorem map_fst_of (xs : List (String × Option V)) :
    (of m verdict checkOnly fresh xs).map Prod.fst = xs.map Prod.fst := by
  induction xs generalizing fresh with
  | nil => rfl
  | cons x xs ih => simp [of, ih]

theorem freshAfter_append (m : Memory V) (fresh : Nat) (os os' : Fates V) :
    freshAfter m fresh (os ++ os') = freshAfter m (freshAfter m fresh os) os' := List.foldl_append

theorem of_append (xs ys : List (String × Option V)) :
    of m verdict checkOnly fresh (xs ++ ys) = of m verdict checkOnly fresh xs ++
      of m verdict checkOnly (freshAfter m fresh (of m verdict checkOnly fresh xs)) ys := by
  induction xs generalizing fresh with
  | nil => rfl
  | cons x xs ih => simp [of, ih, freshAfter]

/-- Every occurrence has the fate of what is there for it. -/
theorem exists_of_mem {xs : List (String × Option V)} {o : String × Fate V}
    (h : o ∈ of m verdict checkOnly fresh xs) :
    ∃ v? free, (o.1, v?) ∈ xs ∧ o.2 = Fate.of m verdict checkOnly free o.1 v? := by
  induction xs generalizing fresh with
  | nil => cases h
  | cons x xs ih =>
    rcases List.mem_cons.1 h with rfl | hrest
    · exact ⟨x.2, fresh, List.mem_cons_self, rfl⟩
    · obtain ⟨v?, free, hmem, hfate⟩ := ih hrest
      exact ⟨v?, free, List.mem_cons_of_mem _ hmem, hfate⟩

/-- Where values are only checked, none is stored. -/
theorem not_stored_of {xs : List (String × Option V)} {key : String} {v : V} {b : Bytes} :
    (key, .stored v b) ∉ of m verdict true fresh xs := by
  intro hmem
  obtain ⟨v?, free, -, hfate⟩ := exists_of_mem hmem
  obtain ⟨-, -, hmode, -⟩ := Fate.of_eq_stored hfate.symm
  cases hmode

theorem JudgedBy.of_append {os os' : Fates V} (h : JudgedBy verdict (os ++ os')) :
    JudgedBy verdict os ∧ JudgedBy verdict os' :=
  ⟨fun o ho => h o (List.mem_append_left _ ho), fun o ho => h o (List.mem_append_right _ ho)⟩

theorem JudgedBy.flatMap {ι : Type} {parts : List ι} {f : ι → Fates V}
    (h : ∀ part ∈ parts, JudgedBy verdict (f part)) : JudgedBy verdict (parts.flatMap f) := by
  intro o ho
  obtain ⟨part, hpart, hmem⟩ := List.mem_flatMap.1 ho
  exact h part hpart o hmem

/-- The rule is that by which the source was heard to judge. -/
theorem judgedBy_of_said {id : SourceId} {os : Fates V}
    (h : ∀ v r, Event.judged id v r ∈ os.verdicts id → r = verdict v) : JudgedBy verdict os := by
  intro o ho x hx
  refine h x.1 x.2 (List.mem_map.2 ⟨x, ?_, rfl⟩)
  exact List.mem_filterMap.2 ⟨o, ho, hx⟩

theorem freshAfter_allLost (m : Memory V) (fresh : Nat) (keys : List String) (e : Error) :
    freshAfter m fresh (allLost keys e) = fresh := by
  induction keys with
  | nil => rfl
  | cons key keys ih => exact ih

end Fates

end Reload
end CacheLayer
