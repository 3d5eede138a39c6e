/-
Counters. A key counts to the number that its bytes read as, and to zero while
it is absent (`Counts`). What one addition does is said from the count alone
(`add_counts`); along a run of additions, with anything in between that spares
the key, the count is the one at the beginning and what has been accepted since
(`live?_addAll`), unless the deadline was reached: then the key begins anew
(`live?_addAll_anew`).

Main statement: `counters_exact`.
-/
import CacheLayer.Proofs.Store.Entries
import CacheLayer.Proofs.Store.Lifetime
import CacheLayer.Proofs.Text.Numeral

namespace CacheLayer.Store

variable {s : Store} {now : Nat} {key : String} {c delta : Int} {d : Option Nat}
  {e? : Option Entry}

/-! ## Counts -/

/-- What a key holds counts to a number and has a deadline: bytes that read as the number, or nothing
for zero. -/
inductive Counts : Option Entry → Int → Option Nat → Prop where
  | absent : Counts none 0 none
  | bytes {b : Bytes} {c : Int} {d : Option Nat} (h : Text.Reads b c) :
    Counts (some ⟨.bytes b, d⟩) c d

/-- The entry of a counter, its number in the usual text. -/
def tally (c : Int) (d : Option Nat) : Entry := ⟨.bytes (Text.utf8 (toString c)), d⟩

theorem Counts.of_tally (h : Text.fitsInt64 c = true) : Counts (some (tally c d)) c d :=
  .bytes (Text.reads_toString h)

theorem Counts.fits (h : Counts e? c d) : Text.fitsInt64 c = true := by
  cases h with
  | absent => rfl
  | bytes h => exact h.1

/-- A key does not count to two numbers. -/
theorem Counts.unique {c' : Int} {d' : Option Nat} (h : Counts e? c d) (h' : Counts e? c' d') :
    c = c' ∧ d = d' := by
  cases h with
  | absent =>
    cases h'
    exact ⟨rfl, rfl⟩
  | bytes h =>
    cases h' with
    | bytes h' =>
      have hc := Text.counter?_eq_some_iff.2 h
      rw [Text.counter?_eq_some_iff.2 h'] at hc
      exact ⟨(Option.some.inj hc).symm, rfl⟩

/-! ## One addition -/

theorem born_counterBytes : Entry.born (.bytes (counterBytes c)) none now = tally c none := by
  rw [Text.counterBytes_eq]
  rfl

/-- The sum is answered and stored with the deadline that there was, if it is in range. -/
theorem rule_add_counts (h : Counts e? c d) (hdelta : Text.fitsInt64 delta = true) :
    Rule.add now key delta e? =
      if Text.fitsInt64 (c + delta) then (.ok (c + delta), some (tally (c + delta) d))
      else (.error (.backend ("Increment would overflow for " ++ key)), e?) := by
  cases h with
  | absent =>
    rw [Int.zero_add, if_pos hdelta]
    simp only [Rule.add, born_counterBytes]
  | bytes h =>
    have hcount := Text.counter?_eq_some_iff.2 h
    simp only [Rule.add, hcount, Text.counterBytes_eq]
    rfl

theorem add_of_rule_error {e : Entry} {err : Error} (hl : s.live? now key = some e)
    (h : Rule.add now key delta (some e) = (.error err, some e)) :
    s.add now key delta = (.error err, s) := by
  have hsame : s.place key (some e) = s := by
    rw [← hl, ← purge_eq]
    exact purge_eq_self hl
  rw [add_eq, obey, hl, h, hsame]

/-- An addition answers and stores the sum, if it is in range, and fails otherwise. -/
theorem add_counts (h : Counts (s.live? now key) c d) (hdelta : Text.fitsInt64 delta = true) :
    s.add now key delta =
      if Text.fitsInt64 (c + delta) then (.ok (c + delta), s.place key (some (tally (c + delta) d)))
      else (.error (.backend ("Increment would overflow for " ++ key)), s) := by
  have hrule : Rule.add now key delta _ = _ := rule_add_counts h hdelta
  by_cases hfits : Text.fitsInt64 (c + delta) = true
  · rw [if_pos hfits] at hrule ⊢
    rw [add_eq, obey, hrule]
  · rw [if_neg hfits] at hrule ⊢
    cases hl : s.live? now key with
    | none =>
      rw [hl] at h
      cases h
      rw [Int.zero_add] at hfits
      exact absurd hdelta hfits
    | some e =>
      rw [hl] at hrule
      exact add_of_rule_error hl hrule

/-- Nothing is added to bytes that are not a number. -/
theorem add_of_not_reads {b : Bytes} (hl : s.live? now key = some ⟨.bytes b, d⟩)
    (h : ∀ c, ¬ Text.Reads b c) :
    s.add now key delta = (.error (.backend ("Value at " ++ key ++ " is not an integer")), s) := by
  have hnone : counter? b = none := by
    cases hc : counter? b with
    | none => rfl
    | some c => exact absurd (Text.counter?_eq_some_iff.1 hc) (h c)
  refine add_of_rule_error hl ?_
  simp only [Rule.add, hnone]

/-- Nothing is added to a value of another type. -/
theorem add_of_not_bytes {e : Entry} (hl : s.live? now key = some e)
    (h : ∀ b, e.value ≠ .bytes b) : s.add now key delta = (.error (.wrongType key), s) := by
  refine add_of_rule_error hl ?_
  cases hv : e.value with
  | bytes b => exact absurd hv (h b)
  | _ => simp only [Rule.add, hv]

/-! ## Runs of additions -/

/-- A number that is to be added, and what is done before that. -/
structure Addition where
  before : List Deed
  delta : Int

/-- The number is a word, and nothing that is done before touches the key. -/
def Addition.Fair (key : String) (a : Addition) : Prop :=
  Text.fitsInt64 a.delta = true ∧ ∀ d ∈ a.before, d.spares key = true

/-- An addition that has been asked for: when, how much, and the answer. -/
structure Asked where
  time : Nat
  delta : Int
  reply : Except Error Int

/-- Adds to a key again and again. -/
def addAll (key : String) (now : Nat) (s : Store) : List Addition → List Asked × Nat × Store
  | [] => ([], now, s)
  | a :: as =>
    let (_, now, s) := Deed.runAll now s a.before
    let (reply, s) := s.add now key a.delta
    let (asked, later, s) := addAll key now s as
    (⟨now, a.delta, reply⟩ :: asked, later, s)

/-- The additions that have been accepted. -/
def accepted (asked : List Asked) : List Asked := asked.filter fun a => a.reply.isOk

/-- The sum of the numbers that have been accepted. -/
def gain (asked : List Asked) : Int := (accepted asked).foldr (fun a sum => a.delta + sum) 0

/-- What a key holds after additions: the count with what has been accepted since, or what it held if
nothing has been. -/
def grown (e? : Option Entry) (c : Int) (d : Option Nat) (asked : List Asked) : Option Entry :=
  if accepted asked = [] then e? else some (tally (c + gain asked) d)

theorem addAll_cons (key : String) (now : Nat) (s : Store) (a : Addition) (as : List Addition) :
    addAll key now s (a :: as) =
      (let moved := (Deed.runAll now s a.before).2
       let added := moved.2.add moved.1 key a.delta
       let rest := addAll key moved.1 added.2 as
       (⟨moved.1, a.delta, added.1⟩ :: rest.1, rest.2)) := rfl

theorem gain_nil : gain [] = 0 := rfl

theorem gain_cons_ok {a : Asked} {asked : List Asked} (h : a.reply.isOk = true) :
    gain (a :: asked) = a.delta + gain asked := by
  simp [gain, accepted, h]

theorem gain_cons_error {a : Asked} {asked : List Asked} (h : a.reply.isOk = false) :
    gain (a :: asked) = gain asked := by
  simp [gain, accepted, h]

theorem grown_nil : grown e? c d [] = e? := rfl

theorem grown_cons_error {a : Asked} {asked : List Asked} (h : a.reply.isOk = false) :
    grown e? c d (a :: asked) = grown e? c d asked := by
  have hsame : accepted (a :: asked) = accepted asked := by simp [accepted, h]
  rw [grown, grown, hsame, gain_cons_error h]

theorem grown_cons_ok {a : Asked} {asked : List Asked} (h : a.reply.isOk = true) :
    grown e? c d (a :: asked) = grown (some (tally (c + a.delta) d)) (c + a.delta) d asked := by
  have hmore : accepted (a :: asked) = a :: accepted asked := by simp [accepted, h]
  rw [grown, grown, hmore, gain_cons_ok h, if_neg (by simp), Int.add_assoc]
  by_cases hnone : accepted asked = []
  · rw [if_pos hnone, gain, hnone]
    simp
  · rw [if_neg hnone]

/-- The entry is alive as long as its deadline has not been reached. -/
theorem isDead_eq_false {e : Entry} {t : Nat} (h : ∀ due ∈ e.deadline, t < due) :
    e.isDead t = false := by
  obtain ⟨value, deadline⟩ := e
  cases deadline with
  | none => rfl
  | some due =>
    have hlt : t < due := h due rfl
    simpa [Entry.isDead] using hlt

theorem Counts.deadline (h : Counts e? c d) {e : Entry} (he : e? = some e) : e.deadline = d := by
  subst he
  cases h
  rfl

/-- What counts stays until its deadline. -/
theorem Counts.filter_alive (h : Counts e? c d) {t : Nat} (halive : ∀ due ∈ d, t < due) :
    (e?.filter fun e => !e.isDead t) = e? := by
  cases e? with
  | none => rfl
  | some e =>
    have hdead : e.isDead t = false := isDead_eq_false (h.deadline rfl ▸ halive)
    simp [Option.filter, hdead]

/-- Nothing is left of what counts when the deadline is reached. -/
theorem Counts.filter_dead (h : Counts e? c d) {t due : Nat} (hd : d = some due) (hdead : due ≤ t) :
    (e?.filter fun e => !e.isDead t) = none := by
  cases h with
  | absent => cases hd
  | bytes h =>
    subst hd
    simp [Option.filter, Entry.isDead, hdead]

/-! ## The count along a run -/

variable {as : List Addition}

/-- Time does not go back while numbers are added. -/
theorem le_time_addAll (now : Nat) (s : Store) (hfair : ∀ a ∈ as, a.Fair key) :
    now ≤ (addAll key now s as).2.1 ∧ ∀ a ∈ (addAll key now s as).1, now ≤ a.time := by
  induction as generalizing now s with
  | nil => exact ⟨Nat.le_refl now, by rintro a ⟨⟩⟩
  | cons a as ih =>
    obtain ⟨ha, hrest⟩ := List.forall_mem_cons.1 hfair
    have hmoved : now ≤ (Deed.runAll now s a.before).2.1 := (Deed.live?_runAll s now ha.2).1
    rw [addAll_cons]
    obtain ⟨hlater, htimes⟩ := ih (Deed.runAll now s a.before).2.1
      ((Deed.runAll now s a.before).2.2.add (Deed.runAll now s a.before).2.1 key a.delta).2 hrest
    refine ⟨Nat.le_trans hmoved hlater, fun b hb => ?_⟩
    rcases List.mem_cons.1 hb with rfl | hb
    · exact hmoved
    · exact Nat.le_trans hmoved (htimes b hb)

/-- What an addition leaves counts on, as long as the deadline is not reached. -/
theorem counts_add (h : Counts (s.live? now key) c d) (halive : ∀ due ∈ d, now < due)
    (hdelta : Text.fitsInt64 delta = true) :
    (Text.fitsInt64 (c + delta) = true ∧ (s.add now key delta).1 = .ok (c + delta) ∧
      (s.add now key delta).2.live? now key = some (tally (c + delta) d)) ∨
    (∃ e, (s.add now key delta).1 = .error e) ∧ (s.add now key delta).2 = s := by
  rw [add_counts h hdelta]
  by_cases hfits : Text.fitsInt64 (c + delta) = true
  · have hdead : (tally (c + delta) d).isDead now = false := isDead_eq_false halive
    refine .inl ⟨hfits, ?_, ?_⟩
    · rw [if_pos hfits]
    · rw [if_pos hfits, place, live?_put_self, hdead]
      rfl
  · rw [if_neg hfits]
    exact .inr ⟨⟨_, rfl⟩, rfl⟩

/-- **The count of a run.** As long as the deadline is not reached, a key counts to what it began with
and all that has been accepted. -/
theorem live?_addAll (h : Counts (s.live? now key) c d) (hfair : ∀ a ∈ as, a.Fair key)
    (halive : ∀ due ∈ d, (addAll key now s as).2.1 < due) :
    (addAll key now s as).2.2.live? (addAll key now s as).2.1 key =
        grown (s.live? now key) c d (addAll key now s as).1 ∧
      Counts (grown (s.live? now key) c d (addAll key now s as).1)
        (c + gain (addAll key now s as).1) d := by
  induction as generalizing now s c with
  | nil =>
    exact ⟨rfl, by simpa [addAll, gain_nil, grown_nil] using h⟩
  | cons a as ih =>
    obtain ⟨⟨hdelta, hspares⟩, hrest⟩ := List.forall_mem_cons.1 hfair
    obtain ⟨-, hmoved⟩ := Deed.live?_runAll s now hspares
    rw [addAll_cons] at halive ⊢
    generalize Deed.runAll now s a.before = moved at halive hmoved ⊢
    obtain ⟨_, t, s₁⟩ := moved
    simp only at halive hmoved ⊢
    have hlater := (le_time_addAll t (s₁.add t key a.delta).2 hrest).1
    have halive₁ : ∀ due ∈ d, t < due := fun due hdue => by
      have := halive due hdue
      omega
    rw [h.filter_alive halive₁] at hmoved
    have h₁ : Counts (s₁.live? t key) c d := hmoved.symm ▸ h
    rcases counts_add h₁ halive₁ hdelta with ⟨hfits, hreply, hlive⟩ | ⟨⟨e, hreply⟩, hsame⟩
    · have hok : (s₁.add t key a.delta).1.isOk = true := by rw [hreply]; rfl
      have hcounts : Counts ((s₁.add t key a.delta).2.live? t key) (c + a.delta) d := by
        rw [hlive]
        exact .of_tally hfits
      obtain ⟨hend, hcount⟩ := ih hcounts hrest halive
      rw [hlive] at hend hcount
      rw [grown_cons_ok hok, gain_cons_ok hok, ← Int.add_assoc]
      exact ⟨hend, hcount⟩
    · have herror : (s₁.add t key a.delta).1.isOk = false := by rw [hreply]; rfl
      rw [hsame] at halive ⊢
      obtain ⟨hend, hcount⟩ := ih h₁ hrest halive
      rw [hmoved] at hend hcount
      rw [grown_cons_error herror, gain_cons_error herror]
      exact ⟨hend, hcount⟩

/-- The additions that came when the deadline had been reached. -/
def since (due : Nat) (asked : List Asked) : List Asked := asked.filter fun a => due ≤ a.time

/-- When the deadline is reached in a run, the key begins anew from nothing, and lives for good. -/
theorem live?_addAll_anew {due : Nat} (h : Counts (s.live? now key) c (some due))
    (hfair : ∀ a ∈ as, a.Fair key) (hdead : due ≤ (addAll key now s as).2.1) :
    (addAll key now s as).2.2.live? (addAll key now s as).2.1 key =
        grown none 0 none (since due (addAll key now s as).1) ∧
      Counts (grown none 0 none (since due (addAll key now s as).1))
        (gain (since due (addAll key now s as).1)) none := by
  induction as generalizing now s c with
  | nil =>
    have hnone : s.live? now key = none := by
      have hlive := live?_later s (Nat.le_refl now) key
      exact hlive.trans (h.filter_dead rfl hdead)
    exact ⟨hnone, .absent⟩
  | cons a as ih =>
    obtain ⟨⟨hdelta, hspares⟩, hrest⟩ := List.forall_mem_cons.1 hfair
    obtain ⟨hle, hmoved⟩ := Deed.live?_runAll s now hspares
    by_cases hbefore : due ≤ (Deed.runAll now s a.before).2.1
    · -- the key is gone before the number is added, and nothing that comes gives it a deadline
      have hanew : addAll key now s (a :: as) = addAll key (Deed.runAll now s a.before).2.1
          (Deed.runAll now s a.before).2.2 (⟨[], a.delta⟩ :: as) := rfl
      rw [h.filter_dead rfl hbefore] at hmoved
      rw [hanew]
      generalize Deed.runAll now s a.before = moved at hmoved hbefore ⊢
      obtain ⟨_, t, s₁⟩ := moved
      simp only at hmoved hbefore ⊢
      have hfair₁ : ∀ b ∈ (⟨[], a.delta⟩ :: as : List Addition), b.Fair key :=
        List.forall_mem_cons.2 ⟨⟨hdelta, by rintro d ⟨⟩⟩, hrest⟩
      have hcounts : Counts (s₁.live? t key) 0 none := hmoved.symm ▸ .absent
      have hsince : since due (addAll key t s₁ (⟨[], a.delta⟩ :: as)).1 =
          (addAll key t s₁ (⟨[], a.delta⟩ :: as)).1 := by
        refine List.filter_eq_self.2 fun b hb => ?_
        simpa using Nat.le_trans hbefore ((le_time_addAll t s₁ hfair₁).2 b hb)
      have hrun := live?_addAll hcounts hfair₁ (by rintro due' ⟨⟩)
      rw [hmoved, Int.zero_add] at hrun
      rw [hsince]
      exact hrun
    · rw [addAll_cons] at hdead ⊢
      generalize Deed.runAll now s a.before = moved at hdead hmoved hbefore ⊢
      obtain ⟨_, t, s₁⟩ := moved
      simp only at hdead hmoved hbefore ⊢
      have halive : ∀ due' ∈ some due, t < due' := by simpa using hbefore
      rw [h.filter_alive halive] at hmoved
      have h₁ : Counts (s₁.live? t key) c (some due) := hmoved.symm ▸ h
      have hskip (asked : List Asked) (reply : Except Error Int) :
          since due (⟨t, a.delta, reply⟩ :: asked) = since due asked := by
        simp [since, hbefore]
      rw [hskip]
      rcases counts_add h₁ halive hdelta with ⟨hfits, -, hlive⟩ | ⟨-, hsame⟩
      · have hcounts : Counts ((s₁.add t key a.delta).2.live? t key) (c + a.delta) (some due) := by
          rw [hlive]
          exact .of_tally hfits
        exact ih hcounts hrest hdead
      · rw [hsame] at hdead ⊢
        exact ih h₁ hrest hdead

/-- **Counters are exact.** A key that counts to a number, which it does if it is absent or its bytes
read as that number, counts after any run of additions to that number and all that was accepted, in
the usual text and with the deadline that it had; if the deadline is reached meanwhile, to what was
accepted since then, and for good. At every point of the run the next addition answers and stores
the sum, if that is a word, and fails and leaves the store as it is otherwise. Nothing is added to
bytes that are no number, or to a value of another type. -/
theorem counters_exact (s : Store) (now : Nat) (key : String) :
    (∀ c d, Counts (s.live? now key) c d → ∀ as : List Addition, (∀ a ∈ as, a.Fair key) →
      ∀ asked later s', addAll key now s as = (asked, later, s') →
        ∃ c' d', Counts (s'.live? later key) c' d' ∧
          ((∀ due ∈ d, later < due) → c' = c + gain asked ∧ d' = d ∧
            s'.live? later key = grown (s.live? now key) c d asked) ∧
          (∀ due ∈ d, due ≤ later → c' = gain (since due asked) ∧ d' = none ∧
            s'.live? later key = grown none 0 none (since due asked)) ∧
          ∀ delta, Text.fitsInt64 delta = true →
            s'.add later key delta =
              if Text.fitsInt64 (c' + delta) then
                (.ok (c' + delta), s'.place key (some (tally (c' + delta) d')))
              else (.error (.backend ("Increment would overflow for " ++ key)), s')) ∧
    (∀ b d, s.live? now key = some ⟨.bytes b, d⟩ → (∀ c, ¬ Text.Reads b c) → ∀ delta,
      s.add now key delta = (.error (.backend ("Value at " ++ key ++ " is not an integer")), s)) ∧
    ∀ e, s.live? now key = some e → (∀ b, e.value ≠ .bytes b) → ∀ delta,
      s.add now key delta = (.error (.wrongType key), s) := by
  refine ⟨fun c d h as hfair asked later s' hrun => ?_, ?_, ?_⟩
  · have hfirst := live?_addAll h hfair
    rw [hrun] at hfirst
    by_cases halive : ∀ due ∈ d, later < due
    · obtain ⟨hlive, hcounts⟩ := hfirst halive
      rw [← hlive] at hcounts
      refine ⟨_, d, hcounts, fun _ => ⟨rfl, rfl, hlive⟩, fun due hdue hdead => ?_, fun delta =>
        add_counts hcounts⟩
      exact absurd (halive due hdue) (Nat.not_lt.2 hdead)
    · obtain ⟨due, hdue, hdead⟩ : ∃ due ∈ d, due ≤ later := by simpa using halive
      obtain rfl : d = some due := hdue
      have hanew := live?_addAll_anew h hfair
      rw [hrun] at hanew
      obtain ⟨hlive, hcounts⟩ := hanew hdead
      rw [← hlive] at hcounts
      refine ⟨_, none, hcounts, fun halive' => absurd halive' halive, fun due' hdue' _ => ?_,
        fun delta => add_counts hcounts⟩
      obtain rfl : due = due' := Option.some.inj hdue'
      exact ⟨rfl, rfl, hlive⟩
  · exact fun b d hl h delta => add_of_not_reads hl h
  · exact fun e hl h delta => add_of_not_bytes hl h

/-- A counter with a sign and blanks that dies at fifty, a text, and a list. -/
def visited : Store :=
  ((Store.empty.put "n" ⟨.bytes (Text.utf8 " +41\n"), some 50⟩).put
    "t" ⟨.bytes (Text.utf8 "4x"), none⟩).put "l" ⟨.list [[1]], none⟩

/-- The second number is too much. -/
def raises : List Addition :=
  [⟨[], 1⟩, ⟨[.sleep 5, .size], 9223372036854775807⟩, ⟨[], -50⟩]

/-- The second number comes when the counter has died. -/
def lateRaises : List Addition := [⟨[], 1⟩, ⟨[.sleep 60], 5⟩]

/-- The sum that leaves the range is refused, and the deadline stays; a counter that has died begins
anew. -/
theorem counters_exact_visited :
    (addAll "n" 10 visited raises).2.2.live? 15 "n" = some (tally (-8) (some 50)) ∧
    (addAll "n" 10 visited lateRaises).2.2.live? 70 "n" = some (tally 5 none) ∧
    visited.add 10 "t" 1 = (.error (.backend "Value at t is not an integer"), visited) ∧
    visited.add 10 "l" 1 = (.error (.wrongType "l"), visited) := by
  have hcounts : Counts (visited.live? 10 "n") 41 (some 50) :=
    .bytes (Text.counter?_eq_some_iff.1 (by decide +kernel))
  have hfair {as : List Addition}
      (h : as.all (fun a => Text.fitsInt64 a.delta && a.before.all (·.spares "n")) = true) :
      ∀ a ∈ as, a.Fair "n" := by
    intro a ha
    obtain ⟨hdelta, hspares⟩ := Bool.and_eq_true_iff.1 (List.all_eq_true.1 h a ha)
    exact ⟨hdelta, List.all_eq_true.1 hspares⟩
  refine ⟨?_, ?_, ?_, ?_⟩
  · obtain ⟨_, _, _, hin, -⟩ := (counters_exact visited 10 "n").1 41 (some 50) hcounts raises
      (hfair (by decide +kernel)) (addAll "n" 10 visited raises).1 15
      (addAll "n" 10 visited raises).2.2 rfl
    have hgain : gain (addAll "n" 10 visited raises).1 = -49 := by decide +kernel
    rw [(hin (by decide +kernel)).2.2, grown, if_neg (by decide +kernel), hgain]
    rfl
  · obtain ⟨_, _, _, -, hanew, -⟩ := (counters_exact visited 10 "n").1 41 (some 50) hcounts
      lateRaises (hfair (by decide +kernel)) (addAll "n" 10 visited lateRaises).1 70
      (addAll "n" 10 visited lateRaises).2.2 rfl
    have hgain : gain (since 50 (addAll "n" 10 visited lateRaises).1) = 5 := by decide +kernel
    rw [(hanew 50 rfl (by decide +kernel)).2.2, grown, if_neg (by decide +kernel), hgain]
    rfl
  · refine (counters_exact visited 10 "t").2.1 _ _ rfl (fun c h => ?_) 1
    have hnone : counter? (Text.utf8 "4x") = none := by decide +kernel
    rw [Text.counter?_eq_some_iff.2 h] at hnone
    cases hnone
  · exact (counters_exact visited 10 "l").2.2 _ rfl (by rintro b ⟨⟩) 1

end CacheLayer.Store
