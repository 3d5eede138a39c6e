/-
Lifetimes. A key that is spared keeps its entry until the deadline and no
longer, however time passes (`live?_runAll`), so a key that is given a life is
there for exactly that life.

Main statement: `replies_punctual`.
-/
import CacheLayer.Proofs.Store.Deadline

namespace CacheLayer.Store

variable {s : Store} {now later : Nat} {key : String}

/-! ## As time goes on -/

/-- What is alive later is what is alive now and does not die until then. -/
theorem filter_later (h : now ≤ later) (e? : Option Entry) :
    (e?.filter fun e => !e.isDead now).filter (fun e => !e.isDead later) =
      e?.filter fun e => !e.isDead later := by
  cases e? with
  | none => rfl
  | some e =>
    by_cases hd : e.isDead now = true
    · simp [Option.filter, hd, Entry.isDead_of_le h hd]
    · simp [Option.filter, hd]

theorem live?_later (s : Store) (h : now ≤ later) (key : String) :
    s.live? later key = (s.live? now key).filter fun e => !e.isDead later :=
  (filter_later h _).symm

namespace Deed

/-- The deed only asks what the key holds, or works on other keys. -/
def spares (key : String) : Deed → Bool
  | call c => c.spares key
  | size | sleep _ => true

theorem live?_run (s : Store) (now : Nat) {d : Deed} (h : d.spares key = true) :
    now ≤ (d.run now s).2.1 ∧
      (d.run now s).2.2.live? (d.run now s).2.1 key =
        (s.live? now key).filter fun e => !e.isDead (d.run now s).2.1 := by
  cases d with
  | call c =>
    refine ⟨Nat.le_refl now, (live?_spared s now h).trans ?_⟩
    exact live?_later s (Nat.le_refl now) key
  | size => exact ⟨Nat.le_refl now, live?_later s (Nat.le_refl now) key⟩
  | sleep ms => exact ⟨Nat.le_add_right now ms, live?_later s (Nat.le_add_right now ms) key⟩

/-- After deeds that spare a key it has its entry, unless that has died meanwhile. -/
theorem live?_runAll {ds : List Deed} (s : Store) (now : Nat)
    (h : ∀ d ∈ ds, d.spares key = true) :
    now ≤ (runAll now s ds).2.1 ∧
      (runAll now s ds).2.2.live? (runAll now s ds).2.1 key =
        (s.live? now key).filter fun e => !e.isDead (runAll now s ds).2.1 := by
  induction ds generalizing s now with
  | nil => exact ⟨Nat.le_refl now, live?_later s (Nat.le_refl now) key⟩
  | cons d ds ih =>
    obtain ⟨hd, hrest⟩ : d.spares key = true ∧ ∀ d ∈ ds, d.spares key = true := by simpa using h
    obtain ⟨hle, hlive⟩ := live?_run s now hd
    obtain ⟨hle', hlive'⟩ := ih (d.run now s).2.2 (d.run now s).2.1 hrest
    refine ⟨Nat.le_trans hle hle', hlive'.trans ?_⟩
    rw [hlive, filter_later hle']
    rfl

end Deed

/-- A live key gets a new life. -/
theorem live?_expire {e : Entry} (h : s.live? now key = some e) {life : Nat} (hlife : 0 < life) :
    ((Call.expire key life).run now s).1 = .ok true ∧
      ((Call.expire key life).run now s).2.live? now key =
        some { e with deadline := some (now + life) } := by
  obtain ⟨hreply, hlive⟩ := s.run_onKey now (.expire key life) rfl
  rw [h] at hreply hlive
  refine ⟨hreply, hlive.trans ?_⟩
  have halive : ¬ now + life ≤ now := by omega
  simp [Rule.expire, Option.filter, Entry.isDead, halive]

/-! ## Batches that set keys -/

/-- The entry that a key is given last. -/
def lastGiven (given : List (String × Entry)) (key : String) : Option Entry :=
  (given.filter (·.1 == key)).getLast?.map Prod.snd

theorem lastGiven_append (given given' : List (String × Entry)) (key : String) :
    lastGiven (given ++ given') key = (lastGiven given' key).or (lastGiven given key) := by
  simp only [lastGiven, List.filter_append, List.getLast?_append]
  cases (given'.filter (·.1 == key)).getLast? <;> rfl

theorem lastGiven_single (key : String) (e : Entry) (other : String) :
    lastGiven [(key, e)] other = if key = other then some e else none := by
  by_cases hkey : key = other <;> simp [lastGiven, hkey]

/-- Setting keys in a batch succeeds, and each of them then holds what it was given last. -/
theorem run_execute_sets (puts : List (String × Bytes)) (life : Option Nat) (atomic : Bool) (s : Store)
    (now : Nat) :
    ∃ replies, ((Call.execute (puts.map fun p => .set p.1 p.2 life) atomic).run now s).1 =
        .ok replies ∧
      ∀ key, ((Call.execute (puts.map fun p => .set p.1 p.2 life) atomic).run now s).2.live? now
          key = ((lastGiven (puts.map fun p => (p.1, .born (.bytes p.2) life now)) key).or
          (s.live? now key)).filter fun e => !e.isDead now := by
  suffices hsteps : ∃ replies after,
      s.steps now (puts.map fun p => .set p.1 p.2 life) = (.ok replies, after) ∧
      ∀ key, after.live? now key =
        ((lastGiven (puts.map fun p => (p.1, .born (.bytes p.2) life now)) key).or
          (s.live? now key)).filter fun e => !e.isDead now by
    obtain ⟨replies, after, hsteps, hlive⟩ := hsteps
    have hrun : (Call.execute (puts.map fun p => .set p.1 p.2 life) atomic).run now s =
        (.ok replies, after) := by
      rw [show (Call.execute _ atomic).run now s = _ from s.execute_eq now _, hsteps]
    rw [hrun]
    exact ⟨replies, rfl, hlive⟩
  induction puts generalizing s with
  | nil => exact ⟨[], s, rfl, fun key => live?_later s (Nat.le_refl now) key⟩
  | cons p ps ih =>
    obtain ⟨replies, after, hsteps, hlive⟩ := ih (s.set now p.1 p.2 life)
    refine ⟨.done :: replies, after, ?_, fun key => ?_⟩
    · simp only [List.map_cons, steps, step, hsteps, Except.map]
    · rw [hlive, List.map_cons, ← List.singleton_append, lastGiven_append, lastGiven_single]
      cases lastGiven (ps.map fun p => (p.1, .born (.bytes p.2) life now)) key with
      | some e => rfl
      | none =>
        by_cases hkey : p.1 = key
        · subst hkey
          rw [if_pos rfl, set, live?_put_self]
          cases hdead : (Entry.born (.bytes p.2) life now).isDead now <;> simp [Option.filter, hdead]
        · rw [if_neg hkey, set, live?_put_other _ _ _ (Ne.symm hkey)]
          rfl

/-! ## Replies -/

/-- How much is left at a time of a life that began at `now`. -/
def left (now : Nat) (life : Option Nat) (t : Nat) : Remaining :=
  match life with
  | none => .persistent
  | some d => if t < now + d then .expires (now + d - t) else .missing

theorem has_of_live? {e? : Option Entry} (h : s.live? now key = e?) :
    ((Call.has key).run now s).1 = .ok e?.isSome := by
  rw [← h]
  exact congrArg Prod.fst (s.has_eq now key)

theorem remaining_of_live? {e? : Option Entry} (h : s.live? now key = e?) :
    ((Call.remaining key).run now s).1 = (Rule.remaining now e?).1 := by
  rw [← h]
  exact congrArg Prod.fst (s.remaining_eq now key)

/-- Of what is born now, all is left until its life is over, and nothing afterwards. -/
theorem filter_born (v : Value) (life : Option Nat) (now t : Nat) :
    ((some (Entry.born v life now)).filter fun e => !e.isDead t) =
      if life.all (t < now + ·) then some (.born v life now) else none := by
  cases life with
  | none => rfl
  | some d =>
    by_cases ht : t < now + d
    · have hlate : ¬ now + d ≤ t := by omega
      simp [Option.filter, Entry.isDead, Entry.born, ht, hlate]
    · have hlate : now + d ≤ t := by omega
      simp [Option.filter, Entry.isDead, Entry.born, ht, hlate]

theorem isSome_born (v : Value) (life : Option Nat) (now t : Nat) :
    ((some (Entry.born v life now)).filter fun e => !e.isDead t).isSome =
      life.all (t < now + ·) := by
  rw [filter_born]
  by_cases hall : life.all (t < now + ·) = true <;> simp [hall]

theorem remaining_born (v : Value) (life : Option Nat) (now t : Nat) :
    (Rule.remaining t ((some (Entry.born v life now)).filter fun e => !e.isDead t)).1 =
      .ok (left now life t) := by
  rw [filter_born]
  cases life with
  | none => rfl
  | some d =>
    by_cases ht : t < now + d <;> simp [Rule.remaining, Rule.look, left, Entry.born, ht]

/-- **Lazy expiry cannot be observed.** Whatever is done to a store, and however time passes in
between, every reply is that of the punctual store, which drops each entry at its deadline. A key
that a command has given a life is there exactly until that life is over, with the exact remainder,
as long as the commands spare it; no other command changes the deadline of an entry. A batch does
what its commands do one after the other, or nothing. -/
theorem replies_punctual (s : Store) (now : Nat) (ds : List Deed) :
    (Deed.runAll now s ds).1 = (Deed.runAllPunctual (s.punctual now) ds).1 ∧
    (∀ (c : Call) (key : String) (life : Option Nat),
      c.granted? (c.run now s).1 = some (key, life) → (∀ d ∈ ds, d.spares key = true) →
      ∀ (t : Nat) (s' : Store), (Deed.runAll now (c.run now s).2 ds).2 = (t, s') →
        ((Call.has key).run t s').1 = .ok (life.all (t < now + ·)) ∧
        ((Call.remaining key).run t s').1 = .ok (left now life t)) ∧
    (∀ (c : Call) (key : String) (e' : Entry), c.method ≠ .execute →
      (∀ life, c.granted? (c.run now s).1 ≠ some (key, life)) →
      (c.run now s).2.live? now key = some e' →
      e'.deadline = (s.live? now key).bind Entry.deadline) ∧
    (∀ (batch : List BatchStep) (atomic : Bool),
      ((Call.execute batch atomic).run now s).2 =
        if (s.singly now batch).1.isOk then (s.singly now batch).2 else s) := by
  refine ⟨congrArg Prod.fst (Deed.runAll_seen ds s now), ?_, ?_, ?_⟩
  · intro c key life hgranted hspares t s' hrun
    obtain ⟨v, hborn⟩ := live?_granted hgranted
    obtain ⟨hle, hlive⟩ := Deed.live?_runAll (c.run now s).2 now hspares
    rw [hrun] at hle hlive
    rw [hborn, filter_later hle] at hlive
    exact ⟨(has_of_live? hlive).trans (congrArg _ (isSome_born v life now t)),
      (remaining_of_live? hlive).trans (remaining_born v life now t)⟩
  · intro c key e' hc hnone he
    exact deadline_live? hc hnone he
  · intro batch atomic
    have heq : (Call.execute batch atomic).run now s = _ := s.execute_eq now batch
    rw [heq, steps_eq_singly]
    rcases s.singly now batch with ⟨r, after⟩
    cases r <;> rfl

/-- A store in which an entry has been dead for a while. -/
def dusty : Store := Store.empty.put "old" ⟨.list [[1]], some 5⟩

/-- A key with a life of five is there four later and gone five later, and counting it up does not
change that; the dead entry shows nowhere. -/
theorem replies_punctual_dusty :
    ((Call.has "k").run 14
      (Deed.runAll 10 ((Call.set "k" [49] (some 5)).run 10 dusty).2 [.size, .sleep 4]).2.2).1 =
        .ok true ∧
    ((Call.remaining "k").run 15
      (Deed.runAll 10 ((Call.set "k" [49] (some 5)).run 10 dusty).2 [.size, .sleep 5]).2.2).1 =
        .ok .missing ∧
    (∃ e', ((Call.add "k" 1).run 12 ((Call.set "k" [49] (some 5)).run 10 dusty).2).2.live? 12 "k" =
      some e' ∧ e'.deadline = some 15) ∧
    (Deed.runAll 10 dusty [.call (.length "old"), .size]).1 =
      (Deed.runAllPunctual (dusty.punctual 10) [.call (.length "old"), .size]).1 := by
  refine ⟨?_, ?_, ⟨_, rfl, ?_⟩, (replies_punctual dusty 10 _).1⟩
  · exact ((replies_punctual dusty 10 [.size, .sleep 4]).2.1 (.set "k" [49] (some 5)) "k" (some 5)
      rfl (by decide) 14 _ rfl).1
  · exact ((replies_punctual dusty 10 [.size, .sleep 5]).2.1 (.set "k" [49] (some 5)) "k" (some 5)
      rfl (by decide) 15 _ rfl).2
  · exact (replies_punctual ((Call.set "k" [49] (some 5)).run 10 dusty).2 12 []).2.2.1
      (.add "k" 1) "k" _ (by decide) (fun life => by rintro ⟨⟩) rfl

end CacheLayer.Store
