/-
Subtracting from a counter. What the client adds is the opposite number, as a word. The smallest
word has none, so subtracting it overflows before anything is added (`subtract_minInt64`).
Subtracting any other number is exact, and takes back what has been added.

Main statements: `subtract_exact`, `not_subtract_exact`.
-/
import CacheLayer.Proofs.Client.Misses
import CacheLayer.Proofs.Program.Checked
import CacheLayer.Proofs.Store.Counter

namespace CacheLayer.Client

variable {V : Type} {s t : Scene V} {key : String} {c delta : Int} {d : Option Nat}

open Store (Counts tally)

/-- Every word but the smallest has its opposite among the words. -/
theorem opposite_eq (hdelta : Text.fitsInt64 delta = true) (hmin : delta ≠ Text.minInt64) :
    (-delta).bmod (Nat.pow 2 64) = -delta ∧ Text.fitsInt64 (-delta) = true := by
  have hleast : Text.minInt64 = -9223372036854775808 := rfl
  have hwords : Nat.pow 2 64 = 18446744073709551616 := rfl
  rw [Text.fitsInt64_iff] at hdelta ⊢
  rw [hleast] at hmin
  rw [hwords]
  exact ⟨Int.bmod_eq_of_le (by omega) (by omega), by omega⟩

theorem subtract_eq (hdelta : Text.fitsInt64 delta = true) (hmin : delta ≠ Text.minInt64) :
    (subtract key delta).outcome = (add key (-delta) : Action V Int).outcome := by
  rw [subtract, Action.outcome_always_bind, opposite, (opposite_eq hdelta hmin).1,
    Program.word_self, pure_bind]

/-- The smallest word has no opposite, and nothing is asked of the store. -/
theorem subtract_minInt64 (key : String) (s : Scene V) :
    (subtract key Text.minInt64).outcome.runChecked s = (.error .negate, s) := by
  rw [subtract, Action.outcome_always_bind]
  exact Program.runChecked_bind_error (Program.runChecked_word_of_ne (by decide) s)

theorem runChecked_add (key : String) (delta : Int) (s : Scene V) :
    (add key delta).outcome.runChecked s =
      (.ok ((add key delta).outcome.run s).1, ((add key delta).outcome.run s).2) :=
  Program.runChecked_of_each (Program.each_lift rfl)

/-- The sum is stored with the deadline that there was, if it is a word. -/
theorem runChecked_counts (hs : s.world.scripts .add = []) (hcount : Counts (s.live? key) c d)
    (hdelta : Text.fitsInt64 delta = true) :
    (add key delta).outcome.runChecked s =
      if Text.fitsInt64 (c + delta) then
        (.ok (.ok (c + delta)), s.withStore (s.world.store.place key (some (tally (c + delta) d))))
      else (.ok (.error (.backend ("Increment would overflow for " ++ key))), s) := by
  have hrun : (Store.Call.add key delta).run s.world.now s.world.store = _ :=
    Store.add_counts hcount hdelta
  rw [runChecked_add, add, Action.run_unscripted hs, hrun]
  split <;> rfl

/-- What has been stored for a counter is there, as its deadline has not been reached. -/
theorem live?_tally (hcount : Counts (s.live? key) c d) (n : Int) :
    (s.withStore (s.world.store.place key (some (tally n d)))).live? key = some (tally n d) := by
  have halive : (tally n d).isDead s.world.now = false := by
    refine Store.isDead_eq_false fun due hdue => ?_
    cases hlive : s.live? key with
    | none =>
      rw [hlive] at hcount
      cases hcount
      cases hdue
    | some e =>
      obtain rfl : e.deadline = d := hcount.deadline hlive
      have hlives : e.isDead s.world.now = false := by
        simpa using (Option.filter_eq_some_iff.1 hlive).2
      have hdeadline : e.deadline = some due := hdue
      simpa [Entry.isDead, hdeadline] using hlives
  change (s.world.store.put key (tally n d)).live? s.world.now key = some (tally n d)
  rw [Store.live?_put_self, halive, if_neg Bool.false_ne_true]

/-- **Subtraction is exact for every number but the smallest word.** The difference is answered and
stored, with the deadline that there was, if it is a word; otherwise subtracting fails and nothing
changes. What an addition has added is taken back by subtracting the same number. To subtract the
smallest word overflows, whatever the key holds, and nothing changes. -/
theorem subtract_exact (hs : s.world.scripts .add = []) (hcount : Counts (s.live? key) c d)
    (hdelta : Text.fitsInt64 delta = true) :
    (delta ≠ Text.minInt64 →
      (subtract key delta).outcome.runChecked s =
        (if Text.fitsInt64 (c - delta) then
          (.ok (.ok (c - delta)),
            s.withStore (s.world.store.place key (some (tally (c - delta) d))))
        else (.ok (.error (.backend ("Increment would overflow for " ++ key))), s)) ∧
      ∀ n t, (add key delta).outcome.runChecked s = (.ok (.ok n), t) →
        ∃ u, (subtract key delta).outcome.runChecked t = (.ok (.ok c), u) ∧
          u.live? key = some (tally c d) ∧ ∀ other, other ≠ key → u.live? other = s.live? other) ∧
    (subtract key Text.minInt64).outcome.runChecked s = (.error .negate, s) := by
  refine ⟨fun hmin => ⟨?_, fun n t hadded => ?_⟩, subtract_minInt64 key s⟩
  · rw [subtract_eq hdelta hmin, runChecked_counts hs hcount (opposite_eq hdelta hmin).2,
      ← Int.sub_eq_add_neg]
  · rw [runChecked_counts hs hcount hdelta] at hadded
    split at hadded
    · next hfits =>
      obtain ⟨-, rfl⟩ := Prod.mk.inj hadded
      have hraised := live?_tally hcount (c + delta)
      generalize ht : s.withStore _ = t at hraised ⊢
      have hs' : t.world.scripts .add = [] := ht ▸ hs
      have hcount' : Counts (t.live? key) (c + delta) d := hraised.symm ▸ Counts.of_tally hfits
      have hback : c + delta + -delta = c := by omega
      rw [subtract_eq hdelta hmin, runChecked_counts hs' hcount' (opposite_eq hdelta hmin).2, hback,
        if_pos hcount.fits]
      refine ⟨_, rfl, live?_tally hcount' c, fun other hother => ?_⟩
      subst ht
      change ((s.world.store.put key _).put key _).live? s.world.now other = _
      rw [Store.live?_put_other _ _ _ hother, Store.live?_put_other _ _ _ hother]
      rfl
    · cases hadded

/-- A key that holds the smallest word. -/
def lowest : Scene UInt8 :=
  ⟨{ World.start default with store := Store.empty.put "k" (tally Text.minInt64 (some 50)) },
    byteMemory⟩

theorem counts_lowest : Counts (lowest.live? "k") Text.minInt64 (some 50) :=
  Counts.of_tally (by decide)

/-- The smallest number can be made larger, but not smaller; to add something and subtract it again
leaves it as it was, with its deadline. To subtract the number itself overflows. -/
theorem subtract_exact_lowest :
    ((subtract "k" (-5) : Action UInt8 Int).outcome.runChecked lowest).1 =
      .ok (.ok (Text.minInt64 + 5)) ∧
    (subtract "k" 1 : Action UInt8 Int).outcome.runChecked lowest =
      (.ok (.error (.backend "Increment would overflow for k")), lowest) ∧
    (∃ u, (subtract "k" Text.maxInt64).outcome.runChecked
        ((add "k" Text.maxInt64 : Action UInt8 Int).outcome.runChecked lowest).2 =
          (.ok (.ok Text.minInt64), u) ∧
      u.live? "k" = some (tally Text.minInt64 (some 50))) ∧
    (subtract "k" Text.minInt64 : Action UInt8 Int).outcome.runChecked lowest =
      (.error .negate, lowest) := by
  have hexact (delta : Int) (hdelta : Text.fitsInt64 delta = true) :=
    subtract_exact (s := lowest) rfl counts_lowest hdelta
  refine ⟨?_, ?_, ?_, ?_⟩
  · rw [((hexact (-5) (by decide)).1 (by decide)).1]
    rfl
  · exact ((hexact 1 (by decide)).1 (by decide)).1
  · obtain ⟨u, hrun, hlive, -⟩ := ((hexact Text.maxInt64 (by decide)).1 (by decide)).2 (-1) _ rfl
    exact ⟨u, hrun, hlive⟩
  · exact (hexact Text.minInt64 (by decide)).2

/-- It is not so that subtraction is exact for every number: to subtract the smallest word from
itself would leave nothing, but overflows. -/
theorem not_subtract_exact :
    ¬ ∀ (s : Scene UInt8) (key : String) (c delta : Int) (d : Option Nat),
      s.world.scripts .add = [] → Counts (s.live? key) c d → Text.fitsInt64 delta = true →
      (subtract key delta).outcome.runChecked s =
        if Text.fitsInt64 (c - delta) then
          (.ok (.ok (c - delta)),
            s.withStore (s.world.store.place key (some (tally (c - delta) d))))
        else (.ok (.error (.backend ("Increment would overflow for " ++ key))), s) := by
  intro hexact
  have hrun := hexact lowest "k" Text.minInt64 Text.minInt64 (some 50) rfl counts_lowest (by decide)
  rw [subtract_minInt64, if_pos (by decide)] at hrun
  cases hrun

end CacheLayer.Client
