/-
The raw entries of a store, dead ones included, after the commands on whole
values. Purging and deleting take entries away and add none, and a look-up does
no more than purge.
-/
import CacheLayer.Store.Values

namespace CacheLayer.Store

variable {s : Store} {now t : Nat} {key other : String} {e : Entry}

theorem get?_of_live? (h : s.live? now key = some e) : s.entries.get? key = some e :=
  (Option.filter_eq_some_iff.1 h).1

theorem entries_set_self (s : Store) (t : Nat) (key : String) (b : Bytes) (life : Option Nat) :
    (s.set t key b life).entries.get? key = some (.born (.bytes b) life t) :=
  KeyMap.get?_insert_self _ _ _

theorem entries_set_other (s : Store) (t : Nat) (b : Bytes) (life : Option Nat)
    (hne : other ≠ key) : (s.set t key b life).entries.get? other = s.entries.get? other :=
  KeyMap.get?_insert_other _ _ hne

theorem entries_purge (h : (s.purge now key).entries.get? other = some e) :
    s.entries.get? other = some e := by
  by_cases hne : other = key
  · subst hne
    rw [get?_purge_self] at h
    exact get?_of_live? h
  · rwa [get?_purge_other s now hne] at h

theorem purge_eq_self (h : s.live? now key = some e) : s.purge now key = s := by
  obtain ⟨he, hlives⟩ := Option.filter_eq_some_iff.1 h
  have hdead : e.isDead now = false := by simpa using hlives
  unfold purge
  simp only [he, hdead, Bool.false_eq_true, if_false]

theorem snd_get (s : Store) (now : Nat) (key : String) : (s.get now key).2 = s.purge now key := by
  unfold get
  simp only
  split
  · rfl
  · split <;> rfl

theorem entries_delete (h : (s.delete t key).2.entries.get? other = some e) :
    other ≠ key ∧ s.entries.get? other = some e := by
  by_cases hne : other = key
  · subst hne
    simp [delete, drop] at h
  · have hpurged : (s.purge t key).entries.get? other = some e := by
      simpa [delete, drop, KeyMap.get?_erase_other _ hne] using h
    exact ⟨hne, entries_purge hpurged⟩

/-! ## Live entries -/

theorem live?_of_entries {s' : Store}
    (h : s'.entries.get? key = some e → s.entries.get? key = some e)
    (hl : s'.live? now key = some e) : s.live? now key = some e := by
  obtain ⟨he, hdead⟩ := Option.filter_eq_some_iff.1 hl
  exact Option.filter_eq_some_iff.2 ⟨h he, hdead⟩

theorem live?_of_later (h : now ≤ t) (hl : s.live? t key = some e) : s.live? now key = some e := by
  obtain ⟨he, hlives⟩ := Option.filter_eq_some_iff.1 hl
  refine Option.filter_eq_some_iff.2 ⟨he, ?_⟩
  cases hd : e.isDead now with
  | false => rfl
  | true =>
    rw [Entry.isDead_of_le h hd] at hlives
    cases hlives

end CacheLayer.Store
