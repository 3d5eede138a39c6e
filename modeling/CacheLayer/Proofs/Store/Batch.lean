/-
Batches are all or nothing. `singly` makes the commands of a batch one after
the other, as calls of their own. A batch that could be made so answers and does
the same; else it fails with the first error, and since a command touches
only its own key (`get?_step_other`), giving the keys of the batch their entries
back gives back the whole store, dead entries and cursors included.

Main statement: `execute_eq_singly`.
-/
import CacheLayer.Proofs.Store.Rule

namespace CacheLayer

/-- The command of a batch as a call of its own. -/
def BatchStep.call : BatchStep → Store.Call
  | .set key b life => .set key b life
  | .setIfAbsent key b life => .setIfAbsent key b life
  | .setIfPresent key b life => .setIfPresent key b life
  | .swap key expected b life => .swap key expected b life
  | .delete key => .delete key
  | .expire key life => .expire key life
  | .add key delta => .add key delta

/-- What the call answers, as a reply within a batch. -/
def BatchStep.reply : (b : BatchStep) → b.call.Reply → BatchReply
  | .set .., () => .done
  | .setIfAbsent .., yes => .applied yes
  | .setIfPresent .., yes => .applied yes
  | .swap .., yes => .applied yes
  | .delete _, yes => .applied yes
  | .expire .., yes => .applied yes
  | .add .., i => .number i

namespace Store

/-- The commands of a batch as calls of their own, one after the other, up to the first that
fails. -/
def singly (s : Store) (now : Nat) : List BatchStep → Outcome (List BatchReply)
  | [] => (.ok [], s)
  | b :: bs =>
    match b.call.run now s with
    | (.error e, s) => (.error e, s)
    | (.ok r, s) =>
      let (rest, s) := s.singly now bs
      (rest.map (b.reply r :: ·), s)

variable {now : Nat} {s s' : Store} {key : String}

theorem step_eq_call (s : Store) (now : Nat) (b : BatchStep) :
    s.step now b = ((b.call.run now s).1.map b.reply, (b.call.run now s).2) := by
  cases b <;> rfl

theorem steps_eq_singly (now : Nat) (batch : List BatchStep) (s : Store) :
    s.steps now batch = s.singly now batch := by
  induction batch generalizing s with
  | nil => rfl
  | cons b bs ih =>
    simp only [steps, singly, step_eq_call]
    obtain ⟨r, s₁⟩ := b.call.run now s
    cases r with
    | error e => rfl
    | ok r => simp only [Except.map, ih s₁]

theorem length_singly {batch : List BatchStep} {replies : List BatchReply}
    (h : (s.singly now batch).1 = .ok replies) : replies.length = batch.length := by
  induction batch generalizing s replies with
  | nil =>
    obtain rfl : [] = replies := by simpa [singly] using h
    rfl
  | cons b bs ih =>
    rcases hcall : b.call.run now s with ⟨r, s₁⟩
    cases r with
    | error e => simp [singly, hcall] at h
    | ok r =>
      cases hrest : (s₁.singly now bs).1 with
      | error e => simp [singly, hcall, hrest, Except.map] at h
      | ok rest =>
        obtain rfl : b.reply r :: rest = replies := by
          simpa [singly, hcall, hrest, Except.map] using h
        simp [ih hrest]

/-! ## What a batch touches -/

theorem get?_step_other (s : Store) (now : Nat) (b : BatchStep) (hne : key ≠ b.key) :
    (s.step now b).2.entries.get? key = s.entries.get? key := by
  rw [step_eq]
  exact get?_place_other s _ hne

theorem get?_steps_other {batch : List BatchStep} (h : key ∉ batch.map BatchStep.key) :
    (s.steps now batch).2.entries.get? key = s.entries.get? key := by
  induction batch generalizing s with
  | nil => rfl
  | cons b bs ih =>
    obtain ⟨hne, hrest⟩ : key ≠ b.key ∧ key ∉ bs.map BatchStep.key := by
      simpa [not_or] using h
    have hstep := get?_step_other s now b hne
    rcases hs : s.step now b with ⟨r, s₁⟩
    rw [hs] at hstep
    cases r with
    | error e => simpa [steps, hs] using hstep
    | ok r => simpa [steps, hs] using (ih hrest).trans hstep

theorem cursors_steps (now : Nat) (batch : List BatchStep) (s : Store) :
    (s.steps now batch).2.cursors = s.cursors ∧ (s.steps now batch).2.opened = s.opened := by
  induction batch generalizing s with
  | nil => exact ⟨rfl, rfl⟩
  | cons b bs ih =>
    have hstep : (s.step now b).2.cursors = s.cursors ∧ (s.step now b).2.opened = s.opened := by
      rw [step_eq]
      exact ⟨cursors_place _ _ _, opened_place _ _ _⟩
    rcases hs : s.step now b with ⟨r, s₁⟩
    rw [hs] at hstep
    cases r with
    | error e => simpa [steps, hs] using hstep
    | ok r =>
      obtain ⟨hcursors, hopened⟩ := ih s₁
      simpa [steps, hs] using And.intro (hcursors.trans hstep.1) (hopened.trans hstep.2)

/-! ## Giving the entries back -/

theorem restore_cons (s' : Store) (key : String) (e? : Option Entry)
    (shot : List (String × Option Entry)) :
    s'.restore ((key, e?) :: shot) = (s'.place key e?).restore shot := by
  cases e? <;> rfl

theorem get?_restore (s : Store) (keys : List String) (s' : Store) (key : String) :
    (s'.restore (s.snapshot keys)).entries.get? key =
      if key ∈ keys then s.entries.get? key else s'.entries.get? key := by
  induction keys generalizing s' with
  | nil => simp [snapshot, restore]
  | cons k ks ih =>
    change (s'.restore ((k, s.entries.get? k) :: s.snapshot ks)).entries.get? key = _
    rw [restore_cons, ih]
    by_cases hk : key = k
    · subst hk; simp
    · simp [hk, get?_place_other]

theorem cursors_restore (shot : List (String × Option Entry)) (s : Store) :
    (s.restore shot).cursors = s.cursors ∧ (s.restore shot).opened = s.opened := by
  induction shot generalizing s with
  | nil => exact ⟨rfl, rfl⟩
  | cons e shot ih =>
    obtain ⟨key, e?⟩ := e
    rw [restore_cons]
    exact ⟨(ih _).1.trans (cursors_place _ _ _), (ih _).2.trans (opened_place _ _ _)⟩

/-- After any commands of a batch, restoring its keys restores the store. -/
theorem restore_steps (s : Store) (now : Nat) (batch : List BatchStep) :
    (s.steps now batch).2.restore (s.snapshot (batch.map BatchStep.key)) = s := by
  obtain ⟨hcursors, hopened⟩ := cursors_restore (s.snapshot (batch.map BatchStep.key))
    (s.steps now batch).2
  obtain ⟨hcursors', hopened'⟩ := cursors_steps now batch s
  refine ext_entries (fun key => ?_) (hcursors.trans hcursors') (hopened.trans hopened')
  rw [get?_restore]
  split
  · rfl
  · next hkey => exact get?_steps_other hkey

theorem execute_eq (s : Store) (now : Nat) (batch : List BatchStep) :
    s.execute now batch =
      match s.steps now batch with
      | (.error e, _) => (.error e, s)
      | (.ok replies, after) => (.ok replies, after) := by
  have hback := s.restore_steps now batch
  rcases hs : s.steps now batch with ⟨r, after⟩
  rw [hs] at hback
  cases r with
  | error e => simp [execute, hs, hback]
  | ok replies => simp [execute, hs]

/-- **A batch is all or nothing, and otherwise sequential.** If the commands, made as calls of their
own, fail at one of them, the batch fails with that error and the store is what it was. Else the
batch answers and leaves what those calls do, with a reply for each command in their order.
Whether the batch is atomic makes no difference. -/
theorem execute_eq_singly (s : Store) (now : Nat) (batch : List BatchStep) (atomic : Bool) :
    (Call.execute batch atomic).run now s =
      (match s.singly now batch with
        | (.error e, _) => (.error e, s)
        | (.ok replies, after) => (.ok replies, after)) ∧
    ∀ replies ∈ ((Call.execute batch atomic).run now s).1.toOption,
      replies.length = batch.length := by
  have heq : (Call.execute batch atomic).run now s = _ := s.execute_eq now batch
  rw [heq, steps_eq_singly]
  refine ⟨rfl, fun replies hreplies => ?_⟩
  rcases hs : s.singly now batch with ⟨r, after⟩
  rw [hs] at hreplies
  cases r with
  | error e => simp [Except.toOption] at hreplies
  | ok rs =>
    obtain rfl : rs = replies := by simpa [Except.toOption] using hreplies
    exact length_singly (congrArg Prod.fst hs)

/-- A list, and a number that has been dead for a while. -/
def stocked : Store :=
  (Store.empty.put "list" ⟨.list [[1]], none⟩).put "old" ⟨.bytes [49], some 5⟩

/-- A number cannot be added to the list, so the changes before it are taken back, and the dead entry
lies in the store again; without that command each change sees the ones before it. -/
theorem execute_eq_singly_stocked :
    (Call.execute [.add "old" 2, .set "k" [50] none, .add "k" 3, .delete "k", .add "list" 1]
      true).run 10 stocked = (.error (.wrongType "list"), stocked) ∧
    ((Call.execute [.add "old" 2, .set "k" [50] none, .add "k" 3, .delete "k"]
      false).run 10 stocked).1 = .ok [.number 2, .done, .number 5, .applied true] ∧
    [BatchReply.number 2, .done, .number 5, .applied true].length = 4 := by
  have failing := execute_eq_singly stocked 10
    [.add "old" 2, .set "k" [50] none, .add "k" 3, .delete "k", .add "list" 1] true
  have fine := execute_eq_singly stocked 10
    [.add "old" 2, .set "k" [50] none, .add "k" 3, .delete "k"] false
  exact ⟨failing.1, congrArg Prod.fst fine.1, fine.2 _ rfl⟩

end Store
end CacheLayer
