/-
What a program may say and hear when others come in between. A dialogue is one way through the
program: its requests in order, each at some time and with some answer. Of the single exchanges only
`P` is known; there is no scene that would tie them together.

A course is a dialogue of exchanges in which the memory is the same all the time and the store answers
(`Course.dialogue`, `Course.heard`). Like a course, a dialogue of a program in parts falls into
dialogues of the parts.
-/
import CacheLayer.Proofs.Reload.Attempts

namespace CacheLayer

variable {V α β : Type} {P : Exchange V → Prop} {log : List (Exchange V)}

namespace Program

/-- The program may go this way, with exchanges of which `P` holds. -/
inductive Dialogue (P : Exchange V → Prop) : Program V α → List (Exchange V) → α → Prop where
  | done (a : α) : Dialogue P (.done a) [] a
  | ask {q : Ask V} {next : Answer q → Program V α} {time : Nat} {a : Answer q}
      {log : List (Exchange V)} {r : α} (h : P ⟨time, q, a⟩) (rest : Dialogue P (next a) log r) :
      Dialogue P (.ask q next) (⟨time, q, a⟩ :: log) r

theorem said_cons (e : Exchange V) (log : List (Exchange V)) :
    said (e :: log) = said [e] ++ said log := said_append [e] log

/-- Nothing is said in an exchange that is no event. -/
theorem said_silent {q : Ask V} (hq : q.isSilent = true) (time : Nat) (a : Answer q) :
    said [⟨time, q, a⟩] = ([] : List (Event V)) := by
  cases q <;> first | rfl | cases hq

theorem Course.dialogue {p : Program V α} {s t : Scene V} {r : α} (h : p.Course s log r t)
    (hP : ∀ e ∈ log, P e) : p.Dialogue P log r := by
  induction h with
  | done a s => exact .done a
  | ask hget rest ih =>
    obtain ⟨hfirst, hrest⟩ := List.forall_mem_cons.1 hP
    exact .ask hfirst (ih hrest)

namespace Dialogue

variable {p : Program V α} {r : α}

theorem of_pure {a : α} (h : Dialogue P (pure a : Program V α) log r) : log = [] ∧ r = a := by
  cases h
  exact ⟨rfl, rfl⟩

theorem of_lift {q : Ask V} {a : Answer q} (h : Dialogue P (lift q) log a) :
    ∃ time, P ⟨time, q, a⟩ ∧ log = [⟨time, q, a⟩] := by
  cases h with
  | ask hP rest =>
    cases rest
    exact ⟨_, hP, rfl⟩

theorem of_bind {f : α → Program V β} {r : β} (h : Dialogue P (p >>= f) log r) :
    ∃ log₁ a log₂, p.Dialogue P log₁ a ∧ (f a).Dialogue P log₂ r ∧ log = log₁ ++ log₂ := by
  induction p generalizing log with
  | done a => exact ⟨[], a, log, .done a, h, rfl⟩
  | ask q next ih =>
    rw [bind_ask] at h
    cases h with
    | ask hP rest =>
      obtain ⟨log₁, a, log₂, hp, hf, rfl⟩ := ih _ rest
      exact ⟨_, a, log₂, .ask hP hp, hf, rfl⟩

theorem of_word [DecidableEq α] {o : Overflow} {result kept a : α}
    (h : Dialogue P (word o result kept : Program V α) log a) : a = kept := by
  unfold word at h
  split at h
  · next heq => exact h.of_pure.2.trans heq
  · obtain ⟨log₁, ⟨⟩, log₂, -, hkept, -⟩ := h.of_bind
    exact hkept.of_pure.2

/-- A program that says nothing says nothing. -/
theorem of_silent (h : p.Dialogue P log r) (hp : p.Each fun q => q.isSilent = true) :
    said log = [] := by
  induction h with
  | done a => rfl
  | ask hP rest ih =>
    rw [said_cons, said_silent hp.1, ih (hp.2 _)]
    rfl

end Dialogue
end Program

namespace Action

open Program

variable {a : Action V α} {f : α → Action V β}

theorem dialogue_then {r : Except Error β} (h : Dialogue P (a >>= f).outcome log r) :
    (∃ log₁ x log₂, Dialogue P a.outcome log₁ (.ok x) ∧ Dialogue P (f x).outcome log₂ r ∧
      log = log₁ ++ log₂) ∨
    ∃ e, r = .error e ∧ Dialogue P a.outcome log (.error e) := by
  rw [outcome_bind] at h
  obtain ⟨log₁, result, log₂, ha, hf, rfl⟩ := h.of_bind
  cases result with
  | ok x => exact .inl ⟨log₁, x, log₂, ha, hf, rfl⟩
  | error e =>
    obtain ⟨rfl, rfl⟩ := hf.of_pure
    exact .inr ⟨e, rfl, by rwa [List.append_nil]⟩

theorem dialogue_always_then {p : Program V α} {r : Except Error β}
    (h : Dialogue P (always p >>= f).outcome log r) :
    ∃ log₁ x log₂, p.Dialogue P log₁ x ∧ Dialogue P (f x).outcome log₂ r ∧ log = log₁ ++ log₂ := by
  rw [outcome_always_bind] at h
  exact h.of_bind

theorem dialogue_pause {ms : Nat} {r : Unit} (h : (pause ms : Program V Unit).Dialogue P log r) :
    said log = [] :=
  h.of_silent (each_pause (Q := fun q => q.isSilent = true) rfl (fun _ => rfl) ms)

theorem dialogue_request {id : SourceId} {c : Source.Call V} {r : Except Error c.Reply}
    (h : (request id c).outcome.Dialogue P log r) : said log = [.asked id c r] := by
  change Dialogue P (lift (.latency id c.method) >>= fun ms =>
    pause ms >>= fun _ => lift (.request id c)) log r at h
  obtain ⟨log₁, ms, log₂, hlatency, hrest, rfl⟩ := h.of_bind
  obtain ⟨log₃, ⟨⟩, log₄, hpause, hrequest, rfl⟩ := hrest.of_bind
  obtain ⟨time, -, rfl⟩ := hlatency.of_lift
  obtain ⟨time', -, rfl⟩ := hrequest.of_lift
  rw [said_append, said_append, dialogue_pause hpause]
  rfl

end Action

/-! ## What is heard -/

/-- The memory is `m`, and the store has answered by its rules. -/
def Exchange.Heard (m : Memory V) : Exchange V → Prop
  | ⟨_, .update _, before⟩ => before = m
  | ⟨_, .command c, r⟩ => ∃ now store, r = (c.run now store).1
  | _ => True

/-- In a course that only reads the memory, before a store that does not fail. -/
theorem Program.Course.heard {p : Program V α} {s t : Scene V} {r : α} (h : p.Course s log r t)
    (hs : s.world.Steady) (hp : p.OnlyReads) : ∀ e ∈ log, e.Heard s.memory := by
  induction h with
  | done a s => exact List.forall_mem_nil _
  | @ask q next s t u a log r hget rest ih =>
    have hmemory : t.memory = s.memory := Ask.keeps_of_mayGet (hp.1.keeps id) hget
    refine List.forall_mem_cons.2 ⟨?_, hmemory ▸ ih (Ask.steady_of_mayGet hs hget) (hp.2 a)⟩
    cases q with
    | update f => exact (congrArg Prod.fst hget).symm
    | command c =>
      refine ⟨s.world.now, s.world.store, ?_⟩
      obtain ⟨rfl, -⟩ := Prod.mk.inj hget
      change (s.world.command c).1 = _
      rw [hs.command]
    | _ => trivial

namespace Action

open Program

variable {m : Memory V}

theorem dialogue_memory_then (hP : ∀ e, P e → e.Heard m) {f : Memory V → Action V β}
    {r : Except Error β} (h : Dialogue P (always memory >>= f).outcome log r) :
    ∃ log', Dialogue P (f m).outcome log' r ∧ said log = said log' := by
  obtain ⟨log₁, before, log₂, hmemory, hf, rfl⟩ := dialogue_always_then h
  obtain ⟨time, hheard, rfl⟩ := hmemory.of_lift
  obtain rfl : before = m := hP _ hheard
  exact ⟨log₂, hf, by rw [said_append, said_silent rfl, List.nil_append]⟩

end Action
end CacheLayer
