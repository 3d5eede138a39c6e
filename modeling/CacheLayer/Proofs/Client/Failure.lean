/-
A request that fails leaves what the keys hold as it was, with one exception. An
item that is popped off a list is decoded when it is off already, so an item that
cannot be decoded is lost.

Main statement: `failed_leaves`; what is said of every request without exception
is refuted by `not_failed_leaves`.
-/
import CacheLayer.Proofs.Client.Coding
import CacheLayer.Proofs.Client.Request

namespace CacheLayer

variable {V α : Type}

namespace Store

variable {s : Store} {now : Nat} {key : String} {b : Bytes} {rest : List Bytes}
  {deadline : Option Nat}

/-! ## Popping an item -/

/-- What is left at a key when a list has been worked off to these items. -/
def leftOver (items : List Bytes) (deadline : Option Nat) : Option Entry :=
  if items = [] then none else some ⟨.list items, deadline⟩

theorem run_popFront (h : s.live? now key = some ⟨.list (b :: rest), deadline⟩) :
    ((Call.popFront key).run now s).1 = .ok (some b) ∧
      ((Call.popFront key).run now s).2.live? now key = leftOver rest deadline := by
  obtain ⟨hreply, hlive⟩ := s.run_onKey now (.popFront key) rfl
  rw [hreply, hlive, h]
  refine ⟨rfl, ?_⟩
  cases rest with
  | nil => rfl
  | cons b' rest =>
    change (some (⟨.list (b' :: rest), deadline⟩ : Entry)).filter _ = _
    exact filter_of_live? h rfl

/-- What has been popped was the first item of a list. -/
theorem of_popFront (h : ((Call.popFront key).run now s).1 = .ok (some b)) :
    ∃ rest deadline, s.live? now key = some ⟨.list (b :: rest), deadline⟩ := by
  rw [(s.run_onKey now (.popFront key) rfl).1] at h
  cases hl : s.live? now key with
  | none =>
    rw [hl] at h
    cases h
  | some e =>
    obtain ⟨value, deadline⟩ := e
    rw [hl] at h
    cases value with
    | list items =>
      cases items with
      | nil => cases h
      | cons b' rest =>
        cases h
        exact ⟨rest, deadline, rfl⟩
    | _ => cases h

end Store

namespace Client

variable {f : Format α} {s : Scene V} {key : String} {b : Bytes}

open CacheLayer.Action

/-! ## Requests that fail -/

theorem run_popFront (f : Format α) (key : String) (s : Scene V) :
    (popFront f key).outcome.run s =
      ((s.world.command (.popFront key)).1.bind fun
        | some b => (f.decode s.memory.config.codec b).map some
        | none => .ok none,
        { s with world := (s.world.command (.popFront key)).2 }) := by
  rw [popFront, outcome_bind, Program.run_bind, outcome_command, Program.run_command]
  cases (s.world.command (.popFront key)).1 with
  | error e => rfl
  | ok popped =>
    cases popped with
    | none => rfl
    | some b =>
      rw [andThen_ok, Action.run_bind, run_decodeItem]
      simp only [Except.bind]
      cases f.decode s.memory.config.codec b <;> rfl

/-- A pop fails with nothing changed, or because the popped item cannot be decoded. -/
theorem popFront_failed {e : Error} (hs : s.Serving)
    (he : ((popFront f key : Action V (Option α)).outcome.run s).1 = .error e) :
    s.Alike ((popFront f key : Action V (Option α)).outcome.run s).2 ∨
      ∃ b rest deadline, s.live? key = some ⟨.list (b :: rest), deadline⟩ ∧
        f.decode s.memory.config.codec b = .error e := by
  rw [run_popFront] at he ⊢
  cases hr : (s.world.command (.popFront key)).1 with
  | error e' => exact .inl (isCareful_command (.popFront key) s hs e' hr)
  | ok popped =>
    rw [hr] at he
    cases popped with
    | none => cases he
    | some b =>
      rw [hs.steady.command] at hr
      obtain ⟨rest, deadline, hlive⟩ := Store.of_popFront hr
      exact .inr ⟨b, rest, deadline, hlive, Rule.fails_of_map he⟩

/-- Every request but a pop is careful. -/
theorem isCareful_act (r : Request α) (hr : ∀ key, r ≠ .popFront key) :
    (r.act f : Action V r.Reply).IsCareful := by
  cases r with
  | set key a life => exact isCareful_then (isStill_encode key a) fun _ => isCareful_command _
  | setIfAbsent key a life =>
    exact isCareful_then (isStill_encode key a) fun _ => isCareful_command _
  | setIfPresent key a life =>
    exact isCareful_then (isStill_encode key a) fun _ => isCareful_command _
  | swap key expected a life => exact isCareful_swap key expected a life
  | subtract key delta =>
    have hopposite : (always (opposite delta) : Action V Int).IsStill := fun _ =>
      Program.each_always (Program.each_word trivial _ _)
    exact isCareful_then hopposite fun _ => isCareful_command _
  | get key => exact (isStill_get key).isCareful
  | pushFront key as =>
    exact isCareful_then (isStill_mapM isStill_encodeItem as) fun _ => isCareful_command _
  | pushBack key as =>
    exact isCareful_then (isStill_mapM isStill_encodeItem as) fun _ => isCareful_command _
  | range key start stop =>
    refine IsStill.isCareful (isStill_then (isStill_command rfl) fun bs => ?_)
    exact isStill_mapM isStill_decodeItem bs
  | setField key name a =>
    exact isCareful_then (isStill_encodeItem a) fun _ => isCareful_command _
  | field key name => exact (isStill_field key name).isCareful
  | fields key => exact (isStill_fields key).isCareful
  | scanKeys pattern => exact (isStill_scanKeys pattern).isCareful
  | deletePattern pattern =>
    exact isCareful_then (isStill_scanKeys pattern) fun keys =>
      isCareful_of_ok fun s hs => ⟨_, congrArg Prod.fst (run_deleteChunks hs.steady _)⟩
  | prepare entry => exact (isStill_batchStep entry).isCareful
  | execute steps atomic => exact isCareful_execute steps atomic
  | batch entries atomic =>
    exact isCareful_then (isStill_mapM isStill_batchStep entries) fun steps =>
      isCareful_execute steps atomic
  | checkHealth => exact IsStill.isCareful fun _ => Program.each_lift trivial
  | popFront key => exact absurd rfl (hr key)
  | _ => exact isCareful_command _

/-- **A request that fails leaves every key as it was, save for an unreadable item that is popped.**
The clock has not moved then, and each key holds the same value with the same deadline, whatever
transformers and formats fail; the store still serves. Only where the first item of a list cannot be
decoded, popping it fails and the item is gone, and the list with it if it was the only one; the
other items, the deadline and all other keys stay. -/
theorem failed_leaves (f : Format α) (s : Scene V) (hs : s.Serving) (r : Request α) :
    ((r.act f : Action V r.Reply).outcome.run s).2.Serving ∧
    (∀ e, ((r.act f : Action V r.Reply).outcome.run s).1 = .error e →
      s.Alike ((r.act f : Action V r.Reply).outcome.run s).2 ∨
        ∃ key b rest deadline, r = .popFront key ∧
          s.live? key = some ⟨.list (b :: rest), deadline⟩ ∧
          f.decode s.memory.config.codec b = .error e) ∧
    ∀ key b rest deadline e, s.live? key = some ⟨.list (b :: rest), deadline⟩ →
      f.decode s.memory.config.codec b = .error e →
      ∃ t : Scene V, (popFront f key).outcome.run s = (.error e, t) ∧
        t.world.now = s.world.now ∧ t.live? key = Store.leftOver rest deadline ∧
        ∀ other, other ≠ key → t.live? other = s.live? other := by
  refine ⟨Program.serving_run hs _, fun e he => ?_, ?_⟩
  · by_cases hpop : ∃ key, r = .popFront key
    · obtain ⟨key, rfl⟩ := hpop
      rcases popFront_failed hs he with halike | ⟨b, rest, deadline, hlive, hdecode⟩
      · exact .inl halike
      · exact .inr ⟨key, b, rest, deadline, rfl, hlive, hdecode⟩
    · exact .inl (isCareful_act r (fun key hr => hpop ⟨key, hr⟩) s hs e he)
  · intro key b rest deadline e hlive hdecode
    obtain ⟨hreply, hleft⟩ := Store.run_popFront hlive
    rw [run_popFront, hs.steady.command, hreply]
    refine ⟨_, congrArg (·, _) (congrArg (Except.map some) hdecode), rfl, hleft, ?_⟩
    intro other hne
    exact Store.live?_spared _ _ (by simpa [Store.Call.spares] using Ne.symm hne)

/-- A list of an item that is not one byte and of one that is. -/
def queued : Scene UInt8 :=
  ((Action.command (.pushBack "q" [[1, 2], [5]])).outcome.run ⟨.start default, byteMemory⟩).2

theorem serving_queued : queued.Serving := Program.serving_run (World.serving_start default) _

/-- A number cannot be added to the list, which stays as it is; its first item is lost when it is
popped, and the second one stays. -/
theorem failed_leaves_queued :
    queued.Serving ∧
    ((Request.add "q" 1).act byteFormat : Action UInt8 Int).outcome.run queued =
      (.error (.wrongType "q"),
        (((Request.add "q" 1).act byteFormat : Action UInt8 Int).outcome.run queued).2) ∧
    queued.Alike (((Request.add "q" 1).act byteFormat : Action UInt8 Int).outcome.run queued).2 ∧
    ∃ t : Scene UInt8, (popFront byteFormat "q").outcome.run queued =
      (.error (.decoding "not one byte"), t) ∧ t.live? "q" = some ⟨.list [[5]], none⟩ := by
  refine ⟨serving_queued, rfl, ?_, ?_⟩
  · obtain ⟨-, hkept, -⟩ := failed_leaves byteFormat queued serving_queued (.add "q" 1)
    rcases hkept _ rfl with halike | ⟨key, b, rest, deadline, hpop, -⟩
    · exact halike
    · cases hpop
  · obtain ⟨-, -, hlost⟩ := failed_leaves byteFormat queued serving_queued (.add "q" 1)
    obtain ⟨t, hrun, -, hleft, -⟩ := hlost "q" [1, 2] [[5]] none _ rfl rfl
    exact ⟨t, hrun, hleft⟩

/-- It is not so that every request that fails leaves the keys as they were. -/
theorem not_failed_leaves :
    ¬ ∀ (f : Format UInt8) (s : Scene UInt8), s.Serving → ∀ (r : Request UInt8) (e : Error),
      ((r.act f : Action UInt8 r.Reply).outcome.run s).1 = .error e →
        s.Alike ((r.act f : Action UInt8 r.Reply).outcome.run s).2 := by
  intro hkept
  have halike := hkept byteFormat queued serving_queued (.popFront "q") _ rfl
  have hsame : some (⟨.list [[5]], none⟩ : CacheLayer.Entry) =
      some ⟨.list [[1, 2], [5]], none⟩ := halike.live "q"
  cases hsame

end Client
end CacheLayer
