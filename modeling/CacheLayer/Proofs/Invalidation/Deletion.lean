/-
Deleting keys chunk by chunk while commands that delete fail. A chunk is tried again after a
failure, with longer and longer waits, and a chunk that fails to the last ends the deletion
(`Deletes`). Such a command either deletes its keys or does nothing, as it is scripted
(`run_deleteMany_faulty`), so the keys of the chunks that have been deleted are gone and all other
entries are what they were (`Phase`).
-/
import CacheLayer.Proofs.Invalidation.Target
import CacheLayer.Proofs.Program.Retry

namespace CacheLayer

variable {V : Type} {s t u : Scene V} {log : List (Exchange V)}

/-! ## Deletions -/

/-- A command that deletes keys: its time, its keys, and how many were there. -/
structure Deletion where
  time : Nat
  keys : List String
  answer : Except Error Nat

/-- The keys that the command has deleted. -/
def Deletion.done (d : Deletion) : List String := if d.answer.toBool then d.keys else []

/-- What an attempt at deleting keys says to the store. -/
def Deletion.of (keys : List String) (x : Attempt V Nat) : Deletion :=
  ⟨x.before.world.now, keys, x.answer⟩

def Exchange.deletion? : Exchange V → Option Deletion
  | ⟨time, .command (.deleteMany keys), answer⟩ => some ⟨time, keys, answer⟩
  | _ => none

/-- The commands in a course that delete keys, in order. -/
def deletions (log : List (Exchange V)) : List Deletion := log.filterMap Exchange.deletion?

theorem deletions_append (log log' : List (Exchange V)) :
    deletions (log ++ log') = deletions log ++ deletions log' := List.filterMap_append

/-- The keys that have been deleted by one of the commands. -/
def removed (ds : List Deletion) : List String := ds.flatMap Deletion.done

theorem removed_append (ds ds' : List Deletion) : removed (ds ++ ds') = removed ds ++ removed ds' :=
  List.flatMap_append

/-- The scene in which the coming commands that delete keys fail as they are scripted to. -/
def Scene.faulty (s : Scene V) (faults : Script) : Scene V :=
  { s with world := s.world.script .deleteMany faults }

/-- The failure that an answer is. -/
def failure? {α : Type} : Except Error α → Option Error
  | .ok _ => none
  | .error e => some e

theorem eq_error_of_failure? {α : Type} {r : Except Error α} {e : Error} (h : failure? r = some e) :
    r = .error e := by
  cases r with
  | ok x => cases h
  | error e' => exact congrArg _ (Option.some.inj h)

/-- The fault of the `i`-th of the coming commands, if it is scripted to fail. -/
def fault? (faults : Script) (i : Nat) : Option Error := faults[i]?.join

theorem fault?_tail (faults : Script) (i : Nat) : fault? faults.tail i = fault? faults (i + 1) := by
  rw [fault?, List.getElem?_tail]
  rfl

theorem fault?_drop (faults : Script) (n i : Nat) :
    fault? (faults.drop n) i = fault? faults (n + i) := by
  rw [fault?, List.getElem?_drop]
  rfl

/-- The answers are failures just where the script has faults. -/
def Follows (faults : Script) (answers : List (Except Error Nat)) : Prop :=
  ∀ i a, answers[i]? = some a → failure? a = fault? faults i

namespace Follows

variable {faults : Script} {answers answers' : List (Except Error Nat)} {a : Except Error Nat}

theorem nil (faults : Script) : Follows faults [] := fun i a ha => by cases ha

theorem cons (h : failure? a = fault? faults 0) (h' : Follows faults.tail answers) :
    Follows faults (a :: answers) := by
  rintro (_ | i) b hb
  · obtain rfl := Option.some.inj hb
    exact h
  · exact (h' i b hb).trans (fault?_tail faults i)

theorem append (h : Follows faults answers) (h' : Follows (faults.drop answers.length) answers') :
    Follows faults (answers ++ answers') := by
  intro i b hb
  by_cases hi : i < answers.length
  · rw [List.getElem?_append_left hi] at hb
    exact h i b hb
  · rw [List.getElem?_append_right (Nat.le_of_not_lt hi)] at hb
    rw [h' _ b hb, fault?_drop, Nat.add_sub_cancel' (Nat.le_of_not_lt hi)]

end Follows

namespace Invalidation

/-- Such a command deletes its keys, or does nothing. -/
theorem run_deleteMany_faulty (s : Scene V) (faults : Script) (keys : List String) :
    (Client.deleteMany keys).outcome.run (s.faulty faults) =
      match fault? faults 0 with
      | some e => (.error e, s.faulty faults.tail)
      | none => (.ok (s.world.store.deleteMany s.world.now keys).1,
          (s.withStore (s.world.store.deleteMany s.world.now keys).2).faulty faults.tail) := by
  have hnext : nextFault (s.faulty faults).world.scripts .deleteMany =
      (fault? faults 0, rescript s.world.scripts .deleteMany faults.tail) := by
    refine (World.nextFault_rescript _ _ _).trans ?_
    cases faults <;> rfl
  rw [Client.deleteMany, Action.outcome_command, Program.run_command]
  simp only [World.command, Store.Call.method, hnext]
  cases fault? faults 0 <;> rfl

/-- The failures of an action, worded anew. -/
theorem retryFrom_eq (delay last : Nat) (a : Action V Nat) (i more : Nat) :
    (retryFrom delay last a i more).outcome =
      (·.mapError fun e => .retriesExhausted last e.message) <$>
        (Action.tries (fun i => delay * i) a i more).outcome := by
  induction more generalizing i with
  | zero =>
    rw [retryFrom, Action.outcome_always_bind, ← bind_pure_comp]
    refine bind_congr fun r => ?_
    cases r <;> rfl
  | succ more ih =>
    rw [retryFrom, Action.tries, Action.outcome_always_bind, Action.outcome_always_bind, map_bind]
    refine bind_congr fun r => ?_
    cases r with
    | ok n => rfl
    | error e =>
      simp only [Action.outcome_always_bind, map_bind, ih]

/-! ## The attempts at a chunk -/

variable {c : InvalidationConfig} {chunk : List String} {cs : List (List String)}
  {faults : Script} {wait : Nat → Nat} {i more : Nat} {xs : List (Attempt V Nat)}
  {ds : List Deletion} {r : Except Error Nat}

/-- Between the scenes the keys have been deleted, if the answer says so. -/
def Did (keys : List String) (s t : Scene V) : Except Error Nat → Prop
  | .ok n => s.world.store.deleteMany t.world.now keys = (n, t.world.store)
  | .error _ => t.world.store = s.world.store

theorem course_deleteMany_faulty {keys : List String}
    (h : (Client.deleteMany keys).outcome.Course (s.faulty faults) log r t) :
    failure? r = fault? faults 0 ∧
      ∃ u, t = u.faulty faults.tail ∧ u.world.now = s.world.now ∧ u.memory = s.memory ∧
        Did keys s u r := by
  have hrun := h.eq_run (Program.each_lift (Q := fun q => q.toSource = false) rfl)
  rw [run_deleteMany_faulty] at hrun
  cases hfault : fault? faults 0 with
  | some e =>
    rw [hfault] at hrun
    obtain ⟨rfl, rfl⟩ := Prod.mk.inj hrun
    exact ⟨rfl, s, rfl, rfl, rfl, rfl⟩
  | none =>
    rw [hfault] at hrun
    obtain ⟨rfl, rfl⟩ := Prod.mk.inj hrun
    exact ⟨rfl, _, rfl, rfl, rfl, rfl⟩

/-- Only the last attempt may have deleted the keys. -/
theorem removed_of_attempts {a : Action V Nat} (h : Attempts wait a i more s xs r t) :
    removed (xs.map (Deletion.of chunk)) = if r.toBool then chunk else [] := by
  induction h with
  | succeeded h => exact List.append_nil _
  | exhausted h => rfl
  | again h rest ih => exact ih

/-- The attempts fail as they are scripted to, and wait in between; the last one may have deleted
the keys. -/
theorem deletes_of_attempts
    (h : Attempts wait (Client.deleteMany chunk) i more (s.faulty faults) xs r t) :
    Follows faults (xs.map (·.answer)) ∧
      ∃ u, t = u.faulty (faults.drop xs.length) ∧ s.world.now ≤ u.world.now ∧
        u.memory = s.memory ∧ Did chunk s u r ∧
        ∃ x, xs.getLast? = some x ∧ x.answer = r ∧ x.before.world.now = u.world.now := by
  generalize hs : s.faulty faults = s' at h
  induction h generalizing s faults with
  | succeeded h | exhausted h =>
    subst hs
    obtain ⟨hanswer, u, rfl, hnow, hmemory, hdid⟩ := course_deleteMany_faulty h
    refine ⟨.cons hanswer (.nil _), u, ?_, Nat.le_of_eq hnow.symm, hmemory, hdid, _, rfl, rfl,
      hnow.symm⟩
    rw [List.length_singleton, List.drop_one]
  | @again i more s' t' t log e xs r h rest ih =>
    subst hs
    obtain ⟨hanswer, u, rfl, hnow, hmemory, hstore⟩ := course_deleteMany_faulty h
    have hsame : u.world.store = s.world.store := hstore
    obtain ⟨hanswers, v, hv, hnow', hmemory', hdid, x, hx, hlast⟩ :=
      @ih (u.later (wait i)) faults.tail rfl
    refine ⟨.cons hanswer hanswers, v, ?_, ?_, hmemory'.trans hmemory, ?_, x, ?_, hlast⟩
    · rw [hv, List.length_cons, ← List.drop_one, List.drop_drop, Nat.add_comm]
    · have hlater : u.world.now + wait i ≤ v.world.now := hnow'
      omega
    · cases r with
      | ok n =>
        rw [Did, ← hsame]
        exact hdid
      | error e => exact hdid.trans hsame
    · rw [List.getLast?_cons, hx]
      rfl

/-! ## Chunk by chunk -/

/-- The chunks are deleted one after the other, each by attempts with longer and longer waits in
between, until one of them fails to the last. -/
inductive Deletes (c : InvalidationConfig) :
    List (List String) → Scene V → List Deletion → Except Error Nat → Scene V → Prop where
  | done (s : Scene V) : Deletes c [] s [] (.ok 0) s
  | deleted {chunk : List String} {cs : List (List String)} {s t u : Scene V}
    {xs : List (Attempt V Nat)} {ds : List Deletion} {n : Nat} {r : Except Error Nat}
    (h : Attempts (fun i => c.retryDelay * i) (Client.deleteMany chunk) 1 (max c.maxRetries 1 - 1)
      s xs (.ok n) t) (rest : Deletes c cs t ds r u) :
    Deletes c (chunk :: cs) s (xs.map (.of chunk) ++ ds) (r.map (n + ·)) u
  | failed {chunk : List String} {cs : List (List String)} {s t : Scene V}
    {xs : List (Attempt V Nat)} {e : Error}
    (h : Attempts (fun i => c.retryDelay * i) (Client.deleteMany chunk) 1 (max c.maxRetries 1 - 1)
      s xs (.error e) t) :
    Deletes c (chunk :: cs) s (xs.map (.of chunk))
      (.error (.retriesExhausted (max c.maxRetries 1) e.message)) t

/-- Trying an action again makes attempts at it; a failure is worded anew. -/
theorem course_retry {a : Action V Nat} (h : (retry c a).outcome.Course s log r t) :
    ∃ xs r', Attempts (fun i => c.retryDelay * i) a 1 (max c.maxRetries 1 - 1) s xs r' t ∧
      deeds log = (xs.flatMap fun x => deeds x.log) ∧
      r = r'.mapError fun e => .retriesExhausted (max c.maxRetries 1) e.message := by
  rw [retry, retryFrom_eq, ← bind_pure_comp] at h
  obtain ⟨log₁, r', u, log₂, htries, hrest, rfl⟩ := h.of_bind
  obtain ⟨rfl, rfl, rfl⟩ := hrest.of_pure
  obtain ⟨xs, hxs, hdeeds⟩ := Action.course_tries htries
  exact ⟨xs, r', hxs, by rw [List.append_nil, hdeeds], rfl⟩

/-- Each attempt sends one command that deletes keys. -/
theorem deletions_of_attempts (h : Attempts wait (Client.deleteMany chunk) i more s xs r t)
    (hdeeds : deeds log = xs.flatMap fun x => deeds x.log) :
    deletions log = xs.map (.of chunk) := by
  have hquiet (e : Exchange V) (he : e.ask.isClock = true) : e.deletion? = none := by
    obtain ⟨time, q, answer⟩ := e
    cases q <;> first | rfl | cases he
  refine filterMap_of_deeds hquiet hdeeds fun x hx => ?_
  obtain ⟨-, hlog⟩ := Program.Course.of_lift (h.course x hx)
  rw [hlog]
  rfl

theorem course_deleteChunks (h : (deleteChunks c cs).outcome.Course s log r t) :
    Deletes c cs s (deletions log) r t := by
  induction cs generalizing s log r with
  | nil =>
    obtain ⟨rfl, rfl, rfl⟩ := h.of_pure
    exact .done t
  | cons chunk cs ih =>
    rcases Action.course_then h with ⟨log₁, n, u, log₂, hretry, hrest, rfl⟩ | ⟨e, rfl, hretry⟩
    · obtain ⟨xs, r', hxs, hdeeds, hr'⟩ := course_retry hretry
      cases r' with
      | error e => cases hr'
      | ok n' =>
        obtain rfl : n = n' := Except.ok.inj hr'
        rw [deletions_append, deletions_of_attempts hxs hdeeds]
        rcases Action.course_then hrest with
          ⟨log₃, n', v, log₄, hchunks, hsum, rfl⟩ | ⟨e, rfl, hchunks⟩
        · obtain ⟨rfl, rfl, rfl⟩ := hsum.of_pure
          rw [List.append_nil]
          exact .deleted hxs (ih hchunks)
        · exact .deleted hxs (ih hchunks)
    · obtain ⟨xs, r', hxs, hdeeds, hr'⟩ := course_retry hretry
      cases r' with
      | ok n => cases hr'
      | error e' =>
        obtain rfl := Except.error.inj hr'
        rw [deletions_of_attempts hxs hdeeds]
        exact .failed hxs

/-! ## What is left -/

/-- The entries of the keys are gone, and all other entries are what they were. -/
def Cleared (keys : List String) (s t : Scene V) : Prop :=
  ∀ key, t.world.store.entries.get? key =
    if key ∈ keys then none else s.world.store.entries.get? key

theorem Did.cleared {keys : List String} (h : Did keys s t r) :
    Cleared (if r.toBool then keys else []) s t := by
  intro key
  cases r with
  | ok n =>
    have hstore := Store.get?_deleteMany s.world.store t.world.now keys key
    rw [h] at hstore
    exact hstore
  | error e => exact congrArg (·.entries.get? key) h

theorem Cleared.trans {keys keys' : List String} (h : Cleared keys s t) (h' : Cleared keys' t u) :
    Cleared (keys ++ keys') s u := by
  intro key
  rw [h', h]
  by_cases hkey : key ∈ keys <;> simp [hkey]

/-- The commands fail as they are scripted to, and nothing is touched but the entries of the keys
that they have deleted. -/
theorem Deletes.cleared (h : Deletes c cs (s.faulty faults) ds r t) :
    Follows faults (ds.map (·.answer)) ∧
      ∃ u, t = u.faulty (faults.drop ds.length) ∧ s.world.now ≤ u.world.now ∧
        u.memory = s.memory ∧ Cleared (removed ds) s u := by
  generalize hs : s.faulty faults = s' at h
  induction h generalizing s faults with
  | done s' =>
    subst hs
    exact ⟨.nil _, s, rfl, Nat.le_refl _, rfl, fun key => rfl⟩
  | @deleted chunk cs s' t' t xs ds n r h rest ih =>
    subst hs
    obtain ⟨hanswers, u, rfl, hnow, hmemory, hdid, -⟩ := deletes_of_attempts h
    obtain ⟨hanswers', v, hv, hnow', hmemory', hcleared⟩ := @ih u (faults.drop xs.length) rfl
    refine ⟨?_, v, ?_, Nat.le_trans hnow hnow', hmemory'.trans hmemory, ?_⟩
    · rw [List.map_append, List.map_map]
      refine .append hanswers ?_
      rwa [List.length_map]
    · rw [hv, List.drop_drop, List.length_append, List.length_map]
    · rw [removed_append, removed_of_attempts h]
      exact hdid.cleared.trans hcleared
  | @failed chunk cs s' t xs e h =>
    subst hs
    obtain ⟨hanswers, u, rfl, hnow, hmemory, hdid, -⟩ := deletes_of_attempts h
    refine ⟨?_, u, ?_, hnow, hmemory, ?_⟩
    · rw [List.map_map]
      exact hanswers
    · rw [List.length_map]
    · rw [removed_of_attempts h]
      exact hdid.cleared

theorem live?_of_cleared {keys : List String} (h : Cleared keys s t) {key : String}
    (hkey : key ∉ keys) (now : Nat) :
    t.world.store.live? now key = s.world.store.live? now key := by
  rw [Store.live?, Store.live?, h key, if_neg hkey]

/-- So many of the keys were live at the time when they were deleted, which is not before the scene
and not after the given time. -/
def Counted (s : Scene V) (keys : List String) (ds : List Deletion) (finish n : Nat) : Prop :=
  ∃ when : String → Nat,
    (∀ key ∈ keys, s.world.now ≤ when key ∧ when key ≤ finish ∧
      ∃ d ∈ ds, key ∈ d.done ∧ d.time = when key) ∧
    n = keys.countP fun key => (s.world.store.live? (when key) key).isSome

theorem counted_of_attempts {n : Nat} (hchunk : chunk.Nodup)
    (h : Attempts wait (Client.deleteMany chunk) i more (s.faulty faults) xs (.ok n) t) :
    Counted s chunk (xs.map (.of chunk)) t.world.now n := by
  obtain ⟨-, u, rfl, hnow, -, hdid, x, hx, hanswer, htime⟩ := deletes_of_attempts h
  refine ⟨fun _ => u.world.now,
    fun key hkey => ⟨hnow, Nat.le_refl _, .of chunk x, ?_, ?_, htime⟩, ?_⟩
  · exact List.mem_map_of_mem (List.mem_of_getLast? hx)
  · rwa [Deletion.done, Deletion.of, hanswer]
  · rw [← Store.count_deleteMany _ _ hchunk, hdid]

/-- The keys of one part are deleted first, then those of another part. -/
theorem Counted.append {keys keys' : List String} {ds' : List Deletion} {finish finish' n n' : Nat}
    (h : Counted s keys ds finish n) (h' : Counted t keys' ds' finish' n')
    (hcleared : Cleared keys s t) (hapart : ∀ key ∈ keys', key ∉ keys)
    (hnow : s.world.now ≤ t.world.now) (hfinish : finish ≤ finish') :
    Counted s (keys ++ keys') (ds ++ ds') finish' (n + n') := by
  obtain ⟨when, hwhen, rfl⟩ := h
  obtain ⟨when', hwhen', rfl⟩ := h'
  obtain ⟨both, hfirst, hrest⟩ : ∃ both : String → Nat,
      (∀ key ∈ keys, both key = when key) ∧ ∀ key, key ∉ keys → both key = when' key :=
    ⟨fun key => if key ∈ keys then when key else when' key, fun key hkey => if_pos hkey,
      fun key hkey => if_neg hkey⟩
  refine ⟨both, fun key hkey => ?_, ?_⟩
  · by_cases hin : key ∈ keys
    · obtain ⟨hfrom, hto, d, hd, hdone⟩ := hwhen key hin
      rw [hfirst key hin]
      exact ⟨hfrom, Nat.le_trans hto hfinish, d, List.mem_append_left _ hd, hdone⟩
    · obtain ⟨hfrom, hto, d, hd, hdone⟩ :=
        hwhen' key ((List.mem_append.1 hkey).resolve_left hin)
      rw [hrest key hin]
      exact ⟨Nat.le_trans hnow hfrom, hto, d, List.mem_append_right _ hd, hdone⟩
  · rw [List.countP_append]
    congr 1
    · exact List.countP_congr fun key hkey => by rw [hfirst key hkey]
    · refine List.countP_congr fun key hkey => ?_
      rw [hrest key (hapart key hkey), live?_of_cleared hcleared (hapart key hkey)]

/-- When all chunks are deleted, so many keys are counted as were live when they were deleted. -/
theorem Deletes.counted {n : Nat} (h : Deletes c cs (s.faulty faults) ds (.ok n) t) :
    removed ds = cs.flatten ∧
      (cs.flatten.Nodup → Counted s cs.flatten ds t.world.now n) := by
  generalize hs : s.faulty faults = s' at h
  generalize hr : Except.ok n = r at h
  induction h generalizing s faults n with
  | done s' =>
    obtain rfl := Except.ok.inj hr
    exact ⟨rfl, fun _ => ⟨fun _ => 0, List.forall_mem_nil _, rfl⟩⟩
  | @deleted chunk cs s' t' t xs ds m r h rest ih =>
    subst hs
    cases r with
    | error e => cases hr
    | ok k =>
      obtain rfl := Except.ok.inj hr
      obtain ⟨-, u, rfl, hnow, -, hdid, -⟩ := deletes_of_attempts h
      obtain ⟨hremoved, hcount⟩ := @ih u (faults.drop xs.length) k rfl rfl
      obtain ⟨-, v, rfl, hnow', -, -⟩ := rest.cleared
      refine ⟨?_, fun hnodup => ?_⟩
      · rw [removed_append, removed_of_attempts h, hremoved]
        rfl
      · rw [List.flatten_cons, List.nodup_append] at hnodup
        obtain ⟨hchunk, hrest, hapart⟩ := hnodup
        exact (counted_of_attempts hchunk h).append (hcount hrest) hdid.cleared
          (fun key hkey hin => hapart key hin key hkey rfl) hnow hnow'
  | failed h => cases hr

/-- A chunk has failed to the last: these commands were the attempts at it, and this is what
becomes of the last failure. -/
structure GivesUp (c : InvalidationConfig) (chunk : List String) (tried : List Deletion)
    (e : Error) : Prop where
  keys : ∀ d ∈ tried, d.keys = chunk
  failed : ∀ d ∈ tried, d.answer.toBool = false
  count : tried.length = max c.maxRetries 1
  last : ∃ d last, tried.getLast? = some d ∧ d.answer = .error last ∧
    e = .retriesExhausted (max c.maxRetries 1) last.message

theorem givesUp_of_attempts {e : Error}
    (h : Attempts wait (Client.deleteMany chunk) i (max c.maxRetries 1 - 1) (s.faulty faults) xs
      (.error e) t) :
    GivesUp c chunk (xs.map (.of chunk)) (.retriesExhausted (max c.maxRetries 1) e.message) := by
  obtain ⟨-, u, -, -, -, -, x, hx, hanswer, -⟩ := deletes_of_attempts h
  refine ⟨?_, ?_, ?_, ?_⟩
  · intro d hd
    obtain ⟨x, -, rfl⟩ := List.mem_map.1 hd
    rfl
  · intro d hd
    obtain ⟨x, hx, rfl⟩ := List.mem_map.1 hd
    exact Bool.eq_false_iff.2 fun hdone => Bool.false_ne_true (h.toBool_iff.2 ⟨x, hx, hdone⟩)
  · rw [List.length_map, h.length_of_error]
    omega
  · exact ⟨.of chunk x, e, by rw [List.getLast?_map, hx]; rfl, hanswer, rfl⟩

/-- When a chunk fails to the last, those before it have been deleted, and no others. -/
theorem Deletes.broken {e : Error} (h : Deletes c cs (s.faulty faults) ds (.error e) t) :
    ∃ before chunk after earlier tried, cs = before ++ chunk :: after ∧ ds = earlier ++ tried ∧
      removed earlier = before.flatten ∧ removed tried = [] ∧ GivesUp c chunk tried e := by
  generalize hs : s.faulty faults = s' at h
  generalize hr : Except.error e = r at h
  induction h generalizing s faults with
  | done s' => cases hr
  | @deleted chunk cs s' t' t xs ds m r h rest ih =>
    subst hs
    cases r with
    | ok k => cases hr
    | error e' =>
      obtain rfl := Except.error.inj hr
      obtain ⟨-, u, rfl, -, -, -, -⟩ := deletes_of_attempts h
      obtain ⟨before, last, after, earlier, tried, rfl, rfl, hremoved, hnone, hgives⟩ :=
        @ih u (faults.drop xs.length) rfl rfl
      refine ⟨chunk :: before, last, after, xs.map (.of chunk) ++ earlier, tried, rfl, ?_, ?_,
        hnone, hgives⟩
      · rw [List.append_assoc]
      · rw [removed_append, removed_of_attempts h, hremoved]
        rfl
  | @failed chunk cs s' t xs e' h =>
    subst hs
    obtain rfl := Except.error.inj hr
    exact ⟨[], chunk, cs, [], xs.map (.of chunk), rfl, rfl, rfl, removed_of_attempts h,
      givesUp_of_attempts h⟩

/-- If none of the keys dies before all are deleted, those are counted that are live now. -/
theorem Counted.lasting {keys : List String} {finish n : Nat} (h : Counted s keys ds finish n)
    (hlasting : ∀ key ∈ keys, ∀ e, s.live? key = some e → e.isDead finish = false) :
    n = keys.countP fun key => (s.live? key).isSome := by
  obtain ⟨when, hwhen, rfl⟩ := h
  refine List.countP_congr fun key hkey => ?_
  obtain ⟨hfrom, hto, -⟩ := hwhen key hkey
  rw [Store.live?_later _ hfrom]
  change ((s.live? key).filter fun e => !e.isDead (when key)).isSome = true ↔ _
  cases hlive : s.live? key with
  | none => rfl
  | some e =>
    have halive : e.isDead (when key) = false := Bool.eq_false_iff.2 fun hdead =>
      Bool.eq_false_iff.1 (hlasting key hkey e hlive) (Entry.isDead_of_le hto hdead)
    simp [halive]

/-! ## A whole deletion -/

/-- How a deletion of keys goes whose commands fail as they are scripted to. -/
structure Phase (s : Scene V) (faults : Script) (keys : List String) (ds : List Deletion)
    (r : Except Error Nat) (t : Scene V) : Prop where
  deletes : Deletes s.memory.config.invalidation
    (chunks s.memory.config.invalidation.batchSize keys) (s.faulty faults) ds r t
  follows : Follows faults (ds.map (·.answer))
  memory : t.memory = s.memory
  cleared : Cleared (removed ds) s t
  /-- If all goes well, all keys have been deleted, and those are counted that were there. -/
  whole : ∀ n, r = .ok n → removed ds = keys ∧ Counted s keys ds t.world.now n
  /-- Otherwise the keys of the chunks before the one that has failed have been deleted. -/
  part : ∀ e, r = .error e → ∃ before chunk after earlier tried,
    chunks s.memory.config.invalidation.batchSize keys = before ++ chunk :: after ∧
    ds = earlier ++ tried ∧ removed ds = before.flatten ∧
    GivesUp s.memory.config.invalidation chunk tried e

theorem phase_of_course {keys : List String} (hkeys : keys.Nodup)
    (h : (deleteKeys keys).outcome.Course (s.faulty faults) log r t) :
    Phase s faults keys (deletions log) r t := by
  obtain ⟨log', hchunks, rfl⟩ := Action.course_memory_then h
  have hdeletes := course_deleteChunks hchunks
  obtain ⟨hfollows, u, rfl, -, hmemory, hcleared⟩ := hdeletes.cleared
  refine ⟨hdeletes, hfollows, hmemory, hcleared, ?_, ?_⟩
  · rintro n rfl
    obtain ⟨hremoved, hcounted⟩ := hdeletes.counted
    rw [flatten_chunks] at hremoved hcounted
    exact ⟨hremoved, hcounted hkeys⟩
  · rintro e rfl
    obtain ⟨before, chunk, after, earlier, tried, hcut, hds, hearlier, hnone, hgives⟩ :=
      hdeletes.broken
    refine ⟨before, chunk, after, earlier, tried, hcut, hds, ?_, hgives⟩
    change removed (deletions log') = _
    rw [hds, removed_append, hearlier, hnone, List.append_nil]

end Invalidation
end CacheLayer
