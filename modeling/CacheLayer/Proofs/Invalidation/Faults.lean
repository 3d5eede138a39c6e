/-
Invalidations while commands that delete keys fail. An invalidation first seeks its targets, which
changes nothing that can be seen and deletes nothing (`Ask.Seeks`), and then deletes them. When the
deletion fails, that is the end of it: no set of a tag is touched, and no event is put into the log.

Main statement: `deletion_exact`.
-/
import CacheLayer.Proofs.Client.Coding
import CacheLayer.Proofs.Invalidation.Deletion

namespace CacheLayer

variable {V α : Type} {s t u : Scene V} {log : List (Exchange V)} {faults : Script}

/-! ## Seeking -/

/-- The request may be made while targets are sought. -/
def Ask.Seeks : Ask V → Prop
  | .now | .extent => True
  | .command c => c.asks = true
  | .update f => ∀ m, (f m).config = m.config
  | _ => False

def Ask.deletes : Ask V → Bool
  | .command (.deleteMany _) => true
  | _ => false

namespace Ask.Seeks

variable {q : Ask V}

theorem deletes (h : q.Seeks) : q.deletes = false := by
  cases q with
  | command c => cases c <;> first | rfl | cases h
  | _ => rfl

theorem leaves (h : q.Seeks) (key : String) : q.Leaves key := by
  cases q with
  | command c => exact .inl h
  | wait w => cases h
  | _ => trivial

theorem keeps (h : q.Seeks) : q.Keeps Memory.config := by
  cases q with
  | update f => exact h
  | _ => trivial

theorem toSource (h : q.Seeks) : q.toSource = false := by
  cases q <;> first | rfl | cases h

end Ask.Seeks

/-- What is asked then is answered regardless of the script for commands that delete keys. -/
theorem Ask.perform_faulty {q : Ask V} (h : q.Seeks) (s : Scene V) (faults : Script) :
    q.perform (q.sleep (s.faulty faults)) =
      ((q.perform (q.sleep s)).1, (q.perform (q.sleep s)).2.faulty faults) := by
  cases q with
  | command c =>
    have hother : c.method ≠ .deleteMany := by
      cases c with
      | deleteMany keys => cases h
      | _ => rintro ⟨⟩
    have hcommand := World.command_script s.world hother faults
    exact congrArg (fun x => (x.1, ({ s with world := x.2 } : Scene V))) hcommand
  | now | extent | update f => rfl
  | _ => cases h

theorem Program.run_faulty {p : Program V α} (h : p.Each Ask.Seeks) (s : Scene V)
    (faults : Script) : p.run (s.faulty faults) = ((p.run s).1, (p.run s).2.faulty faults) := by
  induction p generalizing s with
  | done a => rfl
  | ask q next ih => rw [run_ask, run_ask, Ask.perform_faulty h.1, ih _ (h.2 _)]

/-- Where nothing deletes keys there are no deletions. -/
theorem Program.Course.no_deletions {p : Program V α} {r : α} (h : p.Course s log r t)
    (hp : p.Each fun q => q.deletes = false) : deletions log = [] := by
  refine List.filterMap_eq_nil_iff.2 fun e he => ?_
  have hask := h.forall_ask hp e he
  obtain ⟨time, q, answer⟩ := e
  cases q with
  | command c => cases c <;> first | rfl | cases hask
  | _ => rfl

/-- Seeking changes nothing that can be seen. -/
theorem Program.Course.seeks {p : Program V α} {r : α} (hs : s.Serving) (hp : p.Each Ask.Seeks)
    (h : p.Course (s.faulty faults) log r t) :
    ∃ u, t = u.faulty faults ∧ u.Serving ∧ s.Alike u ∧ u.memory.config = s.memory.config ∧
      deletions log = [] := by
  have hrun := h.eq_run (Program.each_mono (fun _ hq => hq.toSource) hp)
  rw [Program.run_faulty hp] at hrun
  have hstill : p.IsStill := fun key => Program.each_mono (fun _ hq => hq.leaves key) hp
  exact ⟨(p.run s).2, (congrArg Prod.snd hrun).symm, p.serving_run hs, hstill.alike hs,
    Program.run_keeps (Program.each_mono (fun _ hq => hq.keeps) hp) s,
    h.no_deletions (Program.each_mono (fun _ hq => hq.deletes) hp)⟩

namespace Invalidation

/-! ## Requests -/

/-- A request that removes keys. -/
inductive Removal where
  | single (key : String)
  | matching (pattern : String)
  | tagged (tags : List String)

def Removal.act : Removal → Action V Nat
  | single key => invalidate key
  | matching pattern => invalidatePattern pattern
  | tagged tags => invalidateTags tags

/-- How a request goes that sends these commands which delete keys: it sends none, because there is
nothing to delete or the targets cannot be found out, or it deletes targets in a scene that looks
alike; if that fails, it fails in the same way, and has done nothing since. -/
def Goes (s : Scene V) (faults : Script) (ds : List Deletion) (r : Except Error Nat)
    (t : Scene V) : Prop :=
  (ds = [] ∧ (r = .ok 0 ∨ ∃ e, r = .error e)) ∨
  ∃ keys u r' t', keys.Nodup ∧ s.Alike u ∧ u.memory.config = s.memory.config ∧
    Phase u faults keys ds r' t' ∧ ∀ e, r' = .error e → r = .error e ∧ t = t'

variable {r : Except Error Nat} {ds : List Deletion}

theorem Goes.of_alike (halike : s.Alike u) (hconfig : u.memory.config = s.memory.config)
    (h : Goes u faults ds r t) : Goes s faults ds r t := by
  rcases h with hnone | ⟨keys, v, r', t', hkeys, halike', hconfig', hphase, hfailed⟩
  · exact .inl hnone
  · exact .inr ⟨keys, v, r', t', hkeys, halike.trans halike', hconfig'.trans hconfig, hphase,
      hfailed⟩

/-- First something is sought, then the request goes on. -/
theorem goes_seek {a : Action V α} {f : α → Action V Nat} (hs : s.Serving)
    (ha : a.outcome.Each Ask.Seeks) (h : (a >>= f).outcome.Course (s.faulty faults) log r t)
    (hf : ∀ (x : α) (u : Scene V) (log' : List (Exchange V)), u.Serving →
      (f x).outcome.Course (u.faulty faults) log' r t → Goes u faults (deletions log') r t) :
    Goes s faults (deletions log) r t := by
  rcases Action.course_then h with ⟨log₁, x, v, log₂, hseek, hrest, rfl⟩ | ⟨e, rfl, hseek⟩
  · obtain ⟨u, rfl, hu, halike, hconfig, hnone⟩ := hseek.seeks hs ha
    rw [deletions_append, hnone, List.nil_append]
    exact (hf x u log₂ hu hrest).of_alike halike hconfig
  · obtain ⟨-, -, -, -, -, hnone⟩ := hseek.seeks hs ha
    exact .inl ⟨hnone, .inr ⟨e, rfl⟩⟩

/-- Then the targets are deleted. -/
theorem goes_delete {keys : List String} (hkeys : keys.Nodup) {f : Nat → Action V Nat}
    (hf : ∀ n, (f n).outcome.Each fun q => q.deletes = false)
    (h : (deleteKeys keys >>= f).outcome.Course (s.faulty faults) log r t) :
    Goes s faults (deletions log) r t := by
  rcases Action.course_then h with ⟨log₁, n, v, log₂, hdelete, hrest, rfl⟩ | ⟨e, rfl, hdelete⟩
  · rw [deletions_append, hrest.no_deletions (hf n), List.append_nil]
    exact .inr ⟨keys, s, .ok n, v, hkeys, .refl s, rfl, phase_of_course hkeys hdelete,
      fun e he => by cases he⟩
  · exact .inr ⟨keys, s, .error e, t, hkeys, .refl s, rfl, phase_of_course hkeys hdelete,
      fun e' he => ⟨he, rfl⟩⟩

theorem seeks_now : (Action.always Program.now : Action V Nat).outcome.Each Ask.Seeks :=
  Program.each_always (Program.each_lift trivial)

theorem seeks_withDependents (keys : List String) :
    (withDependents keys : Action V KeySet).outcome.Each Ask.Seeks :=
  each_withDependents (Q := Ask.Seeks) (fun _ => rfl) (fun _ => rfl) (fun _ _ _ => rfl) keys

theorem deletes_record (target kind : String) (removed start : Nat) :
    (Action.always (record target kind removed start) : Action V Unit).outcome.Each
      fun q => q.deletes = false :=
  Program.each_always (each_record (Q := fun q => q.deletes = false) rfl rfl (fun _ => rfl)
    (fun _ _ => rfl) (fun _ => rfl) target kind removed start)

/-- Every request that removes keys goes so. -/
theorem goes_act (hs : s.Serving) (R : Removal)
    (h : R.act.outcome.Course (s.faulty faults) log r t) : Goes s faults (deletions log) r t := by
  cases R with
  | single key =>
    refine goes_seek hs seeks_now h fun start u log hu h => ?_
    refine goes_seek hu (each_dependents (Q := Ask.Seeks) (fun _ => rfl) rfl fun _ _ => rfl) h
      fun own u log hu h => ?_
    exact goes_delete (KeyMap.nodup_keys _) (fun n =>
      Program.each_then (deletes_record _ _ _ _) fun _ => Program.each_pure _) h
  | matching pattern =>
    refine goes_seek hs seeks_now h fun start u log hu h => ?_
    refine goes_seek hu (Client.each_scanKeys (Q := Ask.Seeks) trivial fun _ => rfl) h
      fun found u log hu h => ?_
    refine goes_seek hu (seeks_withDependents found) h fun targets u log hu h => ?_
    exact goes_delete (KeyMap.nodup_keys _) (fun n =>
      Program.each_then (deletes_record _ _ _ _) fun _ => Program.each_pure _) h
  | tagged tags =>
    refine goes_seek hs seeks_now h fun start u log hu h => ?_
    refine goes_seek (a := Client.union (tags.map Marker.tag)) hu
      (Program.each_lift (Q := Ask.Seeks) rfl) h fun members u log hu h => ?_
    dsimp only at h
    split at h
    · have hnone : (do
          Action.always (record (",".intercalate tags) "tags" 0 start)
          return 0 : Action V Nat).outcome.Each fun q => q.deletes = false :=
        Program.each_then (deletes_record _ _ _ _) fun _ => Program.each_pure _
      obtain ⟨log₁, ⟨⟩, v, log₂, hrecord, hrest, rfl⟩ := Action.course_always_then h
      obtain ⟨rfl, rfl, rfl⟩ := hrest.of_pure
      exact .inl ⟨h.no_deletions hnone, .inl rfl⟩
    · refine goes_seek hu (seeks_withDependents members) h fun targets u log hu h => ?_
      exact goes_delete (KeyMap.nodup_keys _) (fun n =>
        Program.each_then (Client.each_scanKeys (Q := fun q => q.deletes = false) rfl fun _ => rfl)
          fun sets => Program.each_then
            (each_strike (Q := fun q => q.deletes = false) fun _ _ => rfl) fun _ =>
          Program.each_then (deletes_record _ _ _ _) fun _ => Program.each_pure _) h

/-! ## Deletion -/

/-- **The deletion of keys by chunks, with attempts, is exact.** Let the commands that delete keys
fail as they are scripted to, and let no key be named twice. The keys are cut into chunks of the
size of the settings, or of one if that is zero. The chunks are deleted in order, each by at most as
many attempts as the settings say, but at least one; after the `i`-th failure of a chunk there is a
wait of `i` times the delay, unless it was the last attempt. The commands that are sent are the
attempts. If every chunk is deleted at last, the result is the number of keys that were there when
they were deleted, which is the number of keys that are there now if none of them dies meanwhile;
all the keys are gone. If a chunk fails to the last, so does the deletion, with the number of
attempts and the text of the last failure: the keys of the chunks before are gone. All other entries
are what they were, whatever they hold.

A request that removes a key, the keys of a pattern or those of tags deletes its targets in this
way, in a scene that looks as before, unless there is nothing to delete or the targets cannot be
found out. If the deletion fails, the request fails in the same way, in the scene that the deletion has
left: no set of a tag has lost a member, and no event has been put into the log. -/
theorem deletion_exact (faults : Script) :
    (∀ (s : Scene V) (keys : List String), keys.Nodup →
      (∀ i, (chunks s.memory.config.invalidation.batchSize keys)[i]? =
        let size := max s.memory.config.invalidation.batchSize 1
        if i * size < keys.length then some ((keys.drop (i * size)).take size) else none) ∧
      ∃ r t, (deleteKeys keys).outcome.run (s.faulty faults) = (r, t) ∧
      Phase s faults keys (deletions ((deleteKeys keys).outcome.trace (s.faulty faults))) r t ∧
      ∀ n, r = .ok n →
        (∀ key ∈ keys, ∀ e, s.live? key = some e → e.isDead t.world.now = false) →
        n = keys.countP fun key => (s.live? key).isSome) ∧
    ∀ s : Scene V, s.Serving → ∀ R : Removal, ∃ r t,
      R.act.outcome.run (s.faulty faults) = (r, t) ∧
      Goes s faults (deletions (R.act.outcome.trace (s.faulty faults))) r t := by
  refine ⟨fun s keys hkeys => ?_, fun s hs R => ?_⟩
  · have hphase :=
      phase_of_course hkeys (Program.course_run (deleteKeys keys).outcome (s.faulty faults))
    refine ⟨getElem?_chunks _ keys, _, _, rfl, hphase, fun n hn hlasting => ?_⟩
    exact (hphase.whole n hn).2.lasting hlasting
  · exact ⟨_, _, rfl, goes_act hs R (Program.course_run R.act.outcome (s.faulty faults))⟩

/-- Three keys, of which two are deleted at once, in at most two attempts. -/
def stocked : Scene UInt8 :=
  ((do
    Client.set Client.byteFormat "a" 1 none
    Client.set Client.byteFormat "b" 2 none
    Client.set Client.byteFormat "c" 3 none : Action UInt8 Unit).outcome.run
      ⟨.start default, Memory.blank Client.byteFormat
        { invalidation := { batchSize := 2, maxRetries := 2, retryDelay := 10 } }⟩).2

/-- The first command fails, and from the third on two more. -/
def jam : Script :=
  [some (.backend "busy"), none, some (.backend "busy"), some (.backend "gone")]

/-- The first chunk is deleted at the second attempt; the second chunk fails twice and stays, also
if it is a request that invalidates its key. -/
theorem deletion_exact_stocked :
    ["a", "b", "c"].Nodup ∧ (stocked : Scene UInt8).Serving ∧
    (∃ ds t, (deleteKeys ["a", "b", "c"]).outcome.run (stocked.faulty jam) =
        (.error (.retriesExhausted 2 "Backend error: gone"), t) ∧
      ds.map Deletion.time = [0, 10, 10, 20] ∧ removed ds = ["a", "b"] ∧
      Phase stocked jam ["a", "b", "c"] ds (.error (.retriesExhausted 2 "Backend error: gone")) t) ∧
    ∃ r t, (Removal.single "c").act.outcome.run (stocked.faulty (jam.drop 2)) = (r, t) ∧
      Goes stocked (jam.drop 2)
        (deletions ((Removal.single "c").act.outcome.trace (stocked.faulty (jam.drop 2)))) r t := by
  have hkeys : ["a", "b", "c"].Nodup := by decide
  have hserving : (stocked : Scene UInt8).Serving :=
    Program.serving_run ⟨fun _ => rfl, Store.filled_empty 0⟩ _
  refine ⟨hkeys, hserving, ?_, (deletion_exact (jam.drop 2)).2 stocked hserving (.single "c")⟩
  have hfailure : failure? ((deleteKeys ["a", "b", "c"]).outcome.run (stocked.faulty jam)).1 =
      some (.retriesExhausted 2 "Backend error: gone") := by decide +kernel
  have htimes : (deletions ((deleteKeys ["a", "b", "c"]).outcome.trace (stocked.faulty jam))).map
      Deletion.time = [0, 10, 10, 20] := by decide +kernel
  have hremoved : removed (deletions ((deleteKeys ["a", "b", "c"]).outcome.trace
      (stocked.faulty jam))) = ["a", "b"] := by decide +kernel
  obtain ⟨-, r, t, hrun, hphase, -⟩ := (deletion_exact jam).1 stocked ["a", "b", "c"] hkeys
  rw [hrun] at hfailure
  obtain rfl := eq_error_of_failure? hfailure
  exact ⟨_, t, hrun, htimes, hremoved, hphase⟩

end Invalidation
end CacheLayer
