/-
What is done to the log. It is a list under a key of its own, the latest event
first. An event is put before the others, what reaches beyond the cap is cut off,
and the log gets a new life (`run_append`); reading takes events from its front
(`run_recentEvents`).
-/
import Mathlib.Data.List.Forall2
import CacheLayer.Proofs.Client.Coding
import CacheLayer.Proofs.Invalidation.Event
import CacheLayer.Proofs.Invalidation.Target
import CacheLayer.Proofs.Store.Container
import CacheLayer.Proofs.Store.Lifetime

namespace CacheLayer

variable {V α : Type} {s t : Scene V} {c : InvalidationConfig} {e : InvalidationEvent} {b : Bytes}
  {items : List Bytes} {count : Nat}

theorem Store.faithful_listShape : Store.listShape.Faithful :=
  ⟨fun _ => rfl, fun _ => List.isEmpty_iff⟩

theorem Action.run_command_eq {call : Store.Call} {r : Except Error call.Reply} {store : Store}
    (hs : s.world.Steady) (h : call.run s.world.now s.world.store = (r, store)) :
    (command call : Action V call.Reply).outcome.run s = (r, s.withStore store) := by
  rw [run_command hs, h]

/-- Items that can be decoded one by one are decoded all. -/
theorem Client.run_decodeItems {f : Format α} {as : List α}
    (h : List.Forall₂ (fun a b => f.decode s.memory.config.codec b = .ok a) as items) :
    (items.mapM (decodeItem f)).outcome.run s = (.ok as, s) := by
  induction h with
  | nil =>
    rw [List.mapM_nil]
    rfl
  | @cons a b as items ha _ ih =>
    have hone : (decodeItem f b).outcome.run s = (.ok a, s) := by
      rw [run_decodeItem, ha]
    rw [List.mapM_cons, Action.run_bind_ok hone, Action.run_bind_ok ih]
    rfl

namespace Invalidation

/-- How many of so many items the numbers of the store reach. -/
def reach (count : Nat) : Nat := min count (Nat.pow 2 63 - 1)

/-- The front of a list up to a last place. -/
theorem slice_lastPlace (items : List Bytes) (hcount : 0 < count) :
    Store.slice items 0 (lastPlace count) = items.take (reach count) := by
  have hmax : Int.pow 2 63 - 1 = 9223372036854775807 := rfl
  have hmax' : Nat.pow 2 63 - 1 = 9223372036854775807 := rfl
  unfold Store.slice Store.rangeBounds? lastPlace reach
  rw [hmax, hmax']
  by_cases hnone : items = []
  · subst hnone
    simp
  · have hlength : 0 < items.length := List.length_pos_iff.2 hnone
    rw [if_neg (by omega), if_neg (by omega), if_neg (by omega)]
    simp only [Int.toNat_zero, List.drop_zero]
    rw [List.take_eq_take_iff]
    omega

theorem slice_none (hcount : 0 < count) : Store.slice [] 0 (lastPlace count) = [] := by
  rw [slice_lastPlace [] hcount, List.take_nil]

/-- A cap leaves something of a log with an event. -/
theorem kept_take (b : Bytes) (items : List Bytes) (hcount : 0 < count) (deadline : Option Nat) :
    Store.listShape.kept ((b :: items).take (reach count)) deadline =
      some ⟨.list ((b :: items).take (reach count)), deadline⟩ := by
  have hreach : 0 < reach count := Nat.lt_min.2 ⟨hcount, by decide⟩
  obtain ⟨more, hmore⟩ : ∃ more, reach count = more + 1 := ⟨reach count - 1, by omega⟩
  rw [hmore]
  rfl

/-- The commands on the log put a new item before the others, cut off what the cap does not leave,
and begin a new life. -/
theorem run_commands (b : Bytes) (store : Store) (now : Nat) {cap : Nat} (hcap : 0 < cap)
    (hitems : Store.listShape.seen? (store.live? now Marker.events) = some items) :
    ∃ n pushed trimmed after,
      (Store.Call.pushFront Marker.events [b]).run now store = (.ok n, pushed) ∧
      (Store.Call.trim Marker.events 0 (lastPlace cap)).run now pushed = (.ok (), trimmed) ∧
      (Store.Call.expire Marker.events Marker.eventsLife).run now trimmed = (.ok true, after) ∧
      after.live? now Marker.events =
        some ⟨.list ((b :: items).take (reach cap)), some (now + Marker.eventsLife)⟩ := by
  have hpush : store.pushFront now Marker.events [b] = (.ok (b :: items).length, store.place
      Marker.events (Store.listShape.kept (b :: items) (store.deadline? now Marker.events))) :=
    Store.onContainer_seen hitems rfl (.inl rfl)
  generalize hpushed : store.place Marker.events
    (Store.listShape.kept (b :: items) (store.deadline? now Marker.events)) = pushed at hpush
  have hseen : Store.listShape.seen? (pushed.live? now Marker.events) = some (b :: items) := by
    rw [← hpushed, Store.live?_place_kept, Store.faithful_listShape.seen?_kept]
  have hidle : (((), Store.slice [] 0 (lastPlace cap)) : Unit × List Bytes) = ((), []) :=
    congrArg ((), ·) (slice_none hcap)
  have htrim : pushed.trim now Marker.events 0 (lastPlace cap) = (.ok (), pushed.place
      Marker.events (Store.listShape.kept (Store.slice (b :: items) 0 (lastPlace cap))
        (pushed.deadline? now Marker.events))) :=
    Store.onContainer_seen hseen rfl (.inr hidle)
  rw [slice_lastPlace _ hcap] at htrim
  generalize htrimmed : pushed.place Marker.events (Store.listShape.kept
    ((b :: items).take (reach cap)) (pushed.deadline? now Marker.events)) = trimmed at htrim
  have hkept : trimmed.live? now Marker.events = some ⟨.list ((b :: items).take (reach cap)),
      pushed.deadline? now Marker.events⟩ := by
    rw [← htrimmed, Store.live?_place_kept, kept_take b items hcap]
  obtain ⟨hanswer, hlive⟩ := Store.live?_expire hkept (by decide : 0 < Marker.eventsLife)
  exact ⟨_, _, _, _, hpush, htrim, Prod.ext hanswer rfl, hlive⟩

/-- **An event is put into the log**: it stands before the others, of which the cap leaves the latest,
and the log begins its life anew. -/
theorem run_append (hs : s.world.Steady)
    (hb : InvalidationEvent.format.encode s.memory.config.codec e = .ok b)
    (hitems : Store.listShape.seen? (s.live? Marker.events) = some items) :
    ∃ store, (append c e).outcome.run s = (.ok (), s.withStore store) ∧
      store.live? s.world.now Marker.events =
        some ⟨.list ((b :: items).take (reach (max c.maxEvents 1))),
          some (s.world.now + Marker.eventsLife)⟩ := by
  have hcap : 0 < max c.maxEvents 1 := by omega
  obtain ⟨n, pushed, trimmed, after, hpush, htrim, hexpire, hlive⟩ :=
    run_commands b s.world.store s.world.now hcap hitems
  have hitem : (Client.encodeItem InvalidationEvent.format e).outcome.run s = (.ok b, s) := by
    rw [Client.encodeItem, Action.run_always_bind, Program.run_memory, Action.run_ofExcept, hb]
  have hencode : ([e].mapM (Client.encodeItem InvalidationEvent.format)).outcome.run s =
      (.ok [b], s) := by
    rw [List.mapM_cons, Action.run_bind_ok hitem, List.mapM_nil]
    rfl
  have hpushRun : (Client.pushFront InvalidationEvent.format Marker.events [e]).outcome.run s =
      (.ok n, s.withStore pushed) := by
    rw [Client.pushFront, Action.run_bind_ok hencode, Action.run_command_eq hs hpush]
  have htrimRun : (Client.trim Marker.events 0 (lastPlace (max c.maxEvents 1))).outcome.run
      (s.withStore pushed) = (.ok (), s.withStore trimmed) :=
    Action.run_command_eq (s := s.withStore pushed) hs htrim
  have hexpireRun : (Client.expire Marker.events Marker.eventsLife).outcome.run
      (s.withStore trimmed) = (.ok true, s.withStore after) :=
    Action.run_command_eq (s := s.withStore trimmed) hs hexpire
  refine ⟨after, ?_, hlive⟩
  rw [append, Action.run_bind_ok hpushRun, Action.run_bind_ok htrimRun,
    Action.run_bind_ok hexpireRun]
  rfl

/-- Where events are recorded, an invalidation that has taken no time is put into the log. -/
theorem run_record_now {target kind : String} {removed : Nat} (hs : s.Serving)
    (hrecord : s.memory.config.invalidation.recordEvents = true)
    (he : e = ⟨target, kind, Text.Timestamp.ofMillis s.world.now, removed, 0⟩) (hfits : e.Fits)
    (hitems : Store.listShape.seen? (s.live? Marker.events) = some items) :
    ∃ b store, InvalidationEvent.format.decode s.memory.config.codec b = .ok e ∧
      (record target kind removed s.world.now).run s = ((), s.withStore store) ∧
      store.live? s.world.now Marker.events =
        some ⟨.list ((b :: items).take (reach (max s.memory.config.invalidation.maxEvents 1))),
          some (s.world.now + Marker.eventsLife)⟩ := by
  obtain ⟨b, hencode, hdecode⟩ := InvalidationEvent.rereads hfits s.memory.config.codec
  obtain ⟨store, hrun, hlive⟩ :=
    run_append (c := s.memory.config.invalidation) hs.steady hencode hitems
  refine ⟨b, store, hdecode, ?_, hlive⟩
  rw [record, Program.run_bind, Program.run_memory, if_pos hrecord, Program.run_bind,
    Program.run_now, Nat.sub_self, Nat.zero_min, Action.run_ignore, ← he, hrun]

/-- **The latest events are read** off the front of the log, and nothing that can be seen changes. -/
theorem run_recentEvents {past : List InvalidationEvent} (hs : s.Serving)
    (hitems : Store.listShape.seen? (s.live? Marker.events) = some items)
    (hpast : List.Forall₂ (fun e b =>
      InvalidationEvent.format.decode s.memory.config.codec b = .ok e) past items) (limit : Nat) :
    ∃ t, (recentEvents limit).outcome.run s = (.ok (past.take (reach limit)), t) ∧
      s.Alike t ∧ t.memory = s.memory := by
  unfold recentEvents
  by_cases hlimit : limit = 0
  · subst hlimit
    exact ⟨s, rfl, .refl s, rfl⟩
  have hpos : 0 < limit := Nat.pos_of_ne_zero hlimit
  obtain ⟨t, hasked, halike, hmemory⟩ :=
    Action.run_asking hs (c := .range Marker.events 0 (lastPlace limit)) rfl
  have hreply : ((Store.Call.range Marker.events 0 (lastPlace limit)).run s.world.now
      s.world.store).1 = .ok (items.take (reach limit)) := by
    rw [← slice_lastPlace items hpos]
    exact congrArg Prod.fst (Store.onContainer_seen
      (f := fun items => (Store.slice items 0 (lastPlace limit), items)) hitems rfl
      (.inr (congrArg (·, []) (slice_none hpos))))
  rw [hreply] at hasked
  refine ⟨t, ?_, halike, hmemory⟩
  rw [if_neg hlimit, Client.range, Action.run_bind_ok hasked]
  exact Client.run_decodeItems (hmemory ▸ List.forall₂_take _ hpast)

end Invalidation
end CacheLayer
