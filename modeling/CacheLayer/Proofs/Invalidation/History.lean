/-
The log as a window on the history. Let every invalidation be recorded, and let nobody else write
the log. Then the history since the log was last removed is known from what has been done
(`Chronicle`): an invalidation that succeeds adds one event, also if it has removed nothing; a flush,
an invalidation that aims at the log and the end of the log's life take away all that was there. The
log has the latest events of the history, as many as the cap leaves (`Logs`), and that is what is read.

Main statement: `log_exact`.
-/
import CacheLayer.Proofs.Invalidation.Log
import CacheLayer.Proofs.Invalidation.Sweep

namespace CacheLayer

variable {V : Type} {s t : Scene V} {past : List InvalidationEvent} {last : Nat}

namespace Invalidation

/-! ## The history -/

namespace Sweep

/-- The event of an invalidation that begins in the scene and removes so many keys. -/
def event (s : Scene V) (k : Sweep) (removed : Nat) : InvalidationEvent :=
  ⟨k.target, k.kind, Text.Timestamp.ofMillis s.world.now, removed, 0⟩

/-- What the event has to tell is of the sizes that the fields of its record have. -/
structure Fits (s : Scene V) (k : Sweep) (removed : Nat) : Prop where
  target : Width.w64.holdsNat (Text.utf8 k.target).length = true
  year : Text.Timestamp.isYear (Text.Timestamp.yearOf s.world.now) = true
  removed : Width.w64.holdsNat removed = true

theorem Fits.event {k : Sweep} {removed : Nat} (h : k.Fits s removed) :
    (k.event s removed).Fits := by
  refine ⟨h.target, ?_, ?_, Text.Timestamp.isInstant_ofMillis h.year, h.removed, rfl⟩
  · cases k with
    | everything => rfl
    | removal R => cases R <;> rfl
  · have hbytes := Text.length_utf8_le (Text.Timestamp.ofMillis s.world.now)
    have hlength := Text.Timestamp.length_ofMillis h.year
    have hshort : (Text.utf8 (Text.Timestamp.ofMillis s.world.now)).length ≤ 108 := by omega
    exact decide_eq_true (Nat.lt_of_le_of_lt hshort (by decide))

end Sweep

/-- What has come about where every invalidation is recorded and nobody else writes the log: the
events of the invalidations that have taken place since the log was last removed, the latest first,
and the time of the latest. -/
inductive Chronicle : Scene V → List InvalidationEvent → Nat → Prop where
  | start {s : Scene V} (hs : s.Serving)
    (hrecord : s.memory.config.invalidation.recordEvents = true)
    (hnone : s.live? Marker.events = none) : Chronicle s [] 0
  /-- An invalidation succeeds. If it aims at the log, nothing of what was there is left. -/
  | sweep {s t : Scene V} {past : List InvalidationEvent} {last removed : Nat} {k : Sweep}
    (before : Chronicle s past last) (hfits : k.Fits s removed)
    (hrun : k.perform.outcome.run s = (.ok removed, t)) :
    Chronicle t (k.event s removed :: if k.clears s then [] else past) s.world.now
  /-- The store is emptied. -/
  | flush {s t : Scene V} {past : List InvalidationEvent} {last : Nat} {r : Except Error Unit}
    (before : Chronicle s past last) (hrun : Client.flush.outcome.run s = (r, t)) :
    Chronicle t [] last
  /-- Something else goes on that does not touch the log. The log dies when its life is over. -/
  | other {s t : Scene V} {past : List InvalidationEvent} {last : Nat} {α : Type}
    {p : Program V α} {log : List (Exchange V)} {r : α} (before : Chronicle s past last)
    (hcourse : p.Course s log r t) (hspares : ∀ e ∈ log, e.ask.Spares Marker.events)
    (hconfig : t.memory.config = s.memory.config) :
    Chronicle t (if t.world.now < last + Marker.eventsLife then past else []) last

/-- The log has the latest events, as many as the cap leaves. -/
structure Logs (s : Scene V) (past : List InvalidationEvent) (last : Nat) : Prop where
  serving : s.Serving
  records : s.memory.config.invalidation.recordEvents = true
  holds : ∃ items, List.Forall₂
      (fun e b => InvalidationEvent.format.decode s.memory.config.codec b = .ok e)
      (past.take (reach (max s.memory.config.invalidation.maxEvents 1))) items ∧
    s.live? Marker.events = Store.listShape.kept items (some (last + Marker.eventsLife))

/-- What is put before both lists belongs together too. -/
theorem forall₂_take_cons {α β : Type} {R : α → β → Prop} {a : α} {b : β} {as : List α}
    {bs : List β} {n : Nat} (hab : R a b) (h : List.Forall₂ R (as.take n) bs) :
    List.Forall₂ R ((a :: as).take n) ((b :: bs).take n) := by
  cases n with
  | zero => exact .nil
  | succ n =>
    have hrest := List.forall₂_take n h
    rw [List.take_take, Nat.min_eq_left (Nat.le_succ n)] at hrest
    exact .cons hab hrest

namespace Logs

/-- Where there is no log, there is nothing to be remembered. -/
theorem of_none (hs : s.Serving) (hrecord : s.memory.config.invalidation.recordEvents = true)
    (hnone : s.live? Marker.events = none) (last : Nat) : Logs s [] last :=
  ⟨hs, hrecord, [], by rw [List.take_nil]; exact .nil, hnone⟩

/-- An invalidation puts its event before those that it leaves. -/
theorem sweep {k : Sweep} {removed : Nat} (h : Logs s past last) (hfits : k.Fits s removed)
    (hrun : k.perform.outcome.run s = (.ok removed, t)) :
    Logs t (k.event s removed :: if k.clears s then [] else past) s.world.now := by
  obtain ⟨u, hremove, rfl⟩ := Sweep.of_perform hrun
  have hstrips := remove_strips h.serving hremove
  obtain ⟨items, hitems, hlive⟩ := h.holds
  generalize hpast : (if k.clears s then [] else past) = left
  -- what the request leaves of the log, and what it leaves of the history
  obtain ⟨rest, hrest, hleft⟩ : ∃ rest,
      List.Forall₂ (fun e b => InvalidationEvent.format.decode u.memory.config.codec b = .ok e)
        (left.take (reach (max u.memory.config.invalidation.maxEvents 1))) rest ∧
      Store.listShape.seen? (u.live? Marker.events) = some rest := by
    rw [hstrips.config, hstrips.log, ← hpast]
    cases k.clears s with
    | true => exact ⟨[], by simp, rfl⟩
    | false =>
      refine ⟨items, hitems, ?_⟩
      rw [if_neg Bool.false_ne_true, hlive, Store.faithful_listShape.seen?_kept]
  have hrecords : u.memory.config.invalidation.recordEvents = true := by
    rw [hstrips.config, h.records]
  have he : k.event s removed =
      ⟨k.target, k.kind, Text.Timestamp.ofMillis u.world.now, removed, 0⟩ := by
    rw [hstrips.now]
    rfl
  obtain ⟨b, store, hdecode, hrecord, hlog⟩ :=
    run_record_now hstrips.serving hrecords he hfits.event hleft
  have hcap : 0 < max u.memory.config.invalidation.maxEvents 1 := by omega
  rw [← hstrips.now, hrecord]
  exact ⟨Program.serving_of_run hstrips.serving hrecord, hrecords, _,
    forall₂_take_cons hdecode hrest, hlog.trans (kept_take b rest hcap _).symm⟩

theorem flush {r : Except Error Unit} (h : Logs s past last)
    (hrun : Client.flush.outcome.run s = (r, t)) : Logs t [] last := by
  have ht := Program.serving_of_run h.serving hrun
  have hflush := Action.run_command h.serving.steady (V := V) .flush
  obtain ⟨-, rfl⟩ := Prod.mk.inj (hrun.symm.trans hflush)
  exact of_none ht h.records rfl last

/-- What spares the log leaves it until its life is over. -/
theorem other {α : Type} {p : Program V α} {log : List (Exchange V)} {r : α} (h : Logs s past last)
    (hcourse : p.Course s log r t) (hspares : ∀ e ∈ log, e.ask.Spares Marker.events)
    (hconfig : t.memory.config = s.memory.config) :
    Logs t (if t.world.now < last + Marker.eventsLife then past else []) last := by
  obtain ⟨items, hitems, hlive⟩ := h.holds
  obtain ⟨ht, hlater⟩ := hcourse.spared h.serving hspares
  have hrecord : t.memory.config.invalidation.recordEvents = true := by rw [hconfig, h.records]
  rw [hlive, Store.Shape.filter_kept] at hlater
  split at hlater
  · next hyoung =>
    rw [if_pos hyoung]
    exact ⟨ht, hrecord, items, by rwa [hconfig], hlater⟩
  · next hold =>
    rw [if_neg hold]
    exact of_none ht hrecord hlater last

end Logs

/-- **The log is a window on the history.** -/
theorem logs_of_chronicle (h : Chronicle s past last) : Logs s past last := by
  induction h with
  | start hs hrecord hnone => exact .of_none hs hrecord hnone 0
  | sweep before hfits hrun ih => exact ih.sweep hfits hrun
  | flush before hrun ih => exact ih.flush hrun
  | other before hcourse hspares hconfig ih => exact ih.other hcourse hspares hconfig

/-- How far a log is read that the cap has cut. -/
theorem take_reach {limit cap : Nat} (h : min limit (min cap past.length) < Nat.pow 2 63) :
    (past.take (reach cap)).take (reach limit) = past.take (min limit (min cap past.length)) := by
  have hpow : Nat.pow 2 63 = 9223372036854775808 := rfl
  rw [List.take_take, List.take_eq_take_iff]
  unfold reach
  rw [hpow] at h ⊢
  omega

/-- **The log is the newest window of the history of invalidations.** Let `past` be the events of the
invalidations that have taken place since the log was last removed: by the end of its life, seven days
after the latest of them, by a flush, or by an invalidation that aims at it. Each of them has one event,
with its target, its kind and the number that it has answered with, which may be zero. Then the
events that are read are the newest of the history, the latest first: as many as are asked for, if the
cap of the settings, which is at least one, leaves so many and there have been so many. To read them
changes nothing. The events that are read have to be fewer than a list can have at all.

Whatever fails when an invalidation is recorded, its result is that without a record. -/
theorem log_exact :
    (∀ (s : Scene V) (past : List InvalidationEvent) (last : Nat), Chronicle s past last →
      ∀ limit, min limit (min (max s.memory.config.invalidation.maxEvents 1) past.length) <
          Nat.pow 2 63 →
        ∃ t, (recentEvents limit).outcome.run s = (.ok (past.take (min limit
            (min (max s.memory.config.invalidation.maxEvents 1) past.length))), t) ∧
          s.Alike t ∧ t.memory = s.memory) ∧
    ∀ (k : Sweep) (s : Scene V),
      (k.perform.outcome.run s).1 = (k.perform.outcome.run s.unrecorded).1 := by
  refine ⟨fun s past last h limit hlimit => ?_, Sweep.perform_unrecorded⟩
  obtain ⟨hs, -, items, hitems, hlive⟩ := logs_of_chronicle h
  have hseen : Store.listShape.seen? (s.live? Marker.events) = some items := by
    rw [hlive, Store.faithful_listShape.seen?_kept]
  obtain ⟨t, hrun, halike, hmemory⟩ := run_recentEvents hs hseen hitems limit
  rw [take_reach hlimit] at hrun
  exact ⟨t, hrun, halike, hmemory⟩

/-- An engine whose log keeps one event, and a key. -/
def brief : Scene UInt8 :=
  ((Action.command (.set "b" [1] none) : Action UInt8 Unit).outcome.run
    ⟨.start default, Memory.blank Client.byteFormat { invalidation := { maxEvents := 0 } }⟩).2

/-- A key is invalidated that is not there. -/
def vain : Sweep := .removal (.single "a")

/-- The key is invalidated by a pattern. -/
def precise : Sweep := .removal (.matching "[b]")

/-- The scene after both invalidations. -/
def shortened : Scene UInt8 := (precise.perform.outcome.run (vain.perform.outcome.run brief).2).2

/-- The scene a week later. -/
def outlived : Scene UInt8 := ((Program.pause Marker.eventsLife).run shortened).2

/-- Of two events the log keeps the latest, for a week. The key is invalidated all the same if that
cannot be recorded. -/
theorem log_exact_brief :
    (∃ past, Chronicle shortened past 0 ∧
      past.map (fun e => (e.target, e.kind, e.removed)) = [("[b]", "pattern", 1), ("a", "key", 0)] ∧
      ∃ t, (recentEvents 5).outcome.run shortened = (.ok (past.take 1), t)) ∧
    (Chronicle outlived [] 0 ∧ ∃ t, (recentEvents 5).outcome.run outlived = (.ok [], t)) ∧
    (precise.perform.outcome.run
      { brief with world := brief.world.script .pushFront [some (.backend "full")] }).1 = .ok 1 := by
  have hbrief : Chronicle brief [] 0 :=
    .start (Program.serving_run (World.serving_start default) _) rfl rfl
  have hvain : (vain.perform.outcome.run brief).1 = .ok 0 := by decide +kernel
  have hprecise : (precise.perform.outcome.run (vain.perform.outcome.run brief).2).1 = .ok 1 := by
    decide +kernel
  have hnow : (vain.perform.outcome.run brief).2.world.now = 0 := by decide +kernel
  have hlater : ¬ outlived.world.now < 0 + Marker.eventsLife := by decide +kernel
  have hclears : vain.clears brief = false ∧
      precise.clears (vain.perform.outcome.run brief).2 = false := by decide +kernel
  have hcap : shortened.memory.config.invalidation.maxEvents = 0 ∧
      outlived.memory.config = shortened.memory.config := by decide +kernel
  -- the history, before and after the week
  have hfirst := hbrief.sweep (k := vain) ⟨by decide, by decide, by decide⟩ (Prod.ext hvain rfl)
  have hsecond := hfirst.sweep (k := precise) ⟨by decide, by decide +kernel, by decide⟩
    (Prod.ext hprecise rfl)
  rw [hnow, hclears.1, hclears.2, if_neg Bool.false_ne_true, if_neg Bool.false_ne_true] at hsecond
  have hpause : (Program.pause Marker.eventsLife).Course shortened
      ((Program.pause Marker.eventsLife).trace shortened) () outlived := Program.course_run _ _
  have hthird := hsecond.other hpause (hpause.forall_ask
    (Program.each_pause (Q := Ask.Spares Marker.events) trivial (fun _ => trivial) _)) hcap.2
  rw [if_neg hlater] at hthird
  refine ⟨⟨_, hsecond, rfl, ?_⟩, ⟨hthird, ?_⟩, ?_⟩
  · obtain ⟨t, hrun, -⟩ := log_exact.1 shortened _ 0 hsecond 5 (by rw [hcap.1]; decide)
    rw [hcap.1] at hrun
    exact ⟨t, hrun⟩
  · obtain ⟨t, hrun, -⟩ := log_exact.1 outlived [] 0 hthird 5 (by rw [hcap.2, hcap.1]; decide)
    exact ⟨t, hrun.trans (by rw [List.take_nil])⟩
  · exact (log_exact.2 precise _).trans (by decide +kernel)

end Invalidation
end CacheLayer
