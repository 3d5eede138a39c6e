/-
Which requests the calls of a strategy can make. A kind of request that has those with which a call is
counted and noted (`Reports`), or all that a read can make (`Reads`), has all that these parts of a
call do. A change of a key goes through the cache and, under write-behind, by a lane to the source; what
that can take (`Changes`) is also all that the workers of lanes do.
-/
import CacheLayer.Proofs.Client.Coding
import CacheLayer.Proofs.Strategy.Call

namespace CacheLayer

open Program

variable {V α : Type} {Q : Ask V → Prop}

/-! ## The end of a call -/

/-- All requests with which a call is counted and noted are of the kind. -/
structure Reports (Q : Ask V → Prop) : Prop where
  now : Q .now
  count : ∀ f, Q (.update fun m => m.onStats f)
  note : ∀ n, Q (.note n)

theorem Strategy.each_elapsedSince (hnow : Q .now) (start : Nat) :
    (elapsedSince start : Program V Nat).Each Q :=
  each_bind (each_lift hnow) fun _ => each_pure _

namespace Reports

variable (h : Reports Q)

include h

theorem each_record (count : StrategyStats → StrategyStats) (n : Note V) :
    (Strategy.record count n).Each Q :=
  each_bind (each_bind (each_lift (h.count count)) fun _ => each_pure _) fun _ => each_lift (h.note n)

theorem each_fail (key : String) (e : Error) : (Strategy.fail key e : Action V α).outcome.Each Q :=
  each_then (each_always (h.each_record _ _)) fun _ => each_pure _

theorem each_finish (start : Nat) (count : Nat → StrategyStats → StrategyStats) (n : Note V)
    {a : Action V α} (ha : a.outcome.Each Q) :
    (do
      let elapsed ← Action.always (Strategy.elapsedSince start)
      Action.always (Strategy.record (count elapsed) n)
      a : Action V α).outcome.Each Q :=
  each_then (each_always (Strategy.each_elapsedSince h.now start)) fun _ =>
    each_then (each_always (h.each_record _ _)) fun _ => ha

end Reports

/-! ## Reads -/

/-- All requests that a read can make are of the kind. -/
structure Reads (Q : Ask V → Prop) : Prop extends Reports Q where
  pause : ∀ t, Q (.wait ⟨some t, fun _ => false⟩)
  memory : Q (.update id)
  draw : ∀ count, Q (.draw count)
  get : ∀ key, Q (.command (.get key))
  set : ∀ key b life, Q (.command (.set key b life))
  latency : ∀ m, Q (.latency .main m)
  load : ∀ key, Q (.request .main (.loadOne key))

theorem each_requestMain (hnow : Q .now) (hpause : ∀ t, Q (.wait ⟨some t, fun _ => false⟩))
    (hlatency : ∀ m, Q (.latency .main m)) {c : Source.Call V} (hc : Q (.request .main c)) :
    (Action.request .main c).outcome.Each Q :=
  each_bind (each_lift (hlatency c.method)) fun ms =>
    each_bind (each_pause hnow hpause ms) fun _ => each_lift hc

/-- What does not depend on statistics is not changed. -/
theorem reads_keeps {β : Type} {g : Memory V → β} (h : ∀ m f, g (m.onStats f) = g m) :
    Reads (Ask.Keeps g) where
  now := trivial
  count f m := h m f
  note _ := trivial
  pause _ := trivial
  memory _ := rfl
  draw _ := trivial
  get _ := trivial
  set _ _ _ := trivial
  latency _ := trivial
  load _ := trivial

namespace Reads

variable (h : Reads Q)

include h

theorem each_load (key : String) (start : Nat) :
    (Strategy.load key start : Action V V).outcome.Each Q := by
  unfold Strategy.load
  refine each_then (each_always (each_requestMain h.now h.pause h.latency (h.load key)))
    fun answer => ?_
  cases answer with
  | error e => exact h.each_fail key e
  | ok found =>
    cases found with
    | none => exact h.each_finish start _ _ (each_pure _)
    | some v =>
      refine each_then (each_always (each_lift h.memory)) fun m => ?_
      refine each_then (each_always (each_ignore (Client.each_set h.memory h.draw (h.set key) _ _ _)))
        fun _ => ?_
      exact h.each_finish start _ _ (each_pure _)

theorem each_read (key : String) : (Strategy.read key : Action V V).outcome.Each Q := by
  unfold Strategy.read
  refine each_then (each_always (each_lift h.now)) fun start => ?_
  refine each_then (each_always (each_lift h.memory)) fun m => ?_
  refine each_then (each_always (Client.each_get h.memory (h.get key) m.format)) fun result => ?_
  cases result with
  | ok v => exact h.each_finish start _ _ (each_pure _)
  | error e =>
    dsimp only
    split
    · exact h.each_load key start
    · exact h.each_fail key e

end Reads

/-! ## Changes -/

/-- All requests that a change of a key can make are of the kind. -/
structure Changes (Q : Ask V → Prop) : Prop where
  now : Q .now
  wait : ∀ w, Q (.wait w)
  memory : Q (.update id)
  lane : ∀ i f, Q (.update fun m => m.onLane i f)
  draw : ∀ count, Q (.draw count)
  set : ∀ key b life, Q (.command (.set key b life))
  delete : ∀ key, Q (.command (.delete key))
  latency : ∀ m, Q (.latency .main m)
  store : ∀ key v, Q (.request .main (.store key v))
  remove : ∀ key, Q (.request .main (.remove key))

/-- What does not depend on lanes is not changed. -/
theorem changes_keeps {β : Type} {g : Memory V → β} (h : ∀ m i f, g (m.onLane i f) = g m) :
    Changes (Ask.Keeps g) where
  now := trivial
  wait _ := trivial
  memory _ := rfl
  lane i f m := h m i f
  draw _ := trivial
  set _ _ _ := trivial
  delete _ := trivial
  latency _ := trivial
  store _ _ := trivial
  remove _ := trivial

namespace Changes

variable (h : Changes Q)

include h

theorem each_memory : (Program.memory : Program V (Memory V)).Each Q := each_lift h.memory

theorem each_pause (ms : Nat) : (pause ms : Program V Unit).Each Q :=
  Program.each_pause h.now (fun _ => h.wait _) ms

theorem each_request {c : Source.Call V} (hc : Q (.request .main c)) :
    (Action.request .main c).outcome.Each Q :=
  each_requestMain h.now (fun _ => h.wait _) h.latency hc

/-! ### Lanes -/

theorem each_onLane (lane : Nat) (f : Lane V → Lane V) :
    (Program.change fun m => m.onLane lane f).Each Q :=
  each_bind (each_lift (h.lane lane f)) fun _ => each_pure _

theorem each_send (c : Change V) : (WriteBehind.send c).outcome.Each Q := by
  obtain ⟨key, value⟩ := c
  cases value with
  | some v => exact h.each_request (h.store key v)
  | none => exact h.each_request (h.remove key)

theorem each_apply (lane number : Nat) (c : Change V) :
    (WriteBehind.apply lane number c).outcome.Each Q := by
  have hsend : (WriteBehind.sendLatest lane number c).outcome.Each Q := by
    refine each_then (each_always h.each_memory) fun m => ?_
    split
    · exact each_then (h.each_send c) fun _ => each_pure _
    · exact each_pure _
  refine each_bind (h.each_onLane lane _) fun _ => ?_
  refine each_bind (each_lift (h.wait _)) fun _ => each_bind hsend fun _ => ?_
  exact each_bind (h.each_onLane lane _) fun _ => each_bind (h.each_onLane lane _) fun _ =>
    each_pure _

theorem each_enqueue (lane : Nat) (c : Change V) :
    (WriteBehind.enqueue lane c).outcome.Each Q := by
  refine each_then (each_always (each_lift (h.lane lane _))) fun before => ?_
  refine each_then (each_always h.each_memory) fun m => ?_
  split
  · exact each_always (h.each_onLane lane _)
  · exact each_then (h.each_apply lane _ c) fun _ => each_pure _

theorem each_workerTurn (lane : Nat) : (WriteBehind.workerTurn lane : Program V Unit).Each Q := by
  refine each_bind (each_lift (h.wait _)) fun _ => each_bind h.each_memory fun m => ?_
  dsimp only
  split
  · exact each_bind (h.each_onLane lane _) fun _ =>
      each_bind (each_ignore (h.each_apply lane _ _)) fun _ => h.each_onLane lane _
  · exact h.each_onLane lane _

/-! ### Writes and deletes -/

theorem each_set (f : Format α) (key : String) (a : α) (life : Option Nat) :
    (Client.set f key a life : Action V Unit).outcome.Each Q :=
  Client.each_set h.memory h.draw (h.set key) f a life

theorem each_cacheWrite (key : String) (v : V) (life : Option Nat) :
    (Strategy.cacheWrite key v life).outcome.Each Q :=
  each_then (each_always h.each_memory) fun _ => h.each_set _ key v _

theorem each_cacheDelete (key : String) :
    (Strategy.cacheDelete key : Action V Unit).outcome.Each Q :=
  each_then (each_lift (h.delete key)) fun _ => each_pure _

theorem each_storeOrForget (key : String) (v : V) :
    (Strategy.storeOrForget key v).outcome.Each Q := by
  refine each_then (each_always (h.each_request (h.store key v))) fun r => ?_
  cases r with
  | ok => exact each_pure _
  | error e =>
    exact each_then (each_always (each_ignore (h.each_cacheDelete key))) fun _ => each_pure _

theorem each_writeSteps (s : Strategy) (key : String) (v : V) (life : Option Nat) :
    (Strategy.writeSteps s key v life).outcome.Each Q := by
  unfold Strategy.writeSteps
  cases s.policy with
  | readThrough =>
    exact each_then (h.each_cacheWrite key v life) fun _ => h.each_request (h.store key v)
  | writeThrough =>
    exact each_then (h.each_cacheWrite key v life) fun _ => h.each_storeOrForget key v
  | writeBehind =>
    exact each_then (h.each_cacheWrite key v life) fun _ => h.each_enqueue s.lane _
  | cacheAside =>
    exact each_then (h.each_request (h.store key v)) fun _ => h.each_cacheWrite key v life

theorem each_deleteSteps (s : Strategy) (key : String) :
    (Strategy.deleteSteps s key : Action V Unit).outcome.Each Q := by
  unfold Strategy.deleteSteps
  cases s.policy with
  | writeBehind => exact each_then (h.each_cacheDelete key) fun _ => h.each_enqueue s.lane _
  | cacheAside =>
    exact each_then (h.each_request (h.remove key)) fun _ => h.each_cacheDelete key
  | _ => exact each_then (h.each_cacheDelete key) fun _ => h.each_request (h.remove key)

theorem each_write (hreports : Reports Q) (key : String) (v : V) (life : Option Nat) :
    (Strategy.write key v life).outcome.Each Q := by
  refine each_then (each_always (each_lift h.now)) fun start => ?_
  refine each_then (each_always h.each_memory) fun m => ?_
  refine each_then (each_always (h.each_writeSteps m.strategy key v life)) fun r => ?_
  cases r with
  | ok =>
    exact each_then (each_always (Strategy.each_elapsedSince h.now start)) fun _ =>
      each_always (hreports.each_record _ _)
  | error e => exact hreports.each_fail key e

theorem each_delete (hreports : Reports Q) (key : String) :
    (Strategy.delete key : Action V Unit).outcome.Each Q := by
  refine each_then (each_always h.each_memory) fun m => ?_
  refine each_then (each_always (h.each_deleteSteps m.strategy key)) fun r => ?_
  cases r with
  | ok => exact each_always (hreports.each_record _ _)
  | error e => exact hreports.each_fail key e

end Changes
end CacheLayer
