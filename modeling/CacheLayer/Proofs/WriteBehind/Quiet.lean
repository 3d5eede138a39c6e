/-
The programs that a caller runs beside what it does on a lane. Idle requests look
at the clock and at the memory, count and take notes. Quiet requests may also be
commands of the store and loads from the source, but none of them touches a lane,
the policy or the rows. Neither wait for anything but time.
-/
import CacheLayer.Proofs.Program.Along
import CacheLayer.Proofs.Strategy.Requests
import CacheLayer.Proofs.Strategy.Smooth
import CacheLayer.Proofs.WriteBehind.Interplay

namespace CacheLayer

variable {V α β : Type} {i : Nat}

open Program

/-! ## Idle programs -/

/-- The request touches nothing but notes, statistics and the numbers drawn, and waits for nothing
but time. -/
def Ask.IsIdle : Ask V → Prop
  | .update f => ∀ m, ∃ stats, f m = m.withStats stats
  | .command _ | .health | .request _ _ | .overflow _ => False
  | .wait w => w.alarm.isSome = true
  | _ => True

namespace Idle

theorem memory : (memory : Program V (Memory V)).Each Ask.IsIdle :=
  each_lift fun m => ⟨m.strategy.stats, rfl⟩

theorem now : (now : Program V Nat).Each Ask.IsIdle := each_lift trivial

theorem pause (ms : Nat) : (pause ms : Program V Unit).Each Ask.IsIdle :=
  each_pause (Q := Ask.IsIdle) trivial (fun _ => rfl) ms

/-- A call is counted and noted idly. -/
theorem reports : Reports (Ask.IsIdle (V := V)) where
  now := trivial
  count _ _ := ⟨_, rfl⟩
  note _ := trivial

theorem record (count : StrategyStats → StrategyStats) (n : Note V) :
    (Strategy.record count n).Each Ask.IsIdle := reports.each_record count n

theorem elapsedSince (start : Nat) : (Strategy.elapsedSince start : Program V Nat).Each Ask.IsIdle :=
  Strategy.each_elapsedSince reports.now start

theorem fail (key : String) (e : Error) : (Strategy.fail key e : Action V α).outcome.Each Ask.IsIdle :=
  reports.each_fail key e

theorem finish (start : Nat) (count : Nat → StrategyStats → StrategyStats) (n : Note V)
    {a : Action V α} (ha : a.outcome.Each Ask.IsIdle) :
    (do
      let elapsed ← Action.always (Strategy.elapsedSince start)
      Action.always (Strategy.record (count elapsed) n)
      a : Action V α).outcome.Each Ask.IsIdle := reports.each_finish start count n ha

theorem encode (f : Format α) (key : String) (a : α) :
    (Client.encode f key a : Action V Bytes).outcome.Each Ask.IsIdle :=
  Client.each_encode (fun m => ⟨m.strategy.stats, rfl⟩) (fun _ => trivial) f key a

end Idle

/-! ## Quiet programs -/

/-- The request does not touch a lane, the policy or the rows, and waits for nothing but time. -/
def Ask.IsQuiet (i : Nat) : Ask V → Prop
  | .update f => ∀ m, (f m).lane i = m.lane i ∧ (f m).lanes.length = m.lanes.length ∧
      (f m).usesLane i = m.usesLane i
  | .request .main (.loadOne _) => True
  | .request _ _ | .overflow _ => False
  | .wait w => w.alarm.isSome = true
  | _ => True

theorem Ask.IsIdle.isQuiet {q : Ask V} (h : q.IsIdle) : q.IsQuiet i := by
  cases q with
  | update f =>
    intro m
    obtain ⟨stats, hf⟩ := h m
    rw [hf]
    exact ⟨rfl, rfl, rfl⟩
  | wait w => exact h
  | request id c => cases h
  | overflow o => cases h
  | _ => trivial

/-- All requests of the program are quiet. -/
abbrev Program.IsQuiet (i : Nat) (p : Program V α) : Prop := p.Each (Ask.IsQuiet i)

namespace Quiet

theorem ofIdle {p : Program V α} (hp : p.Each Ask.IsIdle) : p.IsQuiet i :=
  each_mono (fun _ => Ask.IsIdle.isQuiet) hp

theorem command (c : Store.Call) : (Action.command c : Action V c.Reply).outcome.IsQuiet i :=
  each_lift trivial

/-- A read is quiet. -/
theorem reads : Reads (Ask.IsQuiet (V := V) i) where
  now := trivial
  count _ _ := ⟨rfl, rfl, rfl⟩
  note _ := trivial
  pause _ := rfl
  memory _ := ⟨rfl, rfl, rfl⟩
  draw _ := trivial
  get _ := trivial
  set _ _ _ := trivial
  latency _ := trivial
  load _ := trivial

theorem set (f : Format α) (key : String) (a : α) (life : Option Nat) :
    (Client.set f key a life : Action V Unit).outcome.IsQuiet i :=
  each_then (ofIdle (Idle.encode f key a)) fun _ => command _

theorem delete (key : String) : (Client.delete key : Action V Bool).outcome.IsQuiet i := command _

/-! ## Parts of a strategy -/

theorem cacheWrite (key : String) (v : V) (life : Option Nat) :
    (Strategy.cacheWrite key v life).outcome.IsQuiet i :=
  each_then (ofIdle (each_always Idle.memory)) fun _ => set _ _ _ _

theorem cacheDelete (key : String) :
    (Strategy.cacheDelete key : Action V Unit).outcome.IsQuiet i :=
  each_then (delete key) fun _ => each_pure _

theorem read (key : String) : (Strategy.read key : Action V V).outcome.IsQuiet i :=
  reads.each_read key

end Quiet
end CacheLayer
