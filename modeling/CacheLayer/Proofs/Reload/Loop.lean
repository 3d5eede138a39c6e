/-
A caller and the interval loops of scheduled reloads, who take turns in any order: a move lets one of
them take a single step of its program, so that others can come in between any two steps. A loop is
started when a start of the schedule sets up a new timetable, or when an engine is built with
scheduled reloads. The programs are those of the engine; all that is added is the history of what
happens.

A turn of a loop falls into the wait for the next tick and the reload (`scheduleTurn_eq`), so that the
history can tell when a reload begins and ends. A loop whose reload overflows is left a wreck: it
reloads no more, and waits until the schedule is to be stopped.
-/
import CacheLayer.Machine
import CacheLayer.Proofs.Program.Outcome

namespace CacheLayer

open CacheLayer.Reload

variable {V α : Type}

namespace Schedule

/-! ## The turn of a loop -/

/-- The schedule is to be stopped. -/
def isStopping (m : Memory V) : Bool := m.timetable.any (·.stopping)

/-- No reload is wanted any more. -/
def quit : Program V Bool := do
  Program.change fun m => { m with timetable := none }
  return false

/-- Looks for the next due time. -/
def strike : Program V Bool := do
  let now ← Program.now
  Program.change fun m => { m with timetable := m.timetable.map (·.next now) }
  return true

/-- What comes after the wait. -/
def wake : Program V Bool := do
  if isStopping (← Program.memory) then quit else strike

/-- Waits until a reload is due or none is wanted any more; the result tells which of them. -/
def tick : Program V Bool := do
  match (← Program.memory).timetable with
  | none => return false
  | some t =>
    Program.lift (.wait ⟨some t.due, isStopping⟩)
    wake

/-- A turn of the schedule is a tick, and a reload if one is due. -/
theorem scheduleTurn_eq : (scheduleTurn : Program V Unit) =
    tick >>= fun due => if due then reloadAll.ignore else pure () := by
  unfold scheduleTurn tick
  rw [bind_assoc]
  refine bind_congr fun m => ?_
  cases m.timetable with
  | none => rfl
  | some t =>
    change (Program.lift _ >>= fun _ => _) = Program.lift _ >>= fun _ => _
    refine bind_congr fun _ => ?_
    change (Program.memory >>= fun m => _) = (Program.memory >>= fun m => _) >>= _
    rw [bind_assoc]
    refine bind_congr fun m => ?_
    change (if isStopping m then _ else _) = (if isStopping m then quit else strike) >>= _
    split <;> rfl

/-! ## What happens -/

/-- What a caller wants of the reloads of an engine. -/
inductive Request where
  | start
  | stop
  | configure (c : ReloadConfig)
  | reload (key : String)
  | reloadBatch (keys : List String)
  | reloadAll
  | sleep (ms : Nat)
  deriving DecidableEq

/-- What a request results in. -/
inductive Reply where
  | done
  | failed (e : Error)
  | report (r : ReloadResult)
  deriving DecidableEq

namespace Reply

def ofUnit : Except Error Unit → Reply
  | .ok () => done
  | .error e => failed e

def ofReport : Except Error ReloadResult → Reply
  | .ok r => report r
  | .error e => failed e

end Reply

/-- What the request does. -/
def Request.program : Request → Program V Reply
  | start => return .ofUnit (← startSchedule.outcome)
  | stop => do
    stopSchedule
    return .done
  | configure c => do
    Program.change fun m => { m with reload := c }
    return .done
  | reload key => return .ofUnit (← (Reload.reload key).outcome)
  | reloadBatch keys => return .ofReport (← (Reload.reloadBatch keys).outcome)
  | reloadAll => return .ofReport (← Reload.reloadAll.outcome)
  | sleep ms => do
    Program.pause ms
    return .done

/-- Something that happens. Loops have numbers. -/
inductive Event where
  /-- The engine has been built at some time. -/
  | built (time : Nat)
  | asked (time : Nat) (r : Request)
  | replied (r : Request) (reply : Reply)
  /-- A loop has been started that counts its periods from some time on. -/
  | started (loop since period : Nat)
  /-- A loop begins a reload at some time. -/
  | begun (loop time : Nat)
  /-- The reload of a loop has ended. -/
  | ended (loop : Nat) (r : Except Error ReloadResult)
  /-- The reload of a loop has come to an overflow. -/
  | crashed (loop : Nat) (o : Overflow)
  /-- A loop has come to its end. -/
  | left (loop : Nat)

/-- Events, the latest first. -/
abbrev History := List Event

namespace History

/-- The request that the caller is at. -/
def current? : History → Option Request
  | [] => none
  | .asked _ r :: _ => some r
  | .replied .. :: _ => none
  | _ :: h => current? h

/-- When the caller has made its last request, or else when the engine was built. -/
def called : History → Nat
  | [] => 0
  | .built time :: _ | .asked time _ :: _ => time
  | _ :: h => called h

/-- The loops that are alive. -/
def alive : History → List Nat
  | [] => []
  | .started n .. :: h => n :: alive h
  | .left n :: h => (alive h).erase n
  | _ :: h => alive h

/-- The loops that are reloading. -/
def reloading : History → List Nat
  | [] => []
  | .begun n _ :: h => n :: reloading h
  | .ended n _ :: h | .crashed n _ :: h => (reloading h).erase n
  | _ :: h => reloading h

/-- A stop has returned, and no start has been called since. -/
def halted : History → Bool
  | [] => false
  | .asked _ .start :: _ => false
  | .replied .stop _ :: _ => true
  | _ :: h => halted h

/-- A loop has been started since the caller's last request. -/
def launched : History → Bool
  | [] => false
  | .asked .. :: _ => false
  | .started .. :: _ => true
  | _ :: h => launched h

/-- How many loops have been started. -/
def starts : History → Nat
  | [] => 0
  | .started .. :: h => starts h + 1
  | _ :: h => starts h

end History

/-! ## The interplay -/

/-- Where a loop is in its turn. -/
inductive Stage (V : Type) where
  | waiting (rest : Program V Bool)
  | reloading (rest : Program V (Except Error ReloadResult))
  | wrecked (rest : Program V Unit)

structure Loop (V : Type) where
  number : Nat
  stage : Stage V

/-- A caller and the loops. -/
structure Interplay (V : Type) where
  scene : Scene V
  history : History
  /-- The request that the caller is at, with the rest of its program. -/
  request : Option (Request × Program V Reply)
  loops : List (Loop V)

/-- What can happen next. -/
inductive Move (V : Type) where
  /-- The caller makes a request, if it is at none. -/
  | ask (r : Request)
  /-- The caller takes a step. -/
  | goCaller
  /-- A loop takes a step. -/
  | goLoop (n : Nat)
  /-- Time passes. -/
  | later (ms : Nat)
  /-- Something else happens that does not touch the timetable, and time does not go back. -/
  | outside (w : World V) (m : Memory V)

/-- The timetable that has been set up between two moments. -/
def setUp? (before after : Option Timetable) : Option Timetable :=
  if before = after then none else after.filter fun t => !t.stopping

namespace Interplay

variable (p : Interplay V)

/-- Starts a loop if a timetable has been set up. -/
def launch (before : Option Timetable) : Interplay V :=
  match setUp? before p.scene.memory.timetable with
  | none => p
  | some t =>
    { p with
      history := .started p.history.starts (t.due - t.period) t.period :: p.history
      loops := p.loops ++ [⟨p.history.starts, .waiting tick⟩] }

/-- An engine has just been built. -/
def build (b : Blueprint V) (w : World V) : Interplay V :=
  launch ⟨⟨w, Service.assemble b w.now⟩, [.built w.now], none, []⟩ none

/-- The interplay with one event more. -/
def noting (e : Event) : Interplay V := { p with history := e :: p.history }

/-- A loop has come to another stage of its turn. -/
def put (n : Nat) (stage : Stage V) : Interplay V :=
  { p with loops := p.loops.map fun l => if l.number = n then ⟨n, stage⟩ else l }

/-- The turn of a loop has ended: the next one begins, unless the schedule is over. -/
def endTurn (n : Nat) : Interplay V :=
  if Job.schedule.goesOn p.scene.memory then p.put n (.waiting tick)
  else { p.noting (.left n) with loops := p.loops.filter (·.number ≠ n) }

/-- One step of the caller. When its program has ended, the reply arrives. -/
def goCaller : Interplay V :=
  match p.request with
  | none => p
  | some (r, .done reply) => { p.noting (.replied r reply) with request := none }
  | some (r, program) =>
    launch { p with
      request := some (r, (program.step p.scene).1)
      scene := (program.step p.scene).2 } p.scene.memory.timetable

/-- A loop that waits has taken a step. -/
def ticked (n : Nat) : Program V Bool → Interplay V
  | .done true => (p.put n (.reloading Reload.reloadAll.outcome)).noting (.begun n p.scene.world.now)
  | .done false => p.endTurn n
  | rest => p.put n (.waiting rest)

/-- A loop that reloads has taken a step. -/
def reloaded (n : Nat) (rest : Program V (Except Error ReloadResult)) : Interplay V :=
  match rest.ending? with
  | some (.ok r) => (p.noting (.ended n r)).endTurn n
  | some (.error o) => (p.put n (.wrecked scheduleWreck)).noting (.crashed n o)
  | none => p.put n (.reloading rest)

/-- What is left of a loop has taken a step. -/
def cleared (n : Nat) : Program V Unit → Interplay V
  | .done () => p.endTurn n
  | rest => p.put n (.wrecked rest)

/-- One step of a loop. -/
def goLoop (n : Nat) : Interplay V :=
  match p.loops.find? (·.number = n) with
  | none => p
  | some ⟨_, .waiting rest⟩ =>
    ({ p with scene := (rest.step p.scene).2 }).ticked n (rest.step p.scene).1
  | some ⟨_, .reloading rest⟩ =>
    ({ p with scene := (rest.step p.scene).2 }).reloaded n (rest.step p.scene).1
  | some ⟨_, .wrecked rest⟩ =>
    ({ p with scene := (rest.step p.scene).2 }).cleared n (rest.step p.scene).1

/-- One move. A move that cannot be made changes nothing. -/
def move : Move V → Interplay V
  | .ask r =>
    if p.request.isNone then
      { p.noting (.asked p.scene.world.now r) with request := some (r, r.program) }
    else p
  | .goCaller => p.goCaller
  | .goLoop n => p.goLoop n
  | .later ms => { p with scene := { p.scene with world := p.scene.world.later ms } }
  | .outside w m =>
    { p with scene := ⟨{ w with now := max p.scene.world.now w.now },
      { m with timetable := p.scene.memory.timetable }⟩ }

/-- One move after the other. -/
def play (moves : List (Move V)) : Interplay V := moves.foldl move p

end Interplay
end Schedule
end CacheLayer
