/-
Engines at work. One caller runs programs in the engine that is in use; the
workers of lanes and the schedules of reloads, here called jobs, run behind it.

A job gets its turn only when the caller has to wait. A turn is called at first
when its job begins, and then whenever nothing keeps it waiting any more. Turns
go on in the order in which they were called; of those called at once the one
goes first that has waited longest. Only when no turn is left to go on does the
clock move, to the earliest alarm. Engines that are out of use keep those jobs
that they have.

Arithmetic is checked. An overflow ends the run of the caller that comes to it,
and it ends the job that comes to it, unnoticed by the others.
-/
import CacheLayer.Program.Gather
import CacheLayer.Program.Run
import CacheLayer.Service

namespace CacheLayer

/-- Something that goes on behind the caller. -/
inductive Job where
  /-- The worker of a lane. -/
  | worker (lane : Nat)
  /-- Scheduled reloads. -/
  | schedule
  deriving DecidableEq, Repr

namespace Job

variable {V : Type}

/-- One turn of the job. -/
def turn : Job → Program V Unit
  | worker lane => WriteBehind.workerTurn lane
  | schedule => Reload.scheduleTurn

/-- What is left of the job when a turn of it has overflowed at some point. No turn of a worker
does. -/
def wreck (rest : Program V Unit) : Job → Program V Unit
  | worker _ => rest
  | schedule => Reload.scheduleWreck

/-- The job has not come to its end. -/
def goesOn (m : Memory V) : Job → Bool
  | worker lane => lane < m.lanes.length && !(m.lane lane).ended
  | schedule => m.timetable.isSome

/-- The jobs of an engine, in the order in which they begin if they begin together. -/
def all (m : Memory V) : List Job :=
  ((List.range m.lanes.length).map worker ++ [schedule]).filter (goesOn m)

end Job

/-- A turn of a job, as far as it has not come. -/
structure Turn (V : Type) where
  job : Job
  rest : Program V Unit
  /-- The moment at which it began to wait. -/
  since : Nat
  /-- The moment at which it was called, if it was. -/
  called : Option Nat

namespace Turn

variable {V : Type}

/-- Calls the turn if nothing keeps it waiting. -/
def call (t : Turn V) (moment now : Nat) (m : Memory V) : Turn V :=
  if t.called.isNone && t.rest.canGoOn now m then { t with called := some moment } else t

/-- The first turn comes before the second: it was called earlier, or has waited longer. -/
def precedes (t u : Turn V) : Bool :=
  match t.called, u.called with
  | some a, some b => a < b || (a == b && t.since < u.since)
  | a, _ => a.isSome

end Turn

/-- An engine: its memory and the turns of its jobs. -/
structure Engine (V : Type) where
  memory : Memory V
  turns : List (Turn V)

namespace Engine

variable {V : Type}

/-- The jobs that have begun and are without a turn so far. -/
def newJobs (e : Engine V) : List Job :=
  (Job.all e.memory).filter fun j => e.turns.all fun t => t.job != j

/-- Gives the new jobs their turns and calls them, at one moment after the other. -/
def enroll (e : Engine V) (moment : Nat) : Engine V :=
  let turns := e.newJobs.zipIdx.map fun (j, i) => ⟨j, j.turn, moment + i, some (moment + i)⟩
  { e with turns := e.turns ++ turns }

/-- Calls the turns that nothing keeps waiting. -/
def call (e : Engine V) (moment now : Nat) : Engine V :=
  { e with turns := e.turns.map fun t => t.call moment now e.memory }

/-- The earliest alarm of a turn. -/
def alarm? (e : Engine V) : Option Nat :=
  (e.turns.map fun t => t.rest.alarm?).foldr Program.earlier none

/-- Goes on with a turn of a job, and with further turns of it, until one has to wait or the job
ends. -/
def work (job : Job) : Nat → Program V Unit → Scene V → Option (Program V Unit) × Scene V
  | 0, p, s => (some p, s)
  | steps + 1, p, s =>
    let (p, s) := p.advance s
    match p.ending? with
    | none => (some p, s)
    | some (.ok ()) => if job.goesOn s.memory then work job steps job.turn s else (none, s)
    | some (.error _) => (some (job.wreck p), s)

/-- Goes on with a turn of the engine. What is left of it waits from this moment on. -/
def goOn (e : Engine V) (steps moment : Nat) (t : Turn V) (w : World V) : World V × Engine V :=
  let others := e.turns.filter fun u => u.job != t.job
  let (rest?, s) := work t.job steps t.rest ⟨w, e.memory⟩
  let turns := others ++ (rest?.map fun rest => ⟨t.job, rest, moment, none⟩).toList
  (s.world, ⟨s.memory, turns⟩)

end Engine

/-- The world and the engines, the one in use first. -/
structure Machine (V : Type) where
  world : World V
  engines : List (Engine V)
  /-- Moments count what happens, also while the clock stands. -/
  moment : Nat := 0

namespace Machine

variable {V α : Type}

/-- The number of steps after which a run is given up. -/
def patience : Nat := Nat.pow 10 9

/-- Gives new jobs their first turns, those of older engines before those of younger ones. -/
def enroll (m : Machine V) : Machine V :=
  m.engines.foldr (fun e m =>
    let e' := e.enroll m.moment
    { m with engines := e' :: m.engines, moment := m.moment + e.newJobs.length })
    { m with engines := [] }

/-- Calls the turns that nothing keeps waiting. -/
def call (m : Machine V) : Machine V :=
  let m := m.enroll
  { m with
    engines := m.engines.map fun e => e.call m.moment m.world.now
    moment := m.moment + 1 }

/-- The turn that goes on next, and the place of its engine. -/
def next? (m : Machine V) : Option (Nat × Turn V) :=
  let turns := m.engines.zipIdx.flatMap fun (e, i) =>
    (e.turns.filter (·.called.isSome)).map fun t => (i, t)
  turns.foldl (fun best? x =>
    match best? with
    | some best => if x.2.precedes best.2 then some x else some best
    | none => some x) none

/-- Lets the turns go on that were called, and those that are called meanwhile. -/
def settleFor : Nat → Machine V → Machine V
  | 0, m => m
  | steps + 1, m =>
    match m.next? with
    | none => m
    | some (i, t) =>
      match m.engines[i]? with
      | none => m
      | some e =>
        let (w, e) := e.goOn patience m.moment t m.world
        settleFor steps (call ⟨w, m.engines.set i e, m.moment + 1⟩)

/-- Lets the jobs go on until all have to wait. -/
def settle (m : Machine V) : Machine V := settleFor patience m.call

/-- The earliest alarm of a job. -/
def alarm? (m : Machine V) : Option Nat :=
  (m.engines.map Engine.alarm?).foldr Program.earlier none

/-- Goes on with a program of the caller in the engine in use. -/
def advance (m : Machine V) (p : Program V α) : Program V α × Machine V :=
  match m.engines with
  | [] => (p, m)
  | e :: es =>
    let (p, s) := p.advance ⟨m.world, e.memory⟩
    (p, call { m with world := s.world, engines := { e with memory := s.memory } :: es })

/-- The caller's program can go on. -/
def canGoOn (m : Machine V) (p : Program V α) : Bool :=
  m.engines.head?.any fun e => p.canGoOn m.world.now e.memory

def moveTo (m : Machine V) (t : Nat) : Machine V :=
  call { m with world := { m.world with now := max m.world.now t } }

/-- Runs a program of the caller to its end or to an overflow. -/
def runFor : Nat → Program V α → Machine V → Option (Except Overflow α × Machine V)
  | 0, _, _ => none
  | steps + 1, p, m =>
    let (p, m) := m.advance p
    match p.ending? with
    | some r => some (r, m)
    | none =>
      let m := m.settle
      if m.canGoOn p then runFor steps p m
      else
        match Program.earlier p.alarm? m.alarm? with
        | some t => runFor steps p (m.moveTo t)
        | none => none

/-- Runs a program of the caller; there is no result if it waits for something that never
happens. -/
def run (m : Machine V) (p : Program V α) : Option (Except Overflow α × Machine V) :=
  runFor patience p m

/-- Lets time pass, and then the jobs go on that are due. -/
def sleep (m : Machine V) (ms : Nat) : Machine V :=
  match m.run (Program.pause ms) with
  | some (_, m) => m.settle
  | none => m.moveTo (m.world.now + ms)

/-! ## Engines -/

def bare (w : World V) : Machine V := ⟨w, [], 0⟩

def start (w : World V) (memory : Memory V) : Machine V := ⟨w, [⟨memory, []⟩], 0⟩

/-- The memory of an engine that is not closed but goes out of use: the workers of its lanes leave,
and what still waits is lost. -/
def abandoned (m : Memory V) : Memory V := { m with lanes := m.lanes.map Lane.halt }

/-- Builds an engine and puts it in use. If that fails, nothing but the world has changed. -/
def build (m : Machine V) (b : Blueprint V) :
    Option (Except Overflow (Except Error Unit) × Machine V) := do
  let fresh : Engine V := ⟨Memory.blank b.format b.config, []⟩
  let (r, m) ← ({ m with engines := fresh :: m.engines }).run (Service.build b).outcome
  match r, m.engines with
  | .ok (.ok ()), e :: used :: old =>
    return (r, { m with engines := e :: { used with memory := abandoned used.memory } :: old })
  | .ok (.ok ()), _ => return (r, m)
  | _, _ :: old => return (r, { m with engines := old })
  | _, [] => return (r, m)

end Machine
end CacheLayer
