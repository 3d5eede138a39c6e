/-
The programs of a lane. The caller enqueues a change; the worker takes changes
one by one and applies them; a shutdown waits until the worker has left.
-/
import CacheLayer.Program.Basic

namespace CacheLayer.WriteBehind

variable {V : Type}

def send (c : Change V) : Action V Unit :=
  match c.value with
  | some v => Action.request .main (.store c.key v)
  | none => Action.request .main (.remove c.key)

/-- Makes a change unless a newer one of its key was issued. The result tells whether it was
made. -/
def sendLatest (lane number : Nat) (c : Change V) : Action V Bool := do
  let m ← Action.always Program.memory
  if (m.lane lane).isLatest c.key number then
    send c
    return true
  else return false

/-- Makes a change, unless it is superseded, when its turn has come. -/
def apply (lane number : Nat) (c : Change V) : Action V Bool := ExceptT.mk do
  Program.change fun m => m.onLane lane (·.enterLine number)
  Program.waitUntil fun m => (m.lane lane).isServing number
  let r ← (sendLatest lane number c).outcome
  Program.change fun m => m.onLane lane (·.leaveLine)
  Program.change fun m => m.onLane lane (·.finish c.key)
  return r

/-- Issues a change. It goes into the queue; if there is no room, it is made at once. -/
def enqueue (lane : Nat) (c : Change V) : Action V Unit := do
  let before ← Action.always (Program.update fun m => m.onLane lane (·.issue c.key))
  let number := (before.lane lane).issued + 1
  let m ← Action.always Program.memory
  if (m.lane lane).hasRoom then
    Action.always (Program.change fun m => m.onLane lane (·.push number c))
  else
    let _ ← apply lane number c

/-- One turn of the worker: it waits until there is something to do, and then leaves or takes the
oldest change. A failure of the source is not the caller's any more. -/
def workerTurn (lane : Nat) : Program V Unit := do
  Program.waitUntil fun m => (m.lane lane).calls
  let m ← Program.memory
  let l := m.lane lane
  match l.stopping, l.queue with
  | false, (number, c) :: _ =>
    Program.change fun m => m.onLane lane (·.pop)
    (apply lane number c).ignore
    Program.change fun m => m.onLane lane (·.release)
  | _, _ => Program.change fun m => m.onLane lane (·.leave)

/-- Closes a lane. With `flush` the worker makes the waiting changes first, otherwise they are
thrown away. The result is how many were flushed or thrown away; a lane that is closed has none. -/
def shutdown (lane : Nat) (flush : Bool) : Program V Nat := do
  let m ← Program.memory
  if !(m.lane lane).isOpen then return 0
  let pending := (m.lane lane).pending
  Program.change fun m => m.onLane lane fun l => if flush then l.close else l.halt
  Program.waitUntil fun m => (m.lane lane).ended
  if flush then return pending
  let m ← Program.update fun m => m.onLane lane (·.discard)
  return (m.lane lane).queue.length

end CacheLayer.WriteBehind
