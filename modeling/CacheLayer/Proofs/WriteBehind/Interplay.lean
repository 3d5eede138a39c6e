/-
The caller and the worker of one lane, who take turns in any order: a move of
`go` lets one of them take a single step of its program, so that the other can
come in between any two steps. The programs are those of the engine; all that is
added is the history of what happens.
-/
import CacheLayer.Program.Run
import CacheLayer.Proofs.Program.Outcome
import CacheLayer.Proofs.World
import CacheLayer.Proofs.WriteBehind.History

namespace CacheLayer

variable {V α : Type}

/-- The strategy in force uses the lane. -/
def Memory.usesLane (m : Memory V) (i : Nat) : Bool :=
  m.strategy.policy == .writeBehind && m.strategy.lane == i

namespace WriteBehind

/-- A scene, and what has happened in it. -/
structure Record (V : Type) where
  scene : Scene V
  history : History V

/-- What a change of the lane by a side means: the caller has issued a change, or the worker has
taken one. -/
def changed (side : Side) (h : History V) (before after : Lane V) : Option (Event V) :=
  match side with
  | .caller => if before.issued < after.issued then h.wish?.map (.issued after.issued) else none
  | .worker =>
    if after.queue.length < before.queue.length then
      before.queue.head?.map fun x => .taken x.1 x.2
    else none

/-- What a step of a side makes happen, given the lane before and after it. -/
def observe (side : Side) (h : History V) (before after : Lane V) :
    (q : Ask V) → Answer q → Option (Event V)
  | .update _, _ => changed side h before after
  | .request .main (.store key v), r =>
    some (.sent ⟨((h.hand? side).map (·.1)).getD 0, ⟨key, some v⟩, r⟩)
  | .request .main (.remove key), r =>
    some (.sent ⟨((h.hand? side).map (·.1)).getD 0, ⟨key, none⟩, r⟩)
  | .request .main (.loadOne key), _ => some (.loaded key)
  | _, _ => none

namespace Record

/-- Answers a request of a side. -/
def perform (i : Nat) (side : Side) (q : Ask V) (r : Record V) : Answer q × Record V :=
  let (a, s) := q.perform r.scene
  let event? := observe side r.history (r.scene.memory.lane i) (s.memory.lane i) q a
  (a, ⟨s, event?.toList ++ r.history⟩)

/-- One step of a program, with what it makes happen. -/
def step (i : Nat) (side : Side) (p : Program V α) (r : Record V) : Program V α × Record V :=
  let (rest, s) := p.step r.scene
  let event? := (p.asks? r.scene).bind fun q =>
    observe side r.history (r.scene.memory.lane i) (s.memory.lane i) q (q.perform r.scene).1
  (rest, ⟨s, event?.toList ++ r.history⟩)

theorem step_waiting {i : Nat} {side : Side} {r : Record V} {q : Ask V}
    (h : q.hasToWait r.scene = true) (next : Answer q → Program V α) :
    r.step i side (.ask q next) = (.ask q next, r) := by
  rw [step, Program.step_waiting h, Program.asks?_waiting h]
  rfl

theorem step_ready {i : Nat} {side : Side} {r : Record V} {q : Ask V}
    (h : q.hasToWait r.scene = false) (next : Answer q → Program V α) :
    r.step i side (.ask q next) = (next (r.perform i side q).1, (r.perform i side q).2) := by
  rw [step, Program.step_ready h, Program.asks?_ready h]
  rfl

end Record

/-- A caller and the worker of a lane. -/
structure Interplay (V : Type) where
  lane : Nat
  record : Record V
  /-- The request that the caller is at, with the rest of its program. -/
  request : Option (Request V × Program V (Strategy.Reply V))
  /-- The rest of the worker's turn. -/
  turn : Program V Unit

/-- What can happen next. -/
inductive Move (V : Type) where
  /-- The caller makes a request, if it is at none. -/
  | ask (r : Request V)
  /-- The caller or the worker takes a step. -/
  | go (side : Side)
  /-- Time passes. -/
  | later (ms : Nat)
  /-- Something else happens that leaves the rows of the source as they are, and the lanes and the
  strategy of the engine. -/
  | outside (w : World V) (m : Memory V)

namespace Interplay

/-- A strategy with a new lane is put in force; the worker begins its first turn. -/
def start (life : Option Nat) (capacity : Nat) (w : World V) (m : Memory V) : Interplay V where
  lane := m.lanes.length
  record := ⟨⟨w, Strategy.install .writeBehind life capacity m⟩, []⟩
  request := none
  turn := workerTurn m.lanes.length

/-- One step of the caller. When its program has ended, the reply arrives. -/
def goCaller (p : Interplay V) : Interplay V :=
  match p.request with
  | none => p
  | some (r, .done reply) =>
    { p with request := none, record := { p.record with history := .replied r reply :: p.record.history } }
  | some (r, program) =>
    let (program, record) := p.record.step p.lane .caller program
    { p with request := some (r, program), record := record }

/-- One step of the worker. When its turn has ended, the next one begins unless the worker has
left. -/
def goWorker (p : Interplay V) : Interplay V :=
  match p.turn with
  | .done () =>
    if (p.record.scene.memory.lane p.lane).ended then p else { p with turn := workerTurn p.lane }
  | turn =>
    let (turn, record) := p.record.step p.lane .worker turn
    { p with turn := turn, record := record }

/-- The interplay in another scene. -/
def inScene (p : Interplay V) (s : Scene V) : Interplay V :=
  { p with record := { p.record with scene := s } }

/-- One move. A move that cannot be made changes nothing. -/
def move (p : Interplay V) : Move V → Interplay V
  | .ask r =>
    if p.request.isNone && p.record.scene.memory.usesLane p.lane then
      { p with
        request := some (r, r.program)
        record := { p.record with history := .asked r :: p.record.history } }
    else p
  | .go .caller => p.goCaller
  | .go .worker => p.goWorker
  | .later ms => p.inScene { p.record.scene with world := p.record.scene.world.later ms }
  | .outside w m =>
    let s := p.record.scene
    p.inScene ⟨w.onSource .main fun source => { source with rows := s.world.rows },
      { m with lanes := s.memory.lanes, strategy := s.memory.strategy }⟩

/-- One move after the other. -/
def play (p : Interplay V) (moves : List (Move V)) : Interplay V := moves.foldl move p

end Interplay
end WriteBehind
end CacheLayer
