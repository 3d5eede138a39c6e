/-
How the requests of a program are answered. `perform` answers one of them;
`step` makes one if the program does not have to wait, and `advance` goes on
until the program ends, has to wait or comes to an overflow.

`run` is what a program does when nothing else happens meanwhile: a wait just
moves the clock, and what has overflowed goes on with what the word holds.
`runChecked` is the same where arithmetic is checked, and an overflow is the end
of it.
-/
import CacheLayer.Program.Basic

namespace CacheLayer

variable {V α β : Type}

/-- The world, and the memory of the engine that a program belongs to. -/
structure Scene (V : Type) where
  world : World V
  memory : Memory V

namespace Ask

/-- Answers a request; a wait is answered at once. -/
def perform (s : Scene V) : (q : Ask V) → Answer q × Scene V
  | .now => (s.world.now, s)
  | .update f => (s.memory, { s with memory := f s.memory })
  | .command c =>
    let (r, w) := s.world.command c
    (r, { s with world := w })
  | .extent => (s.world.store.entries.size, s)
  | .health =>
    let (r, w) := s.world.checkHealth
    (r, { s with world := w })
  | .latency id m => ((s.world.sites id).latency m, s)
  | .request id c =>
    let (r, w) := s.world.request id c
    (r, { s with world := w })
  | .judge id v => ((s.world.sites id).source.judge v, s)
  | .draw count =>
    (s.world.drawn, { s with world := { s.world with drawn := s.world.drawn + count } })
  | .note n => ((), { s with world := { s.world with notes := n :: s.world.notes } })
  | .wait _ => ((), s)
  | .overflow _ => ((), s)

/-- The request has to wait in this scene. An overflow is waited for without end. -/
def hasToWait (s : Scene V) : Ask V → Bool
  | .wait w => !w.isOver s.world.now s.memory
  | .overflow _ => true
  | _ => false

/-- The overflow after which a program asks to go on. -/
def overflow? : Ask V → Option Overflow
  | .overflow o => some o
  | _ => none

/-- The scene at the end of a wait during which nothing else happens. -/
def sleep (s : Scene V) : Ask V → Scene V
  | .wait w =>
    if w.isOver s.world.now s.memory then s
    else { s with world := { s.world with now := max s.world.now (w.alarm.getD 0) } }
  | _ => s

end Ask

namespace Program

/-- One step of a program, if it does not have to wait. -/
def step : Program V α → Scene V → Program V α × Scene V
  | .done a, s => (.done a, s)
  | .ask q next, s =>
    if q.hasToWait s then (.ask q next, s) else (next (q.perform s).1, (q.perform s).2)

/-- The request that the next step of a program makes, if it makes one. -/
def asks? : Program V α → Scene V → Option (Ask V)
  | .done _, _ => none
  | .ask q _, s => if q.hasToWait s then none else some q

section

variable {q : Ask V} {s : Scene V}

theorem step_waiting (h : q.hasToWait s = true) (next : Answer q → Program V α) :
    (ask q next).step s = (ask q next, s) := if_pos h

theorem step_ready (h : q.hasToWait s = false) (next : Answer q → Program V α) :
    (ask q next).step s = (next (q.perform s).1, (q.perform s).2) :=
  if_neg (by rw [h]; exact Bool.false_ne_true)

theorem asks?_waiting (h : q.hasToWait s = true) (next : Answer q → Program V α) :
    (ask q next).asks? s = none := if_pos h

theorem asks?_ready (h : q.hasToWait s = false) (next : Answer q → Program V α) :
    (ask q next).asks? s = some q := if_neg (by rw [h]; exact Bool.false_ne_true)

end

/-- Goes on until the program ends, has to wait or comes to an overflow. -/
def advance : Program V α → Scene V → Program V α × Scene V
  | .done a, s => (.done a, s)
  | .ask q next, s =>
    if q.hasToWait s then (.ask q next, s)
    else
      let (a, s) := q.perform s
      advance (next a) s

/-- What the program does while nothing else happens. -/
def run : Program V α → Scene V → α × Scene V
  | .done a, s => (a, s)
  | .ask q next, s =>
    let (a, s) := q.perform (q.sleep s)
    run (next a) s

theorem run_ask (q : Ask V) (next : Answer q → Program V α) (s : Scene V) :
    (ask q next).run s = (next (q.perform (q.sleep s)).1).run (q.perform (q.sleep s)).2 := rfl

theorem run_bind (p : Program V α) (f : α → Program V β) (s : Scene V) :
    (p >>= f).run s = (f (p.run s).1).run (p.run s).2 := by
  induction p generalizing s with
  | done a => rfl
  | ask q next ih => rw [bind_ask, run_ask, run_ask, ih]

/-- What the program does while nothing else happens, up to its first overflow. -/
def runChecked : Program V α → Scene V → Except Overflow α × Scene V
  | .done a, s => (.ok a, s)
  | .ask q next, s =>
    match q.overflow? with
    | some o => (.error o, s)
    | none =>
      let (a, s) := q.perform (q.sleep s)
      runChecked (next a) s

/-- How a program has ended, with a result or in an overflow. -/
def ending? : Program V α → Option (Except Overflow α)
  | .done a => some (.ok a)
  | .ask q _ => q.overflow?.map .error

end Program
end CacheLayer
