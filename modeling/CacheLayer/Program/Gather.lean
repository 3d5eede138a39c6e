/-
Several programs at once, within one program. At most `width` of them have
begun and not ended; the others are queued. A program runs until it has to
wait, then the next one has its turn; when all have to wait, the whole waits for
whichever can go on first. Results come in the order in which the programs end.
-/
import CacheLayer.Program.Basic

namespace CacheLayer.Program

variable {V α : Type}

/-- Runs a program until it ends or has to wait, and gives the result or the rest. -/
def untilWait : Program V α → Program V (α ⊕ Program V α)
  | .done a => .done (.inl a)
  | .ask (.wait w) next => do
    if w.isOver (← now) (← memory) then untilWait (next ())
    else return .inr (.ask (.wait w) next)
  | .ask q next => .ask q fun a => untilWait (next a)

/-- The wait at the beginning of the program is over. -/
def canGoOn (p : Program V α) (now : Nat) (m : Memory V) : Bool :=
  match p with
  | .ask (.wait w) _ => w.isOver now m
  | .ask (.overflow _) _ => false
  | _ => true

/-- The time at which the wait at the beginning of the program ends in any case. -/
def alarm? : Program V α → Option Nat
  | .ask (.wait w) _ => w.alarm
  | _ => none

/-- The earlier of two times. -/
def earlier : Option Nat → Option Nat → Option Nat
  | some a, some b => some (min a b)
  | some a, none => some a
  | none, b => b

/-- The wait for any of some programs. -/
def waitForAny (ps : List (Program V α)) (now : Nat) : Wait V where
  alarm := (ps.map alarm?).foldr earlier none
  ready m := ps.any fun p => p.canGoOn now m

/-- Runs programs one after the other. -/
def inTurn : List (Program V α) → Program V (List α)
  | [] => return []
  | p :: ps => do
    let a ← p
    let rest ← inTurn ps
    return a :: rest

/-- The loop of `gather`: programs whose turn it is, programs that wait, programs that have not
begun. The steps bound the turns; after them the programs run one after the other. -/
def gatherFrom (width : Nat) :
    Nat → List (Program V α) → List (Program V α) → List (Program V α) → Program V (List α)
  | 0, running, waiting, queued => inTurn (running ++ waiting ++ queued)
  | steps + 1, p :: running, waiting, queued => do
    match ← p.untilWait with
    | .inr p => gatherFrom width steps running (waiting ++ [p]) queued
    | .inl a =>
      let free := width - (running.length + waiting.length)
      let rest ← gatherFrom width steps (running ++ queued.take free) waiting (queued.drop free)
      return a :: rest
  | steps + 1, [], waiting, queued => do
    if waiting.isEmpty then inTurn queued
    else
      lift (.wait (waitForAny waiting (← now)))
      let t ← now
      let m ← memory
      let (woken, waiting) := waiting.partition fun p => p.canGoOn t m
      gatherFrom width steps woken waiting queued

/-- Runs programs, `width` of them at a time, and gives their results in the order in which they
end. None of them may wait more than `waits` times. -/
def gather (width waits : Nat) (ps : List (Program V α)) : Program V (List α) :=
  let width := max width 1
  gatherFrom width ((waits + 1) * 2 * ps.length + 1) (ps.take width) [] (ps.drop width)

end CacheLayer.Program
