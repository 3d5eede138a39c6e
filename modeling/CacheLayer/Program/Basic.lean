/-
Programs: what the engine does, as a tree of requests to its surroundings, each
with a continuation for every answer. A program does nothing by itself; a
handler answers its requests (`Program.Run`), and only where a program waits can
another one step in.

An `Action` is a program that may end with an error. An overflow is no error and
nothing catches it: a program asks to go on after it, and where arithmetic is
checked it gets no answer.
-/
import CacheLayer.World

namespace CacheLayer

/-- An operation on words whose result is no word. -/
inductive Overflow where
  | add
  | negate
  deriving DecidableEq, Repr

/-- The overflow in words. -/
def Overflow.message : Overflow → String
  | .add => "attempt to add with overflow"
  | .negate => "attempt to negate with overflow"

/-- What a program waits for. -/
structure Wait (V : Type) where
  /-- The time at which the wait ends in any case. -/
  alarm : Option Nat
  /-- The memory in which it ends before that. -/
  ready : Memory V → Bool

def Wait.isOver {V : Type} (w : Wait V) (now : Nat) (m : Memory V) : Bool :=
  w.ready m || w.alarm.any (· ≤ now)

/-- A request of a program. -/
inductive Ask (V : Type) where
  | now
  /-- Changes the memory of the engine; the answer is the memory before. -/
  | update (f : Memory V → Memory V)
  | command (c : Store.Call)
  /-- How many entries the store holds at most. -/
  | extent
  | health
  /-- How long a source takes for a request of a kind. -/
  | latency (id : SourceId) (m : Source.Method)
  | request (id : SourceId) (c : Source.Call V)
  /-- Asks a source whether a value may be cached. -/
  | judge (id : SourceId) (v : V)
  /-- Draws so many numbers that are used once; the answer is the first. -/
  | draw (count : Nat)
  | note (n : Note V)
  | wait (w : Wait V)
  /-- Goes on after an overflow, with what a word is left with. -/
  | overflow (o : Overflow)

/-- The answers to a request. -/
abbrev Answer {V : Type} : Ask V → Type
  | .now => Nat
  | .update _ => Memory V
  | .command c => Except Error c.Reply
  | .extent => Nat
  | .health => Except Error Bool
  | .latency _ _ => Nat
  | .request _ c => Except Error c.Reply
  | .judge _ _ => Except Error Unit
  | .draw _ => Nat
  | .note _ => Unit
  | .wait _ => Unit
  | .overflow _ => Unit

/-- A program with results in `α`. -/
inductive Program (V α : Type) where
  | done (a : α)
  | ask (q : Ask V) (next : Answer q → Program V α)

namespace Program

variable {V α β : Type}

/-- Goes on with what a program results in. -/
def bind : Program V α → (α → Program V β) → Program V β
  | done a, f => f a
  | ask q next, f => ask q fun a => (next a).bind f

instance : Monad (Program V) where
  pure := done
  bind := bind

theorem bind_ask (q : Ask V) (next : Answer q → Program V α) (f : α → Program V β) :
    ask q next >>= f = ask q fun a => next a >>= f := rfl

theorem bind_pure_done (p : Program V α) : p.bind done = p := by
  induction p with
  | done a => rfl
  | ask q next ih => simp only [bind]; congr; funext a; exact ih a

theorem bind_bind {γ : Type} (p : Program V α) (f : α → Program V β) (g : β → Program V γ) :
    (p.bind f).bind g = p.bind fun a => (f a).bind g := by
  induction p with
  | done a => rfl
  | ask q next ih => simp only [bind]; congr; funext a; exact ih a

instance : LawfulMonad (Program V) := LawfulMonad.mk' _
  (fun p => bind_pure_done p) (fun _ _ => rfl) (fun p f g => bind_bind p f g)

/-- The answer to one request. -/
def lift (q : Ask V) : Program V (Answer q) := ask q done

def now : Program V Nat := lift .now

/-- Changes the memory; the result is the memory before. -/
def update (f : Memory V → Memory V) : Program V (Memory V) := lift (.update f)

def change (f : Memory V → Memory V) : Program V Unit := do
  let _ ← update f
  return ()

def memory : Program V (Memory V) := update id

def note (n : Note V) : Program V Unit := lift (.note n)

/-- The result of an operation on words, of which `kept` is what a word can hold. -/
def word [DecidableEq α] (o : Overflow) (result kept : α) : Program V α :=
  if result = kept then pure result
  else do
    lift (.overflow o)
    return kept

/-- Waits until the memory is as wanted. -/
def waitUntil (ready : Memory V → Bool) : Program V Unit := lift (.wait ⟨none, ready⟩)

/-- Lets so much time pass. -/
def pause (ms : Nat) : Program V Unit := do
  if ms = 0 then return ()
  let t ← now
  lift (.wait ⟨some (t + ms), fun _ => false⟩)

end Program

/-- A program that may end with an error. -/
abbrev Action (V : Type) := ExceptT Error (Program V)

namespace Action

variable {V α : Type}

/-- A result that is known already. -/
def ofExcept (r : Except Error α) : Action V α := ExceptT.mk (pure r)

/-- The action as a program that results in its outcome. -/
def outcome (a : Action V α) : Program V (Except Error α) := a.run

/-- The program as an action that has no errors of its own. -/
def always (p : Program V α) : Action V α := ExceptT.lift p

/-- A command of the store. -/
def command (c : Store.Call) : Action V c.Reply := ExceptT.mk (Program.lift (.command c))

/-- Asks whether the store is healthy. -/
def checkHealth : Action V Bool := ExceptT.mk (Program.lift .health)

/-- A request to a source, which takes its time. -/
def request (id : SourceId) (c : Source.Call V) : Action V c.Reply := ExceptT.mk do
  Program.pause (← Program.lift (.latency id c.method))
  Program.lift (.request id c)

/-- Asks a source whether a value may be cached. -/
def judge (id : SourceId) (v : V) : Action V Unit := ExceptT.mk (Program.lift (.judge id v))

/-- Does without the result of an action that fails. -/
def ignore (a : Action V α) : Program V Unit := do
  let _ ← a.outcome
  return ()

end Action
end CacheLayer
