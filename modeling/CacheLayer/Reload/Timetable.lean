/-
The timetable of scheduled reloads: one every period, the first a full period
after the start. A reload that comes late by more than five milliseconds makes
the times that were missed fall out: the next is the first multiple of the
period, counted from the start, that still lies ahead.
-/

namespace CacheLayer

/-- When the next scheduled reload is due. -/
structure Timetable where
  period : Nat
  due : Nat
  /-- No further reload is to start. -/
  stopping : Bool
  deriving DecidableEq, Repr

namespace Timetable

/-- How late a reload may come without a missed time. -/
def tolerance : Nat := 5

/-- The timetable that starts now. -/
def start (period now : Nat) : Timetable := ⟨period, now + period, false⟩

/-- The due time after the one that is met now. -/
def dueAfter (t : Timetable) (now : Nat) : Nat :=
  if now > t.due + tolerance then now + t.period - (now - t.due) % t.period
  else t.due + t.period

/-- A reload starts now. -/
def next (t : Timetable) (now : Nat) : Timetable := { t with due := t.dueAfter now }

end Timetable
end CacheLayer
