/-
Scheduled reloads: all that the source has, again and again, by a timetable.
-/
import CacheLayer.Reload.Reloader

namespace CacheLayer.Reload

variable {V : Type}

/-- Starts scheduled reloads, unless they are running. -/
def startSchedule : Action V Unit := do
  let m ← Action.always Program.memory
  if m.reload.interval = 0 then throw (.config "reload_interval must be non-zero")
  if m.timetable.isNone then
    let now ← Action.always Program.now
    Action.always (Program.change fun m' =>
      { m' with timetable := some (Timetable.start m.reload.interval now) })

/-- Stops scheduled reloads. One that has begun comes to its end first. -/
def stopSchedule : Program V Unit := do
  Program.change fun m => { m with timetable := m.timetable.map ({ · with stopping := true }) }
  Program.waitUntil fun m => m.timetable.isNone

/-- What is left of the schedule when a turn of it has overflowed: it counts as running until it is
stopped. -/
def scheduleWreck : Program V Unit := do
  Program.waitUntil fun m => m.timetable.all (·.stopping)
  Program.change fun m => { m with timetable := none }

/-- One turn of the schedule: it waits until a reload is due or none is wanted any more, and then
reloads or ends. A failed reload does not end it. -/
def scheduleTurn : Program V Unit := do
  let m ← Program.memory
  match m.timetable with
  | none => return ()
  | some t =>
    let isStopping (m : Memory V) : Bool := m.timetable.any (·.stopping)
    Program.lift (.wait ⟨some t.due, isStopping⟩)
    if isStopping (← Program.memory) then Program.change fun m => { m with timetable := none }
    else
      let now ← Program.now
      Program.change fun m => { m with timetable := m.timetable.map (·.next now) }
      reloadAll.ignore

end CacheLayer.Reload
