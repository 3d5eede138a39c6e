/-
The schedule of reloads, whatever the caller does meanwhile and however long the loads of the source
take and end. Each event of a history is one that may come after those before it (`Allowed`): a loop is
started only while none is alive, and it leaves only while the caller is at a stop; its reloads begin
one at a time, the first one a full period after the start; and when a stop returns no loop is alive.
The invariant says where the caller and the loop are in their programs, in view of the timetable
(`Holds`).

Main statement: `play_orderly`.
-/
import CacheLayer.Proofs.Program.Progress
import CacheLayer.Proofs.Reload.Loop
import CacheLayer.Proofs.Reload.Memory

namespace CacheLayer

open CacheLayer.Program

variable {V α β : Type}

/-! ## Steps of programs -/

theorem Ask.now_perform (q : Ask V) (s : Scene V) : (q.perform s).2.world.now = s.world.now := by
  cases q with
  | command c =>
    change (s.world.command c).2.now = s.world.now
    obtain ⟨scripts, ⟨e, hfails⟩ | hdone⟩ := s.world.command_cases c
    · rw [hfails]
    · rw [hdone]
  | health =>
    change s.world.checkHealth.2.now = s.world.now
    unfold World.checkHealth
    split <;> rfl
  | _ => rfl

namespace Program

theorem now_step (p : Program V α) (s : Scene V) : (p.step s).2.world.now = s.world.now := by
  cases p with
  | done a => rfl
  | ask q next =>
    cases hwait : q.hasToWait s with
    | true => rw [step_waiting hwait]
    | false =>
      rw [step_ready hwait]
      exact q.now_perform s

theorem step_update (f : Memory V → Memory V) (next : Memory V → Program V α) (s : Scene V) :
    (ask (.update f) next).step s = (next s.memory, { s with memory := f s.memory }) := rfl

theorem step_now (next : Nat → Program V α) (s : Scene V) :
    (ask .now next).step s = (next s.world.now, s) := rfl

/-- A program that waits stays where it is until the wait is over. -/
theorem step_wait_cases (w : Wait V) (next : Unit → Program V α) (s : Scene V) :
    (ask (.wait w) next).step s = (ask (.wait w) next, s) ∨
      w.isOver s.world.now s.memory = true ∧ (ask (.wait w) next).step s = (next (), s) := by
  cases hover : w.isOver s.world.now s.memory with
  | false => exact .inl (step_waiting (by rw [Ask.hasToWait, hover]; rfl) next)
  | true => exact .inr ⟨rfl, step_ready (by rw [Ask.hasToWait, hover]; rfl) next⟩

/-- A step of a program that keeps something of the memory. -/
theorem Keeps.step {g : Memory V → β} {p : Program V α} (h : p.Keeps g) (s : Scene V) :
    (p.step s).1.Keeps g ∧ g (p.step s).2.memory = g s.memory := by
  refine ⟨each_step h s, ?_⟩
  cases p with
  | done a => rfl
  | ask q next =>
    cases hwait : q.hasToWait s with
    | true => rw [step_waiting hwait]
    | false =>
      rw [step_ready hwait]
      exact Ask.keeps_perform h.1 s

end Program

namespace Schedule

open CacheLayer.Reload

/-! ## Histories -/

/-- The event may come after those before it. -/
def Allowed (before : History) : Event → Prop
  | .started n since period => before.alive = [] ∧ n = before.starts ∧ 0 < period ∧
      before.called ≤ since ∧ ((∃ time, before = [.built time]) ∨ before.current? = some .start)
  | .begun n time => before.alive = [n] ∧ before.reloading = [] ∧ before.halted = false ∧
      ∃ since period, .started n since period ∈ before ∧ 0 < period ∧ since + period ≤ time
  | .ended n _ | .crashed n _ => before.alive = [n] ∧ before.reloading = [n]
  | .left n => before.alive = [n] ∧ before.reloading = [] ∧ before.current? = some .stop
  | .replied .stop _ => before.alive = [] ∧ before.reloading = []
  | .replied .start (.failed e) =>
    e = .config "reload_interval must be non-zero" ∧ before.launched = false
  | .replied .start _ => ∃ n, before.alive = [n]
  | _ => True

/-- Every event of the history may come after those before it. -/
def Orderly : History → Prop
  | [] => True
  | e :: h => Allowed h e ∧ Orderly h

/-! ## Where the programs are -/

/-- Where a loop can be that waits for its next tick. -/
inductive WaitsAt (t : Timetable) (now : Nat) : Program V Bool → Prop where
  | begins : WaitsAt t now tick
  | waits : WaitsAt t now (.ask (.wait ⟨some t.due, isStopping⟩) fun _ => wake)
  | wakes (h : t.stopping = true ∨ t.due ≤ now) : WaitsAt t now wake
  | quits (h : t.stopping = true) : WaitsAt t now quit
  | strikes (h : t.due ≤ now) : WaitsAt t now strike
  | moves {time : Nat} (h : t.due ≤ time) (hle : time ≤ now) : WaitsAt t now
      (.ask (.update fun m => { m with timetable := m.timetable.map (·.next time) })
        fun _ => .done true)

/-- Where a loop can be that is a wreck. -/
inductive WreckAt (t : Timetable) : Program V Unit → Prop where
  | waits : WreckAt t scheduleWreck
  | quits (h : t.stopping = true) : WreckAt t (change fun m => { m with timetable := none })

/-- Where a loop can be in its turn, and whether it reloads. -/
inductive StageAt (t : Timetable) (now n : Nat) : List Nat → Stage V → Prop where
  | waiting {rest : Program V Bool} (h : WaitsAt t now rest) : StageAt t now n [] (.waiting rest)
  | reloading {rest : Program V (Except Error ReloadResult)} (h : rest.Keeps Memory.timetable)
      (htimed : rest.Timed) : StageAt t now n [n] (.reloading rest)
  | wrecked {rest : Program V Unit} (h : WreckAt t rest) : StageAt t now n [] (.wrecked rest)

/-- The loop goes by the timetable. -/
structure Follows (t : Timetable) (now n : Nat) (h : History) (stage : Stage V) : Prop where
  alive : h.alive = [n]
  start : ∃ since, .started n since t.period ∈ h ∧ since + t.period ≤ t.due
  period : 0 < t.period
  halted : h.halted = false
  stopping : t.stopping = true → h.current? = some .stop
  stage : StageAt t now n h.reloading stage

/-- There is neither a timetable nor a loop, or one loop that goes by the timetable. -/
inductive LoopsAt (now : Nat) (h : History) : Option Timetable → List (Loop V) → Prop where
  | off (halive : h.alive = []) (hreloading : h.reloading = []) : LoopsAt now h none []
  | on {t : Timetable} {n : Nat} {stage : Stage V} (hfollows : Follows t now n h stage) :
      LoopsAt now h (some t) [⟨n, stage⟩]

/-- The rest of a start that has found no timetable. -/
def setting (interval : Nat) : Program V Reply := do
  let now ← Program.now
  Program.change fun m => { m with timetable := some (Timetable.start interval now) }
  return .done

/-- Where the caller can be in its request, in view of the timetable. -/
inductive CallerAt (h : History) : Option Timetable →
    Request → Program V Reply → Prop where
  | other {table : Option Timetable} {r : Request} {rest : Program V Reply} (hstart : r ≠ .start)
      (hstop : r ≠ .stop) (hkeeps : rest.Keeps Memory.timetable) : CallerAt h table r rest
  | starts {table : Option Timetable} (hlaunched : h.launched = false) :
      CallerAt h table .start Request.start.program
  | refused {table : Option Timetable} (hlaunched : h.launched = false) :
      CallerAt h table .start (.done (.failed (.config "reload_interval must be non-zero")))
  | sets {interval : Nat} (hinterval : 0 < interval) :
      CallerAt h none .start (setting interval)
  | puts {interval time : Nat} (hinterval : 0 < interval) (hcalled : h.called ≤ time) :
      CallerAt h none .start (.ask (.update fun m =>
        { m with timetable := some (Timetable.start interval time) }) fun _ => .done .done)
  | runs {t : Timetable} : CallerAt h (some t) .start (.done .done)
  | stops {table : Option Timetable} : CallerAt h table .stop Request.stop.program
  | awaits {table : Option Timetable} (hstopping : ∀ t, table = some t → t.stopping = true) :
      CallerAt h table .stop
        (.ask (.wait ⟨none, fun m => m.timetable.isNone⟩) fun _ => .done .done)
  | stopped : CallerAt h none .stop (.done .done)

/-- What holds of an interplay at all times. -/
structure Holds (p : Interplay V) : Prop where
  orderly : Orderly p.history
  current : p.request.map Prod.fst = p.history.current?
  called : p.history.called ≤ p.scene.world.now
  caller : ∀ r rest, p.request = some (r, rest) →
    CallerAt p.history p.scene.memory.timetable r rest
  loops : LoopsAt p.scene.world.now p.history p.scene.memory.timetable p.loops

theorem start_program_eq : (Request.start.program : Program V Reply) = memory >>= fun m =>
      if m.reload.interval = 0 then
        .done (.failed (.config "reload_interval must be non-zero"))
      else if m.timetable.isNone = true then setting m.reload.interval else .done .done := by
  unfold Request.program startSchedule
  rw [Action.outcome_always_bind, bind_assoc]
  refine bind_congr fun m => ?_
  by_cases hzero : m.reload.interval = 0
  · simp only [if_pos hzero]
    rfl
  · by_cases hnone : m.timetable.isNone = true
    · simp only [if_neg hzero, if_pos hnone]
      rfl
    · simp only [if_neg hzero, if_neg hnone]
      rfl

theorem stop_program_eq : (Request.stop.program : Program V Reply) =
    .ask (.update fun m => { m with timetable := m.timetable.map ({ · with stopping := true }) })
      fun _ => .ask (.wait ⟨none, fun m => m.timetable.isNone⟩) fun _ => .done .done := rfl

theorem tick_eq : (tick : Program V Bool) = .ask (.update id) fun m =>
    match m.timetable with
    | none => .done false
    | some t => .ask (.wait ⟨some t.due, isStopping⟩) fun _ => wake := rfl

theorem wake_eq : (wake : Program V Bool) =
    .ask (.update id) fun m => if isStopping m = true then quit else strike := rfl

theorem strike_eq : (strike : Program V Bool) = .ask .now fun now =>
    .ask (.update fun m => { m with timetable := m.timetable.map (·.next now) })
      fun _ => .done true := rfl

theorem scheduleWreck_eq : (scheduleWreck : Program V Unit) =
    .ask (.wait ⟨none, fun m => m.timetable.all (·.stopping)⟩) fun _ =>
      change fun m => { m with timetable := none } := rfl

theorem setting_eq (interval : Nat) : (setting interval : Program V Reply) = .ask .now fun now =>
    .ask (.update fun m => { m with timetable := some (Timetable.start interval now) })
      fun _ => .done .done := rfl

/-! ## Steps of a loop -/

theorem WaitsAt.later {t : Timetable} {now later : Nat} {rest : Program V Bool}
    (h : WaitsAt t now rest) (hle : now ≤ later) : WaitsAt t later rest := by
  cases h with
  | begins => exact .begins
  | waits => exact .waits
  | wakes h => exact .wakes (h.imp_right fun hdue => Nat.le_trans hdue hle)
  | quits h => exact .quits h
  | strikes h => exact .strikes (Nat.le_trans h hle)
  | moves h hle' => exact .moves h (Nat.le_trans hle' hle)

/-- The next due time lies a period or more ahead. -/
theorem due_le_dueAfter (t : Timetable) (time : Nat) : t.due ≤ t.dueAfter time := by
  unfold Timetable.dueAfter
  split
  · have hmod : (time - t.due) % t.period ≤ time - t.due := Nat.mod_le _ _
    omega
  · omega

/-- What a step of a loop that waits can come to: it waits further, it has found that the schedule is
to be stopped, or it has met its due time. -/
inductive Ticks (t : Timetable) (now : Nat) : Program V Bool → Option Timetable → Prop where
  | waits {rest : Program V Bool} (h : WaitsAt t now rest) : Ticks t now rest (some t)
  | stops (h : t.stopping = true) : Ticks t now (.done false) none
  | due {time : Nat} (h : t.due ≤ time) (hle : time ≤ now) :
      Ticks t now (.done true) (some (t.next time))

theorem WaitsAt.step {t : Timetable} {s : Scene V} {rest : Program V Bool}
    (h : WaitsAt t s.world.now rest) (htable : s.memory.timetable = some t) :
    Ticks t s.world.now (rest.step s).1 (rest.step s).2.memory.timetable := by
  cases h with
  | begins =>
    rw [tick_eq, step_update]
    simp only [htable, id_eq]
    exact .waits .waits
  | waits =>
    rcases step_wait_cases ⟨some t.due, isStopping⟩ (fun _ => (wake : Program V Bool)) s with
      hstays | ⟨hover, hwakes⟩
    · rw [hstays, htable]
      exact .waits .waits
    · rw [hwakes, htable]
      refine .waits (.wakes ?_)
      simpa [Wait.isOver, isStopping, htable] using hover
  | wakes hwoken =>
    rw [wake_eq, step_update]
    simp only [htable, id_eq, isStopping, Option.any_some]
    cases hstopping : t.stopping with
    | true => exact .waits (.quits hstopping)
    | false => exact .waits (.strikes (hwoken.resolve_left (by simp [hstopping])))
  | quits hstopping => exact .stops hstopping
  | strikes hdue =>
    rw [strike_eq, step_now, htable]
    exact .waits (.moves hdue (Nat.le_refl _))
  | moves hdue hle =>
    rw [step_update]
    simp only [htable, Option.map_some]
    exact .due hdue hle

theorem ticked_of_waits {t : Timetable} {now : Nat} {rest : Program V Bool} (h : WaitsAt t now rest)
    (p : Interplay V) (n : Nat) : p.ticked n rest = p.put n (.waiting rest) := by
  cases h <;> rfl

section Loops

variable {p q : Interplay V} {n : Nat}

theorem CallerAt.congr {h h' : History} {table : Option Timetable} {r : Request}
    {rest : Program V Reply} (hat : CallerAt h table r rest) (hlaunched : h'.launched = h.launched)
    (hcalled : h'.called = h.called) : CallerAt h' table r rest := by
  cases hat with
  | other hstart hstop hkeeps => exact .other hstart hstop hkeeps
  | starts hl => exact .starts (hlaunched.trans hl)
  | refused hl => exact .refused (hlaunched.trans hl)
  | sets hinterval => exact .sets hinterval
  | puts hinterval hc => exact .puts hinterval (hcalled ▸ hc)
  | runs => exact .runs
  | stops => exact .stops
  | awaits hstopping => exact .awaits hstopping
  | stopped => exact .stopped

/-- The caller does not mind when the timetable moves on. -/
theorem CallerAt.next {h : History} {t : Timetable} {r : Request} {rest : Program V Reply}
    (hat : CallerAt h (some t) r rest) (time : Nat) : CallerAt h (some (t.next time)) r rest := by
  cases hat with
  | other hstart hstop hkeeps => exact .other hstart hstop hkeeps
  | starts hl => exact .starts hl
  | refused hl => exact .refused hl
  | runs => exact .runs
  | stops => exact .stops
  | awaits hstopping =>
    refine .awaits fun t' ht' => ?_
    obtain rfl := Option.some.inj ht'
    exact hstopping t rfl

/-- Who stops the schedule waits until it is over. -/
theorem CallerAt.over {h : History} {table : Option Timetable} {rest : Program V Reply}
    (hat : CallerAt h table .stop rest) : CallerAt h none .stop rest := by
  cases hat with
  | other hstart hstop hkeeps => exact absurd rfl hstop
  | stops => exact .stops
  | awaits => exact .awaits (by rintro _ ⟨⟩)
  | stopped => exact .stopped

/-- After a step of a loop, the caller is where it was. -/
theorem Holds.of_loop (h : Holds p) (hrequest : q.request = p.request)
    (hnow : q.scene.world.now = p.scene.world.now)
    (hcurrent : q.history.current? = p.history.current?)
    (hcalled : q.history.called = p.history.called)
    (hlaunched : q.history.launched = p.history.launched) (horderly : Orderly q.history)
    (hcaller : ∀ r (rest : Program V Reply), p.history.current? = some r →
      CallerAt p.history p.scene.memory.timetable r rest →
      CallerAt p.history q.scene.memory.timetable r rest)
    (hloops : LoopsAt q.scene.world.now q.history q.scene.memory.timetable q.loops) : Holds q where
  orderly := horderly
  current := by rw [hrequest, hcurrent, h.current]
  called := by rw [hcalled, hnow]; exact h.called
  caller r rest hr := by
    rw [hrequest] at hr
    have hcurrent' : p.history.current? = some r := by rw [← h.current, hr]; rfl
    exact (hcaller r rest hcurrent' (h.caller r rest hr)).congr hlaunched hcalled
  loops := hloops

theorem goLoop_none (hloops : p.loops = []) : p.goLoop n = p := by
  unfold Interplay.goLoop
  rw [hloops]
  rfl

theorem goLoop_other {m : Nat} {stage : Stage V} (hloops : p.loops = [⟨m, stage⟩]) (hne : m ≠ n) :
    p.goLoop n = p := by
  unfold Interplay.goLoop
  rw [hloops, List.find?_singleton]
  simp [hne]

theorem goLoop_waiting {rest : Program V Bool} (hloops : p.loops = [⟨n, .waiting rest⟩]) :
    p.goLoop n = ({ p with scene := (rest.step p.scene).2 }).ticked n (rest.step p.scene).1 := by
  unfold Interplay.goLoop
  rw [hloops, List.find?_singleton]
  simp

theorem goLoop_reloading {rest : Program V (Except Error ReloadResult)}
    (hloops : p.loops = [⟨n, .reloading rest⟩]) :
    p.goLoop n = ({ p with scene := (rest.step p.scene).2 }).reloaded n (rest.step p.scene).1 := by
  unfold Interplay.goLoop
  rw [hloops, List.find?_singleton]
  simp

theorem goLoop_wrecked {rest : Program V Unit} (hloops : p.loops = [⟨n, .wrecked rest⟩]) :
    p.goLoop n = ({ p with scene := (rest.step p.scene).2 }).cleared n (rest.step p.scene).1 := by
  unfold Interplay.goLoop
  rw [hloops, List.find?_singleton]
  simp

theorem put_loops {stage stage' : Stage V} (hloops : p.loops = [⟨n, stage⟩]) :
    (p.put n stage').loops = [⟨n, stage'⟩] := by
  simp [Interplay.put, hloops]

theorem endTurn_on {t : Timetable} (htable : p.scene.memory.timetable = some t) :
    p.endTurn n = p.put n (.waiting tick) := by
  unfold Interplay.endTurn Job.goesOn
  rw [htable]
  rfl

theorem endTurn_off {stage : Stage V} (htable : p.scene.memory.timetable = none)
    (hloops : p.loops = [⟨n, stage⟩]) :
    p.endTurn n = { p.noting (.left n) with loops := [] } := by
  unfold Interplay.endTurn Job.goesOn
  rw [htable, hloops]
  simp

theorem StageAt.of_waiting {t : Timetable} {now : Nat} {busy : List Nat} {rest : Program V Bool}
    (h : StageAt t now n busy (.waiting rest)) : busy = [] ∧ WaitsAt t now rest := by
  cases h with
  | waiting h => exact ⟨rfl, h⟩

theorem StageAt.of_reloading {t : Timetable} {now : Nat} {busy : List Nat}
    {rest : Program V (Except Error ReloadResult)} (h : StageAt t now n busy (.reloading rest)) :
    busy = [n] ∧ rest.Keeps Memory.timetable ∧ rest.Timed := by
  cases h with
  | reloading h htimed => exact ⟨rfl, h, htimed⟩

theorem StageAt.of_wrecked {t : Timetable} {now : Nat} {busy : List Nat} {rest : Program V Unit}
    (h : StageAt t now n busy (.wrecked rest)) : busy = [] ∧ WreckAt t rest := by
  cases h with
  | wrecked h => exact ⟨rfl, h⟩

/-- A loop has found that the schedule is to be stopped: it puts the timetable away and ends. -/
theorem Holds.quits (h : Holds p) {t : Timetable} {stage : Stage V} {s : Scene V}
    (hloops : p.loops = [⟨n, stage⟩]) (hfollows : Follows t p.scene.world.now n p.history stage)
    (hidle : p.history.reloading = []) (hnow : s.world.now = p.scene.world.now)
    (hoff : s.memory.timetable = none) (hstopping : t.stopping = true) :
    Holds (Interplay.endTurn { p with scene := s } n) := by
  have hstop := hfollows.stopping hstopping
  rw [endTurn_off (p := { p with scene := s }) hoff hloops]
  refine h.of_loop rfl hnow rfl rfl rfl ⟨⟨hfollows.alive, hidle, hstop⟩, h.orderly⟩
    (fun r rest hr hat => ?_) ?_
  · obtain rfl : r = .stop := Option.some.inj (hr.symm.trans hstop)
    change CallerAt p.history s.memory.timetable _ rest
    rw [hoff]
    exact hat.over
  · change LoopsAt s.world.now (.left n :: p.history) s.memory.timetable []
    rw [hoff]
    refine .off ?_ hidle
    simp [History.alive, hfollows.alive]

/-- A loop has met its due time: it sets the next one and begins to reload. -/
theorem Holds.strikes (h : Holds p) {t : Timetable} {rest : Program V Bool} {s : Scene V}
    {time : Nat} (htable : p.scene.memory.timetable = some t)
    (hloops : p.loops = [⟨n, .waiting rest⟩])
    (hfollows : Follows t p.scene.world.now n p.history (.waiting rest))
    (hnow : s.world.now = p.scene.world.now) (hnext : s.memory.timetable = some (t.next time))
    (hdue : t.due ≤ time) (hle : time ≤ p.scene.world.now) :
    Holds (Interplay.noting (Interplay.put { p with scene := s } n (.reloading reloadAll.outcome))
      (.begun n s.world.now)) := by
  obtain ⟨hidle, -⟩ := hfollows.stage.of_waiting
  obtain ⟨since, hstarted, hsince⟩ := hfollows.start
  have hreload : Program.Keeps Memory.timetable (reloadAll (V := V)).outcome :=
    counts_reloadAll.keeps fun _ _ => rfl
  refine h.of_loop rfl hnow rfl rfl rfl ⟨⟨hfollows.alive, hidle, hfollows.halted, since, t.period,
    hstarted, hfollows.period, ?_⟩, h.orderly⟩ (fun r rest _ hat => ?_) ?_
  · rw [hnow]
    exact Nat.le_trans hsince (Nat.le_trans hdue hle)
  · change CallerAt p.history s.memory.timetable r rest
    rw [hnext]
    rw [htable] at hat
    exact hat.next time
  · change LoopsAt s.world.now (.begun n s.world.now :: p.history) s.memory.timetable
      (Interplay.put { p with scene := s } n (.reloading reloadAll.outcome)).loops
    rw [put_loops (p := { p with scene := s }) hloops, hnext, hnow]
    refine .on ⟨hfollows.alive, ⟨since, List.mem_cons_of_mem _ hstarted, ?_⟩, hfollows.period,
      hfollows.halted, hfollows.stopping, ?_⟩
    · exact Nat.le_trans hsince (due_le_dueAfter t time)
    · have hbusy : History.reloading (.begun n p.scene.world.now :: p.history) = [n] := by
        rw [History.reloading, hidle]
      rw [hbusy]
      exact .reloading hreload timed_reloadAll

/-- A loop that waits takes a step. -/
theorem Holds.waitStep (h : Holds p) {t : Timetable} {rest : Program V Bool}
    (htable : p.scene.memory.timetable = some t) (hloops : p.loops = [⟨n, .waiting rest⟩])
    (hfollows : Follows t p.scene.world.now n p.history (.waiting rest)) : Holds (p.goLoop n) := by
  obtain ⟨hidle, hwaits⟩ := hfollows.stage.of_waiting
  have hticks := hwaits.step htable
  have hnow := now_step rest p.scene
  rw [goLoop_waiting hloops]
  rcases hstep : rest.step p.scene with ⟨rest', s⟩
  rw [hstep] at hticks hnow
  generalize htable' : s.memory.timetable = table at hticks
  cases hticks with
  | waits hwaits' =>
    rw [ticked_of_waits hwaits']
    refine h.of_loop rfl hnow rfl rfl rfl h.orderly (fun r rest _ hat => ?_) ?_
    · change CallerAt p.history s.memory.timetable r rest
      rwa [htable', ← htable]
    · change LoopsAt s.world.now p.history s.memory.timetable
        (Interplay.put { p with scene := s } n (.waiting rest')).loops
      rw [put_loops (p := { p with scene := s }) hloops, htable', hnow]
      exact .on { hfollows with stage := hidle ▸ .waiting hwaits' }
  | stops hstopping => exact h.quits hloops hfollows hidle hnow htable' hstopping
  | due hdue hle => exact h.strikes htable hloops hfollows hnow htable' hdue hle

/-- A reload of the loop is over, by a result or by an overflow. -/
def Event.IsOver (n : Nat) : Event → Prop
  | .ended m _ | .crashed m _ => m = n
  | _ => False

/-- That a reload is over tells nothing but that. -/
theorem Event.IsOver.keeps {e : Event} (he : e.IsOver n) (h : History) :
    History.alive (e :: h) = h.alive ∧ History.halted (e :: h) = h.halted ∧
    History.current? (e :: h) = h.current? ∧ History.called (e :: h) = h.called ∧
    History.launched (e :: h) = h.launched := by
  cases e with
  | ended | crashed => exact ⟨rfl, rfl, rfl, rfl, rfl⟩
  | _ => cases he

theorem Event.IsOver.reloading {e : Event} (he : e.IsOver n) {h : History}
    (hbusy : h.reloading = [n]) : History.reloading (e :: h) = [] := by
  cases e with
  | ended m | crashed m =>
    obtain rfl : m = n := he
    rw [History.reloading, hbusy]
    simp
  | _ => cases he

theorem Event.IsOver.allowed {e : Event} (he : e.IsOver n) {h : History} (halive : h.alive = [n])
    (hbusy : h.reloading = [n]) : Allowed h e := by
  cases e with
  | ended m | crashed m =>
    obtain rfl : m = n := he
    exact ⟨halive, hbusy⟩
  | _ => cases he

/-- The loop goes on in another stage when its reload is over. -/
theorem Holds.over (h : Holds p) {t : Timetable} {stage stage' : Stage V} {s : Scene V} {e : Event}
    (hloops : p.loops = [⟨n, stage⟩]) (hfollows : Follows t p.scene.world.now n p.history stage)
    (he : e.IsOver n) (hbusy : p.history.reloading = [n])
    (hnow : s.world.now = p.scene.world.now) (htable : p.scene.memory.timetable = some t)
    (htable' : s.memory.timetable = some t) (hstage : StageAt t p.scene.world.now n [] stage') :
    Holds (Interplay.put (Interplay.noting { p with scene := s } e) n stage') := by
  obtain ⟨halive, hhalted, hcurrent, hcalled, hlaunched⟩ := he.keeps p.history
  obtain ⟨since, hstarted, hsince⟩ := hfollows.start
  refine h.of_loop rfl hnow hcurrent hcalled hlaunched ⟨he.allowed hfollows.alive hbusy, h.orderly⟩
    (fun r rest _ hat => ?_) ?_
  · change CallerAt p.history s.memory.timetable r rest
    rwa [htable', ← htable]
  · rw [put_loops (p := Interplay.noting { p with scene := s } e) hloops]
    change LoopsAt s.world.now (e :: p.history) s.memory.timetable _
    rw [htable', hnow]
    refine .on ⟨halive.trans hfollows.alive, ⟨since, List.mem_cons_of_mem _ hstarted, hsince⟩,
      hfollows.period, hhalted.trans hfollows.halted,
      fun hstopping => hcurrent.trans (hfollows.stopping hstopping), ?_⟩
    rw [he.reloading hbusy]
    exact hstage

/-- A loop that reloads takes a step. -/
theorem Holds.reloadStep (h : Holds p) {t : Timetable} {rest : Program V (Except Error ReloadResult)}
    (htable : p.scene.memory.timetable = some t) (hloops : p.loops = [⟨n, .reloading rest⟩])
    (hfollows : Follows t p.scene.world.now n p.history (.reloading rest)) :
    Holds (p.goLoop n) := by
  obtain ⟨hbusy, hkeeps, htimed⟩ := hfollows.stage.of_reloading
  have htimed' := each_step htimed p.scene
  obtain ⟨hkeeps', hkept⟩ := hkeeps.step p.scene
  have hnow := now_step rest p.scene
  rw [goLoop_reloading hloops]
  rcases hstep : rest.step p.scene with ⟨rest', s⟩
  rw [hstep] at hkeeps' hkept hnow htimed'
  have htable' : s.memory.timetable = some t := hkept.trans htable
  unfold Interplay.reloaded
  cases rest'.ending? with
  | none =>
    refine h.of_loop rfl hnow rfl rfl rfl h.orderly (fun r rest _ hat => ?_) ?_
    · change CallerAt p.history s.memory.timetable r rest
      rwa [htable', ← htable]
    · rw [put_loops (p := { p with scene := s }) hloops]
      change LoopsAt s.world.now p.history s.memory.timetable _
      rw [htable', hnow]
      exact .on { hfollows with stage := hbusy ▸ .reloading hkeeps' htimed' }
  | some ending =>
    cases ending with
    | ok r =>
      change Holds (Interplay.endTurn (Interplay.noting { p with scene := s } (.ended n r)) n)
      rw [endTurn_on (p := Interplay.noting { p with scene := s } (.ended n r)) htable']
      exact h.over hloops hfollows rfl hbusy hnow htable htable' (.waiting .begins)
    | error o =>
      exact h.over (e := .crashed n o) hloops hfollows rfl hbusy hnow htable htable' (.wrecked .waits)

/-- What is left of a loop takes a step. -/
theorem Holds.wreckStep (h : Holds p) {t : Timetable} {rest : Program V Unit}
    (htable : p.scene.memory.timetable = some t) (hloops : p.loops = [⟨n, .wrecked rest⟩])
    (hfollows : Follows t p.scene.world.now n p.history (.wrecked rest)) : Holds (p.goLoop n) := by
  obtain ⟨hidle, hwreck⟩ := hfollows.stage.of_wrecked
  rw [goLoop_wrecked hloops]
  have hputs {s : Scene V} {rest' : Program V Unit} (hnow : s.world.now = p.scene.world.now)
      (htable' : s.memory.timetable = some t) (hat : WreckAt t rest') :
      Holds (Interplay.put { p with scene := s } n (.wrecked rest')) := by
    refine h.of_loop rfl hnow rfl rfl rfl h.orderly (fun r rest _ hat => ?_) ?_
    · change CallerAt p.history s.memory.timetable r rest
      rwa [htable', ← htable]
    · rw [put_loops (p := { p with scene := s }) hloops]
      change LoopsAt s.world.now p.history s.memory.timetable _
      rw [htable', hnow]
      exact .on { hfollows with stage := hidle ▸ .wrecked hat }
  cases hwreck with
  | waits =>
    rw [scheduleWreck_eq]
    rcases step_wait_cases ⟨none, fun m => m.timetable.all (·.stopping)⟩
      (fun _ => (change fun m => { m with timetable := none } : Program V Unit)) p.scene with
      hstays | ⟨hover, hgoes⟩
    · rw [hstays]
      exact hputs rfl htable .waits
    · rw [hgoes]
      exact hputs rfl htable (.quits (by simpa [Wait.isOver, htable] using hover))
  | quits hstopping => exact h.quits hloops hfollows hidle rfl rfl hstopping

theorem Holds.goLoop (h : Holds p) (n : Nat) : Holds (p.goLoop n) := by
  have hat := h.loops
  generalize htable : p.scene.memory.timetable = table at hat
  generalize hloops : p.loops = loops at hat
  cases hat with
  | off =>
    rw [goLoop_none hloops]
    exact h
  | @on t m stage hfollows =>
    by_cases hm : m = n
    · subst hm
      cases stage with
      | waiting rest => exact h.waitStep htable hloops hfollows
      | reloading rest => exact h.reloadStep htable hloops hfollows
      | wrecked rest => exact h.wreckStep htable hloops hfollows
    · rw [goLoop_other hloops hm]
      exact h

end Loops

/-! ## Steps of the caller -/

section Caller

variable {p : Interplay V} {r : Request} {s : Scene V}

theorem launch_of_none {before : Option Timetable}
    (h : setUp? before p.scene.memory.timetable = none) : p.launch before = p := by
  unfold Interplay.launch
  rw [h]

theorem launch_same (p : Interplay V) : p.launch p.scene.memory.timetable = p :=
  launch_of_none (if_pos rfl)

/-- While the caller is at a start, the schedule has not been stopped for good. -/
theorem halted_of_current {h : History} (hcurrent : h.current? = some .start) :
    h.halted = false := by
  induction h with
  | nil => rfl
  | cons e h ih =>
    cases e with
    | asked time r =>
      obtain rfl : r = .start := Option.some.inj hcurrent
      rfl
    | replied r reply => cases hcurrent
    | _ => exact ih hcurrent

theorem LoopsAt.replied {now : Nat} {h : History} {table : Option Timetable} {loops : List (Loop V)}
    {reply : Reply} (hat : LoopsAt now h table loops) (hcurrent : h.current? = some r)
    (hstop : r = .stop → table = none) : LoopsAt now (.replied r reply :: h) table loops := by
  cases hat with
  | off halive hreloading => exact .off halive hreloading
  | on hfollows =>
    have hne : r ≠ .stop := fun hr => by cases hstop hr
    obtain ⟨since, hstarted, hsince⟩ := hfollows.start
    refine .on ⟨hfollows.alive, ⟨since, List.mem_cons_of_mem _ hstarted, hsince⟩,
      hfollows.period, ?_, fun hstopping => ?_, hfollows.stage⟩
    · cases r with
      | stop => exact absurd rfl hne
      | _ => exact hfollows.halted
    · exact absurd (Option.some.inj (hcurrent.symm.trans (hfollows.stopping hstopping))) hne

/-- The caller's program has ended. -/
theorem Holds.reply (h : Holds p) {reply : Reply} (hr : p.request = some (r, .done reply))
    (hallowed : Allowed p.history (.replied r reply))
    (hstop : r = .stop → p.scene.memory.timetable = none) : Holds p.goCaller := by
  have hcurrent : p.history.current? = some r := by rw [← h.current, hr]; rfl
  have hgo : p.goCaller = { p.noting (.replied r reply) with request := none } := by
    unfold Interplay.goCaller
    rw [hr]
  rw [hgo]
  exact ⟨⟨hallowed, h.orderly⟩, rfl, h.called, by rintro _ _ ⟨⟩, h.loops.replied hcurrent hstop⟩

theorem goCaller_ask {q : Ask V} {next : Answer q → Program V Reply}
    (hr : p.request = some (r, .ask q next)) : p.goCaller = Interplay.launch { p with
      request := some (r, ((Program.ask q next).step p.scene).1)
      scene := ((Program.ask q next).step p.scene).2 } p.scene.memory.timetable := by
  unfold Interplay.goCaller
  rw [hr]

/-- The caller has taken a step, and the timetable is as it was. -/
theorem Holds.step (h : Holds p) {q : Ask V} {next : Answer q → Program V Reply}
    (hr : p.request = some (r, .ask q next))
    (htable : ((Program.ask q next).step p.scene).2.memory.timetable = p.scene.memory.timetable)
    (hat : CallerAt p.history p.scene.memory.timetable r ((Program.ask q next).step p.scene).1) :
    Holds p.goCaller := by
  have hnow := now_step (Program.ask q next) p.scene
  rw [goCaller_ask hr, ← htable, launch_same]
  refine ⟨h.orderly, ?_, ?_, ?_, ?_⟩
  · rw [← h.current, hr]
    rfl
  · exact hnow.symm ▸ h.called
  · intro r' rest' hr'
    obtain ⟨rfl, rfl⟩ := Prod.mk.inj (Option.some.inj hr')
    exact htable.symm ▸ hat
  · change LoopsAt _ p.history ((Program.ask q next).step p.scene).2.memory.timetable p.loops
    rw [htable]
    exact hnow.symm ▸ h.loops

/-- A start sets up a timetable, and a loop begins. -/
theorem Holds.setUp (h : Holds p) {interval time : Nat} (hinterval : 0 < interval)
    (hcalled : p.history.called ≤ time) (hoff : p.scene.memory.timetable = none)
    (hr : p.request = some (.start, .ask (.update fun m =>
      { m with timetable := some (Timetable.start interval time) }) fun _ => .done .done)) :
    Holds p.goCaller := by
  have hcurrent : p.history.current? = some .start := by rw [← h.current, hr]; rfl
  have hgo : p.goCaller = ⟨{ p.scene with memory :=
      { p.scene.memory with timetable := some (Timetable.start interval time) } },
      .started p.history.starts (time + interval - interval) interval :: p.history,
      some (.start, .done .done), p.loops ++ [⟨p.history.starts, .waiting tick⟩]⟩ := by
    rw [goCaller_ask hr, hoff]
    rfl
  rw [hgo, Nat.add_sub_cancel]
  have hat := h.loops
  generalize hloops : p.loops = loops at hat
  rw [hoff] at hat
  cases hat with
  | off halive hreloading =>
    refine ⟨⟨⟨halive, rfl, hinterval, hcalled, .inr hcurrent⟩, h.orderly⟩, hcurrent.symm, h.called,
      fun r rest hr' => ?_, ?_⟩
    · obtain ⟨rfl, rfl⟩ := Prod.mk.inj (Option.some.inj hr')
      exact .runs
    · refine .on ⟨?_, ⟨time, List.mem_cons_self, Nat.le_refl _⟩, hinterval,
        halted_of_current hcurrent, by rintro ⟨⟩, ?_⟩
      · rw [History.alive, halive]
      · change StageAt _ _ _ p.history.reloading _
        rw [hreloading]
        exact .waiting .begins

/-- The timetable that is to be stopped. -/
def stopped (t : Timetable) : Timetable := { t with stopping := true }

/-- To ask for a stop is not to set up anything. -/
theorem setUp?_stopped (table : Option Timetable) : setUp? table (table.map stopped) = none := by
  cases table with
  | none => rfl
  | some t =>
    unfold setUp?
    split <;> rfl

theorem WaitsAt.stop {t : Timetable} {now : Nat} {rest : Program V Bool} (h : WaitsAt t now rest) :
    WaitsAt (stopped t) now rest := by
  cases h with
  | begins => exact .begins
  | waits => exact WaitsAt.waits (t := stopped t)
  | wakes h => exact .wakes (.inl rfl)
  | quits h => exact .quits rfl
  | strikes h => exact .strikes h
  | moves h hle => exact .moves h hle

theorem WreckAt.stop {t : Timetable} {rest : Program V Unit} (h : WreckAt t rest) :
    WreckAt (stopped t) rest := by
  cases h with
  | waits => exact .waits
  | quits => exact .quits rfl

theorem StageAt.stop {t : Timetable} {now n : Nat} {busy : List Nat} {stage : Stage V}
    (h : StageAt t now n busy stage) : StageAt (stopped t) now n busy stage := by
  cases h with
  | waiting h => exact .waiting h.stop
  | reloading h htimed => exact .reloading h htimed
  | wrecked h => exact .wrecked h.stop

/-- A stop asks the loop to come to its end. -/
theorem Holds.stop (h : Holds p) (hr : p.request = some (.stop, Request.stop.program)) :
    Holds p.goCaller := by
  have hcurrent : p.history.current? = some .stop := by rw [← h.current, hr]; rfl
  have hgo : p.goCaller = { p with
      scene := { p.scene with memory :=
        { p.scene.memory with timetable := p.scene.memory.timetable.map stopped } }
      request := some (.stop, .ask (.wait ⟨none, fun m => m.timetable.isNone⟩)
        fun _ => .done .done) } := by
    rw [stop_program_eq] at hr
    rw [goCaller_ask hr, step_update]
    exact launch_of_none (setUp?_stopped p.scene.memory.timetable)
  rw [hgo]
  have hat := h.loops
  generalize hloops : p.loops = loops at hat
  generalize htable : p.scene.memory.timetable = table at hat
  refine ⟨h.orderly, hcurrent.symm, h.called, fun r rest hr' => ?_, ?_⟩
  · obtain ⟨rfl, rfl⟩ := Prod.mk.inj (Option.some.inj hr')
    refine .awaits fun t ht => ?_
    obtain ⟨t', -, rfl⟩ := Option.map_eq_some_iff.1 ht
    rfl
  · change LoopsAt p.scene.world.now p.history (table.map stopped) loops
    cases hat with
    | off halive hreloading => exact .off halive hreloading
    | on hfollows =>
      exact .on ⟨hfollows.alive, hfollows.start, hfollows.period, hfollows.halted,
        fun _ => hcurrent, hfollows.stage.stop⟩

theorem Holds.goCaller (h : Holds p) : Holds p.goCaller := by
  cases hr : p.request with
  | none =>
    have hgo : p.goCaller = p := by
      unfold Interplay.goCaller
      rw [hr]
    rwa [hgo]
  | some call =>
    obtain ⟨r, rest⟩ := call
    have hat := h.caller r rest hr
    have hloops := h.loops
    generalize htable : p.scene.memory.timetable = table at hat hloops
    cases hat with
    | other hstart hstop hkeeps =>
      cases rest with
      | done reply =>
        refine h.reply hr ?_ fun hr => absurd hr hstop
        cases r <;> trivial
      | ask q next =>
        obtain ⟨hkeeps', hkept⟩ := hkeeps.step p.scene
        exact h.step hr hkept (.other hstart hstop hkeeps')
    | starts hlaunched =>
      rw [start_program_eq] at hr
      refine h.step hr rfl ?_
      change CallerAt p.history p.scene.memory.timetable .start
        (if p.scene.memory.reload.interval = 0 then .done (.failed _)
        else if p.scene.memory.timetable.isNone = true then setting p.scene.memory.reload.interval
        else .done .done)
      rw [htable]
      by_cases hinterval : p.scene.memory.reload.interval = 0
      · rw [if_pos hinterval]
        exact .refused hlaunched
      · rw [if_neg hinterval]
        cases table with
        | none => exact .sets (Nat.pos_of_ne_zero hinterval)
        | some t => exact .runs
    | refused hlaunched =>
      exact h.reply hr ⟨rfl, hlaunched⟩ (by rintro ⟨⟩)
    | sets hinterval =>
      rw [setting_eq] at hr
      refine h.step hr rfl ?_
      rw [htable]
      exact .puts hinterval h.called
    | puts hinterval hcalled => exact h.setUp hinterval hcalled htable hr
    | runs =>
      refine h.reply hr ?_ (by rintro ⟨⟩)
      generalize p.loops = loops at hloops
      cases hloops with
      | on hfollows => exact ⟨_, hfollows.alive⟩
    | stops => exact h.stop hr
    | awaits hstopping =>
      rcases step_wait_cases ⟨none, fun m => m.timetable.isNone⟩
        (fun _ => (.done .done : Program V Reply)) p.scene with hstays | ⟨hover, hgoes⟩
      · refine h.step hr (by rw [hstays]) ?_
        rw [hstays, htable]
        exact .awaits hstopping
      · refine h.step hr (by rw [hgoes]) ?_
        rw [hgoes, htable]
        have hnone : table = none := by
          simpa [Wait.isOver, htable] using hover
        rw [hnone]
        exact .stopped
    | stopped =>
      refine h.reply hr ?_ fun _ => htable
      generalize p.loops = loops at hloops
      cases hloops with
      | off halive hreloading => exact ⟨halive, hreloading⟩

end Caller

/-! ## Moves -/

section Moves

variable {p : Interplay V}

theorem Follows.later {t : Timetable} {now later n : Nat} {h : History} {stage : Stage V}
    (hfollows : Follows t now n h stage) (hle : now ≤ later) : Follows t later n h stage := by
  refine { hfollows with stage := ?_ }
  have hstage := hfollows.stage
  generalize h.reloading = busy at hstage
  cases hstage with
  | waiting hwaits => exact .waiting (hwaits.later hle)
  | reloading hkeeps htimed => exact .reloading hkeeps htimed
  | wrecked hwreck => exact .wrecked hwreck

/-- Time passes, and the timetable is as it was. -/
theorem Holds.inScene (h : Holds p) {s : Scene V} (hnow : p.scene.world.now ≤ s.world.now)
    (htable : s.memory.timetable = p.scene.memory.timetable) : Holds { p with scene := s } := by
  refine ⟨h.orderly, h.current, Nat.le_trans h.called hnow, fun r rest hr => ?_, ?_⟩
  · exact htable.symm ▸ h.caller r rest hr
  · have hat := h.loops
    change LoopsAt s.world.now p.history s.memory.timetable p.loops
    rw [htable]
    generalize p.scene.memory.timetable = table at hat
    generalize p.loops = loops at hat
    cases hat with
    | off halive hreloading => exact .off halive hreloading
    | on hfollows => exact .on (hfollows.later hnow)

/-- A request begins. -/
theorem callerAt_program {h : History} (table : Option Timetable) (r : Request)
    (hlaunched : h.launched = false) : CallerAt h table r (r.program : Program V Reply) := by
  have hother (hstart : r ≠ .start) (hstop : r ≠ .stop)
      (hkeeps : (r.program : Program V Reply).Keeps Memory.timetable) :
      CallerAt h table r (r.program : Program V Reply) := .other hstart hstop hkeeps
  cases r with
  | start => exact .starts hlaunched
  | stop => exact .stops
  | configure c =>
    exact hother (by simp) (by simp) (each_bind (keeps_change fun _ => rfl) fun _ => each_pure _)
  | reload key =>
    exact hother (by simp) (by simp)
      (each_bind ((counts_reload key).keeps fun _ _ => rfl) fun _ => each_pure _)
  | reloadBatch keys =>
    exact hother (by simp) (by simp)
      (each_bind ((counts_reloadBatch keys).keeps fun _ _ => rfl) fun _ => each_pure _)
  | reloadAll =>
    exact hother (by simp) (by simp)
      (each_bind (counts_reloadAll.keeps fun _ _ => rfl) fun _ => each_pure _)
  | sleep ms =>
    exact hother (by simp) (by simp) (each_bind (keeps_pause ms) fun _ => each_pure _)

theorem Holds.ask (h : Holds p) (hidle : p.request = none) (r : Request) :
    Holds { p.noting (.asked p.scene.world.now r) with request := some (r, r.program) } := by
  have hcurrent : p.history.current? = none := by rw [← h.current, hidle]; rfl
  refine ⟨⟨trivial, h.orderly⟩, rfl, Nat.le_refl _, fun r' rest hr => ?_, ?_⟩
  · obtain ⟨rfl, rfl⟩ := Prod.mk.inj (Option.some.inj hr)
    exact callerAt_program _ r rfl
  · have hat := h.loops
    change LoopsAt p.scene.world.now (.asked p.scene.world.now r :: p.history)
      p.scene.memory.timetable p.loops
    generalize p.scene.memory.timetable = table at hat
    generalize p.loops = loops at hat
    cases hat with
    | off halive hreloading => exact .off halive hreloading
    | on hfollows =>
      obtain ⟨since, hstarted, hsince⟩ := hfollows.start
      refine .on ⟨hfollows.alive, ⟨since, List.mem_cons_of_mem _ hstarted, hsince⟩,
        hfollows.period, ?_, fun hstopping => ?_, hfollows.stage⟩
      · cases r with
        | start => rfl
        | _ => exact hfollows.halted
      · cases hcurrent.symm.trans (hfollows.stopping hstopping)

/-- What holds of an interplay holds after every move. -/
theorem Holds.move (h : Holds p) (m : Move V) : Holds (p.move m) := by
  cases m with
  | ask r =>
    change Holds (if p.request.isNone = true then _ else p)
    split
    · next hidle => exact h.ask (Option.isNone_iff_eq_none.1 hidle) r
    · exact h
  | goCaller => exact h.goCaller
  | goLoop n => exact h.goLoop n
  | later ms => exact h.inScene (Nat.le_add_right _ _) rfl
  | outside w m => exact h.inScene (Nat.le_max_left _ _) rfl

theorem Holds.play (h : Holds p) (moves : List (Move V)) : Holds (p.play moves) := by
  induction moves generalizing p with
  | nil => exact h
  | cons m moves ih => exact ih (h.move m)

/-- It holds of an engine that has just been built, with scheduled reloads or without. -/
theorem holds_build (b : Blueprint V) (w : World V) : Holds (Interplay.build b w) := by
  have htable : (Service.assemble b w.now).timetable =
      if b.config.reload.scheduled ∧ b.config.reload.interval ≠ 0 then
        some (Timetable.start b.config.reload.interval w.now) else none := rfl
  by_cases hscheduled : b.config.reload.scheduled = true ∧ b.config.reload.interval ≠ 0
  · rw [if_pos hscheduled] at htable
    have hbuild : Interplay.build b w = ⟨⟨w, Service.assemble b w.now⟩,
        [.started 0 (w.now + b.config.reload.interval - b.config.reload.interval)
          b.config.reload.interval, .built w.now], none, [⟨0, .waiting tick⟩]⟩ := by
      unfold Interplay.build Interplay.launch
      simp only [htable]
      rfl
    rw [hbuild, Nat.add_sub_cancel]
    have hpos := Nat.pos_of_ne_zero hscheduled.2
    refine ⟨⟨⟨rfl, rfl, hpos, Nat.le_refl _, .inl ⟨_, rfl⟩⟩, trivial, trivial⟩, rfl,
      Nat.le_refl _, by rintro _ _ ⟨⟩, ?_⟩
    rw [htable]
    exact .on ⟨rfl, ⟨w.now, List.mem_cons_self, Nat.le_refl _⟩, hpos, rfl, by rintro ⟨⟩,
      .waiting .begins⟩
  · rw [if_neg hscheduled] at htable
    have hbuild : Interplay.build b w = ⟨⟨w, Service.assemble b w.now⟩, [.built w.now], none, []⟩ := by
      unfold Interplay.build Interplay.launch
      simp only [htable]
      rfl
    rw [hbuild]
    refine ⟨⟨trivial, trivial⟩, rfl, Nat.le_refl _, by rintro _ _ ⟨⟩, ?_⟩
    rw [htable]
    exact .off rfl rfl

end Moves

/-! ## The schedule -/

/-- A start fails if there is no interval, and then it does nothing; it does nothing either if there
is a timetable. -/
theorem run_startSchedule (s : Scene V) : startSchedule.outcome.run s =
    if s.memory.reload.interval = 0 then
      (.error (.config "reload_interval must be non-zero"), s)
    else if s.memory.timetable.isSome = true then (.ok (), s)
    else (.ok (), { s with memory := { s.memory with
      timetable := some (Timetable.start s.memory.reload.interval s.world.now) } }) := by
  unfold startSchedule
  rw [Action.run_always_bind, run_memory]
  by_cases hzero : s.memory.reload.interval = 0
  · simp only [if_pos hzero]
    rfl
  · simp only [if_neg hzero]
    cases htable : s.memory.timetable <;> rfl

/-- **The schedule of reloads is single, does not overlap and stops for good.** However the steps of
the caller and of the loops fall, and whatever the source does, every event is allowed in view of
those before it; there is at most one loop, and there is one exactly while there is a timetable. -/
theorem play_orderly (b : Blueprint V) (w : World V) (moves : List (Move V)) :
    Orderly ((Interplay.build b w).play moves).history ∧
    ((Interplay.build b w).play moves).loops.length ≤ 1 ∧
    ((Interplay.build b w).play moves).loops.map Loop.number =
      ((Interplay.build b w).play moves).history.alive ∧
    ((Interplay.build b w).play moves).scene.memory.timetable.isSome =
      !((Interplay.build b w).play moves).loops.isEmpty ∧
    ∀ s : Scene V, startSchedule.outcome.run s =
      if s.memory.reload.interval = 0 then
        (.error (.config "reload_interval must be non-zero"), s)
      else if s.memory.timetable.isSome = true then (.ok (), s)
      else (.ok (), { s with memory := { s.memory with
        timetable := some (Timetable.start s.memory.reload.interval s.world.now) } }) := by
  have h := (holds_build b w).play moves
  have hat := h.loops
  generalize hloops : ((Interplay.build b w).play moves).loops = loops at hat
  generalize htable : ((Interplay.build b w).play moves).scene.memory.timetable = table at hat
  refine ⟨h.orderly, ?_⟩
  cases hat with
  | off halive => exact ⟨Nat.zero_le _, halive.symm, rfl, run_startSchedule⟩
  | on hfollows => exact ⟨Nat.le_refl _, hfollows.alive.symm, rfl, run_startSchedule⟩

/-- An engine that reloads every ten milliseconds begins to do so when they are over. -/
example :
    ((Interplay.build (V := UInt8) ⟨Client.byteFormat,
        { reload := { scheduled := true, interval := 10 } }, [], [], 0⟩ (.start default)).play
      [.goLoop 0, .goLoop 0, .later 10, .goLoop 0, .goLoop 0, .goLoop 0, .goLoop 0]).history.reloading
        = [0] := by
  decide +kernel

end Schedule
end CacheLayer
