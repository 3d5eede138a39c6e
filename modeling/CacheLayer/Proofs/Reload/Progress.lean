/-
The schedule of reloads gets on, wherever a run has come to. A loop that waits begins a reload by steps
of its own once it is due. When the caller is at a stop, the loop can come to its end and the stop can
return; all that this takes is steps of the two, and that time passes. A reload that has begun is gone
through to its result or to its overflow, by recursion on what is left of it.

Main statements: `begins_of_due`, `returns_of_stop`.
-/
import CacheLayer.Proofs.Reload.Scheduler

namespace CacheLayer.Schedule

open CacheLayer.Program CacheLayer.Reload

variable {V : Type} {p : Interplay V} {n : Nat}

/-- A loop that there is goes by the timetable. -/
theorem Holds.follows (h : Holds p) {stage : Stage V} (hloops : p.loops = [⟨n, stage⟩]) :
    ∃ t, p.scene.memory.timetable = some t ∧ Follows t p.scene.world.now n p.history stage := by
  have hat := h.loops
  generalize p.scene.memory.timetable = table at hat
  rw [hloops] at hat
  cases hat with
  | on hfollows => exact ⟨_, rfl, hfollows⟩

/-! ## A loop that is due -/

/-- Steps of a loop lead to the beginning of a reload, and nothing else happens before it. -/
def CanBegin (p : Interplay V) (n : Nat) : Prop :=
  MayReach Interplay.move (· = .goLoop n) p fun q =>
    q.history = .begun n p.scene.world.now :: p.history

/-- The loop waits, and it is due. -/
structure IsDue (p : Interplay V) (n : Nat) (t : Timetable) (rest : Program V Bool) : Prop where
  loops : p.loops = [⟨n, .waiting rest⟩]
  table : p.scene.memory.timetable = some t
  stopping : t.stopping = false
  due : t.due ≤ p.scene.world.now

namespace IsDue

variable {t : Timetable} {rest : Program V Bool}

/-- A step in which the loop only looks brings it further. -/
theorem further (h : IsDue p n t rest) (rest' : Program V Bool)
    (hstep : rest.step p.scene = (rest', p.scene))
    (hwaits : WaitsAt t p.scene.world.now rest')
    (hbegins : ∀ q : Interplay V, IsDue q n t rest' → CanBegin q n) : CanBegin p n := by
  have hgo : p.goLoop n = p.put n (.waiting rest') := by
    rw [goLoop_waiting h.loops, hstep]
    exact ticked_of_waits hwaits p n
  have hdue : IsDue (p.goLoop n) n t rest' := by
    rw [hgo]
    exact ⟨put_loops h.loops, h.table, h.stopping, h.due⟩
  refine .step rfl ((hbegins _ hdue).mono fun q hq => ?_)
  rw [hq, hgo]
  rfl

theorem moves {time : Nat} (h : IsDue p n t (.ask (.update fun m =>
    { m with timetable := m.timetable.map (·.next time) }) fun _ => .done true)) :
    CanBegin p n := by
  refine .step rfl (.here ?_)
  change (p.goLoop n).history = _
  rw [goLoop_waiting h.loops, step_update]
  rfl

theorem strikes (h : IsDue p n t strike) : CanBegin p n :=
  h.further _ rfl (.moves h.due (Nat.le_refl _)) fun _ hq => hq.moves

theorem wakes (h : IsDue p n t wake) : CanBegin p n := by
  refine h.further strike ?_ (.strikes h.due) fun _ hq => hq.strikes
  have hgoes : isStopping p.scene.memory = false := by simp [isStopping, h.table, h.stopping]
  rw [wake_eq, step_update, hgoes]
  rfl

theorem waits (h : IsDue p n t (.ask (.wait ⟨some t.due, isStopping⟩) fun _ => wake)) :
    CanBegin p n := by
  refine h.further wake (step_ready ?_ _) (.wakes (.inr h.due)) fun _ hq => hq.wakes
  simp [Ask.hasToWait, Wait.isOver, h.due]

theorem begins (h : IsDue p n t tick) : CanBegin p n := by
  refine h.further _ ?_ .waits fun _ hq => hq.waits
  rw [tick_eq, step_update, h.table]
  rfl

end IsDue

/-- **A loop that waits can begin a reload once it is due**, unless the schedule is to be stopped. -/
theorem begins_of_due (b : Blueprint V) (w : World V) (moves : List (Move V)) {t : Timetable}
    {rest : Program V Bool}
    (h : IsDue ((Interplay.build b w).play moves) n t rest) :
    CanBegin ((Interplay.build b w).play moves) n := by
  obtain ⟨t', htable, hfollows⟩ := ((holds_build b w).play moves).follows h.loops
  obtain rfl : t' = t := Option.some.inj (htable.symm.trans h.table)
  obtain ⟨-, hwaits⟩ := hfollows.stage.of_waiting
  cases hwaits with
  | begins => exact h.begins
  | waits => exact h.waits
  | wakes => exact h.wakes
  | quits hstopping => cases hstopping.symm.trans h.stopping
  | strikes => exact h.strikes
  | moves => exact h.moves

/-! ## A loop that is to come to its end -/

/-- Someone takes a step, or time passes. -/
def Move.IsStep : Move V → Prop
  | .goCaller | .goLoop _ | .later _ => True
  | _ => False

/-- A stop waits for the loop to come to its end. -/
structure Awaits (p : Interplay V) : Prop where
  holds : Holds p
  request : p.request = some (.stop, .ask (.wait ⟨none, fun m => m.timetable.isNone⟩)
    fun _ => .done .done)

/-- The loop can come to its end while the stop waits. -/
def CanEnd (p : Interplay V) : Prop :=
  MayReach Interplay.move Move.IsStep p fun q => Awaits q ∧ q.loops = []

/-- A step of a loop is nothing to the caller. -/
theorem request_goLoop (p : Interplay V) (n : Nat) : (p.goLoop n).request = p.request := by
  have hend (q : Interplay V) : (q.endTurn n).request = q.request := by
    unfold Interplay.endTurn
    split <;> rfl
  unfold Interplay.goLoop
  split
  · rfl
  · unfold Interplay.ticked
    split <;> first | rfl | exact hend _
  · unfold Interplay.reloaded
    split <;> first | rfl | exact hend _
  · unfold Interplay.cleared
    split <;> first | rfl | exact hend _

/-- Whom a stop awaits is to come to its end. -/
theorem CallerAt.stopping {h : History} {table : Option Timetable} {w : Wait V}
    {rest : Program V Reply} {next : Unit → Program V Reply} (hat : CallerAt h table .stop rest)
    (hrest : rest = .ask (.wait w) next) {t : Timetable} (ht : table = some t) :
    t.stopping = true := by
  cases hat with
  | other _ hstop => exact absurd rfl hstop
  | stops =>
    rw [stop_program_eq] at hrest
    cases hrest
  | awaits hstopping => exact hstopping t ht
  | stopped => cases ht

namespace Awaits

variable (h : Awaits p)

include h

theorem goLoop (n : Nat) : Awaits (p.goLoop n) :=
  ⟨h.holds.goLoop n, (request_goLoop p n).trans h.request⟩

theorem later (ms : Nat) : Awaits (p.move (.later ms)) := ⟨h.holds.move (.later ms), h.request⟩

theorem stopping {t : Timetable} (ht : p.scene.memory.timetable = some t) : t.stopping = true :=
  (h.holds.caller _ _ h.request).stopping rfl ht

theorem isStopping {stage : Stage V} (hloops : p.loops = [⟨n, stage⟩]) :
    isStopping p.scene.memory = true := by
  obtain ⟨t, htable, -⟩ := h.holds.follows hloops
  simp [Schedule.isStopping, htable, h.stopping htable]

/-- A step of the loop leads to another stage of it, from which it can come to its end. -/
theorem further (stage : Stage V) (hloops : (p.goLoop n).loops = [⟨n, stage⟩])
    (hends : ∀ q : Interplay V, Awaits q → q.loops = [⟨n, stage⟩] → CanEnd q) : CanEnd p :=
  .step (m := .goLoop n) trivial (hends _ (h.goLoop n) hloops)

/-! ### At a tick -/

theorem ends_quit (hloops : p.loops = [⟨n, .waiting quit⟩]) : CanEnd p := by
  refine .step (m := .goLoop n) trivial (.here ⟨h.goLoop n, ?_⟩)
  change (p.goLoop n).loops = []
  rw [goLoop_waiting hloops]
  exact congrArg Interplay.loops (endTurn_off (p := { p with scene := (quit.step p.scene).2 }) rfl
    hloops)

theorem ends_wake (hloops : p.loops = [⟨n, .waiting wake⟩]) : CanEnd p := by
  refine h.further (n := n) (.waiting quit) ?_ fun q hq => hq.ends_quit
  rw [goLoop_waiting hloops, wake_eq, step_update, h.isStopping hloops]
  exact put_loops hloops

theorem ends_wait {due : Nat} (hloops : p.loops =
    [⟨n, .waiting (.ask (.wait ⟨some due, Schedule.isStopping⟩) fun _ => wake)⟩]) : CanEnd p := by
  refine h.further (n := n) (.waiting wake) ?_ fun q hq => hq.ends_wake
  rw [goLoop_waiting hloops, step_ready (by
    simp [Ask.hasToWait, Wait.isOver, h.isStopping hloops])]
  exact put_loops hloops

theorem ends_tick (hloops : p.loops = [⟨n, .waiting tick⟩]) : CanEnd p := by
  obtain ⟨t, htable, -⟩ := h.holds.follows hloops
  refine h.further (n := n) (.waiting (.ask (.wait ⟨some t.due, Schedule.isStopping⟩)
    fun _ => wake)) ?_ fun q hq => hq.ends_wait
  rw [goLoop_waiting hloops, tick_eq, step_update, htable]
  exact put_loops hloops

/-! ### In a reload -/

theorem ends_cleared (hloops : p.loops =
    [⟨n, .wrecked (change fun m => { m with timetable := none })⟩]) : CanEnd p := by
  refine .step (m := .goLoop n) trivial (.here ⟨h.goLoop n, ?_⟩)
  change (p.goLoop n).loops = []
  rw [goLoop_wrecked hloops]
  exact congrArg Interplay.loops (endTurn_off (p := { p with scene := ⟨p.scene.world,
    { p.scene.memory with timetable := none }⟩ }) rfl hloops)

theorem ends_wreck (hloops : p.loops = [⟨n, .wrecked scheduleWreck⟩]) : CanEnd p := by
  obtain ⟨t, htable, -⟩ := h.holds.follows hloops
  refine h.further (n := n) (.wrecked (change fun m => { m with timetable := none })) ?_
    fun q hq => hq.ends_cleared
  rw [goLoop_wrecked hloops, scheduleWreck_eq, step_ready (by
    simp [Ask.hasToWait, Wait.isOver, htable, h.stopping htable])]
  exact put_loops hloops

/-- The next step is the last one of the reload. -/
theorem ends_last {rest : Program V (Except Error ReloadResult)} {e : Except Overflow _}
    (hloops : p.loops = [⟨n, .reloading rest⟩]) (hend : (rest.step p.scene).1.ending? = some e) :
    CanEnd p := by
  obtain ⟨t, htable, hfollows⟩ := h.holds.follows hloops
  obtain ⟨-, hkeeps, -⟩ := hfollows.stage.of_reloading
  have htable' : (rest.step p.scene).2.memory.timetable = some t :=
    (hkeeps.step p.scene).2.trans htable
  have hgo := goLoop_reloading hloops
  unfold Interplay.reloaded at hgo
  rw [hend] at hgo
  cases e with
  | ok r =>
    refine h.further (n := n) (.waiting tick) ?_ fun q hq => hq.ends_tick
    rw [hgo]
    exact (congrArg Interplay.loops (endTurn_on htable')).trans (put_loops hloops)
  | error o =>
    refine h.further (n := n) (.wrecked scheduleWreck) ?_ fun q hq => hq.ends_wreck
    rw [hgo]
    exact put_loops hloops

/-- A request of the reload is answered, and what is left of it can come to its end. -/
theorem ends_answered {q : Ask V} {next : Answer q → Program V (Except Error ReloadResult)}
    (hloops : p.loops = [⟨n, .reloading (.ask q next)⟩]) (hready : q.hasToWait p.scene = false)
    (hends : ∀ a (p' : Interplay V), Awaits p' → p'.loops = [⟨n, .reloading (next a)⟩] →
      CanEnd p') : CanEnd p := by
  have hstep := step_ready hready next
  cases hend : (next (q.perform p.scene).1).ending? with
  | some e => exact h.ends_last hloops (by rw [hstep]; exact hend)
  | none =>
    refine h.further (n := n) (.reloading (next (q.perform p.scene).1)) ?_ (hends _)
    rw [goLoop_reloading hloops, hstep, Interplay.reloaded, hend]
    exact put_loops hloops

theorem ends_reload {rest : Program V (Except Error ReloadResult)}
    (hloops : p.loops = [⟨n, .reloading rest⟩]) : CanEnd p := by
  induction rest generalizing p with
  | done r => exact h.ends_last hloops rfl
  | ask q next ih =>
    obtain ⟨t, -, hfollows⟩ := h.holds.follows hloops
    obtain ⟨-, -, htimed⟩ := hfollows.stage.of_reloading
    cases hq : q.overflow? with
    | some o =>
      refine h.ends_last (e := .error o) hloops ?_
      have hwait : q.hasToWait p.scene = true := by
        cases q <;> first | rfl | cases hq
      rw [step_waiting hwait, ending?, hq]
      rfl
    | none =>
      -- whatever is waited for comes with time
      obtain ⟨ms, hready⟩ := htimed.1.over hq p.scene
      exact .step (m := .later ms) trivial ((h.later ms).ends_answered hloops hready
        fun a _ hp' => ih a hp')

/-! ### Anywhere -/

theorem ends_move {time : Nat} (hloops : p.loops = [⟨n, .waiting (.ask (.update fun m =>
    { m with timetable := m.timetable.map (·.next time) }) fun _ => .done true)⟩]) : CanEnd p := by
  refine h.further (n := n) (.reloading reloadAll.outcome) ?_ fun q hq => hq.ends_reload
  rw [goLoop_waiting hloops, step_update]
  exact put_loops hloops

theorem ends_strike (hloops : p.loops = [⟨n, .waiting strike⟩]) : CanEnd p := by
  refine h.further (n := n) (.waiting (.ask (.update fun m =>
    { m with timetable := m.timetable.map (·.next p.scene.world.now) }) fun _ => .done true)) ?_
    fun q hq => hq.ends_move
  rw [goLoop_waiting hloops, strike_eq, step_now]
  exact put_loops hloops

/-- While a stop waits, the loop can come to its end from wherever it is. -/
theorem ends : CanEnd p := by
  have hat := h.holds.loops
  generalize p.scene.memory.timetable = table at hat
  generalize hloops : p.loops = loops at hat
  cases hat with
  | off => exact .here ⟨h, hloops⟩
  | @on t n stage hfollows =>
    have hstage := hfollows.stage
    generalize p.history.reloading = busy at hstage
    cases hstage with
    | reloading => exact h.ends_reload hloops
    | wrecked hwreck =>
      cases hwreck with
      | waits => exact h.ends_wreck hloops
      | quits => exact h.ends_cleared hloops
    | waiting hwaits =>
      cases hwaits with
      | begins => exact h.ends_tick hloops
      | waits => exact h.ends_wait hloops
      | wakes => exact h.ends_wake hloops
      | quits => exact h.ends_quit hloops
      | strikes => exact h.ends_strike hloops
      | moves => exact h.ends_move hloops

end Awaits

/-! ## A stop -/

/-- The stop can return. -/
def CanReturn (p : Interplay V) : Prop :=
  MayReach Interplay.move Move.IsStep p fun q => q.history.head? = some (.replied .stop .done)

theorem returns_done (hr : p.request = some (.stop, .done .done)) : CanReturn p := by
  refine .step (m := .goCaller) trivial (.here ?_)
  change p.goCaller.history.head? = _
  unfold Interplay.goCaller
  rw [hr]
  rfl

theorem Awaits.returns (h : Awaits p) : CanReturn p := by
  refine h.ends.trans ?_
  rintro q ⟨hq, hloops⟩
  have htable : q.scene.memory.timetable = none := by
    have hat := hq.holds.loops
    rw [hloops] at hat
    generalize q.scene.memory.timetable = table at hat
    cases hat
    rfl
  refine .step (m := .goCaller) trivial (returns_done ?_)
  change q.goCaller.request = _
  rw [goCaller_ask hq.request, step_ready (by simp [Ask.hasToWait, Wait.isOver, htable])]
  exact congrArg Interplay.request (launch_same _)

/-- **A stop that has been called can return**, wherever the caller and the loop are. -/
theorem returns_of_stop (b : Blueprint V) (w : World V) (moves : List (Move V))
    (hcurrent : ((Interplay.build b w).play moves).history.current? = some .stop) :
    CanReturn ((Interplay.build b w).play moves) := by
  have h := (holds_build b w).play moves
  generalize (Interplay.build b w).play moves = p at h hcurrent
  obtain ⟨⟨r, rest⟩, hr, hstop⟩ := Option.map_eq_some_iff.1 (h.current.trans hcurrent)
  obtain rfl : r = .stop := hstop
  have hat := h.caller .stop rest hr
  generalize p.scene.memory.timetable = table at hat
  cases hat with
  | other _ hstop => exact absurd rfl hstop
  | stops =>
    refine .step (m := .goCaller) trivial (Awaits.returns ⟨h.goCaller, ?_⟩)
    change p.goCaller.request = _
    rw [stop_program_eq] at hr
    rw [goCaller_ask hr, step_update]
    exact congrArg Interplay.request (launch_of_none (setUp?_stopped p.scene.memory.timetable))
  | awaits => exact Awaits.returns ⟨h, hr⟩
  | stopped => exact returns_done hr

end CacheLayer.Schedule
