/-
Loads and the sum that they count their attempts by. If one more than the number of retries is a word,
nothing overflows in a load: no course of it makes such a request, whatever the sources and the store
answer, since no load changes the settings. So what is known of the courses of loads is known of courses
in which nothing overflows, and of checked runs.

Main statements: `Load.fits_of_course`, `Load.runChecked_act`.
-/
import CacheLayer.Proofs.Program.Checked
import CacheLayer.Proofs.Reload.Loads

namespace CacheLayer

variable {V α : Type}

/-- Nothing overflows, and the attempts of a load are a word. -/
def fitting : Guard V where
  knows m := m.reload.maxRetries + 1 < Nat.pow 2 32
  may _ q := q.Fits
  mono _ hq := hq

namespace Fitting

open CacheLayer.Guard CacheLayer.Program

variable {p : Program V α} {log : List (Exchange V)}

theorem lets_fits {q : Ask V} (hq : q.Fits) (hkeeps : q.Keeps (·.reload)) : fitting.Lets q := by
  refine ⟨?_, fun _ => hq⟩
  cases q with
  | update f =>
    intro m hm
    have hsame : (f m).reload = m.reload := hkeeps m
    change (f m).reload.maxRetries + 1 < _
    rwa [hsame]
  | _ => trivial

theorem lets_update {f : Memory V → Memory V} (h : ∀ m, (f m).reload = m.reload) :
    fitting.Lets (.update f) := lets_fits rfl h

theorem letsReload : (fitting : Guard V).LetsReload where
  now := lets_fits rfl trivial
  memory := lets_update fun _ => rfl
  pause _ := lets_fits rfl trivial
  note _ := lets_fits rfl trivial
  draw _ := lets_fits rfl trivial
  command _ := lets_fits rfl trivial
  latency _ _ := lets_fits rfl trivial
  request _ _ := lets_fits rfl trivial
  judge _ _ := lets_fits rfl trivial
  attempts m log hm := by
    rw [Reload.attempts_eq hm]
    exact safe_pure _

theorem letsCount : (fitting : Guard V).LetsCount := fun _ _ => lets_update fun _ => rfl

theorem reads : Reads (fitting : Guard V).Lets where
  now := letsReload.now
  count _ := lets_update fun _ => rfl
  note := letsReload.note
  pause := letsReload.pause
  memory := letsReload.memory
  draw := letsReload.draw
  get _ := letsReload.command _
  set _ _ _ := letsReload.command _
  latency _ := letsReload.latency _ _
  load _ := letsReload.request _ _

theorem letsLoads : (fitting : Guard V).LetsLoads where
  now := letsReload.now
  memory := letsReload.memory
  wait _ := lets_fits rfl trivial
  draw := letsReload.draw
  update _ _ hreload := lets_update hreload
  command c _ := letsReload.command c
  source q hq := by
    cases q <;> first | exact lets_fits rfl trivial | cases hq
  chunk keys log := letsReload.safe_loadChunk false keys log
  reload key log := letsReload.safe_reload letsCount key log
  reloadBatch keys log := letsReload.safe_reloadBatch letsCount keys log
  reloadAll log := letsReload.safe_reloadAll letsCount log

theorem safe_act (load : Load) (log : List (Exchange V)) : fitting.Safe log load.act.outcome :=
  letsLoads.safe_act load log fun key _ => safe_each (reads.each_read key) log

/-- No course of a program overflows that is safe. -/
theorem fits_of_safe {s t : Scene V} {r : α} (h : fitting.Safe [] p) (hcourse : p.Course s log r t)
    (hs : s.memory.reload.maxRetries + 1 < Nat.pow 2 32) : ∀ e ∈ log, e.ask.Fits := by
  intro e he
  obtain ⟨before, after, hlog⟩ := List.append_of_mem he
  exact (h.course hcourse hs).2.2 before e after hlog

end Fitting

/-- **A load overflows nowhere if one more than the number of retries is a word**, however the sources
answer. -/
theorem Load.fits_of_course (load : Load) {s t : Scene V} {log : List (Exchange V)}
    {r : Except Error Unit} (h : load.act.outcome.Course s log r t)
    (hs : s.memory.reload.maxRetries + 1 < Nat.pow 2 32) : ∀ e ∈ log, e.ask.Fits :=
  Fitting.fits_of_safe (Fitting.safe_act load []) h hs

/-- The checked run of such a load is its run without the checks. -/
theorem Load.runChecked_act (load : Load) (s : Scene V)
    (hs : s.memory.reload.maxRetries + 1 < Nat.pow 2 32) :
    load.act.outcome.runChecked s =
      (.ok (load.act.outcome.run s).1, (load.act.outcome.run s).2) :=
  Program.runChecked_of_trace (load.fits_of_course (Program.course_run _ s) hs)

end CacheLayer
