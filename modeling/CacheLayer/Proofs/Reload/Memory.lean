/-
What reloads do to the memory of the engine, and what they wait for. To load, to sort and to store
values is only to read it; a reload that is done with that counts itself, and this is all that it
changes (`counts_reload` and its like). So whatever of the memory is no statistics of reloads is the
same afterwards (`Program.CountsReloads.keeps`). A reload waits for nothing but time
(`timed_reloadAll`).
-/
import CacheLayer.Proofs.Program.Progress
import CacheLayer.Proofs.Reload.Requests

namespace CacheLayer

open CacheLayer.Program

variable {V α : Type}

/-- The request changes nothing in the memory but the statistics of reloads. -/
def Ask.CountsReloads : Ask V → Prop
  | .update f => ∀ m, ∃ stats, f m = { m with reloadStats := stats }
  | _ => True

/-- The program changes nothing in the memory but the statistics of reloads. -/
abbrev Program.CountsReloads (p : Program V α) : Prop := p.Each Ask.CountsReloads

theorem Program.CountsReloads.keeps {β : Type} {p : Program V α} (h : p.CountsReloads)
    {g : Memory V → β} (hg : ∀ m stats, g { m with reloadStats := stats } = g m) : p.Keeps g := by
  refine each_mono (fun q hq => ?_) h
  cases q with
  | update f =>
    intro m
    obtain ⟨stats, hf⟩ := hq m
    rw [hf, hg]
  | _ => trivial

namespace Guard

/-- A guard that lets a kind of requests pass knows nothing of memory. -/
theorem letsReload_ofKind {Q : Ask V → Prop} (hnow : Q .now) (hmemory : Q (.update id))
    (hpause : ∀ t, Q (.wait ⟨some t, fun _ => false⟩)) (hoverflow : Q (.overflow .add))
    (hnote : ∀ n, Q (.note n)) (hdraw : ∀ count, Q (.draw count)) (hcommand : ∀ c, Q (.command c))
    (hsource : ∀ q : Ask V, q.toSource = true → Q q) : (ofKind Q).LetsReload where
  now := ⟨trivial, fun _ => hnow⟩
  memory := ⟨fun _ _ => trivial, fun _ => hmemory⟩
  pause t := ⟨trivial, fun _ => hpause t⟩
  note n := ⟨trivial, fun _ => hnote n⟩
  draw count := ⟨trivial, fun _ => hdraw count⟩
  command c := ⟨trivial, fun _ => hcommand c⟩
  latency id m := ⟨trivial, fun _ => hsource (.latency id m) rfl⟩
  request id c := ⟨trivial, fun _ => hsource (.request id c) rfl⟩
  judge id v := ⟨trivial, fun _ => hsource (.judge id v) rfl⟩
  attempts _ _ _ := safe_ofKind (each_word hoverflow _ _)

end Guard

namespace Reload

/-- Until it counts itself, a reload only reads memory. -/
theorem letsReload_onlyReads : (Guard.ofKind (Ask.OnlyReads (V := V))).LetsReload :=
  Guard.letsReload_ofKind trivial (fun _ => rfl) (fun _ => trivial) trivial (fun _ => trivial)
    (fun _ => trivial) (fun _ => trivial) fun q _ => by cases q <;> trivial

theorem onlyReads_loadChunk (checkOnly : Bool) (keys : List String) :
    (loadChunk checkOnly keys : Action V ReloadResult).outcome.OnlyReads :=
  Guard.each_of_safe (letsReload_onlyReads.safe_loadChunk checkOnly keys [])

theorem letsReload_counts : (Guard.ofKind (Ask.CountsReloads (V := V))).LetsReload :=
  Guard.letsReload_ofKind trivial (fun m => ⟨m.reloadStats, rfl⟩) (fun _ => trivial) trivial
    (fun _ => trivial) (fun _ => trivial) (fun _ => trivial)
    fun q _ => by cases q <;> trivial

theorem letsCount : (Guard.ofKind (Ask.CountsReloads (V := V))).LetsCount :=
  fun _ _ => ⟨fun _ _ => trivial, fun _ _ => ⟨_, rfl⟩⟩

theorem counts_reload (key : String) : (reload key : Action V Unit).outcome.CountsReloads :=
  Guard.each_of_safe (letsReload_counts.safe_reload letsCount key [])

theorem counts_reloadBatch (keys : List String) :
    (reloadBatch keys : Action V ReloadResult).outcome.CountsReloads :=
  Guard.each_of_safe (letsReload_counts.safe_reloadBatch letsCount keys [])

theorem counts_reloadAll : (reloadAll : Action V ReloadResult).outcome.CountsReloads :=
  Guard.each_of_safe (letsReload_counts.safe_reloadAll letsCount [])

theorem timed_reloadAll : (reloadAll : Action V ReloadResult).outcome.Timed := by
  have hreload : (Guard.ofKind (Ask.IsTimed (V := V))).LetsReload :=
    Guard.letsReload_ofKind trivial trivial (fun _ => rfl) trivial (fun _ => trivial)
      (fun _ => trivial) (fun _ => trivial) fun q _ => by cases q <;> trivial
  exact Guard.each_of_safe (hreload.safe_reloadAll (fun _ _ => ⟨fun _ _ => trivial,
    fun _ => trivial⟩) [])

end Reload
end CacheLayer
