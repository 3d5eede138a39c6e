/-
When nothing fails and nobody else touches cache or source, the cache and the
source of a lane agree once it is drained, except on keys that have strayed
(`History.strayed`): the row of such a key was loaded, and stored in the cache,
before the newest change of the key had been sent. Reads do not look at what is
pending, so this can happen (`not_agrees_after_delete`).

Main statement: `play_agrees`.
-/
import CacheLayer.Proofs.Strategy.Transparent
import CacheLayer.Proofs.WriteBehind.Heed

namespace CacheLayer.WriteBehind

variable {V α : Type} {m : Memory V} {i : Nat} {original : KeyMap V} {ph : Phases V}
  {mark : Mark V}

/-- A move of a caller that reads and writes, of the worker, or of the clock. -/
def Move.IsPlain (m : Memory V) : Move V → Prop
  | .ask (.call c) => c.Codes m
  | .go _ | .later _ => True
  | _ => False

theorem Move.IsPlain.install {mv : Move V} (h : mv.IsPlain m) {policy : Policy}
    {life : Option Nat} {capacity : Nat} :
    mv.IsPlain (Strategy.install policy life capacity m) := by
  cases mv with
  | ask q =>
    cases q with
    | call c => cases c <;> exact h
    | _ => cases h
  | outside w m => cases h
  | _ => trivial

/-- The caller's request, if it is at one, is a call that heeds the cache. -/
def CallerHeeds (m : Memory V) (original : KeyMap V) (p : Interplay V) (mark : Mark V) : Prop :=
  match p.request with
  | none => mark = .calm
  | some (q, program) => ∃ c, q = .call c ∧
      Heeds p.lane m original program (fun reply mark => mark.Ends c reply) mark

/-- The cache is in good order. -/
structure Heeding (m : Memory V) (original : KeyMap V) (mark : Mark V) (p : Interplay V) : Prop where
  inForce : m.usesLane p.lane = true
  cached : Cached m original mark p.record
  caller : CallerHeeds m original p mark
  worker : p.turn.Each (Ask.IsAside p.lane)

/-! ## Steps -/

theorem step_heeds {r : Record V} {program : Program V α} {P : α → Mark V → Prop}
    (hr : Valid i original ph r) (hc : Cached m original mark r)
    (hp : Heeds i m original program P mark) :
    ∃ mark', Cached m original mark' (r.step i .caller program).2 ∧
      Heeds i m original (r.step i .caller program).1 P mark' := by
  cases program with
  | done a => exact ⟨mark, hc, hp⟩
  | ask q next =>
    cases hwait : q.hasToWait r.scene with
    | true =>
      rw [Record.step_waiting hwait]
      exact ⟨mark, hc, hp⟩
    | false =>
      rw [Record.step_ready hwait]
      exact hp ph r hr hc

theorem step_aside {r : Record V} {program : Program V α} (side : Side)
    (hc : Cached m original mark r) (hp : program.Each (Ask.IsAside i)) :
    Cached m original mark (r.step i side program).2 ∧
      (r.step i side program).1.Each (Ask.IsAside i) := by
  cases program with
  | done a => exact ⟨hc, hp⟩
  | ask q next =>
    cases hwait : q.hasToWait r.scene with
    | true =>
      rw [Record.step_waiting hwait]
      exact ⟨hc, hp⟩
    | false =>
      rw [Record.step_ready hwait]
      exact ⟨hc.perform hp.1, hp.2 _⟩

namespace Heeding

variable {p : Interplay V}

theorem goCaller (h : Heeding m original mark p) (hgoing : Going original ph p) :
    ∃ mark', Heeding m original mark' p.goCaller := by
  have hcaller := h.caller
  unfold CallerHeeds at hcaller
  unfold Interplay.goCaller
  cases hq : p.request with
  | none => exact ⟨mark, h⟩
  | some request =>
    obtain ⟨q, program⟩ := request
    rw [hq] at hcaller
    obtain ⟨c, rfl, hp⟩ := hcaller
    cases program with
    | done reply => exact ⟨.calm, h.inForce, h.cached.replied hp, rfl, h.worker⟩
    | ask ask next =>
      obtain ⟨mark', hc', hp'⟩ := step_heeds hgoing.valid h.cached hp
      exact ⟨mark', h.inForce, hc', ⟨c, rfl, hp'⟩, h.worker⟩

theorem goWorker (h : Heeding m original mark p) : Heeding m original mark p.goWorker := by
  have hworker := h.worker
  unfold Interplay.goWorker
  cases hturn : p.turn with
  | done a =>
    show Heeding m original mark
      (if (p.record.scene.memory.lane p.lane).ended then p else { p with turn := workerTurn p.lane })
    split
    · exact h
    · exact ⟨h.inForce, h.cached, h.caller, aside_workerTurn⟩
  | ask q next =>
    rw [hturn] at hworker
    obtain ⟨hc, hp⟩ := step_aside .worker h.cached hworker
    exact ⟨h.inForce, hc, h.caller, hp⟩

theorem move (h : Heeding m original mark p) (hgoing : Going original ph p)
    (horiginal : ∀ key v, original.get? key = some v → Client.Codes m key v) {mv : Move V}
    (hmv : mv.IsPlain m) : ∃ mark', Heeding m original mark' (p.move mv) := by
  cases mv with
  | ask q =>
    cases q with
    | call c =>
      cases hfree : p.request.isNone && p.record.scene.memory.usesLane p.lane with
      | false => exact ⟨mark, by simpa [Interplay.move, hfree] using h⟩
      | true =>
        have hcalm : mark = .calm := by
          have hcaller := h.caller
          rwa [CallerHeeds, Option.isNone_iff_eq_none.1 (Bool.and_eq_true_iff.1 hfree).1] at hcaller
        subst hcalm
        refine ⟨Mark.before c, ?_⟩
        simp only [Interplay.move, hfree, if_true]
        exact ⟨h.inForce, h.cached.asked hmv, ⟨c, rfl, heeds_call h.inForce horiginal hmv⟩, h.worker⟩
    | _ => cases hmv
  | go side =>
    cases side with
    | caller => exact h.goCaller hgoing
    | worker => exact ⟨mark, h.goWorker⟩
  | later ms => exact ⟨mark, h.inForce, h.cached.later ms, h.caller, h.worker⟩
  | outside w m => cases hmv

theorem play (h : Heeding m original mark p) (hgoing : Going original ph p)
    (horiginal : ∀ key v, original.get? key = some v → Client.Codes m key v)
    {moves : List (Move V)} (hmoves : ∀ mv ∈ moves, mv.IsPlain m) :
    ∃ mark', Heeding m original mark' (p.play moves) := by
  induction moves generalizing p ph mark with
  | nil => exact ⟨mark, h⟩
  | cons mv moves ih =>
    obtain ⟨mark', h'⟩ := h.move hgoing horiginal (hmoves mv List.mem_cons_self)
    obtain ⟨ph', hgoing', -⟩ := hgoing.move mv
    exact ih h' hgoing' fun mv' hmv' => hmoves mv' (List.mem_cons_of_mem _ hmv')

end Heeding

theorem heeding_start {life : Option Nat} {capacity : Nat} {w : World V} (hw : w.Smooth)
    (hempty : w.store.entries = KeyMap.empty) :
    Heeding (Strategy.install .writeBehind life capacity m) w.rows .calm
      (Interplay.start life capacity w m) where
  inForce := by simp [Strategy.install, Memory.usesLane, Interplay.start]
  cached := by
    refine ⟨hw, ⟨{}, _, rfl⟩, by rintro x ⟨⟩, by rintro s ⟨⟩,
      fun key e hl => ?_, trivial, fun older key reply hs => ?_⟩
    · have he := Store.get?_of_live? hl
      rw [show (Interplay.start life capacity w m).record.scene.world.store.entries =
        KeyMap.empty from hempty] at he
      cases he
    · simp [Interplay.start] at hs
  caller := rfl
  worker := aside_workerTurn

/-! ## Agreement -/

/-- A caller that has changed the cache but has not issued the change is busy with its key. -/
theorem allows_of_not_busy {p : Interplay V} (hgoing : Going original ph p)
    (h : Heeding m original mark p) {key : String} (hbusy : p.busyKey? ≠ some key) {v : V}
    (hallows : mark.Allows original p.record.history key v) :
    p.record.history.Fits original key (some v) := by
  cases mark with
  | ready c =>
    have hwish : p.record.history.wish? = some c := h.cached.mark.1
    have hgo := hgoing.caller
    have hcaller := h.caller
    unfold CallerGoesOn at hgo
    unfold CallerHeeds at hcaller
    cases hq : p.request with
    | none =>
      rw [hq] at hcaller
      cases hcaller
    | some request =>
      obtain ⟨q, program⟩ := request
      rw [hq] at hgo
      have hchange : q.change? = some c := hgo.1.symm.trans hwish
      have hkey : c.key ≠ key := by
        intro hkey
        exact hbusy (by simp [Interplay.busyKey?, hq, hchange, hkey])
      simpa [Mark.Allows, hkey] using hallows
  | _ => exact hallows

/-- **Agreement.** Nothing fails, the cache is empty at first, nobody else touches cache or source,
and values are read back as they are. When the lane is drained, every live entry of a key that the
caller is not at holds the row of the key, unless the key has strayed. A change that was
acknowledged was issued, and every read replies what the last change of its key says that was
issued, or else the first row, unless the key had strayed. -/
theorem play_agrees (life : Option Nat) (capacity : Nat) {w : World V} {m : Memory V}
    {moves : List (Move V)} (hw : w.Smooth) (hempty : w.store.entries = KeyMap.empty)
    (hrows : ∀ key v, w.rows.get? key = some v → Client.Codes m key v)
    (hmoves : ∀ mv ∈ moves, mv.IsPlain m) :
    let p := (Interplay.start life capacity w m).play moves
    (p.IsDrained → ∀ key, p.busyKey? ≠ some key → p.record.history.strayed key = false →
      ∀ e, p.record.live? key = some e →
        ∃ v, Client.Holds m key e v ∧ p.record.scene.world.rows.get? key = some v) ∧
    (∀ older c d, (.replied (.call c) .done :: older) <:+ p.record.history → c.change? = some d →
      ∃ number, History.hand? .caller older = some (number, d) ∧
        (number, d) ∈ p.record.history.issues) ∧
    ∀ older key reply, (.replied (.call (.read key)) reply :: older) <:+ p.record.history →
      History.strayed key older = false →
        reply = Strategy.Reply.lookup key (intended w.rows key (History.issues older)) := by
  intro p
  obtain ⟨ph, hgoing⟩ := going_play life capacity w m moves
  have hplain : ∀ mv ∈ moves, mv.IsPlain (Strategy.install .writeBehind life capacity m) :=
    fun mv hmv => (hmoves mv hmv).install
  have hhalt : .ask (.shutdown false) ∉ moves := fun hmem => hmoves _ hmem
  obtain ⟨mark, h⟩ := (heeding_start hw hempty).play (going_start life capacity w m) hrows hplain
  refine ⟨fun hdrained key hbusy hstrayed e hl => ?_,
    fun older c d hs hd => issued_of_done hgoing hs hd, fun older key reply hs hstrayed => ?_⟩
  · obtain ⟨v, hv, hallows⟩ := h.cached.entries key e hl
    have hintended : some v = intended w.rows key p.record.history.issues :=
      allows_of_not_busy hgoing h hbusy hallows hstrayed
    -- the entry and the row both hold what the key is intended to hold
    have hsent : ∀ x, newest? key p.record.history.issues = some x →
        ∃ s ∈ p.record.history.sendings, s.number = x.1 := by
      intro x hnewest
      obtain ⟨s, hs, hnumber, -⟩ := wasSent_of_newest hgoing (not_stopping_of_play hgoing hhalt)
        hdrained hbusy hnewest
      exact ⟨s, hs, hnumber⟩
    have hrow : p.record.scene.world.rows.get? key = intended w.rows key p.record.history.issues :=
      hgoing.valid.sound.books.rows_intended h.cached.went hsent
    exact ⟨v, hv, hrow.trans hintended.symm⟩
  · obtain ⟨row, hfits, hreply⟩ := h.cached.replies older key reply hs
    rw [hreply, hfits hstrayed]

/-- A call, so many steps of the worker, a read of the key, and more steps of the worker. -/
def readAfter (c : Strategy.Call UInt8) (before after : Nat) : List (Move UInt8) :=
  .ask (.call c) :: List.replicate 40 (.go .caller) ++ List.replicate before (.go .worker) ++
  .ask (.call (.read "k")) :: List.replicate 40 (.go .caller) ++
  List.replicate after (.go .worker)

theorem isPlain_of_readAfter {c : Strategy.Call UInt8} (hc : c.Codes Client.byteMemory)
    (before after : Nat) : ∀ mv ∈ readAfter c before after, mv.IsPlain Client.byteMemory := by
  intro mv hmv
  simp only [readAfter, List.cons_append, List.append_assoc, List.mem_cons, List.mem_append,
    List.mem_replicate] at hmv
  rcases hmv with rfl | ⟨-, rfl⟩ | ⟨-, rfl⟩ | rfl | ⟨-, rfl⟩ | ⟨-, rfl⟩
  · exact hc
  all_goals trivial

theorem smooth_oneRow : Strategy.oneRow.Smooth := ⟨fun _ => rfl, fun _ => rfl, rfl, fun _ => rfl⟩

theorem play_agrees_after_write :
    let p := (Interplay.start none 1 Strategy.oneRow Client.byteMemory).play
      (readAfter (.write "k" 9 none) 40 0)
    p.IsDrained ∧ p.busyKey? ≠ some "k" ∧ p.record.history.strayed "k" = false ∧
      (p.record.live? "k").isSome = true ∧
      ∀ e, p.record.live? "k" = some e →
        ∃ v, Client.Holds Client.byteMemory "k" e v ∧
          p.record.scene.world.rows.get? "k" = some v := by
  have hcodes : ∀ key v, Client.Codes Client.byteMemory key v := Client.codes_byte rfl rfl
  have hdrained : ((Interplay.start none 1 Strategy.oneRow Client.byteMemory).play
      (readAfter (.write "k" 9 none) 40 0)).IsDrained := .inl (by decide +kernel)
  have hbusy : ((Interplay.start none 1 Strategy.oneRow Client.byteMemory).play
      (readAfter (.write "k" 9 none) 40 0)).busyKey? ≠ some "k" := by decide +kernel
  have hstrayed : ((Interplay.start none 1 Strategy.oneRow Client.byteMemory).play
      (readAfter (.write "k" 9 none) 40 0)).record.history.strayed "k" = false := by decide +kernel
  have hlive : (((Interplay.start none 1 Strategy.oneRow Client.byteMemory).play
      (readAfter (.write "k" 9 none) 40 0)).record.live? "k").isSome = true := by decide +kernel
  have hcall : (Strategy.Call.write "k" 9 none).Codes Client.byteMemory := hcodes "k" 9
  have hagrees := play_agrees none 1 smooth_oneRow rfl (fun key v _ => hcodes key v)
    (isPlain_of_readAfter hcall 40 0)
  exact ⟨hdrained, hbusy, hstrayed, hlive, hagrees.1 hdrained "k" hbusy hstrayed⟩

/-- The key is deleted, and read before the worker has come to it: the old row gets into the cache
and stays there. -/
theorem not_agrees_after_delete :
    ¬ ∀ (capacity : Nat) (w : World UInt8) (moves : List (Move UInt8)), w.Smooth →
      w.store.entries = KeyMap.empty → (∀ mv ∈ moves, mv.IsPlain Client.byteMemory) →
      let p := (Interplay.start none capacity w Client.byteMemory).play moves
      p.IsDrained → p.busyKey? = none → ∀ key e, p.record.live? key = some e →
        ∃ v, Client.Holds Client.byteMemory key e v ∧
          p.record.scene.world.rows.get? key = some v := by
  intro hall
  have hdrained : ((Interplay.start none 1 Strategy.oneRow Client.byteMemory).play
      (readAfter (.delete "k") 0 60)).IsDrained := .inl (by decide +kernel)
  have hbusy : ((Interplay.start none 1 Strategy.oneRow Client.byteMemory).play
      (readAfter (.delete "k") 0 60)).busyKey? = none := by decide +kernel
  have hlive : (((Interplay.start none 1 Strategy.oneRow Client.byteMemory).play
      (readAfter (.delete "k") 0 60)).record.live? "k").isSome = true := by decide +kernel
  have hgone : (((Interplay.start none 1 Strategy.oneRow Client.byteMemory).play
      (readAfter (.delete "k") 0 60)).record.scene.world.rows.get? "k").isNone = true := by
    decide +kernel
  have hcall : (Strategy.Call.delete "k").Codes Client.byteMemory := trivial
  obtain ⟨e, he⟩ := Option.isSome_iff_exists.1 hlive
  obtain ⟨v, -, hrow⟩ := hall 1 Strategy.oneRow (readAfter (.delete "k") 0 60) smooth_oneRow rfl
    (isPlain_of_readAfter hcall 0 60) hdrained hbusy "k" e he
  rw [hrow] at hgone
  cases hgone

end CacheLayer.WriteBehind
