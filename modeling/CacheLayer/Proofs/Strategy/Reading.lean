/-
What a read of a key does, before a source of which nothing is known. The cache is asked first. If
the key is live, what it holds is the answer, for better or worse, and nobody else is asked; only if
it is not, the source is asked, once, and what it loads is put into the cache, if that can be. There
is one constructor of `Reading` for each way in which this can go. That a failed look-up is never
taken for a miss is `Client.not_isMiss_found`.

Main statement: `read_consults`.
-/
import CacheLayer.Proofs.Client.Misses
import CacheLayer.Proofs.Reload.Attempts
import CacheLayer.Proofs.Strategy.Smooth

namespace CacheLayer

variable {V α : Type} {s t u : Scene V} {log log' : List (Exchange V)} {key : String}

/-! ## Requests to sources -/

/-- The event is a request to a source. -/
def Event.toSource : Event V → Bool
  | .asked _ _ _ | .judged _ _ _ => true
  | .sent _ _ => false

/-- The requests to sources in a course, with their answers. -/
def asked (log : List (Exchange V)) : List (Event V) := (said log).filter Event.toSource

theorem asked_append (log log' : List (Exchange V)) :
    asked (log ++ log') = asked log ++ asked log' := by
  rw [asked, said_append, List.filter_append]
  rfl

theorem asked_of_said {e : Event V} (h : said log = [e]) (he : e.toSource = true) :
    asked log = [e] := by
  rw [asked, h, List.filter_cons_of_pos he, List.filter_nil]

/-- An answer of a source stands in the course. -/
theorem exists_of_asked {id : SourceId} {c : Source.Call V} {answer : Except Error c.Reply}
    (h : .asked id c answer ∈ asked log) : ∃ time, ⟨time, .request id c, answer⟩ ∈ log := by
  obtain ⟨x, hx, hevent⟩ := List.mem_filterMap.1 (List.mem_filter.1 h).1
  obtain ⟨time, q, a⟩ := x
  cases q with
  | request id' c' =>
    cases hevent
    exact ⟨time, hx⟩
  | judge | command => cases hevent
  | _ => cases hevent

/-- The scene answers the request. -/
abbrev Ask.isLocal (q : Ask V) : Prop := q.toSource = false

/-- A program that asks no source has one course. -/
theorem Program.Course.of_local {p : Program V α} {r : α} (h : p.Course s log r t)
    (hp : p.Each Ask.isLocal) : p.run s = (r, t) ∧ asked log = [] := by
  refine ⟨h.eq_run hp, List.filter_eq_nil_iff.2 fun e he => ?_⟩
  obtain ⟨x, hx, hevent⟩ := List.mem_filterMap.1 he
  have hlocal : x.ask.isLocal := h.forall_ask hp x hx
  obtain ⟨time, q, a⟩ := x
  cases q with
  | latency | request | judge => cases hlocal
  | command c =>
    cases hevent
    exact Bool.false_ne_true
  | _ => cases hevent

/-! ## What sources hold -/

/-- What a source holds, however often it was asked. -/
def Site.holdings (site : Site V) : Source V := { site.source with counts := {} }

/-- The event does not change what a source holds. -/
def Event.sparesSources : Event V → Bool
  | .asked _ (.store _ _) _ | .asked _ (.remove _) _ => false
  | _ => true

theorem Site.holdings_serve (site : Site V) {c : Source.Call V}
    (h : ∀ id answer, (Event.asked id c answer).sparesSources = true) :
    (site.serve c).2.holdings = site.holdings := by
  unfold Site.serve
  rcases nextFault site.scripts c.method with ⟨fault, scripts⟩
  cases fault with
  | some e => rfl
  | none =>
    cases c with
    | store | remove => cases h .main (.ok ())
    | _ => rfl

/-- Sources hold what they held, unless one is told to store or to remove something. -/
theorem Program.holdings_run {p : Program V α} (h : ∀ e ∈ asked (p.trace s), e.sparesSources = true)
    (id : SourceId) : ((p.run s).2.world.sites id).holdings = (s.world.sites id).holdings := by
  induction p generalizing s with
  | done a => rfl
  | ask q next ih =>
    have hrest : ∀ e ∈ asked ((next (q.perform (q.sleep s)).1).trace (q.perform (q.sleep s)).2),
        e.sparesSources = true := fun e he => h e (by
      rw [trace, ← List.singleton_append, asked_append]
      exact List.mem_append_right _ he)
    refine (ih _ hrest).trans ?_
    cases q with
    | request id' c =>
      have hc : ∀ id answer, (Event.asked id c answer).sparesSources = true := fun id answer => by
        have hfirst := h (.asked id' c (s.world.request id' c).1) (List.mem_cons_self)
        cases c <;> first | rfl | cases hfirst
      change ((if id = id' then ((s.world.sites id').serve c).2 else s.world.sites id).holdings) = _
      split
      · next hid => rw [hid, Site.holdings_serve _ hc]
      · rfl
    | command c =>
      change ((s.world.command c).2.sites id).holdings = _
      unfold World.command
      split <;> rfl
    | health =>
      change (s.world.checkHealth.2.sites id).holdings = _
      unfold World.checkHealth
      split <;> rfl
    | wait w =>
      simp only [Ask.perform, Ask.sleep]
      split <;> rfl
    | _ => rfl

/-- The answers that the scene gives, but every load of a single key is answered as said. -/
def Ask.replying (s : Scene V) (answer : Except Error (Option V)) : (q : Ask V) → Answer q
  | .request _ (.loadOne _) => answer
  | q => (q.perform s).1

/-! ## Asking the cache -/

namespace Client

theorem course_get {f : Format α} {r : Except Error α} (hget : s.world.scripts .get = [])
    (h : (get f key).outcome.Course s log r t) :
    r = found s.memory f key (s.live? key) ∧
      t = s.withStore (s.world.store.purge s.world.now key) ∧ asked log = [] := by
  obtain ⟨hrun, hnone⟩ := h.of_local (each_get (Q := Ask.isLocal) rfl rfl f)
  rw [run_get_found hget] at hrun
  obtain ⟨rfl, rfl⟩ := Prod.mk.inj hrun
  exact ⟨rfl, rfl, hnone⟩

/-- A value is put into the cache, unless it cannot be encoded or the store does not take it. -/
theorem course_set {f : Format α} {a : α} {life : Option Nat} {r : Except Error Unit}
    (h : (set f key a life).outcome.Course s log r t) :
    t.world.now = s.world.now ∧ asked log = [] ∧
      ((∃ b, coded s.memory f s.world.drawn key a = .ok b ∧
          (nextFault s.world.scripts .set).1 = none ∧
          t.world.store = s.world.store.set s.world.now key b life) ∨
        ((∃ e, coded s.memory f s.world.drawn key a = .error e) ∨
            ∃ e, (nextFault s.world.scripts .set).1 = some e) ∧
          t.world.store = s.world.store) := by
  obtain ⟨hrun, hnone⟩ := h.of_local
    (each_set (Q := Ask.isLocal) rfl (fun _ => rfl) (fun _ _ => rfl) f a life)
  rw [run_set] at hrun
  cases hcoded : coded s.memory f s.world.drawn key a with
  | error e =>
    rw [hcoded] at hrun
    obtain ⟨-, rfl⟩ := Prod.mk.inj hrun
    exact ⟨rfl, hnone, .inr ⟨.inl ⟨e, rfl⟩, rfl⟩⟩
  | ok b =>
    rw [hcoded] at hrun
    obtain ⟨-, rfl⟩ := Prod.mk.inj hrun
    simp only [World.command, Store.Call.method]
    rcases hfault : nextFault s.world.scripts .set with ⟨fault, scripts⟩
    cases fault with
    | none => exact ⟨rfl, hnone, .inl ⟨b, rfl, rfl, rfl⟩⟩
    | some e => exact ⟨rfl, hnone, .inr ⟨.inr ⟨e, rfl⟩, rfl⟩⟩

end Client

namespace Strategy

/-! ## The end of a call -/

theorem course_record {count : StrategyStats → StrategyStats} {n : Note V}
    (h : (record count n).Course s log () t) :
    t.world.store = s.world.store ∧ t.world.now = s.world.now ∧ asked log = [] := by
  have hlocal : (record count n).Each Ask.isLocal :=
    Program.each_bind (Program.each_bind (Program.each_lift rfl) fun _ => Program.each_pure _)
      fun _ => Program.each_lift rfl
  obtain ⟨hrun, hnone⟩ := h.of_local hlocal
  rw [run_record] at hrun
  obtain ⟨-, rfl⟩ := Prod.mk.inj hrun
  exact ⟨rfl, rfl, hnone⟩

theorem course_fail {e : Error} {r : Except Error α}
    (h : (fail key e : Action V α).outcome.Course s log r t) :
    r = .error e ∧ t.world.store = s.world.store ∧ t.world.now = s.world.now ∧ asked log = [] := by
  obtain ⟨log₁, ⟨⟩, s₁, log₂, hrecord, hthrow, rfl⟩ := Action.course_always_then h
  obtain ⟨hstore, hnow, hnone⟩ := course_record hrecord
  obtain ⟨rfl, rfl, rfl⟩ := hthrow.of_pure
  rw [List.append_nil]
  exact ⟨rfl, hstore, hnow, hnone⟩

/-- The time is taken, and then something is counted and noted. -/
theorem course_finish {start : Nat} {count : Nat → StrategyStats → StrategyStats} {n : Note V}
    (result : Except Error α) {r : Except Error α}
    (h : (do
      let elapsed ← Action.always (elapsedSince start)
      Action.always (record (count elapsed) n)
      Action.ofExcept result : Action V α).outcome.Course s log r t) :
    r = result ∧ t.world.store = s.world.store ∧ t.world.now = s.world.now ∧ asked log = [] := by
  obtain ⟨log₁, elapsed, s₁, log₂, helapsed, hrest, rfl⟩ := Action.course_always_then h
  obtain ⟨log₃, ⟨⟩, s₂, log₄, hrecord, hreturn, rfl⟩ := Action.course_always_then hrest
  have hlocal : (elapsedSince start : Program V Nat).Each Ask.isLocal :=
    Program.each_bind (Program.each_lift rfl) fun _ => Program.each_pure _
  obtain ⟨hrun, hnone⟩ := helapsed.of_local hlocal
  rw [run_elapsedSince] at hrun
  obtain ⟨-, rfl⟩ := Prod.mk.inj hrun
  obtain ⟨hstore, hnow, hnone'⟩ := course_record hrecord
  obtain ⟨rfl, rfl, rfl⟩ := hreturn.of_pure
  refine ⟨rfl, hstore, hnow, ?_⟩
  rw [asked_append, asked_append, hnone, hnone']
  rfl

/-! ## Reading -/

/-- The ways in which a read of a key can go: what is asked of sources, what the caller gets, and
what becomes of the cache. -/
inductive Reading (s t : Scene V) (key : String) : List (Event V) → Except Error V → Prop where
  /-- The key is live: it is read as what it holds, and the cache stays as it is. -/
  | live {e : Entry} (hlive : s.live? key = some e) (hstore : t.world.store = s.world.store) :
      Reading s t key [] (Client.found s.memory s.memory.format key (some e))
  /-- The source fails. -/
  | failed {e : Error} (hgone : s.live? key = none)
      (hstore : t.world.store = s.world.store.purge s.world.now key) :
      Reading s t key [.asked .main (.loadOne key) (.error e)] (.error e)
  /-- The source does not have the key either. -/
  | missing (hgone : s.live? key = none)
      (hstore : t.world.store = s.world.store.purge s.world.now key) :
      Reading s t key [.asked .main (.loadOne key) (.ok none)] (.error (.notFound key))
  /-- What the source has is put into the cache. -/
  | stored {v : V} {b : Bytes} (hgone : s.live? key = none)
      (hcoded : Client.coded s.memory s.memory.format s.world.drawn key v = .ok b)
      (htaken : (nextFault s.world.scripts .set).1 = none)
      (hstore : t.world.store = (s.world.store.purge s.world.now key).set t.world.now key b
        s.memory.strategy.life) :
      Reading s t key [.asked .main (.loadOne key) (.ok (some v))] (.ok v)
  /-- What the source has cannot be put into the cache. -/
  | unstored {v : V} (hgone : s.live? key = none)
      (hwhy : (∃ e, Client.coded s.memory s.memory.format s.world.drawn key v = .error e) ∨
        ∃ e, (nextFault s.world.scripts .set).1 = some e)
      (hstore : t.world.store = s.world.store.purge s.world.now key) :
      Reading s t key [.asked .main (.loadOne key) (.ok (some v))] (.ok v)

/-- A key that is not in the cache is loaded, and stored if that can be. -/
theorem course_load {start : Nat} {r : Except Error V} (hgone : s.live? key = none)
    (h : (load key start).outcome.Course (s.withStore (s.world.store.purge s.world.now key)) log r t) :
    Reading s t key (asked log) r := by
  obtain ⟨log₁, answer, s₁, log₂, hrequest, hrest, rfl⟩ := Action.course_always_then h
  obtain ⟨hidles, hdrawn, hsaid⟩ := Action.course_request hrequest
  rw [asked_append, asked_of_said hsaid rfl]
  cases answer with
  | error e =>
    obtain ⟨rfl, hstore, -, hnone⟩ := course_fail hrest
    rw [hnone]
    exact .failed hgone (hstore.trans hidles.store)
  | ok loaded =>
    cases loaded with
    | none =>
      obtain ⟨rfl, hstore, -, hnone⟩ := course_finish (.error (.notFound key)) hrest
      rw [hnone]
      exact .missing hgone (hstore.trans hidles.store)
    | some v =>
      obtain ⟨log₃, hset, rfl⟩ := Action.course_memory_then hrest
      obtain ⟨log₄, ⟨⟩, s₂, log₅, hignored, hfinish, rfl⟩ := Action.course_always_then hset
      obtain ⟨log₆, result, s₃, log₇, hset, hignore, rfl⟩ := hignored.of_bind
      obtain ⟨rfl, -, rfl⟩ := hignore.of_pure
      obtain ⟨hnow, hnone, hkept⟩ := Client.course_set hset
      obtain ⟨rfl, hstore, hnow', hnone'⟩ := course_finish (.ok v) hfinish
      have hnothing : asked (⟨s₁.world.now, .update id, s₁.memory⟩ :: (log₆ ++ [] ++ log₅)) = [] := by
        change asked (log₆ ++ [] ++ log₅) = []
        rw [List.append_nil, asked_append, hnone, hnone']
        rfl
      rw [hnothing]
      rw [hidles.memory, hdrawn, hidles.scripts, hidles.store, ← hnow, ← hnow', ← hstore] at hkept
      rcases hkept with ⟨b, hcoded, htaken, hstored⟩ | ⟨hwhy, hsame⟩
      · exact .stored hgone hcoded htaken hstored
      · exact .unstored hgone hwhy hsame

/-- A read goes in one of these ways. -/
theorem course_read {z : Serializer V} (hformat : s.memory.format = .ofSerializer z)
    (hget : s.world.scripts .get = []) {r : Except Error V}
    (h : (read key).outcome.Course s log r t) : Reading s t key (asked log) r := by
  obtain ⟨log₁, hbegun, rfl⟩ := Action.course_now_then h
  obtain ⟨log₂, hready, rfl⟩ := Action.course_memory_then hbegun
  obtain ⟨log₃, result, s₁, log₄, hlook, hrest, rfl⟩ := Action.course_always_then hready
  obtain ⟨rfl, rfl, hnone⟩ := Client.course_get hget hlook
  have hasked : asked (⟨s.world.now, .now, s.world.now⟩ ::
      ⟨s.world.now, .update id, s.memory⟩ :: (log₃ ++ log₄)) = asked log₄ := by
    change asked (log₃ ++ log₄) = asked log₄
    rw [asked_append, hnone, List.nil_append]
  rw [hasked]
  cases hlive : s.live? key with
  | none =>
    rw [hlive] at hrest
    exact course_load hlive hrest
  | some e =>
    have hsame : s.world.store.purge s.world.now key = s.world.store := Store.purge_eq_self hlive
    rw [hlive] at hrest
    cases hfound : Client.found s.memory s.memory.format key (some e) with
    | ok v =>
      rw [hfound] at hrest
      obtain ⟨rfl, hstore, -, hnone⟩ := course_finish (.ok v) hrest
      rw [hnone, ← hfound]
      exact .live hlive (hstore.trans hsame)
    | error error =>
      rw [hfound] at hrest
      have hreal : error.isMiss = false := Client.not_isMiss_found (hformat ▸ hfound)
      simp only [hreal] at hrest
      obtain ⟨rfl, hstore, -, hnone⟩ := course_fail hrest
      rw [hnone, ← hfound]
      exact .live hlive (hstore.trans hsame)

/-- Either the key is live and no source is asked, or the main source is asked for it. -/
theorem Reading.cases {events : List (Event V)} {r : Except Error V} (h : Reading s t key events r) :
    (∃ e, s.live? key = some e ∧ events = []) ∨
      s.live? key = none ∧ ∃ answer, events = [.asked .main (.loadOne key) answer] := by
  cases h with
  | live hlive => exact .inl ⟨_, hlive, rfl⟩
  | failed hgone | missing hgone | stored hgone | unstored hgone => exact .inr ⟨hgone, _, rfl⟩

/-- **Reads consult the source on a miss only.** Whatever its policy, a strategy asks the source for
a key exactly if the key is not live in the cache, whatever decoding and transformers fail with; the
caller gets what `Reading` says, and the cache changes only as it says. The source may answer what it
likes, and no source is changed by a read. -/
theorem read_consults (s : Scene V) (key : String) {z : Serializer V}
    (hformat : s.memory.format = .ofSerializer z) (hget : s.world.scripts .get = []) :
    (∀ log r t, (read key).outcome.Course s log r t →
      Reading s t key (asked log) r ∧ (asked log ≠ [] ↔ s.live? key = none)) ∧
    (∀ answer : Except Error (Option V), ∃ log r t, (read key).outcome.Course s log r t ∧
      ∀ given, .asked .main (.loadOne key) given ∈ asked log → given = answer) ∧
    ∀ id, (((read key).outcome.run s).2.world.sites id).holdings = (s.world.sites id).holdings := by
  have hread : ∀ log r t, (read key).outcome.Course s log r t → Reading s t key (asked log) r :=
    fun _ _ _ h => course_read hformat hget h
  refine ⟨fun log r t h => ⟨hread log r t h, ?_⟩, fun answer => ?_, fun id => ?_⟩
  · rcases (hread log r t h).cases with ⟨e, hlive, hnone⟩ | ⟨hgone, answer, hone⟩
    · simp [hnone, hlive]
    · simp [hone, hgone]
  · obtain ⟨log, r, t, hcourse, hheeds⟩ :=
      Program.exists_course (fun _ => Ask.replying s answer) (read key).outcome s []
    refine ⟨log, r, t, hcourse, fun given hgiven => ?_⟩
    obtain ⟨time, hmem⟩ := exists_of_asked hgiven
    exact Program.heeds_const hheeds _ hmem rfl
  · refine Program.holdings_run (fun e he => ?_) id
    rcases (hread _ _ _ (Program.course_run _ s)).cases with ⟨-, -, hnone⟩ | ⟨-, answer, hone⟩
    · rw [hnone] at he
      cases he
    · rw [hone, List.mem_singleton] at he
      rw [he]
      rfl

/-- A transformer that claims a miss whenever it is to restore something. -/
def evasive : Transformer where
  name := "evasive"
  priority := 0
  applies _ _ := true
  transform _ _ b := .ok b
  restore key _ := .error (.cacheMiss key)

/-- The source has another value for the key than the cache, where it was stored through the
transformer. -/
def evaded : Scene UInt8 where
  world :=
    { World.start (.ofRows (KeyMap.empty.insert "k" 2)) with
      store := Store.empty.set 0 "k" (Envelope.magic ++ [1, 7] ++ Text.utf8 "evasive" ++ [1]) none }
  memory := { Client.byteMemory with transformers := [evasive] }

theorem read_consults_evaded :
    evaded.memory.format = .ofSerializer Client.byteSerializer ∧ evaded.world.scripts .get = [] ∧
    ((read "k").outcome.run evaded).1 = .error (.transform "evasive" "Cache miss: k") ∧
    asked ((read "k").outcome.trace evaded) = [] := by
  obtain ⟨hread, -, -⟩ := read_consults evaded "k" Client.byteFormat_eq rfl
  refine ⟨Client.byteFormat_eq, rfl, rfl, ?_⟩
  have hlive : ¬ (evaded.live? "k").isNone := by decide +kernel
  have hasked := (hread _ _ _ (Program.course_run _ _)).2
  exact Decidable.of_not_not fun hsome => hlive (Option.isNone_iff_eq_none.2 (hasked.1 hsome))

end Strategy
end CacheLayer
