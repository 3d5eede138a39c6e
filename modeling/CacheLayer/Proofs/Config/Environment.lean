/-
Settings from the environment. The variables are read one after the other, each into the settings that
the ones before it have left (`settings_eq`). Along the way each fills its own part, and a malformed one
ends it all (`foldlM_load`); validation has the last word (`config_eq_ok_iff`, `config_eq_error_iff`).

Main statement: `config_exact`.
-/
import CacheLayer.Proofs.Config.Variable

namespace CacheLayer.Environment

variable {env : Environment} {v w : Variable} {c : EngineConfig}

/-! ## The loop over the variables -/

namespace Variable

/-- The objection to a text that a variable does not take. -/
def complaint (v : Variable) (text why : String) : Error :=
  .config (start ++ v.name ++ "=" ++ Text.quote text ++ ": " ++ why)

/-- What a variable is read as, if it is set. -/
def load (v : Variable) (env : Environment) : Except Error (Option v.Raw) :=
  match env.text? v.name with
  | none => .ok none
  | some text =>
    match v.reader text with
    | .ok raw => .ok (some raw)
    | .error why => .error (v.complaint text why)

end Variable

/-- One variable after the other is read and changes the settings. -/
theorem settings_eq (env : Environment) :
    env.settings = Variable.all.foldlM (fun c v => do return v.keep (← v.load env) c) {} := by
  have hload (v : Variable) (f : String → Except String v.Raw)
      (hf : ∀ text, v.reader text = f (Text.trim text)) : v.load env = env.read v.name f := by
    unfold Variable.load read
    cases env.text? v.name with
    | none => rfl
    | some text =>
      simp only [hf]
      cases f (Text.trim text) <;> rfl
  have hkeys : Variable.warmUpKeys.load env = pure ((env.text? "WARM_UP_KEYS").map Text.words) := by
    have hname : Variable.warmUpKeys.name = "WARM_UP_KEYS" := rfl
    unfold Variable.load
    rw [hname]
    cases env.text? "WARM_UP_KEYS" <;> rfl
  simp only [settings, reload, invalidation, Variable.all, List.foldlM, bind_assoc, pure_bind, hkeys,
    hload .policy (named Policy.parse) fun _ => rfl, hload .defaultLife (number maxWord) fun _ => rfl,
    hload .queueCapacity (number maxWord) fun _ => rfl, hload .codec (named Codec.parse) fun _ => rfl,
    hload .reloadMode (named ReloadMode.parse) fun _ => rfl,
    hload .reloadLife (number maxWord) fun _ => rfl,
    hload .reloadBatch (number maxWord) fun _ => rfl,
    hload .reloadRetries (number maxRetries) fun _ => rfl,
    hload .reloadDelay (number maxWord) fun _ => rfl,
    hload .interval (number maxWord) fun _ => rfl, hload .warmUp flag fun _ => rfl,
    hload .deletionBatch (number maxWord) fun _ => rfl,
    hload .deletionRetries (number maxRetries) fun _ => rfl,
    hload .deletionDelay (number maxWord) fun _ => rfl,
    hload .maxEvents (number maxWord) fun _ => rfl, Variable.keep, Variable.name]

/-! ## What a variable gives -/

namespace Variable

/-- The variable is set to a text that gives nothing. -/
def IsMalformed (v : Variable) (env : Environment) : Prop :=
  ∃ text, env.text? v.name = some text ∧ ∀ a, ¬ v.Reads text a

/-- The settings have the part that the variable gives, or the default one if it is not set. -/
def Gives (v : Variable) (env : Environment) (c : EngineConfig) : Prop :=
  match env.text? v.name with
  | none => v.part c = v.part {}
  | some text => v.Reads text (v.part c)

/-- A text gives one thing at most. -/
theorem Reads.unique {text : String} {a b : v.Part} (ha : v.Reads text a) (hb : v.Reads text b) :
    a = b := by
  obtain ⟨raw, hraw, rfl⟩ := reader_eq_ok_iff.2 ha
  obtain ⟨raw', hraw', rfl⟩ := reader_eq_ok_iff.2 hb
  rw [hraw] at hraw'
  cases hraw'
  rfl

theorem Gives.unique {c c' : EngineConfig} (h : v.Gives env c) (h' : v.Gives env c') :
    v.part c = v.part c' := by
  unfold Gives at h h'
  cases htext : env.text? v.name with
  | none =>
    simp only [htext] at h h'
    rw [h, h']
  | some text =>
    simp only [htext] at h h'
    exact h.unique h'

/-- A malformed variable gives nothing. -/
theorem Gives.not_isMalformed (h : v.Gives env c) : ¬ v.IsMalformed env := by
  rintro ⟨text, htext, hnone⟩
  simp only [Gives, htext] at h
  exact hnone _ h

/-- A variable is read, unless it is malformed and objected to. -/
theorem load_cases (v : Variable) (env : Environment) :
    (∃ raw?, v.load env = .ok raw? ∧
      ∀ c, v.part c = (raw?.map v.meaning).getD (v.part {}) → v.Gives env c) ∨
    v.IsMalformed env ∧ ∃ text why, env.text? v.name = some text ∧ v.reader text = .error why ∧
      v.load env = .error (v.complaint text why) := by
  cases htext : env.text? v.name with
  | none =>
    refine .inl ⟨none, by simp only [load, htext], fun c hc => ?_⟩
    simp only [Gives, htext]
    exact hc
  | some text =>
    cases hread : v.reader text with
    | ok raw =>
      refine .inl ⟨some raw, by simp only [load, htext, hread], fun c hc => ?_⟩
      simp only [Gives, htext]
      exact reader_eq_ok_iff.1 ⟨raw, hread, hc.symm⟩
    | error why =>
      refine .inr ⟨⟨text, htext, reader_eq_error_iff.1 ⟨why, hread⟩⟩, text, why, rfl, hread, ?_⟩
      simp only [load, htext, hread]

end Variable

/-- The settings are the ones that the variables give, and otherwise the default ones. -/
structure Gives (env : Environment) (c : EngineConfig) : Prop where
  parts : ∀ v : Variable, v.Gives env c
  rest : rest c = Environment.rest {}

theorem Gives.unique {c c' : EngineConfig} (h : env.Gives c) (h' : env.Gives c') : c = c' :=
  ext_part (fun v => (h.parts v).unique (h'.parts v)) (h.rest.trans h'.rest.symm)

/-- Of some variables in this order, the first malformed one is objected to. -/
def FirstFault (vs : List Variable) (env : Environment) (e : Error) : Prop :=
  ∃ before v after text why, vs = before ++ v :: after ∧ (∀ w ∈ before, ¬ w.IsMalformed env) ∧
    v.IsMalformed env ∧ env.text? v.name = some text ∧ v.reader text = .error why ∧
    e = v.complaint text why

/-- Of variables in this order, all give their parts, or the first malformed one is objected to. -/
theorem foldlM_load (env : Environment) {vs : List Variable} (hnodup : vs.Nodup)
    (c₀ : EngineConfig) :
    (∃ c, vs.foldlM (fun c v => do return v.keep (← v.load env) c) c₀ = .ok c ∧
      rest c = rest c₀ ∧ (∀ v ∉ vs, v.part c = v.part c₀) ∧
      ∀ v ∈ vs, v.part c₀ = v.part {} → v.Gives env c) ∨
    ∃ e, vs.foldlM (fun c v => do return v.keep (← v.load env) c) c₀ = .error e ∧
      FirstFault vs env e := by
  induction vs generalizing c₀ with
  | nil => exact .inl ⟨c₀, rfl, rfl, fun _ _ => rfl, by simp⟩
  | cons w vs ih =>
    obtain ⟨hnot, hnodup⟩ := List.nodup_cons.1 hnodup
    rw [List.foldlM_cons]
    rcases w.load_cases env with ⟨raw?, hload, hgives⟩ | ⟨hbad, text, why, htext, hread, hload⟩
    · have hw : w.part (w.keep raw? c₀) = (raw?.map w.meaning).getD (w.part c₀) :=
        Variable.part_keep_self w raw? c₀
      have hother {v : Variable} (hv : v ≠ w) : v.part (w.keep raw? c₀) = v.part c₀ :=
        Variable.part_keep_other hv raw? c₀
      have hstep : (do return w.keep (← w.load env) c₀ : Except Error EngineConfig) =
          .ok (w.keep raw? c₀) := by rw [hload]; rfl
      rw [hstep]
      rcases ih hnodup (w.keep raw? c₀) with ⟨c, hrun, hrest, hout, hin⟩ | ⟨e, hrun, hfault⟩
      · refine .inl ⟨c, hrun, hrest.trans (rest_keep w raw? c₀), fun v hv => ?_, fun v hv hdefault => ?_⟩
        · rw [hout v fun hmem => hv (List.mem_cons_of_mem _ hmem),
            hother fun heq => hv (heq ▸ List.mem_cons_self)]
        · rcases List.mem_cons.1 hv with rfl | hmem
          · refine hgives c ?_
            rw [hout v hnot, hw, hdefault]
          · have hne : v ≠ w := fun heq => hnot (heq ▸ hmem)
            exact hin v hmem ((hother hne).trans hdefault)
      · obtain ⟨before, v, after, text, why, rfl, hbefore, hfault⟩ := hfault
        have hgood : ¬ w.IsMalformed env :=
          (hgives (w.keep raw? {}) (Variable.part_keep_self w raw? {})).not_isMalformed
        exact .inr ⟨e, hrun, w :: before, v, after, text, why, rfl,
          List.forall_mem_cons.2 ⟨hgood, hbefore⟩, hfault⟩
    · have hstep : (do return w.keep (← w.load env) c₀ : Except Error EngineConfig) =
          .error (w.complaint text why) := by rw [hload]; rfl
      rw [hstep]
      exact .inr ⟨_, rfl, [], w, vs, text, why, rfl, by simp, hbad, htext, hread, rfl⟩

/-! ## Settings -/

/-- The environment gives settings if no variable is malformed; otherwise the first one is objected to. -/
theorem settings_cases (env : Environment) :
    (∃ c, env.settings = .ok c ∧ env.Gives c) ∨
    ∃ e, env.settings = .error e ∧ FirstFault Variable.all env e := by
  rw [settings_eq]
  rcases foldlM_load env (by decide : Variable.all.Nodup) {} with ⟨c, hrun, hrest, -, hin⟩ | hfault
  · exact .inl ⟨c, hrun, fun v => hin v (Variable.mem_all v) rfl, hrest⟩
  · exact .inr hfault

theorem FirstFault.unique {vs : List Variable} {e e' : Error} (h : FirstFault vs env e)
    (h' : FirstFault vs env e') : e = e' := by
  obtain ⟨before, v, after, text, why, rfl, hbefore, hbad, htext, hread, rfl⟩ := h
  obtain ⟨before', v', after', text', why', heq, hbefore', hbad', htext', hread', rfl⟩ := h'
  have hsame : v = v' := by
    rcases List.append_eq_append_iff.1 heq with ⟨more, rfl, hmore⟩ | ⟨more, rfl, hmore⟩
    · cases more with
      | nil => exact (List.cons.inj hmore).1
      | cons u more =>
        obtain rfl : v = u := (List.cons.inj hmore).1
        exact absurd hbad (hbefore' v (by simp))
    · cases more with
      | nil => exact (List.cons.inj hmore).1.symm
      | cons u more =>
        obtain rfl : v' = u := (List.cons.inj hmore).1
        exact absurd hbad' (hbefore v' (by simp))
  subst hsame
  obtain rfl : text = text' := Option.some.inj (htext.symm.trans htext')
  obtain rfl : why = why' := Except.error.inj (hread.symm.trans hread')
  rfl

theorem FirstFault.exists_isMalformed {vs : List Variable} {e : Error} (h : FirstFault vs env e) :
    ∃ v : Variable, v.IsMalformed env := by
  obtain ⟨-, v, -, -, -, -, -, hbad, -⟩ := h
  exact ⟨v, hbad⟩

theorem Gives.not_isMalformed (h : env.Gives c) (v : Variable) : ¬ v.IsMalformed env :=
  (h.parts v).not_isMalformed

/-- Validation comes last. -/
theorem config_eq_ok_iff : env.config = .ok c ↔ env.Gives c ∧ c.validate = .ok () := by
  have hvalid {d : EngineConfig} : (d.validate >>= fun _ => pure d) = .ok c ↔
      d = c ∧ d.validate = .ok () := by
    cases h : d.validate with
    | ok u => simp [bind, Except.bind, pure, Except.pure]
    | error e => simp [bind, Except.bind]
  rcases env.settings_cases with ⟨d, hrun, hgives⟩ | ⟨e, hrun, hfault⟩
  · rw [config, hrun]
    refine hvalid.trans ⟨?_, fun ⟨hc, hvalidate⟩ => ?_⟩
    · rintro ⟨rfl, hvalidate⟩
      exact ⟨hgives, hvalidate⟩
    · obtain rfl := hgives.unique hc
      exact ⟨rfl, hvalidate⟩
  · rw [config, hrun]
    refine ⟨by rintro ⟨⟩, fun ⟨hc, _⟩ => ?_⟩
    obtain ⟨v, hbad⟩ := hfault.exists_isMalformed
    exact absurd hbad (hc.not_isMalformed v)

/-- A malformed variable comes before any objection to the settings as a whole. -/
theorem config_eq_error_iff {e : Error} : env.config = .error e ↔ FirstFault Variable.all env e ∨
    (∀ v : Variable, ¬ v.IsMalformed env) ∧ ∃ c, env.Gives c ∧ c.validate = .error e := by
  have hvalid {d : EngineConfig} : (d.validate >>= fun _ => pure d) = .error e ↔
      d.validate = .error e := by
    cases h : d.validate <;> simp [bind, Except.bind, pure, Except.pure]
  rcases env.settings_cases with ⟨d, hrun, hgives⟩ | ⟨e', hrun, hfault⟩
  · rw [config, hrun]
    refine hvalid.trans ⟨fun h => .inr ⟨hgives.not_isMalformed, d, hgives, h⟩, ?_⟩
    rintro (hfault | ⟨-, c, hc, hvalidate⟩)
    · obtain ⟨v, hbad⟩ := hfault.exists_isMalformed
      exact absurd hbad (hgives.not_isMalformed v)
    · obtain rfl := hgives.unique hc
      exact hvalidate
  · rw [config, hrun]
    constructor
    · rintro ⟨⟩
      exact .inl hfault
    · rintro (hfirst | ⟨hgood, -⟩)
      · rw [hfirst.unique hfault]
        rfl
      · obtain ⟨v, hbad⟩ := hfault.exists_isMalformed
        exact absurd hbad (hgood v)

/-- A variable whose text is the same gives the same. -/
theorem Variable.Gives.congr {env' : Environment} (h : env'.text? v.name = env.text? v.name)
    (hgives : v.Gives env c) : v.Gives env' c := by
  unfold Gives at hgives ⊢
  rwa [h]

/-- **Loading settings is local and all or nothing.** Settings are loaded just if every variable that is
set is well formed and they pass validation; each part of them is then what its own variable gives, or
the default one, and nothing else has changed. So two environments that differ in one variable give
settings that differ in its part at most. Otherwise the objection is to the first malformed variable in
the order of reading, and only if there is none to the settings as a whole. -/
theorem config_exact (env : Environment) :
    (∀ c, env.config = .ok c ↔ env.Gives c ∧ c.validate = .ok ()) ∧
    ((∃ c, env.config = .ok c) ↔ (∀ v : Variable, ¬ v.IsMalformed env) ∧
      ∀ c, env.Gives c → c.validate = .ok ()) ∧
    (∀ e, env.config = .error e ↔ FirstFault Variable.all env e ∨
      (∀ v : Variable, ¬ v.IsMalformed env) ∧ ∃ c, env.Gives c ∧ c.validate = .error e) ∧
    ∀ (env' : Environment) (v : Variable) (c c' : EngineConfig),
      (∀ name, name ≠ start ++ v.name → env' name = env name) →
      env.config = .ok c → env'.config = .ok c' →
      (∀ w ≠ v, w.part c' = w.part c) ∧ rest c' = rest c := by
  refine ⟨fun c => config_eq_ok_iff, ⟨?_, ?_⟩, fun e => config_eq_error_iff, ?_⟩
  · rintro ⟨c, hc⟩
    obtain ⟨hgives, hvalidate⟩ := config_eq_ok_iff.1 hc
    refine ⟨hgives.not_isMalformed, fun d hd => ?_⟩
    rwa [hd.unique hgives]
  · rintro ⟨hgood, hvalid⟩
    rcases env.settings_cases with ⟨c, -, hgives⟩ | ⟨e, -, hfault⟩
    · exact ⟨c, config_eq_ok_iff.2 ⟨hgives, hvalid c hgives⟩⟩
    · obtain ⟨v, hbad⟩ := hfault.exists_isMalformed
      exact absurd hbad (hgood v)
  · intro env' v c c' hsame hc hc'
    obtain ⟨hgives, -⟩ := config_eq_ok_iff.1 hc
    obtain ⟨hgives', -⟩ := config_eq_ok_iff.1 hc'
    refine ⟨fun w hw => ?_, hgives'.rest.trans hgives.rest.symm⟩
    have htext : env'.text? w.name = env.text? w.name := by
      refine hsame _ fun heq => hw (Variable.name_inj ?_)
      exact (String.append_right_inj start).1 heq
    exact (hgives'.parts w).unique ((hgives.parts w).congr htext)

/-- The environment with just these variables. -/
def ofList (vars : List (String × String)) : Environment := fun name => vars.lookup name

/-- A life of no seconds, an interval, and keys with blanks and empty pieces. -/
def tuned (interval : String) : Environment := ofList [("CACHE_ENGINE_DEFAULT_TTL_SECS", " 0 "),
  ("CACHE_ENGINE_RELOAD_INTERVAL_SECS", interval),
  ("CACHE_ENGINE_WARM_UP_KEYS", "user:1, user:2,,")]

/-- Two malformed variables, and a number that would not pass validation. -/
def spoilt : Environment := ofList [("CACHE_ENGINE_MAX_EVENTS", "-1"),
  ("CACHE_ENGINE_RELOAD_BATCH_SIZE", "lots"), ("CACHE_ENGINE_WRITE_BEHIND_CAPACITY", "0")]

/-- An interval of no seconds switches nothing on, and all else is the same. Of the malformed variables
the one that is read first is objected to. -/
theorem config_exact_tuned :
    (∃ c c', (tuned "+30").Gives c ∧ (tuned "0").config = .ok c' ∧
      c.reload.warmUpKeys = ["user:1", "user:2"] ∧ c.reload.scheduled = true ∧
      c'.reload.scheduled = false ∧ Variable.defaultLife.part c' = Variable.defaultLife.part c) ∧
    FirstFault Variable.all spoilt
      (.config "CACHE_ENGINE_RELOAD_BATCH_SIZE=\"lots\": invalid digit found in string") := by
  constructor
  · obtain ⟨hgives, -, -, hlocal⟩ := config_exact (tuned "+30")
    have hrun : (tuned "+30").config = .ok { defaultLife := none, reload := {
        scheduled := true, interval := 30000, warmUpKeys := ["user:1", "user:2"] } } := by
      decide +kernel
    have hrun' : (tuned "0").config = .ok { defaultLife := none, reload := {
        interval := 0, warmUpKeys := ["user:1", "user:2"] } } := by
      decide +kernel
    have hname : start ++ Variable.interval.name = "CACHE_ENGINE_RELOAD_INTERVAL_SECS" := by
      decide +kernel
    obtain ⟨hsame, -⟩ := hlocal (tuned "0") .interval _ _ (fun name hne => by
      have hother : (name == "CACHE_ENGINE_RELOAD_INTERVAL_SECS") = false := by
        simpa [hname] using hne
      simp [tuned, ofList, List.lookup_cons, hother]) hrun hrun'
    exact ⟨_, _, ((hgives _).1 hrun).1, hrun', rfl, rfl, rfl, hsame .defaultLife (by decide)⟩
  · obtain ⟨-, -, hfault, -⟩ := config_exact spoilt
    have hrun : spoilt.config = .error (.config
        "CACHE_ENGINE_RELOAD_BATCH_SIZE=\"lots\": invalid digit found in string") := by
      decide +kernel
    rcases (hfault _).1 hrun with hfirst | ⟨hgood, -⟩
    · exact hfirst
    · refine absurd ⟨"lots", by decide +kernel, ?_⟩ (hgood .reloadBatch)
      exact Variable.reader_eq_error_iff.1 ⟨"invalid digit found in string", by decide +kernel⟩

end CacheLayer.Environment
