/-
Numbers that are used once. A transformer may make something else of a payload with every number that
is drawn for it. Whether a value can be encoded then still does not depend on the numbers
(`Client.Steadily`) if no transformer looks at its number but the last one, and that one takes every
payload, as encryption behind all others does.

Main statement: `Client.steadily_of_steady`.
-/
import CacheLayer.Proofs.Client.Coding
import CacheLayer.Transform.Standard

namespace CacheLayer

variable {V α : Type} {m : Memory V}

namespace Transformer

/-- What the transformer makes of a payload does not depend on its number. -/
def IgnoresNumber (t : Transformer) : Prop :=
  ∀ fresh fresh' key b, t.transform fresh key b = t.transform fresh' key b

theorem ignoresNumber_compression (level minSize : Nat) (priority : Int) :
    (compression level minSize priority).IgnoresNumber := fun _ _ _ _ => rfl

theorem ignoresNumber_validation (maxSize : Option Nat)
    (accept : Option (String → Bytes → Bool)) (priority : Int) :
    (validation maxSize accept priority).IgnoresNumber := fun _ _ _ _ => rfl

end Transformer

namespace Transformers

/-- Which transformers apply to a payload, and whether they fail, does not depend on the numbers. -/
def Steady (ts : Transformers) : Prop :=
  ∀ fresh fresh' key b,
    (ts.applyAll fresh key b).map Prod.fst = (ts.applyAll fresh' key b).map Prod.fst

/-- A transformer that takes every payload may come last. -/
theorem steady_singleton {t : Transformer} (happlies : ∀ key b, t.applies key b = true)
    (htakes : ∀ fresh key b, ∃ b', t.transform fresh key b = .ok b') : Steady [t] := by
  have hnames (fresh : Nat) (key : String) (b : Bytes) :
      (applyAll fresh key [t] b).map Prod.fst = .ok [t.name] := by
    obtain ⟨b', hb⟩ := htakes fresh key b
    simp [applyAll, happlies, hb, Except.map]
  intro fresh fresh' key b
  rw [hnames, hnames]

theorem Steady.cons {t : Transformer} {ts : Transformers} (h : ts.Steady)
    (ht : t.IgnoresNumber) : Steady (t :: ts) := by
  intro fresh fresh' key b
  have hrest := h (fresh + 1) (fresh' + 1) key
  simp only [applyAll]
  split
  · rw [ht fresh fresh' key b]
    cases t.transform fresh' key b with
    | error e => rfl
    | ok b' =>
      have hname (r : Except Error (List String × Bytes)) :
          (r.map fun x => (t.name :: x.1, x.2)).map Prod.fst =
            (r.map Prod.fst).map (t.name :: ·) := by
        cases r <;> rfl
      change (Except.map _ _).map Prod.fst = (Except.map _ _).map Prod.fst
      rw [hname, hname, hrest b']
  · exact hrest b

/-- Encryption draws a nonce and takes every payload. -/
theorem steady_encryption {key : Bytes} {priority : Int} {t : Transformer}
    (h : Transformer.encryption key priority = .ok t) : Steady [t] := by
  unfold Transformer.encryption at h
  split at h
  · obtain rfl := Except.ok.inj h
    exact steady_singleton (fun _ _ => rfl) fun _ _ _ => ⟨_, rfl⟩
  · cases h

end Transformers

namespace Client

/-- Whether a value can be encoded for a key does not depend on the numbers that are drawn. -/
def Steadily (m : Memory V) (f : Format α) (key : String) (a : α) : Prop :=
  ∀ fresh fresh', (coded m f fresh key a).map (fun _ => ()) =
    (coded m f fresh' key a).map fun _ => ()

namespace Steadily

variable {f : Format α} {key : String} {a : α} {fresh : Nat}

theorem ok (h : Steadily m f key a) {b : Bytes} (hcoded : coded m f fresh key a = .ok b)
    (fresh' : Nat) : ∃ b', coded m f fresh' key a = .ok b' := by
  have hsame := h fresh fresh'
  rw [hcoded] at hsame
  cases hcoded' : coded m f fresh' key a with
  | ok b' => exact ⟨b', rfl⟩
  | error e =>
    rw [hcoded'] at hsame
    cases hsame

theorem error (h : Steadily m f key a) {e : Error} (hcoded : coded m f fresh key a = .error e)
    (fresh' : Nat) : coded m f fresh' key a = .error e := by
  have hsame := h fresh fresh'
  rw [hcoded] at hsame
  cases hcoded' : coded m f fresh' key a with
  | ok b' =>
    rw [hcoded'] at hsame
    cases hsame
  | error e' =>
    rw [hcoded'] at hsame
    cases hsame
    rfl

end Steadily

/-- An envelope is about the names of the transformers, whatever the payload is. -/
theorem map_wrap (names : List String) (b b' : Bytes) :
    (Envelope.wrap names b).map (fun _ => ()) = (Envelope.wrap names b').map fun _ => () := by
  unfold Envelope.wrap
  split
  · rfl
  · split
    · rfl
    · cases Envelope.sealNames names <;> rfl

theorem steadily_of_steady (h : m.transformers.Steady) (f : Format α) (key : String) (a : α) :
    Steadily m f key a := by
  intro fresh fresh'
  unfold coded
  cases f.encode m.config.codec a with
  | error e => rfl
  | ok b =>
    have hnames := h fresh fresh' key b
    change ((m.transformers.applyAll fresh key b).bind fun x => Envelope.wrap x.1 x.2).map _ =
      ((m.transformers.applyAll fresh' key b).bind fun x => Envelope.wrap x.1 x.2).map _
    cases hx : m.transformers.applyAll fresh key b with
    | error e =>
      cases hx' : m.transformers.applyAll fresh' key b with
      | error e' =>
        rw [hx, hx'] at hnames
        cases hnames
        rfl
      | ok x' =>
        rw [hx, hx'] at hnames
        cases hnames
    | ok x =>
      cases hx' : m.transformers.applyAll fresh' key b with
      | error e' =>
        rw [hx, hx'] at hnames
        cases hnames
      | ok x' =>
        rw [hx, hx'] at hnames
        have hsame : x.1 = x'.1 := Except.ok.inj hnames
        change (Envelope.wrap x.1 x.2).map _ = (Envelope.wrap x'.1 x'.2).map _
        rw [← hsame]
        exact map_wrap x.1 x.2 x'.2

end Client
end CacheLayer
