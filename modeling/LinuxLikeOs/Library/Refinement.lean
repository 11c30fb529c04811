import LinuxLikeOs.Library.Trace

/-!
# Refinement of runs

A machine refines another one along a map of its states, if each of its events does to the image
what a list of events of the other machine does; an empty list is an event that does not show.

- `traceOf`: the events of the other machine along a run
- `Refines.exec`: a run of the one is a run of the other
-/

namespace LinuxLikeOs.Library

universe u v

variable {σ ε : Type u} {τ δ : Type v}

/-- The events of the other machine along a run, up to the first event that cannot happen. -/
def traceOf (step : σ → ε → Option σ) (act : σ → ε → List δ) : σ → List ε → List δ
  | _, [] => []
  | s, e :: es =>
    match step s e with
    | none => []
    | some s' => act s e ++ traceOf step act s' es

/-- From the states with `I`, each event does what its list of events does to the image. -/
def Refines (step : σ → ε → Option σ) (step' : τ → δ → Option τ) (image : σ → τ)
    (act : σ → ε → List δ) (I : σ → Prop) : Prop :=
  ∀ s e s', I s → step s e = some s' → exec step' (image s) (act s e) = some (image s')

namespace Refines

variable {step : σ → ε → Option σ} {step' : τ → δ → Option τ} {image : σ → τ}
  {act : σ → ε → List δ} {I : σ → Prop} {C : σ → ε → Prop}

/-- **A run refines the run of its trace.** -/
theorem exec (h : Refines step step' image act I)
    (hstep : ∀ s e s', I s → C s e → step s e = some s' → I s') {s t : σ} {es : List ε}
    (hs : I s) (hC : EachStep step C s es) (hrun : Library.exec step s es = some t) :
    Library.exec step' (image s) (traceOf step act s es) = some (image t) := by
  -- on the events; each step of the one is a piece of the trace of the other
  induction es generalizing s with
  | nil =>
    obtain rfl := Option.some.inj hrun
    rfl
  | cons e es ih =>
    obtain ⟨s₁, hfirst, hrest⟩ := exec_cons_iff.mp hrun
    obtain ⟨hc, hC₁⟩ := hC s₁ hfirst
    have htrace : traceOf step act s (e :: es) = act s e ++ traceOf step act s₁ es := by
      simp only [traceOf, hfirst]
    rw [htrace, exec_append (h s e s₁ hs hfirst)]
    exact ih (hstep s e s₁ hs hc hfirst) hC₁ hrest

end Refines

end LinuxLikeOs.Library
