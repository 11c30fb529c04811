import Mathlib.Logic.Relation

/-!
# Runs of a partial step function

A deterministic transition system is a partial step function
`step : σ → ε → Option σ`; `none` means that the event cannot happen in the
state.  This file develops runs over lists of events and the induction rules
that every safety proof uses:

- `exec_invariant`: what every step preserves holds in every reachable state
- `eachStep_of_invariant`: an invariant turns a condition on the steps of a run
  into a property of the same steps
- `eachStep_iff_eachStep`: when one step has the property exactly if it meets the
  condition, so have all steps of a run
- `always_iff_eachStep`: when one step breaks the invariant exactly if it fails
  the condition, the whole run is described by the condition
- `eachTogether_of_invariant`: a relation between two states that every event keeps
  turns into a property of two runs over the same events
-/

namespace LinuxLikeOs.Library

universe u v

variable {σ : Type u} {ε : Type v} {step : σ → ε → Option σ}

/-! ## Runs -/

/-- Run the step function over a list of events; `none` when one of them cannot happen. -/
def exec (step : σ → ε → Option σ) : σ → List ε → Option σ
  | s, [] => some s
  | s, e :: es => (step s e).bind fun s' => exec step s' es

/-- `P` holds in every state of the run, the start included. -/
def Always (step : σ → ε → Option σ) (P : σ → Prop) : σ → List ε → Prop
  | s, [] => P s
  | s, e :: es => P s ∧ ∀ s', step s e = some s' → Always step P s' es

/-- Every step that the run takes satisfies `C`, a relation between the state before
    the step and the event. -/
def EachStep (step : σ → ε → Option σ) (C : σ → ε → Prop) : σ → List ε → Prop
  | _, [] => True
  | s, e :: es => ∀ s', step s e = some s' → C s e ∧ EachStep step C s' es

@[simp] theorem exec_nil (s : σ) : exec step s [] = some s := rfl

@[simp] theorem exec_singleton (s : σ) (e : ε) : exec step s [e] = step s e := by
  simp [exec]

@[simp] theorem eachStep_nil (C : σ → ε → Prop) (s : σ) : EachStep step C s [] := trivial

/-- A condition on the steps of a run can be checked along the run. -/
instance decidableEachStep {C : σ → ε → Prop} [∀ s e, Decidable (C s e)] :
    ∀ s es, Decidable (EachStep step C s es)
  | _, [] => isTrue trivial
  | s, e :: es =>
    match h : step s e with
    | none => isTrue fun s' hs' => by rw [h] at hs'; cases hs'
    | some s' =>
      have := decidableEachStep (C := C) s' es
      decidable_of_iff (C s e ∧ EachStep step C s' es) <| by simp [EachStep, h]

theorem exec_cons_of_step {s s' : σ} {e : ε} {es : List ε} (h : step s e = some s') :
    exec step s (e :: es) = exec step s' es := by
  simp [exec, h]

theorem exec_cons_iff {s t : σ} {e : ε} {es : List ε} :
    exec step s (e :: es) = some t ↔ ∃ s', step s e = some s' ∧ exec step s' es = some t := by
  simp [exec, Option.bind_eq_some_iff]

/-- A run goes on where another has ended. -/
theorem exec_append {s t : σ} {es : List ε} (h : exec step s es = some t) (es' : List ε) :
    exec step s (es ++ es') = exec step t es' := by
  induction es generalizing s with
  | nil =>
    obtain rfl : s = t := by simpa using h
    rfl
  | cons e es ih =>
    obtain ⟨s', hs', hrest⟩ := exec_cons_iff.mp h
    rw [List.cons_append, exec_cons_of_step hs', ih hrest]

/-- The steps of a run, and those of the run that goes on from its end. -/
theorem EachStep.append {C : σ → ε → Prop} {s t : σ} {es es' : List ε} (h : EachStep step C s es)
    (hrun : exec step s es = some t) (h' : EachStep step C t es') :
    EachStep step C s (es ++ es') := by
  induction es generalizing s with
  | nil =>
    obtain rfl : s = t := by simpa using hrun
    exact h'
  | cons e es ih =>
    obtain ⟨s', hs', hrest⟩ := exec_cons_iff.mp hrun
    intro u hu
    obtain rfl := Option.some.inj (hs'.symm.trans hu)
    exact ⟨(h s' hs').1, ih (h s' hs').2 hrest⟩

/-- A condition that does not look at the state may be checked on the list of events. -/
theorem eachStep_of_forall {C : ε → Prop} {s : σ} {es : List ε} (h : ∀ e ∈ es, C e) :
    EachStep step (fun _ e => C e) s es := by
  induction es generalizing s with
  | nil => trivial
  | cons e es ih =>
    exact fun s' _ => ⟨h e (List.mem_cons_self ..), ih fun e' he' =>
      h e' (List.mem_cons_of_mem _ he')⟩

/-- Two conditions that the steps of a run meet are one. -/
theorem EachStep.and {C Q : σ → ε → Prop} {s : σ} {es : List ε} (hC : EachStep step C s es)
    (hQ : EachStep step Q s es) : EachStep step (fun s e => C s e ∧ Q s e) s es := by
  induction es generalizing s with
  | nil => trivial
  | cons e es ih =>
    intro s' hs'
    obtain ⟨hc, hcs⟩ := hC s' hs'
    obtain ⟨hq, hqs⟩ := hQ s' hs'
    exact ⟨⟨hc, hq⟩, ih hcs hqs⟩

/-- A step of a run, behind the steps before it. -/
theorem EachStep.after {C : σ → ε → Prop} {s t t' : σ} {es es' : List ε} {e : ε}
    (h : EachStep step C s (es ++ e :: es')) (hrun : exec step s es = some t)
    (hstep : step t e = some t') : C t e := by
  induction es generalizing s with
  | nil =>
    obtain rfl : s = t := by simpa using hrun
    exact (h t' hstep).1
  | cons e' es ih =>
    obtain ⟨s', hs', hrest⟩ := exec_cons_iff.mp hrun
    exact ih (h s' hs').2 hrest

/-- What holds all along a run holds at its end. -/
theorem Always.of_exec {P : σ → Prop} {s t : σ} {es : List ε} (h : Always step P s es)
    (hrun : exec step s es = some t) : P t := by
  induction es generalizing s with
  | nil =>
    obtain rfl : s = t := by simpa using hrun
    exact h
  | cons e es ih =>
    obtain ⟨s', hs', hrest⟩ := exec_cons_iff.mp hrun
    exact ih (h.2 s' hs') hrest

/-! ## Invariants -/

/-- What every step preserves holds in every reachable state. -/
theorem exec_invariant {I : σ → Prop}
    (hstep : ∀ s e s', I s → step s e = some s' → I s')
    {s t : σ} {es : List ε} (hs : I s) (hrun : exec step s es = some t) : I t := by
  induction es generalizing s with
  | nil =>
    obtain rfl : s = t := by simpa using hrun
    exact hs
  | cons e es ih =>
    obtain ⟨s', hs', hrest⟩ := exec_cons_iff.mp hrun
    exact ih (hstep s e s' hs hs') hrest

/-- The same for a run whose steps all meet a condition. -/
theorem exec_invariant_of_eachStep {I : σ → Prop} {C : σ → ε → Prop}
    (hstep : ∀ s e s', I s → C s e → step s e = some s' → I s')
    {s t : σ} {es : List ε} (hs : I s) (hC : EachStep step C s es)
    (hrun : exec step s es = some t) : I t := by
  induction es generalizing s with
  | nil =>
    obtain rfl : s = t := by simpa using hrun
    exact hs
  | cons e es ih =>
    obtain ⟨s', hs', hrest⟩ := exec_cons_iff.mp hrun
    exact ih (hstep s e s' hs (hC s' hs').1 hs') (hC s' hs').2 hrest

/-- An invariant turns the condition that a run meets into a property of its steps. -/
theorem eachStep_of_invariant {I : σ → Prop} {C Q : σ → ε → Prop}
    (hstep : ∀ s e s', I s → C s e → step s e = some s' → I s')
    (hQ : ∀ s e s', I s → C s e → step s e = some s' → Q s e)
    {s : σ} {es : List ε} (hs : I s) (hC : EachStep step C s es) : EachStep step Q s es := by
  induction es generalizing s with
  | nil => trivial
  | cons e es ih =>
    intro s' hs'
    obtain ⟨hc, hrest⟩ := hC s' hs'
    exact ⟨hQ s e s' hs hc hs', ih (hstep s e s' hs hc hs') hrest⟩

/-- If, from a state with the invariant `J`, a step has the property `Q` exactly when it meets
    `C`, and such a step keeps `J`, then all steps of a run have `Q` exactly when all meet `C`. -/
theorem eachStep_iff_eachStep {E : ε → Prop} {J : σ → Prop} {C Q : σ → ε → Prop}
    (hJ : ∀ s e s', J s → E e → C s e → step s e = some s' → J s')
    (hiff : ∀ s e s', J s → E e → step s e = some s' → (Q s e ↔ C s e))
    {s : σ} {es : List ε} (hj : J s) (hes : ∀ e ∈ es, E e) :
    EachStep step Q s es ↔ EachStep step C s es := by
  -- on the events; `J` is carried along, since it holds as long as `C` does
  induction es generalizing s with
  | nil => exact Iff.rfl
  | cons e es ih =>
    have he := hes e (List.mem_cons_self ..)
    have hrest : ∀ e ∈ es, E e := fun e' he' => hes e' (List.mem_cons_of_mem _ he')
    constructor
    · intro h s' hs'
      have hc := (hiff s e s' hj he hs').mp (h s' hs').1
      exact ⟨hc, (ih (hJ s e s' hj he hc hs') hrest).mp (h s' hs').2⟩
    · intro h s' hs'
      have hc := (h s' hs').1
      exact ⟨(hiff s e s' hj he hs').mpr hc, (ih (hJ s e s' hj he hc hs') hrest).mpr (h s' hs').2⟩

/-- The same along the turns of a loop, where `J i` holds before turn `i`. -/
theorem forall_lt_iff_forall_lt {J C Q : Nat → Prop} {n : Nat}
    (hJ : ∀ i < n, J i → C i → J (i + 1)) (hiff : ∀ i < n, J i → (Q i ↔ C i)) (h0 : J 0) :
    (∀ i < n, Q i) ↔ ∀ i < n, C i := by
  -- `J` reaches index `i` as soon as `C` held below it
  have hall : (∀ i < n, J i → C i) → ∀ i < n, J i := by
    intro h i
    induction i with
    | zero => exact fun _ => h0
    | succ i ih =>
      intro hi
      have hlt : i < n := Nat.lt_of_succ_lt hi
      exact hJ i hlt (ih hlt) (h i hlt (ih hlt))
  constructor
  · intro h i hi
    have hj := hall (fun i hi hj => (hiff i hi hj).mp (h i hi)) i hi
    exact (hiff i hi hj).mp (h i hi)
  · intro h i hi
    have hj := hall (fun i hi _ => h i hi) i hi
    exact (hiff i hi hj).mpr (h i hi)

/-- If, from a state with the invariant `J` and the property `P`, a step keeps `P` exactly
    when it meets `C`, then `P` holds all along a run exactly when every step meets `C`. -/
theorem always_iff_eachStep {J P : σ → Prop} {C : σ → ε → Prop}
    (hJ : ∀ s e s', J s → step s e = some s' → J s')
    (hiff : ∀ s e s', J s → P s → step s e = some s' → (P s' ↔ C s e))
    {s : σ} {es : List ε} (hj : J s) (hp : P s) :
    Always step P s es ↔ EachStep step C s es := by
  induction es generalizing s with
  | nil => simp [Always, hp]
  | cons e es ih =>
    -- the first state of a run that always satisfies `P` satisfies it
    have hstart : ∀ {s'}, Always step P s' es → P s' := by
      intro s' h
      cases es with
      | nil => exact h
      | cons _ _ => exact h.1
    constructor
    · -- `P` before and after the event gives the condition, and the rest follows
      rintro ⟨-, h⟩ s' hs'
      have hp' := hstart (h s' hs')
      exact ⟨(hiff s e s' hj hp hs').mp hp', (ih (hJ s e s' hj hs') hp').mp (h s' hs')⟩
    · intro h
      refine ⟨hp, fun s' hs' => ?_⟩
      have hp' := (hiff s e s' hj hp hs').mpr (h s' hs').1
      exact (ih (hJ s e s' hj hs') hp').mpr (h s' hs').2

/-! ## Two runs -/

/-- `Q` holds of the two states and the next event as long as two runs over the same events both
    go on. -/
def EachTogether (step : σ → ε → Option σ) (Q : σ → σ → ε → Prop) : σ → σ → List ε → Prop
  | _, _, [] => True
  | s, t, e :: es =>
    Q s t e ∧ ∀ s' t', step s e = some s' → step t e = some t' → EachTogether step Q s' t' es

/-- Two states that take every event alike come to the same end: both runs stop, or both arrive
    in related states. -/
theorem rel_foldlM {R : σ → σ → Prop} {es : List ε}
    (hstep : ∀ e ∈ es, ∀ s t, R s t → Option.Rel R (step s e) (step t e)) {s t : σ} (h : R s t) :
    Option.Rel R (es.foldlM step s) (es.foldlM step t) := by
  induction es generalizing s t with
  | nil => exact .some h
  | cons e es ih =>
    have hone := hstep e List.mem_cons_self s t h
    rw [List.foldlM_cons, List.foldlM_cons]
    generalize step s e = s', step t e = t' at hone
    cases hone with
    | none => exact .none
    | some h' => exact ih (fun e' he' => hstep e' (List.mem_cons_of_mem _ he')) h'

/-- A relation that every event keeps gives what it implies at every event. -/
theorem eachTogether_of_invariant {R : σ → σ → Prop} {Q : σ → σ → ε → Prop}
    (hstep : ∀ s t e s' t', R s t → step s e = some s' → step t e = some t' → R s' t')
    (hQ : ∀ s t e, R s t → Q s t e) {s t : σ} (h : R s t) (es : List ε) :
    EachTogether step Q s t es := by
  induction es generalizing s t with
  | nil => trivial
  | cons e es ih => exact ⟨hQ s t e h, fun s' t' hs ht => ih (hstep s t e s' t' h hs ht)⟩

end LinuxLikeOs.Library
