import Mathlib.Data.Int.CardIntervalMod
import Mathlib.Tactic.SplitIfs
import LinuxLikeOs.Library.Refinement

/-!
# Round robin

A machine with `n` parties, one of which has its turn: some events pass the turn on, and all the
others leave it where it is.

- `TakesTurns`: the turn goes from each party to the next one
- `TakesTurns.turnsOf_eq`: the order of the turns in a run
- `count_turns`: no party gets more than one turn more than its share
- `TakesTurns.reaches`: a party that waits has its turn soon, and keeps until then what it keeps
  while it waits
-/

namespace LinuxLikeOs.Library

universe u

variable {σ ε : Type u}

/-- The parties that get the turn in a run, in their order. -/
def turnsOf (step : σ → ε → Option σ) (passes : ε → Prop) [DecidablePred passes] (turn : σ → Nat) :
    σ → List ε → List Nat :=
  traceOf step fun s e => if passes e then (step s e).toList.map turn else []

/-- From the states with `I`, an event that passes the turn on gives it to the next of `n` parties,
    and no other event moves it. -/
structure TakesTurns (step : σ → ε → Option σ) (passes : ε → Prop) (turn : σ → Nat) (n : Nat)
    (I : σ → Prop) : Prop where
  lt : ∀ s, I s → turn s < n
  keeps : ∀ s e s', I s → step s e = some s' → I s'
  next : ∀ s e s', I s → step s e = some s' → passes e → turn s' = (turn s + 1) % n
  stays : ∀ s e s', I s → step s e = some s' → ¬ passes e → turn s' = turn s

/-- The `m` turns after a turn of party `r`. -/
def roundRobin (n r m : Nat) : List Nat := (List.range m).map fun i => (r + 1 + i) % n

theorem roundRobin_succ (n r m : Nat) :
    roundRobin n r (m + 1) = (r + 1) % n :: roundRobin n ((r + 1) % n) m := by
  simp only [roundRobin, List.range_succ_eq_map, List.map_cons, List.map_map]
  congr 1
  refine List.map_congr_left fun i _ => ?_
  simp only [Function.comp_apply, Nat.succ_eq_add_one]
  rw [Nat.add_assoc ((r + 1) % n), Nat.mod_add_mod]
  congr 1
  omega

/-- **Fair shares**: of `m` turns each party gets its share, or one turn more. -/
theorem count_roundRobin {n r u : Nat} (hu : u < n) (m : Nat) :
    m / n ≤ (roundRobin n r m).count u ∧ (roundRobin n r m).count u ≤ m / n + 1 := by
  -- the turns of `u` are those whose number is `u - r - 1` modulo `n`
  obtain ⟨v, hv⟩ : ∃ v, ∀ i, (r + 1 + i) % n = u ↔ i ≡ v [MOD n] := by
    refine ⟨u + n * (r + 1) - (r + 1), fun i => ?_⟩
    have hle : r + 1 ≤ n * (r + 1) := Nat.le_mul_of_pos_left _ (by omega)
    have hmod : u = (u + n * (r + 1)) % n := by
      rw [Nat.add_mul_mod_self_left, Nat.mod_eq_of_lt hu]
    have hsum : r + 1 + (u + n * (r + 1) - (r + 1)) = u + n * (r + 1) := by omega
    constructor
    · intro hi
      refine Nat.ModEq.add_left_cancel' (r + 1) ?_
      rw [hsum]
      exact hi.trans hmod
    · intro hi
      have hadd := hi.add_left (r + 1)
      rw [hsum] at hadd
      exact (show (r + 1 + i) % n = (u + n * (r + 1)) % n from hadd).trans hmod.symm
  have hcount : (roundRobin n r m).count u = m.count (· ≡ v [MOD n]) := by
    induction m with
    | zero => rfl
    | succ m ih =>
      have hlast : roundRobin n r (m + 1) = roundRobin n r m ++ [(r + 1 + m) % n] := by
        simp only [roundRobin, List.range_succ, List.map_append, List.map_cons, List.map_nil]
      rw [hlast, List.count_append, ih, Nat.count_succ, List.count_singleton]
      simp only [beq_iff_eq, hv m]
  rw [hcount, Nat.count_modEq_card _ (by omega)]
  split_ifs <;> omega

namespace TakesTurns

variable {step : σ → ε → Option σ} {passes : ε → Prop} [DecidablePred passes] {turn : σ → Nat}
  {n : Nat} {I : σ → Prop}

/-- **The order of the turns** in a run. -/
theorem turnsOf_eq (h : TakesTurns step passes turn n I) {s t : σ} {es : List ε} (hs : I s)
    (hrun : exec step s es = some t) :
    turnsOf step passes turn s es = roundRobin n (turn s) (es.countP passes) := by
  -- on the events; an event that passes the turn adds one place to the order
  induction es generalizing s with
  | nil => rfl
  | cons e es ih =>
    obtain ⟨s₁, hfirst, hrest⟩ := exec_cons_iff.mp hrun
    have hih := ih (h.keeps s e s₁ hs hfirst) hrest
    by_cases he : passes e
    · rw [List.countP_cons_of_pos (by simpa using he), roundRobin_succ,
        ← h.next s e s₁ hs hfirst he, ← hih]
      simp only [turnsOf, traceOf, hfirst, if_pos he, Option.toList_some, List.map_cons,
        List.map_nil, List.singleton_append]
    · -- any other event leaves the turn where it is
      rw [List.countP_cons_of_neg (by simpa using he), ← h.stays s e s₁ hs hfirst he, ← hih]
      simp only [turnsOf, traceOf, hfirst, if_neg he, List.nil_append]

/-- **Nobody waits for long**: in a run that passes the turn on `n - 1` times, each party has its
    turn after at most as many, and what it keeps while it waits it has then. -/
theorem reaches (h : TakesTurns step passes turn n I) {u : Nat} (hu : u < n) {P : σ → Prop}
    (hwaits : ∀ s e s', I s → turn s ≠ u → step s e = some s' → P s → P s') {s t : σ} {es : List ε}
    (hs : I s) (hp : P s) (hrun : exec step s es = some t) (hlong : n ≤ es.countP passes + 1) :
    ∃ es₁ es₂ s₁, es = es₁ ++ es₂ ∧ exec step s es₁ = some s₁ ∧ es₁.countP passes < n ∧
      turn s₁ = u ∧ I s₁ ∧ P s₁ := by
  -- `d` more turns until it is the turn of `u`
  suffices hwait : ∀ d, (turn s + d) % n = u → d ≤ es.countP passes →
      ∃ es₁ es₂ s₁, es = es₁ ++ es₂ ∧ exec step s es₁ = some s₁ ∧ es₁.countP passes ≤ d ∧
        turn s₁ = u ∧ I s₁ ∧ P s₁ by
    have hlt := h.lt s hs
    obtain ⟨d, hd, hmod⟩ : ∃ d < n, (turn s + d) % n = u := by
      by_cases hle : turn s ≤ u
      · exact ⟨u - turn s, by omega, by
          rw [Nat.add_sub_cancel' hle, Nat.mod_eq_of_lt hu]⟩
      · refine ⟨n - turn s + u, by omega, ?_⟩
        rw [show turn s + (n - turn s + u) = u + n by omega, Nat.add_mod_right, Nat.mod_eq_of_lt hu]
    obtain ⟨es₁, es₂, s₁, hsplit, hrun₁, hcount, hrest⟩ := hwait d hmod (by omega)
    exact ⟨es₁, es₂, s₁, hsplit, hrun₁, by omega, hrest⟩
  clear hlong
  induction es generalizing s with
  | nil =>
    intro d hmod hle
    obtain rfl : d = 0 := by simpa using hle
    rw [Nat.add_zero, Nat.mod_eq_of_lt (h.lt s hs)] at hmod
    exact ⟨[], [], s, rfl, rfl, Nat.le_refl _, hmod, hs, hp⟩
  | cons e es ih =>
    intro d hmod hle
    by_cases hturn : turn s = u
    · exact ⟨[], e :: es, s, rfl, rfl, Nat.zero_le _, hturn, hs, hp⟩
    obtain ⟨s', hfirst, hrest⟩ := exec_cons_iff.mp hrun
    have hs' := h.keeps s e s' hs hfirst
    have hp' := hwaits s e s' hs hturn hfirst hp
    by_cases he : passes e
    · obtain ⟨d, rfl⟩ : ∃ d', d = d' + 1 := by
        cases d with
        | zero =>
          rw [Nat.add_zero, Nat.mod_eq_of_lt (h.lt s hs)] at hmod
          exact absurd hmod hturn
        | succ d => exact ⟨d, rfl⟩
      rw [List.countP_cons_of_pos (by simpa using he)] at hle
      have hmod' : (turn s' + d) % n = u := by
        rw [h.next s e s' hs hfirst he, Nat.mod_add_mod, ← hmod]
        congr 1
        omega
      obtain ⟨es₁, es₂, s₁, hsplit, hrun₁, hcount, hlast⟩ :=
        ih hs' hp' hrest d hmod' (Nat.le_of_succ_le_succ hle)
      refine ⟨e :: es₁, es₂, s₁, by rw [hsplit]; rfl, (exec_cons_of_step hfirst).trans hrun₁, ?_,
        hlast⟩
      rw [List.countP_cons_of_pos (by simpa using he)]
      omega
    · rw [List.countP_cons_of_neg (by simpa using he)] at hle
      have hmod' : (turn s' + d) % n = u := by rwa [h.stays s e s' hs hfirst he]
      obtain ⟨es₁, es₂, s₁, hsplit, hrun₁, hcount, hlast⟩ := ih hs' hp' hrest d hmod' hle
      refine ⟨e :: es₁, es₂, s₁, by rw [hsplit]; rfl, (exec_cons_of_step hfirst).trans hrun₁, ?_,
        hlast⟩
      rwa [List.countP_cons_of_neg (by simpa using he)]

end TakesTurns

end LinuxLikeOs.Library
