import LinuxLikeOs.Library.Trace

/-!
# Programs that make calls

A program is the tree of its calls: behind a call it goes on with one program for every reply.

- `Program`, `Program.bind`: the trees, and one behind the other
- `Program.run`: a program at a machine that answers its calls
- `Program.Runs`: its result and the number of its calls
- `Host`, `Turn`, `Host.turn`: a program in a system in which others take turns with it
- `Host.Simulates`: the machine answers as the system does, whatever the others do
- `Host.Simulates.follows`: then the program does in the system what it does at the machine
-/

namespace LinuxLikeOs.Library

universe u

variable {Call Reply α β σ K E : Type u}

/-! ## Programs -/

/-- A program: it returns, or it makes a call. -/
inductive Program (Call Reply α : Type u) where
  | done (result : α)
  | call (c : Call) (next : Reply → Program Call Reply α)

namespace Program

/-- One program, and another one on its result. -/
def bind : Program Call Reply α → (α → Program Call Reply β) → Program Call Reply β
  | .done a, f => f a
  | .call c next, f => .call c fun r => (next r).bind f

instance : Monad (Program Call Reply) where
  pure := .done
  bind := Program.bind

/-- A call whose result is the reply. -/
def perform (c : Call) : Program Call Reply Reply := .call c .done

/-- The result of a program and the state of the machine behind it; `none` if the machine has no
    answer to a call. -/
def run (answer : σ → Call → Option (Reply × σ)) : Program Call Reply α → σ → Option (α × σ)
  | .done a, s => some (a, s)
  | .call c next, s => (answer s c).bind fun x => (next x.1).run answer x.2

/-- How many calls a program makes at a machine. -/
def calls (answer : σ → Call → Option (Reply × σ)) : Program Call Reply α → σ → Nat
  | .done _, _ => 0
  | .call c next, s => ((answer s c).map fun x => (next x.1).calls answer x.2).getD 0 + 1

variable (answer : σ → Call → Option (Reply × σ))

/-- A program that makes no more calls has returned. -/
theorem done_of_calls_eq_zero {t : Program Call Reply α} {s : σ} (h : t.calls answer s = 0) :
    ∃ a, t = .done a := by
  cases t with
  | done a => exact ⟨a, rfl⟩
  | call c next => exact absurd h (Nat.succ_ne_zero _)

@[simp] theorem run_perform (c : Call) (s : σ) : (perform c).run answer s = answer s c := by
  rw [perform, run]
  cases answer s c <;> rfl

@[simp] theorem run_bind (t : Program Call Reply α) (f : α → Program Call Reply β) (s : σ) :
    (t >>= f).run answer s = (t.run answer s).bind fun x => (f x.1).run answer x.2 := by
  show (t.bind f).run answer s = _
  induction t generalizing s with
  | done a => rfl
  | call c next ih =>
    simp only [bind, run, Option.bind_assoc]
    exact Option.bind_congr fun x _ => ih x.1 x.2

/-- At the machine in the state `s` the program returns `a` after `n` calls, and leaves `s'`. -/
structure Runs (t : Program Call Reply α) (s : σ) (a : α) (s' : σ) (n : Nat) : Prop where
  run : t.run answer s = some (a, s')
  calls : t.calls answer s = n

namespace Runs

variable {answer} {s s' s'' : σ} {n m : Nat}

theorem done (a : α) (s : σ) : (pure a : Program Call Reply α).Runs answer s a s 0 := ⟨rfl, rfl⟩

theorem call {c : Call} {r : Reply} {next : Reply → Program Call Reply α} {a : α}
    (hanswer : answer s c = some (r, s')) (hnext : (next r).Runs answer s' a s'' n) :
    (perform c >>= next).Runs answer s a s'' (n + 1) := by
  constructor
  case run =>
    rw [run_bind, run_perform, hanswer]
    exact hnext.run
  case calls =>
    show ((answer s c).map fun x => (next x.1).calls answer x.2).getD 0 + 1 = n + 1
    rw [hanswer, ← hnext.calls]
    rfl

/-- One program behind the other. -/
theorem bind {t : Program Call Reply α} {f : α → Program Call Reply β} {a : α} {b : β}
    (ht : t.Runs answer s a s' n) (hf : (f a).Runs answer s' b s'' m) :
    (t >>= f).Runs answer s b s'' (n + m) := by
  obtain ⟨hrun, rfl⟩ := ht
  -- on the program: the answers of `t` are those it gets when it runs alone
  induction t generalizing s with
  | done a' =>
    obtain ⟨rfl, rfl⟩ := Prod.mk.inj (Option.some.inj hrun)
    exact (Nat.zero_add m).symm ▸ hf
  | call c next ih =>
    obtain ⟨⟨r, s₁⟩, hanswer, hrest⟩ := Option.bind_eq_some_iff.mp hrun
    -- the first call counts once, then the rest of the program is asked
    have hcalls : (Program.call c next).calls answer s = (next r).calls answer s₁ + 1 := by
      rw [Program.calls, hanswer]
      rfl
    rw [hcalls, Nat.add_right_comm]
    exact call hanswer (ih r hrest)

end Runs

end Program

/-! ## A system that a program runs in -/

/-- The steps of the others, the states in which it is the program's turn, and the answers that it
    gets there. -/
structure Host (K E Call Reply : Type u) where
  step : K → E → Option K
  ready : K → Prop
  perform : K → Call → Option (Reply × K)

/-- The program makes its next call, or something else happens. -/
inductive Turn (E : Type u) where
  | own
  | other (e : E)

def Turn.isOwn : Turn E → Bool
  | .own => true
  | .other _ => false

/-- One turn; `none` if it cannot be taken. -/
def Host.turn (host : Host K E Call Reply) (x : K × Program Call Reply α) :
    Turn E → Option (K × Program Call Reply α)
  | .other e => (host.step x.1 e).map fun k => (k, x.2)
  | .own =>
    match x.2 with
    | .done _ => none
    | .call c next => (host.perform x.1 c).map fun y => (y.2, next y.1)

/-- What the program sees of the system, in the state `k`, is the machine in the state `s`: the
    others do not change it, and the calls that the machine answers are answered so when it is the
    program's turn. -/
structure Host.Simulates (host : Host K E Call Reply) (answer : σ → Call → Option (Reply × σ))
    (View : σ → K → Prop) : Prop where
  other : ∀ {s k e k'}, View s k → host.step k e = some k' → View s k'
  own : ∀ {s k c r s'}, View s k → host.ready k → answer s c = some (r, s') →
    ∃ k', host.perform k c = some (r, k') ∧ View s' k'
  idle : ∀ {k c}, ¬ host.ready k → host.perform k c = none

namespace Host.Simulates

variable {host : Host K E Call Reply} {answer : σ → Call → Option (Reply × σ)}
variable {View : σ → K → Prop}

/-- One turn of the program: what is left of it has the same result. -/
theorem own_turn (h : host.Simulates answer View) {s s₁ : σ} {a : α}
    {x x' : K × Program Call Reply α} (hview : View s x.1)
    (hrun : x.2.run answer s = some (a, s₁)) (hturn : host.turn x .own = some x') :
    ∃ s', View s' x'.1 ∧ x'.2.run answer s' = some (a, s₁) ∧
      x'.2.calls answer s' + 1 = x.2.calls answer s := by
  obtain ⟨k, t⟩ := x
  cases t with
  | done b => cases hturn
  | call c next =>
    obtain ⟨y, hperform, rfl⟩ := Option.map_eq_some_iff.mp hturn
    obtain ⟨⟨r, s'⟩, hanswer, hrest⟩ := Option.bind_eq_some_iff.mp hrun
    -- a host that answers is ready, for an idle one performs nothing
    have hready : host.ready k := by
      refine Classical.byContradiction fun hidle => ?_
      rw [h.idle hidle] at hperform
      cases hperform
    -- the answer the host gives is the one the model of the calls predicts
    obtain ⟨k', hanswered, hview'⟩ := h.own hview hready hanswer
    obtain rfl := Option.some.inj (hanswered.symm.trans hperform)
    refine ⟨s', hview', hrest, ?_⟩
    rw [Program.calls, hanswer]
    rfl

/-- A program that has not returned can go on when it is its turn. -/
theorem goes_on (h : host.Simulates answer View) {s s₁ : σ} {a : α} {k : K}
    {t : Program Call Reply α} (hview : View s k) (hready : host.ready k)
    (hrun : t.run answer s = some (a, s₁)) (hdone : ∀ b, t ≠ .done b) :
    (host.turn (k, t) .own).isSome = true := by
  cases t with
  | done b => exact absurd rfl (hdone b)
  | call c next =>
    obtain ⟨⟨r, s'⟩, hanswer, -⟩ := Option.bind_eq_some_iff.mp hrun
    obtain ⟨k', hperform, -⟩ := h.own hview hready hanswer
    show ((host.perform k c).map fun y => (y.2, next y.1)).isSome = true
    rw [hperform]
    rfl

/-- **Every run**: whatever the others do in between, what is left of the program has the result
    that it had at the machine, and makes the calls that have not been made. -/
theorem follows (h : host.Simulates answer View) {s s₁ : σ} {a : α}
    {x x' : K × Program Call Reply α} (hview : View s x.1)
    (hrun : x.2.run answer s = some (a, s₁)) {turns : List (Turn E)}
    (hturns : exec host.turn x turns = some x') :
    ∃ s', View s' x'.1 ∧ x'.2.run answer s' = some (a, s₁) ∧
      turns.countP Turn.isOwn + x'.2.calls answer s' = x.2.calls answer s := by
  -- on the turns, own or of others, with the state of the model following
  induction turns generalizing s x with
  | nil =>
    obtain rfl := Option.some.inj hturns
    exact ⟨s, hview, hrun, Nat.zero_add _⟩
  | cons turn turns ih =>
    obtain ⟨x₁, hturn, hrest⟩ := exec_cons_iff.mp hturns
    cases turn with
    | own =>
      obtain ⟨s₂, hview₂, hrun₂, hcalls₂⟩ := h.own_turn hview hrun hturn
      obtain ⟨s', hview', hrun', hcalls'⟩ := ih hview₂ hrun₂ hrest
      refine ⟨s', hview', hrun', ?_⟩
      -- an own turn is one call less to make
      rw [List.countP_cons_of_pos rfl, ← hcalls₂, ← hcalls']
      exact Nat.add_right_comm ..
    | other e =>
      obtain ⟨k, hstep, rfl⟩ := Option.map_eq_some_iff.mp hturn
      obtain ⟨s', hview', hrun', hcalls'⟩ := ih (x := (k, x.2))
        (h.other hview hstep) hrun hrest
      refine ⟨s', hview', hrun', ?_⟩
      -- a turn of the others leaves the program and its calls as they were
      rw [List.countP_cons_of_neg Bool.false_ne_true]
      exact hcalls'

end Host.Simulates

end LinuxLikeOs.Library
