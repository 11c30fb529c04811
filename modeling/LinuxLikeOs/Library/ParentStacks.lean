import Mathlib.Logic.Function.Iterate
import Mathlib.Data.List.Basic

/-!
# Stacks of parent pointers

Nodes that point to their parents form paths; a node that is its own parent is a root.  A
family of stacks keeps a number of such paths apart.

- `Climbs parent root x path`: the path from `x` along the pointers up to `root`
- `Climbs.mem_iff`: the nodes of the path are what the pointers reach
- `Stacks`: paths that share no node, with the two operations `push` and `pop`
-/

namespace LinuxLikeOs.Library

universe u v

variable {α : Type u} {ι : Type v} {parent : α → α} {root x y : α} {path : List α}

/-! ## One path -/

/-- `path` follows `parent` from `x` up to `root`, which is its own parent, and meets no node
    twice. -/
inductive Climbs (parent : α → α) (root : α) : α → List α → Prop where
  | root (hroot : parent root = root) : Climbs parent root root [root]
  | step {x : α} {path : List α} (hx : x ∉ path) (h : Climbs parent root (parent x) path) :
      Climbs parent root x (x :: path)

namespace Climbs

/-- The path contains its start. -/
theorem start_mem (h : Climbs parent root x path) : x ∈ path := by
  cases h with
  | root => exact List.mem_singleton_self _
  | step => exact List.mem_cons_self

/-- The path contains its root. -/
theorem root_mem (h : Climbs parent root x path) : root ∈ path := by
  induction h with
  | root => exact List.mem_singleton_self _
  | step _ _ ih => exact List.mem_cons_of_mem _ ih

/-- The root is its own parent. -/
theorem parent_root (h : Climbs parent root x path) : parent root = root := by
  induction h with
  | root hroot => exact hroot
  | step _ _ ih => exact ih

/-- A start that is its own parent is the root. -/
theorem eq_root (h : Climbs parent root x path) (hx : parent x = x) : x = root := by
  cases h with
  | root => rfl
  | step hnot hrest =>
    rw [hx] at hrest
    exact absurd hrest.start_mem hnot

/-- The nodes of the path are what the pointers reach from its start. -/
theorem mem_iff (h : Climbs parent root x path) : y ∈ path ↔ ∃ n, parent^[n] x = y := by
  induction h with
  | root hroot =>
    rw [List.mem_singleton]
    constructor
    · -- a root is its own parent, so climbing on from it stays there
      rintro rfl
      exact ⟨0, rfl⟩
    · rintro ⟨n, rfl⟩
      exact Function.iterate_fixed hroot n
  | @step x path _ _ ih =>
    -- `y` is where the path starts, or on the path from its parent
    rw [List.mem_cons, ih]
    constructor
    · rintro (rfl | ⟨n, rfl⟩)
      · exact ⟨0, rfl⟩
      · exact ⟨n + 1, rfl⟩
    · rintro ⟨n, rfl⟩
      cases n with
      | zero => exact .inl rfl
      | succ n => exact .inr ⟨n, rfl⟩

/-- The pointer of a node outside the path does not matter. -/
theorem update [DecidableEq α] (h : Climbs parent root x path) (hy : y ∉ path) (z : α) :
    Climbs (Function.update parent y z) root x path := by
  induction h with
  | root hroot =>
    refine .root ?_
    rwa [Function.update_of_ne fun heq => hy (List.mem_singleton.mpr heq.symm)]
  | @step x path hx _ ih =>
    have hne : x ≠ y := fun heq => hy (heq ▸ List.mem_cons_self)
    refine .step hx ?_
    rw [Function.update_of_ne hne]
    exact ih fun hmem => hy (List.mem_cons_of_mem _ hmem)

/-- Below the root the path goes on from the parent. -/
theorem tail (h : Climbs parent root x path) (hx : parent x ≠ x) :
    ∃ rest, path = x :: rest ∧ x ∉ rest ∧ Climbs parent root (parent x) rest := by
  cases h with
  | root hroot => exact absurd hroot hx
  | step hnot hrest => exact ⟨_, rfl, hnot, hrest⟩

/-- The pointers stay on the path. -/
theorem parent_mem (h : Climbs parent root x path) (hy : y ∈ path) : parent y ∈ path := by
  obtain ⟨n, hn⟩ := h.mem_iff.mp hy
  exact h.mem_iff.mpr ⟨n + 1, by rw [Function.iterate_succ_apply', hn]⟩

/-- Only a root points back to the start. -/
theorem parent_ne_start (h : Climbs parent root x path) (hy : y ∈ path) (hne : parent y ≠ y) :
    parent y ≠ x := by
  cases h with
  | root hroot =>
    obtain rfl := List.mem_singleton.mp hy
    exact absurd hroot hne
  | step hx hrest =>
    rcases List.mem_cons.mp hy with rfl | hy
    · exact hne
    · exact fun heq => hx (heq ▸ hrest.parent_mem hy)

end Climbs

/-! ## A family of paths -/

/-- One path for every index; paths of different indices share no node. -/
structure Stacks (parent : α → α) (root top : ι → α) (stack : ι → List α) : Prop where
  climbs : ∀ t, Climbs parent (root t) (top t) (stack t)
  disjoint : ∀ t u x, x ∈ stack t → x ∈ stack u → t = u

namespace Stacks

variable [DecidableEq α] [DecidableEq ι] {root top : ι → α} {stack : ι → List α}

/-- A node outside all paths becomes the top of the path of `t`. -/
theorem push (h : Stacks parent root top stack) (t : ι) (hx : ∀ u, x ∉ stack u) :
    Stacks (Function.update parent x (top t)) root (Function.update top t x)
      (Function.update stack t (x :: stack t)) := by
  -- `x` is in no stack yet, so no old path passes it
  have hold : ∀ u, Climbs (Function.update parent x (top t)) (root u) (top u) (stack u) :=
    fun u => (h.climbs u).update (hx u) _
  -- the new stacks have the old members and, in stack `t` only, `x`
  have hmem : ∀ {u y}, y ∈ Function.update stack t (x :: stack t) u →
      (y = x ∧ u = t) ∨ y ∈ stack u := by
    intro u y hy
    by_cases hu : u = t
    · subst hu
      rw [Function.update_self, List.mem_cons] at hy
      exact hy.imp (fun heq => ⟨heq, rfl⟩) id
    · rw [Function.update_of_ne hu] at hy
      exact .inr hy
  refine ⟨fun u => ?_, fun u v y hu hv => ?_⟩
  · -- stack `t` starts with the new `x` and goes on as before; the others are unchanged
    by_cases hu : u = t
    · subst hu
      rw [Function.update_self, Function.update_self]
      refine .step (hx u) ?_
      rw [Function.update_self]
      exact hold u
    · rw [Function.update_of_ne hu, Function.update_of_ne hu]
      exact hold u
  · -- two stacks that share a member: `x` would have to be in an old one
    rcases hmem hu with ⟨hyx, hut⟩ | hu'
    · rcases hmem hv with ⟨-, hvt⟩ | hv'
      · exact hut.trans hvt.symm
      · exact absurd (hyx ▸ hv') (hx v)
    · rcases hmem hv with ⟨hyx, -⟩ | hv'
      · exact absurd (hyx ▸ hu') (hx u)
      · exact h.disjoint u v y hu' hv'

/-- The top of the path of `t` leaves it; its pointer is free. -/
theorem pop (h : Stacks parent root top stack) (t : ι) (htop : parent (top t) ≠ top t) (z : α) :
    ∃ rest, stack t = top t :: rest ∧ top t ∉ rest ∧
      Stacks (Function.update parent (top t) z) root (Function.update top t (parent (top t)))
        (Function.update stack t rest) := by
  -- `top t` is not a root, so its path has a parent to go on from
  obtain ⟨rest, hstack, hnot, hrest⟩ := (h.climbs t).tail htop
  -- nothing is added to a stack
  have hsub : ∀ {u y}, y ∈ Function.update stack t rest u → y ∈ stack u := by
    intro u y hy
    by_cases hu : u = t
    · subst hu
      rw [Function.update_self] at hy
      rw [hstack]
      exact List.mem_cons_of_mem _ hy
    · rwa [Function.update_of_ne hu] at hy
  refine ⟨rest, hstack, hnot, fun u => ?_, fun u v y hu hv =>
    h.disjoint u v y (hsub hu) (hsub hv)⟩
  -- no path but that of stack `t` passes `top t`, whose parent link is the one overwritten
  by_cases hu : u = t
  · subst hu
    rw [Function.update_self, Function.update_self]
    exact hrest.update hnot z
  · rw [Function.update_of_ne hu, Function.update_of_ne hu]
    exact (h.climbs u).update (fun hmem => hu (h.disjoint u t _ hmem (h.climbs t).start_mem)) z

end Stacks

end LinuxLikeOs.Library
