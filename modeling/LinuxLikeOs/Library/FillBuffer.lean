import Mathlib.Logic.Function.Basic

/-!
# Arrays with a fill position

A fixed array and the number of cells in use is how C code keeps a stack or a line of
text.  The contents of such a buffer is the list of the cells below the position; this
file gives the operations and what each does to the contents.

- `contents_push`, `contents_pop`: the position moves by one
- `contents_clear`, `contents_copy`: the loops that overwrite a whole array
- `contents_congr`, `cells_eq_of_contents`: the contents determine the cells in use
-/

namespace LinuxLikeOs.Library

universe u

/-- An array of cells of which the first `fill` are in use. -/
structure FillBuffer (α : Type u) where
  cells : Nat → α
  fill : Nat

namespace FillBuffer

variable {α : Type u}

/-- The cells in use. -/
def contents (b : FillBuffer α) : List α := (List.range b.fill).map b.cells

/-- Store `c` behind the cells in use. -/
def push (b : FillBuffer α) (c : α) : FillBuffer α :=
  ⟨Function.update b.cells b.fill c, b.fill + 1⟩

/-- Store `z` behind the cells in use and give up the last of them. -/
def pop (b : FillBuffer α) (z : α) : FillBuffer α :=
  ⟨Function.update b.cells b.fill z, b.fill - 1⟩

/-- Store `z` in the cells up to `last`; none is in use afterwards. -/
def clear (last : Nat) (z : α) (b : FillBuffer α) : FillBuffer α :=
  ⟨fun i => if i ≤ last then z else b.cells i, 0⟩

/-- Copy the cells up to `last`, and the position, from `src` over `dst`. -/
def copy (last : Nat) (src dst : FillBuffer α) : FillBuffer α :=
  ⟨fun i => if i ≤ last then src.cells i else dst.cells i, src.fill⟩

@[simp] theorem length_contents (b : FillBuffer α) : b.contents.length = b.fill := by
  simp [contents]

/-- The contents depend on the cells in use only. -/
theorem contents_congr {b b' : FillBuffer α} (hfill : b.fill = b'.fill)
    (hcells : ∀ i < b.fill, b.cells i = b'.cells i) : b.contents = b'.contents := by
  unfold contents
  rw [← hfill]
  exact List.map_congr_left fun i hi => hcells i (List.mem_range.mp hi)

/-- A cell in use is the entry of the contents at its index. -/
theorem cells_eq_of_contents {b : FillBuffer α} {i : Nat} (hi : i < b.contents.length) :
    b.cells i = b.contents[i] := by
  simp [contents]

@[simp] theorem contents_push (b : FillBuffer α) (c : α) :
    (b.push c).contents = b.contents ++ [c] := by
  have hbelow : (List.range b.fill).map (Function.update b.cells b.fill c) =
      (List.range b.fill).map b.cells :=
    List.map_congr_left fun i hi =>
      Function.update_of_ne (Nat.ne_of_lt (List.mem_range.mp hi)) _ _
  simp [contents, push, List.range_succ, hbelow]

@[simp] theorem contents_pop (b : FillBuffer α) (z : α) :
    (b.pop z).contents = b.contents.dropLast := by
  obtain ⟨cells, fill⟩ := b
  cases fill with
  | zero => rfl
  | succ n =>
    have hbelow : (List.range n).map (Function.update cells (n + 1) z) =
        (List.range n).map cells :=
      List.map_congr_left fun i hi =>
        Function.update_of_ne
          (Nat.ne_of_lt (Nat.lt_succ_of_lt (List.mem_range.mp hi))) _ _
    simp [contents, pop, List.range_succ, hbelow]

@[simp] theorem contents_clear (last : Nat) (z : α) (b : FillBuffer α) :
    (clear last z b).contents = [] := rfl

theorem contents_copy {last : Nat} {src dst : FillBuffer α} (h : src.fill ≤ last + 1) :
    (copy last src dst).contents = src.contents :=
  contents_congr rfl fun _ hi => if_pos (Nat.le_of_lt_succ (Nat.lt_of_lt_of_le hi h))

end FillBuffer

end LinuxLikeOs.Library
