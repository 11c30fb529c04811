import Mathlib.Data.List.Basic

/-!
# Byte ranges and blocks

Copying a sequence that is stored in blocks of equal size, one block at a time.

- `copyRange`: the effect of a `memcpy` on its destination, with the laws that compose
  two adjacent copies
- `getElem?_flatMap_blocks`: the entry of a concatenation of equal blocks
-/

namespace LinuxLikeOs.Library

universe u v

variable {α : Type u} {β : Type v}

/-! ## Copies -/

/-- The array `buf` after `n` cells from `dest` on were overwritten with `src`. -/
def copyRange (buf : Nat → α) (dest n : Nat) (src : Nat → α) : Nat → α := fun j =>
  if dest ≤ j ∧ j < dest + n then src (j - dest) else buf j

@[simp] theorem copyRange_zero (buf : Nat → α) (dest : Nat) (src : Nat → α) :
    copyRange buf dest 0 src = buf := by
  funext j
  exact if_neg fun h => by omega

theorem copyRange_congr {buf src src' : Nat → α} {dest n : Nat}
    (h : ∀ k < n, src k = src' k) : copyRange buf dest n src = copyRange buf dest n src' := by
  funext j
  unfold copyRange
  by_cases hj : dest ≤ j ∧ j < dest + n
  · rw [if_pos hj, if_pos hj, h _ (by omega)]
  · rw [if_neg hj, if_neg hj]

/-- Two adjacent copies are one. -/
theorem copyRange_copyRange (buf src : Nat → α) (dest n m : Nat) :
    copyRange (copyRange buf dest n src) (dest + n) m (fun k => src (n + k)) =
      copyRange buf dest (n + m) src := by
  funext j
  unfold copyRange
  -- in the first range, in the second one, or in neither
  by_cases hlow : dest ≤ j ∧ j < dest + n
  · have hnot : ¬ (dest + n ≤ j ∧ j < dest + n + m) := by omega
    have hall : dest ≤ j ∧ j < dest + (n + m) := by omega
    rw [if_neg hnot, if_pos hlow, if_pos hall]
  · by_cases hhigh : dest + n ≤ j ∧ j < dest + n + m
    · have hall : dest ≤ j ∧ j < dest + (n + m) := by omega
      have hindex : n + (j - (dest + n)) = j - dest := by omega
      rw [if_pos hhigh, if_pos hall]
      exact congrArg src hindex
    · have hnot : ¬ (dest ≤ j ∧ j < dest + (n + m)) := by omega
      rw [if_neg hhigh, if_neg hlow, if_neg hnot]

/-- The copied cells. -/
theorem map_copyRange (buf src : Nat → α) (n : Nat) :
    (List.range n).map (copyRange buf 0 n src) = (List.range n).map src :=
  List.map_congr_left fun j hj => by
    have hj' : 0 ≤ j ∧ j < 0 + n := by have := List.mem_range.mp hj; omega
    exact (if_pos hj').trans (by rw [Nat.sub_zero])

/-! ## Concatenations of blocks -/

/-- Entry `k` of a concatenation of blocks of size `n` is entry `k % n` of block `k / n`. -/
theorem getElem?_flatMap_blocks {f : β → List α} {n : Nat} (hn : 0 < n) (l : List β)
    (hf : ∀ b ∈ l, (f b).length = n) (k : Nat) :
    (l.flatMap f)[k]? = (l[k / n]?).bind fun b => (f b)[k % n]? := by
  -- on the list: the first `n` places belong to the first block, the rest to the others
  induction l generalizing k with
  | nil => simp
  | cons b l ih =>
    have hb : (f b).length = n := hf b (List.mem_cons_self ..)
    have hl := ih fun b' hb' => hf b' (List.mem_cons_of_mem _ hb')
    rw [List.flatMap_cons]
    by_cases hk : k < n
    · rw [List.getElem?_append_left (by rw [hb]; exact hk), Nat.div_eq_of_lt hk,
        Nat.mod_eq_of_lt hk]
      rfl
    · have hle : n ≤ k := Nat.le_of_not_lt hk
      have hdiv : k / n = (k - n) / n + 1 := Nat.div_eq_sub_div hn hle
      rw [List.getElem?_append_right (by rw [hb]; exact hle), hb, hl, hdiv,
        List.getElem?_cons_succ, Nat.mod_eq_sub_mod hle]

end LinuxLikeOs.Library
