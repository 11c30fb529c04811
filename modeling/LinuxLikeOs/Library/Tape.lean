import Mathlib.Logic.Function.Basic

/-!
# Typing on a tape

A tape of cells, endless in both directions, with a position.  A character moves the position by
its width, and some characters leave a mark in the cell under it; a character is erased by moving
back and blanking its cell.

- `Tape.erase_text`: erasing a text behind which the position stands blanks the cells that it
  marked, and undoes everything else
-/

namespace LinuxLikeOs.Library

/-- Cells with a position. -/
@[ext] structure Tape (α : Type) where
  cell : Int → α
  pos : Int

variable {α : Type} (width : α → Int) (prints : α → Prop) [DecidablePred prints] (blank : α)

/-- Type one character. -/
def Tape.type (t : Tape α) (c : α) : Tape α where
  cell := if prints c then Function.update t.cell t.pos c else t.cell
  pos := t.pos + width c

/-- Erase the character `c` before the position. -/
def Tape.erase (t : Tape α) (c : α) : Tape α where
  cell := if prints c then Function.update t.cell (t.pos - 1) blank else t.cell
  pos := t.pos - width c

/-- The width of a text. -/
def span : List α → Int
  | [] => 0
  | c :: text => width c + span text

/-- The cells that a text marks, from position `pos` on. -/
def marked (pos : Int) : List α → List Int
  | [] => []
  | c :: text => (if prints c then [pos] else []) ++ marked (pos + width c) text

theorem span_append (text text' : List α) :
    span width (text ++ text') = span width text + span width text' := by
  induction text with
  | nil => exact (Int.zero_add _).symm
  | cons c text ih => rw [List.cons_append, span, span, ih, Int.add_assoc]

theorem span_reverse (text : List α) : span width text.reverse = span width text := by
  induction text with
  | nil => rfl
  | cons c text ih =>
    rw [List.reverse_cons, span_append, ih, span, span, span, Int.add_zero, Int.add_comm]

theorem span_nonneg (hwidth : ∀ c, 0 ≤ width c) (text : List α) : 0 ≤ span width text := by
  induction text with
  | nil => exact Int.le_refl 0
  | cons c text ih =>
    rw [span]
    exact Int.add_nonneg (hwidth c) ih

/-- No text is wider than its widest characters. -/
theorem span_le {w : Int} (hwidth : ∀ c, width c ≤ w) (text : List α) :
    span width text ≤ w * text.length := by
  induction text with
  | nil => exact Int.le_of_eq (Int.mul_zero w).symm
  | cons c text ih =>
    have hc := hwidth c
    rw [span, List.length_cons, Int.natCast_add, Int.mul_add]
    omega

theorem Tape.pos_type (t : Tape α) (text : List α) :
    (text.foldl (Tape.type width prints) t).pos = t.pos + span width text := by
  induction text generalizing t with
  | nil => exact (Int.add_zero _).symm
  | cons c text ih =>
    rw [List.foldl_cons, ih, span, Tape.type, Int.add_assoc]

/-- **Erasing undoes typing**, but for the cells that the text has marked. -/
theorem Tape.erase_text (hwidth : ∀ c, prints c → width c = 1) (t : Tape α) (text : List α) :
    text.reverse.foldl (Tape.erase width prints blank) (text.foldl (Tape.type width prints) t) =
      ⟨fun p => if p ∈ marked width prints t.pos text then blank else t.cell p, t.pos⟩ := by
  induction text generalizing t with
  | nil => simp [marked]
  | cons c text ih =>
    -- the first character is typed first and erased last
    simp only [List.reverse_cons, List.foldl_append, List.foldl_cons, List.foldl_nil, ih]
    refine Tape.ext (funext fun p => ?_) (Int.add_sub_cancel _ _)
    by_cases hprints : prints c
    · have hcell : t.pos + width c - 1 = t.pos := by
        rw [hwidth c hprints]
        exact Int.add_sub_cancel _ _
      by_cases hp : p = t.pos
      · simp [Tape.erase, Tape.type, marked, hprints, hcell, hp]
      · simp [Tape.erase, Tape.type, marked, hprints, hcell, hp]
    · simp [Tape.erase, Tape.type, marked, hprints]

end LinuxLikeOs.Library
