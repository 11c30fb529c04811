import Mathlib.Data.List.Basic
import Mathlib.Tactic.SplitIfs

/-!
# Lines of bounded width

A text broken into lines at its line breaks and after every `width` characters, and the last
lines of it as a window of a fixed height.

- `breakLines`: the lines, read from the start of the text
- `breakLines_concat`: one character more changes the last line only
- `breakLines_append`, `breakLines_full`, `breakLines_break`: a piece without line breaks at the
  start of the text
- `shownRow`: the rows of the window, with `shownRow_concat_of_lt` and `shownRow_concat_of_le`
  for a line more and `shownRow_replace_last` for another last line
-/

namespace LinuxLikeOs.Library

universe u

variable {α : Type u}

/-! ## Breaking a text -/

section breakLines

variable (width : Nat) (isBreak : α → Prop) [DecidablePred isBreak]

/-- The lines of a text behind the characters `line` of the current line: a line ends at a line
    break, which belongs to no line, and with its last column. -/
def breakLines : List α → List α → List (List α)
  | line, [] => [line]
  | line, c :: text =>
    if isBreak c then line :: breakLines [] text
    else if line.length + 1 = width then (line ++ [c]) :: breakLines [] text
    else breakLines (line ++ [c]) text

/-- What becomes of the last line when the character `c` follows. -/
def nextLines (line : List α) (c : α) : List (List α) :=
  if isBreak c then [line, []]
  else if line.length + 1 = width then [line ++ [c], []]
  else [line ++ [c]]

/-- One character more changes the last line only, which is not full. -/
theorem breakLines_concat {line : List α} (hline : line.length < width) (text : List α) :
    ∃ init last, breakLines width isBreak line text = init ++ [last] ∧ last.length < width ∧
      ∀ c, breakLines width isBreak line (text ++ [c]) =
        init ++ nextLines width isBreak last c := by
  -- on the text, whose first letter ends a line, fills one or joins it
  induction text generalizing line with
  | nil =>
    refine ⟨[], line, rfl, hline, fun c => ?_⟩
    simp only [List.nil_append, breakLines, nextLines]
  | cons d text ih =>
    have hempty : ([] : List α).length < width := Nat.lt_of_le_of_lt (Nat.zero_le _) hline
    by_cases hd : isBreak d
    · obtain ⟨init, last, hlines, hlast, hnext⟩ := ih hempty
      refine ⟨line :: init, last, ?_, hlast, fun c => ?_⟩
      · rw [breakLines, if_pos hd, hlines, List.cons_append]
      · rw [List.cons_append, breakLines, if_pos hd, hnext, List.cons_append]
    by_cases hfull : line.length + 1 = width
    · obtain ⟨init, last, hlines, hlast, hnext⟩ := ih hempty
      refine ⟨(line ++ [d]) :: init, last, ?_, hlast, fun c => ?_⟩
      · rw [breakLines, if_neg hd, if_pos hfull, hlines, List.cons_append]
      · rw [List.cons_append, breakLines, if_neg hd, if_pos hfull, hnext, List.cons_append]
    · have hmore : (line ++ [d]).length < width := by
        rw [List.length_append, List.length_singleton]
        omega
      obtain ⟨init, last, hlines, hlast, hnext⟩ := ih hmore
      refine ⟨init, last, ?_, hlast, fun c => ?_⟩
      · rw [breakLines, if_neg hd, if_neg hfull, hlines]
      · rw [List.cons_append, breakLines, if_neg hd, if_neg hfull, hnext]

variable {width isBreak} {line piece : List α}

/-- A piece without a line break belongs to the current line, while there is room. -/
theorem breakLines_append (hpiece : ∀ c ∈ piece, ¬ isBreak c)
    (hroom : line.length + piece.length < width) (text : List α) :
    breakLines width isBreak line (piece ++ text) =
      breakLines width isBreak (line ++ piece) text := by
  -- no letter of the piece breaks the line, and the line never fills up
  induction piece generalizing line with
  | nil => rw [List.nil_append, List.append_nil]
  | cons c piece ih =>
    rw [List.length_cons] at hroom
    have hmore : (line ++ [c]).length + piece.length < width := by
      rw [List.length_append, List.length_singleton]
      omega
    rw [List.cons_append, breakLines, if_neg (hpiece c List.mem_cons_self), if_neg (by omega),
      ih (fun d hd => hpiece d (List.mem_cons_of_mem c hd)) hmore, List.append_assoc]
    rfl

/-- A piece that fills the current line. -/
theorem breakLines_full (hpiece : ∀ c ∈ piece, ¬ isBreak c)
    (hfull : line.length + piece.length = width) (hne : piece ≠ []) (text : List α) :
    breakLines width isBreak line (piece ++ text) =
      (line ++ piece) :: breakLines width isBreak [] text := by
  obtain ⟨init, c, rfl⟩ := (List.eq_nil_or_concat' piece).resolve_left hne
  rw [List.length_append, List.length_singleton] at hfull
  rw [List.append_assoc, breakLines_append
    (fun d hd => hpiece d (List.mem_append_left _ hd)) (by omega), List.singleton_append,
    breakLines, if_neg (hpiece c (List.mem_append_right _ (List.mem_singleton_self c))),
    if_pos (by rw [List.length_append]; omega), List.append_assoc]

/-- A piece that the line break `c` ends. -/
theorem breakLines_break (hpiece : ∀ c ∈ piece, ¬ isBreak c)
    (hroom : line.length + piece.length < width) {c : α} (hc : isBreak c) (text : List α) :
    breakLines width isBreak line (piece ++ c :: text) =
      (line ++ piece) :: breakLines width isBreak [] text := by
  rw [breakLines_append hpiece hroom, breakLines, if_pos hc]

end breakLines

/-! ## The last lines as a window -/

/-- Row `r` of a window that shows the last `height` lines; below them it is empty. -/
def shownRow (height : Nat) (lines : List (List α)) (r : Nat) : List α :=
  lines.getD (lines.length - height + r) []

/-- While the window has room, a new line comes below the others. -/
theorem shownRow_concat_of_lt {height : Nat} {lines : List (List α)} (h : lines.length < height)
    (line : List α) (r : Nat) :
    shownRow height (lines ++ [line]) r =
      if r = lines.length then line else shownRow height lines r := by
  -- nothing has scrolled off yet, with or without the new line
  have hall : lines.length + 1 - height = 0 := by omega
  have hold : lines.length - height = 0 := by omega
  simp only [shownRow, List.length_append, List.length_singleton, hall, hold, Nat.zero_add,
    List.getD_eq_getElem?_getD, List.getElem?_append]
  split_ifs with hlt heq heq
  · omega
  · rfl
  · simp [heq]
  · -- below the lines there is nothing, before and after
    have hr : lines.length + 1 ≤ r := by omega
    rw [List.getElem?_eq_none (by simp; omega), List.getElem?_eq_none (by omega)]

/-- In a full window it pushes the other lines up. -/
theorem shownRow_concat_of_le {height : Nat} {lines : List (List α)} (h : height ≤ lines.length)
    (line : List α) {r : Nat} (hr : r < height) :
    shownRow height (lines ++ [line]) r =
      if r + 1 = height then line else shownRow height lines (r + 1) := by
  -- the window moves down by one line
  have hindex : lines.length + 1 - height + r = lines.length - height + (r + 1) := by omega
  simp only [shownRow, List.length_append, List.length_singleton, hindex,
    List.getD_eq_getElem?_getD, List.getElem?_append]
  split_ifs with hlt heq heq
  · omega
  · rfl
  · have hzero : lines.length - height + (r + 1) - lines.length = 0 := by omega
    -- the new line is the last one of the window
    simp [hzero]
  · omega

/-- The last line is shown in the last row that is used. -/
theorem shownRow_replace_last (height : Nat) (init : List (List α)) (line line' : List α)
    (r : Nat) :
    shownRow height (init ++ [line']) r =
      if r + 1 = min (init.length + 1) height then line'
      else shownRow height (init ++ [line]) r := by
  simp only [shownRow, List.length_append, List.length_singleton, List.getD_eq_getElem?_getD,
    List.getElem?_append]
  -- the row of the last line, counted within the window
  by_cases hr : r + 1 = min (init.length + 1) height
  · have hzero : init.length + 1 - height + r - init.length = 0 := by omega
    rw [if_pos hr, if_neg (by omega), hzero]
    rfl
  · rw [if_neg hr]
    split_ifs with hlt
    · rfl
    · -- past the last line both lists are at their end
      rw [List.getElem?_eq_none (by simp; omega), List.getElem?_eq_none (by simp; omega)]

end LinuxLikeOs.Library
