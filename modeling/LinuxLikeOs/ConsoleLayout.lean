import LinuxLikeOs.ConsoleCursor
import LinuxLikeOs.Library.Lines
import Mathlib.Data.List.GetD

/-!
# Layout of the console

The screen of a terminal that is written to without tabs and backspaces shows the last 25 lines
of everything written so far.

- `screenLines`: the text broken into lines of at most 80 characters
- `LogicalScreen.Shows`: a screen shows the last lines, with the cursor behind the last one
- `Shows.draw`: one byte more
- `console_layout`: any number of writes
-/

namespace LinuxLikeOs

open Library

/-! ## The text and its lines -/

/-- The bytes that end a line. -/
def IsBreak (c : UInt8) : Prop := c = newline ∨ c = carriageReturn

instance : DecidablePred IsBreak := fun c => inferInstanceAs (Decidable (c = _ ∨ c = _))

/-- The lines of a text: broken at every line break and right behind every 80th character. -/
def screenLines (text : List UInt8) : List (List UInt8) := breakLines 80 IsBreak [] text

/-- The characters of a screen that shows the last 25 lines, filled up with blanks. -/
def textCells (lines : List (List UInt8)) : Fin 2000 → UInt8 := fun q =>
  (shownRow 25 lines (q / 80)).getD (q % 80) blank

/-- A screen shows the last 25 lines with the cursor behind the last of them. -/
structure LogicalScreen.Shows (l : LogicalScreen) (lines : List (List UInt8)) : Prop where
  char : l.char = textCells lines
  x : l.x = (lines.getLastD []).length
  y : l.y = (min lines.length 25 : Nat) - 1

/-- A new line: below the others, or at the bottom of the screen that scrolls. -/
theorem textCells_concat_nil (lines : List (List UInt8)) :
    textCells (lines ++ [[]]) =
      if lines.length < 25 then textCells lines else scrolled (textCells lines) := by
  funext q
  have hq := q.isLt
  by_cases hroom : lines.length < 25
  · rw [if_pos hroom, textCells, textCells, shownRow_concat_of_lt hroom]
    split_ifs with hrow
    · -- the row was below the text before
      have hbelow : shownRow 25 lines (q / 80) = [] := by
        rw [shownRow, List.getD_eq_getElem?_getD, List.getElem?_eq_none (by omega),
          Option.getD_none]
      rw [hbelow]
    · rfl
  · have hrow : (q : Nat) / 80 < 25 := by omega
    rw [if_neg hroom, textCells, shownRow_concat_of_le (Nat.le_of_not_lt hroom) _ hrow, scrolled]
    -- a row shows what was below it, and the bottom row nothing
    by_cases hbottom : (q : Nat) + 80 < 2000
    · have hnext : ((q : Nat) + 80) / 80 = (q : Nat) / 80 + 1 := by omega
      have hcolumn : ((q : Nat) + 80) % 80 = (q : Nat) % 80 := by omega
      rw [dif_pos hbottom, if_neg (by omega), textCells]
      simp only [hnext, hcolumn]
    · rw [dif_neg hbottom, if_pos (by omega)]
      rfl

/-- A character at the end of the last line. -/
theorem textCells_push (init : List (List UInt8)) {last : List UInt8} (hlast : last.length < 80)
    (c : UInt8) :
    textCells (init ++ [last ++ [c]]) = fun q : Fin 2000 =>
      if (q : Nat) = 80 * (min (init.length + 1) 25 - 1) + last.length then c
      else textCells (init ++ [last]) q := by
  funext q
  rw [textCells, textCells, shownRow_replace_last 25 init last]
  -- only the last line changes, and in it only the cell behind its letters
  by_cases hrow : (q : Nat) / 80 + 1 = min (init.length + 1) 25
  · have hold := shownRow_replace_last 25 init last last (q / 80)
    rw [if_pos hrow] at hold
    rw [if_pos hrow, hold]
    -- left of the new letter, at it, or right of it
    obtain hlt | heq | hgt := Nat.lt_trichotomy ((q : Nat) % 80) last.length
    · rw [if_neg (by omega), List.getD_append _ _ _ _ hlt]
    · rw [if_pos (by omega), heq, List.getD_append_right _ _ _ _ (Nat.le_refl _), Nat.sub_self]
      rfl
    · rw [if_neg (by omega), List.getD_eq_default _ _ (by simp; omega),
        List.getD_eq_default _ _ (Nat.le_of_lt hgt)]
  · rw [if_neg hrow, if_neg (by omega)]

/-! ## One byte more -/

namespace LogicalScreen

/-- The cursor goes to a new line, below the last one or on the bottom row. -/
theorem Shows.of_newLine {l : LogicalScreen} {lines : List (List UInt8)} (hx : l.x = 0)
    (hroom : lines.length < 25 → l.y = lines.length ∧ l.char = textCells lines)
    (hfull : 25 ≤ lines.length → l.y = 24 ∧ l.char = scrolled (textCells lines)) :
    l.Shows (lines ++ [[]]) := by
  have hlast : (lines ++ [[]]).getLastD [] = [] := by simp
  have hlength : (lines ++ [[]]).length = lines.length + 1 := List.length_append
  constructor
  case char =>
    -- a new line moves the window when the screen is full, else it appears below
    rw [textCells_concat_nil]
    split_ifs with h
    · exact (hroom h).2
    · exact (hfull (Nat.le_of_not_lt h)).2
  case x =>
    rw [hlast, hx]
    rfl
  case y =>
    rw [hlength]
    obtain h | h := Nat.lt_or_ge lines.length 25
    · have := (hroom h).1
      omega
    · have := (hfull h).1
      omega

/-- A line break. -/
theorem Shows.draw_break {l : LogicalScreen} {init : List (List UInt8)} {last : List UInt8}
    (h : l.Shows (init ++ [last])) (c1 : UInt8) {c : UInt8} (hc : IsBreak c) :
    (l.draw c1 c).Shows (init ++ nextLines 80 IsBreak last c) := by
  obtain ⟨hx, hy, hchar⟩ := l.draw_eq c1 c
  have hdrawing : drawing l.x l.y c1 c =
      if l.y + 1 ≥ numRows then ⟨.scroll, 0, numRows - 1⟩ else ⟨.keep, 0, l.y + 1⟩ := if_pos hc
  have hlines : init ++ nextLines 80 IsBreak last c = (init ++ [last]) ++ [[]] := by
    rw [nextLines, if_pos hc, List.append_assoc, List.singleton_append]
  have hlength : (init ++ [last]).length = init.length + 1 := List.length_append
  have hly := h.y
  rw [hdrawing] at hx hy hchar
  rw [hlines]
  -- the cursor goes down by one row, or the screen scrolls
  refine .of_newLine ?_ (fun hroom => ?_) (fun hfull => ?_)
  · rw [hx]
    split_ifs <;> rfl
  · have hrow : ¬ l.y + 1 ≥ numRows := by simp only [numRows]; omega
    rw [if_neg hrow] at hy hchar
    refine ⟨?_, hchar.trans h.char⟩
    dsimp only at hy
    omega
  · have hrow : l.y + 1 ≥ numRows := by simp only [numRows]; omega
    rw [if_pos hrow] at hy hchar
    exact ⟨hy, hchar.trans (congrArg scrolled h.char)⟩

/-- A character goes to the end of the last line; the line that it fills is followed by a new
    one. -/
theorem Shows.draw_printable {l : LogicalScreen} {init : List (List UInt8)} {last : List UInt8}
    (h : l.Shows (init ++ [last])) (hlast : last.length < 80) (c1 : UInt8) {c : UInt8}
    (hc : Printable c) : (l.draw c1 c).Shows (init ++ nextLines 80 IsBreak last c) := by
  obtain ⟨hx, hy, hchar⟩ := l.draw_eq c1 c
  have hlength : (init ++ [last]).length = init.length + 1 := List.length_append
  have hlx : l.x = last.length := by simpa using h.x
  have hly : l.y = (min (init.length + 1) 25 : Nat) - 1 := by rw [h.y, hlength]
  have hcolumn : l.x < numCols := by simp only [numCols]; omega
  have hrow : l.y < numRows := by simp only [numRows]; omega
  have hbreak : ¬ IsBreak c := not_or.mpr ⟨hc.1, hc.2.1⟩
  rw [drawing_printable (by omega) hcolumn (by omega) hrow c1 hc] at hx hy hchar
  -- the cell under the cursor is the one behind the last line
  have hstored : (fun q : Fin 2000 => if (q : Int) = numCols * l.y + l.x then c else l.char q) =
      textCells (init ++ [last ++ [c]]) := by
    rw [textCells_push init hlast, h.char]
    funext q
    exact if_congr (by simp only [numCols]; omega) rfl rfl
  -- a line of 80 characters is followed by a new one
  by_cases hfull : last.length + 1 = 80
  · have hlines : init ++ nextLines 80 IsBreak last c = (init ++ [last ++ [c]]) ++ [[]] := by
      rw [nextLines, if_neg hbreak, if_pos hfull, List.append_assoc, List.singleton_append]
    have hlength' : (init ++ [last ++ [c]]).length = init.length + 1 := List.length_append
    rw [hlines]
    refine .of_newLine ?_ (fun hroom => ?_) (fun hbottom => ?_)
    · have hend : l.x = 79 := by omega
      rw [hx, hend]
      split_ifs <;> rfl
    · have hcell : ¬ numCols * l.y + l.x = 1999 := by simp only [numCols]; omega
      rw [if_neg hcell] at hy hchar
      refine ⟨?_, hchar.trans hstored⟩
      dsimp only at hy
      rw [if_pos (by omega)] at hy
      omega
    · have hcell : numCols * l.y + l.x = 1999 := by simp only [numCols]; omega
      rw [if_pos hcell] at hy hchar
      exact ⟨hy, hchar.trans (congrArg scrolled hstored)⟩
  · have hlines : init ++ nextLines 80 IsBreak last c = init ++ [last ++ [c]] := by
      rw [nextLines, if_neg hbreak, if_neg hfull]
    have hcell : ¬ numCols * l.y + l.x = 1999 := by simp only [numCols]; omega
    rw [if_neg hcell] at hx hy hchar
    rw [hlines]
    constructor
    case char => exact hchar.trans hstored
    case x =>
      have hend : ((init ++ [last ++ [c]]).getLastD []).length = last.length + 1 := by simp
      rw [hx, hend]
      dsimp only
      omega
    case y =>
      rw [hy, List.length_append, List.length_singleton, ← hly]
      exact if_neg (by omega)

/-- A byte that is neither a tab nor a backspace. -/
theorem Shows.draw {l : LogicalScreen} {init : List (List UInt8)} {last : List UInt8}
    (h : l.Shows (init ++ [last])) (hlast : last.length < 80) (c1 : UInt8) {c : UInt8}
    (htab : c ≠ tab) (hback : c ≠ backspace) :
    (l.draw c1 c).Shows (init ++ nextLines 80 IsBreak last c) := by
  by_cases hbreak : IsBreak c
  · exact h.draw_break c1 hbreak
  · exact h.draw_printable hlast c1
      ⟨fun hc => hbreak (.inl hc), fun hc => hbreak (.inr hc), hback, htab⟩

/-- One byte behind a text. -/
theorem Shows.draw_text {l : LogicalScreen} {text : List UInt8} (h : l.Shows (screenLines text))
    (c1 : UInt8) {c : UInt8} (htab : c ≠ tab) (hback : c ≠ backspace) :
    (l.draw c1 c).Shows (screenLines (text ++ [c])) := by
  have hempty : ([] : List UInt8).length < 80 := by decide
  obtain ⟨init, last, hlines, hlast, hnext⟩ := breakLines_concat 80 IsBreak hempty text
  rw [screenLines, hlines] at h
  rw [screenLines, hnext]
  exact h.draw hlast c1 htab hback

end LogicalScreen

/-! ## Writes -/

/-- The bytes that a write takes from its buffer. -/
def writtenBytes (w : Buffer × Int) : List UInt8 := (List.range w.2.toNat).map w.1

/-- The bytes of several writes. -/
def writtenText (writes : List (Buffer × Int)) : List UInt8 := writes.flatMap writtenBytes

/-- The loop of `terminal_write` on the displayed screen. -/
theorem shows_foldl_specialPutc {s : Screen} {text : List UInt8}
    (h : s.logical.Shows (screenLines text)) (buf : Buffer) (n : Nat)
    (hbytes : ∀ i < n, buf i ≠ tab ∧ buf i ≠ backspace) :
    ((List.range n).foldl (fun s i => specialPutc s (previousChar buf i) (buf i))
      s).logical.Shows (screenLines (text ++ (List.range n).map buf)) := by
  induction n with
  | zero => simpa using h
  | succ n ih =>
    have hbefore := ih fun i hi => hbytes i (Nat.lt_succ_of_lt hi)
    obtain ⟨htab, hback⟩ := hbytes n n.lt_succ_self
    rw [List.range_succ, List.foldl_append, List.map_append, ← List.append_assoc]
    simp only [List.foldl_cons, List.foldl_nil, List.map_cons, List.map_nil]
    rw [logical_specialPutc]
    exact hbefore.draw_text _ htab hback

/-- Any number of writes. -/
theorem shows_writes {tty : Tty} (hdisplay : tty.curDisplayTid < terminalTotalNum)
    {text : List UInt8} (h : tty.screen.logical.Shows (screenLines text))
    (writes : List (Buffer × Int))
    (hbytes : ∀ c ∈ writtenText writes, c ≠ tab ∧ c ≠ backspace) :
    ∃ tty', exec ttyStep tty
        (writes.map fun w => .write tty.curDisplayTid (some w.1) w.2) = some tty' ∧
      tty'.screen.logical.Shows (screenLines (text ++ writtenText writes)) := by
  -- on the writes, each of which shows its bytes behind the text so far
  induction writes generalizing tty text with
  | nil => exact ⟨tty, rfl, by simpa [writtenText] using h⟩
  | cons w writes ih =>
    have hfirst : ∀ i < w.2.toNat, w.1 i ≠ tab ∧ w.1 i ≠ backspace := by
      intro i hi
      refine hbytes (w.1 i) (List.mem_append.mpr (.inl ?_))
      exact List.mem_map_of_mem (List.mem_range.mpr hi)
    have hstep : ttyStep tty (.write tty.curDisplayTid (some w.1) w.2) =
        some (terminalWrite tty tty.curDisplayTid (some w.1) w.2).2 := if_pos hdisplay
    have hsame : (terminalWrite tty tty.curDisplayTid (some w.1) w.2).2.curDisplayTid =
        tty.curDisplayTid := by simp only [terminalWrite, if_pos]
    have hscreen : (terminalWrite tty tty.curDisplayTid (some w.1) w.2).2.screen.logical.Shows
        (screenLines (text ++ writtenBytes w)) := by
      simp only [terminalWrite, if_pos]
      exact shows_foldl_specialPutc h w.1 w.2.toNat hfirst
    obtain ⟨tty', hrun, hshows⟩ := ih (hsame.symm ▸ hdisplay) hscreen
      fun c hc => hbytes c (List.mem_append.mpr (.inr hc))
    rw [hsame] at hrun
    refine ⟨tty', ?_, ?_⟩
    · rw [List.map_cons, exec_cons_of_step hstep]
      exact hrun
    · rw [writtenText, List.flatMap_cons, ← List.append_assoc]
      exact hshows

/-- A cleared screen shows no text. -/
theorem shows_clearScreen (s : Screen) : (clearScreen s).logical.Shows (screenLines []) := by
  constructor
  case char =>
    -- every cell of a cleared screen is a blank, and so is a text without letters
    funext q
    have hq := q.isLt
    have hempty : shownRow 25 (screenLines []) ((q : Nat) / 80) = [] := by
      cases (q : Nat) / 80 <;> rfl
    have hcell : video ≤ video + 2 * (q : Int) ∧
        video + 2 * (q : Int) < video + 2 * (numRows * numCols) := by
      simp only [numRows, numCols]
      omega
    have hchar : (video + 2 * (q : Int) - video) % 2 = 0 := by omega
    rw [char_logical, charsAt, textCells, hempty]
    simp only [clearScreen, clearText, if_pos hcell, if_pos hchar]
    rfl
  case x => rfl
  case y => rfl

/-- **Layout of the console**: after any writes of bytes other than tab and backspace to the
    displayed terminal, starting from a cleared screen, the screen shows the last 25 lines of
    the text written, with the cursor behind the last one. -/
theorem console_layout {tty : Tty} {s : Screen} (hclear : tty.screen = clearScreen s)
    (hdisplay : tty.curDisplayTid < terminalTotalNum) (writes : List (Buffer × Int))
    (hbytes : ∀ c ∈ writtenText writes, c ≠ tab ∧ c ≠ backspace) :
    ∃ tty', exec ttyStep tty
        (writes.map fun w => .write tty.curDisplayTid (some w.1) w.2) = some tty' ∧
      tty'.screen.logical.Shows (screenLines (writtenText writes)) := by
  have hstart : tty.screen.logical.Shows (screenLines []) := by
    rw [hclear]
    exact shows_clearScreen s
  exact shows_writes hdisplay hstart writes hbytes

/-- A full line, a newline and a letter, written in two calls. -/
theorem console_layout_two_writes :
    ∃ tty', exec ttyStep (initTerminal zeroTty)
        ([((fun _ => 65), 80), ((fun i => if i = 0 then newline else 66), 2)].map fun w =>
          .write (initTerminal zeroTty).curDisplayTid (some w.1) w.2) = some tty' ∧
      tty'.screen.logical.Shows (screenLines (writtenText
        [((fun _ => 65), 80), ((fun i => if i = 0 then newline else 66), 2)])) :=
  console_layout (show (initTerminal zeroTty).screen = clearScreen _ from rfl) (by decide) _
    (by decide +kernel)

/-- The newline behind a full line leaves an empty line. -/
example : screenLines (List.replicate 80 65 ++ [newline, 66]) =
    [List.replicate 80 65, [], [66]] := by decide +kernel

end LinuxLikeOs
