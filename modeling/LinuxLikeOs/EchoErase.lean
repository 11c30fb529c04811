import Mathlib.Data.List.Basic
import Mathlib.Data.List.Induction
import LinuxLikeOs.Backspace
import LinuxLikeOs.ConsoleCursor
import LinuxLikeOs.Library.Tape

/-!
# Echo and erase

A key press echoes its character, and Backspace takes it back: two case analyses of `special_putc`
that should be inverse to each other.  The rows of the screen, one behind the other, are a tape on
which typing goes on to the right; scrolling moves the screen along the tape.

- **Abstract model**: `Tape`; a tab moves by 4 columns, another character marks its cell
- **Refinement**: `OnTape.type` and `OnTape.erase`: the screen shows the tape, unless a character is
  typed behind the last column
- `erase_undoes_typing_iff`: where erasing a typed text undoes its echo
-/

namespace LinuxLikeOs

open Library

/-! ## The echo of a text -/

/-- The number of lines that an edit scrolls. -/
def PageEdit.lines : PageEdit → Nat
  | .keep | .put .. => 0
  | .scroll | .putScroll .. => 1

/-- The cells that an edit writes, in reading order. -/
def PageEdit.cells : PageEdit → List Int
  | .keep | .scroll => []
  | .put x y _ | .putScroll x y _ => [numCols * y + x]

/-- A screen on which a text is echoed, with the lines it has scrolled and the cells that the echo
    wrote, in reading order from the row that was the first one at the start. -/
structure Echo where
  screen : LogicalScreen
  lines : Nat
  wrote : List Int

/-- Echo one character. -/
def Echo.type (e : Echo) (c : UInt8) : Echo :=
  let edit := (drawing e.screen.x e.screen.y 0 c).edit
  { screen := e.screen.draw 0 c
    lines := e.lines + edit.lines
    wrote := e.wrote ++ edit.cells.map (· + numCols * e.lines) }

namespace LogicalScreen

/-- Echo a text. -/
def echo (l : LogicalScreen) (text : List UInt8) : Echo := text.foldl Echo.type ⟨l, 0, []⟩

/-- Erase a text that was typed, from its end on. -/
def eraseText (l : LogicalScreen) (text : List UInt8) : LogicalScreen :=
  text.reverse.foldl (fun l c => l.draw c backspace) l

/-- The characters of the screen, with blank rows below. -/
def rows (l : LogicalScreen) (p : Int) : UInt8 :=
  if h : 0 ≤ p ∧ p < 2000 then l.char ⟨p.toNat, by omega⟩ else blank

/-- `l'` is `l` after a text was echoed and erased: the cursor is back, moved up by the lines that
    have scrolled, the cells that the echo wrote are blank and the others as they were. -/
structure Undone (l : LogicalScreen) (text : List UInt8) (l' : LogicalScreen) : Prop where
  x : l'.x = l.x
  y : l'.y = l.y - (l.echo text).lines
  char : ∀ q : Fin 2000, l'.char q =
    let p := (q : Int) + numCols * (l.echo text).lines
    if p ∈ (l.echo text).wrote then blank else l.rows p

/-- No character but a tab is typed behind the last column. -/
def TypedOnRows : LogicalScreen → List UInt8 → Prop
  | _, [] => True
  | l, c :: text => (c = tab ∨ l.x ≠ numCols) ∧ TypedOnRows (l.draw 0 c) text

instance decidableTypedOnRows : ∀ l text, Decidable (TypedOnRows l text)
  | _, [] => isTrue trivial
  | l, c :: text =>
    have := decidableTypedOnRows (l.draw 0 c) text
    inferInstanceAs (Decidable (_ ∧ _))

end LogicalScreen

/-! ## The drawings of typing and erasing -/

/-- The columns that a character takes. -/
def charWidth (c : UInt8) : Int := if c = tab then fourBit else 1

/-- A tab only moves the cursor. -/
def Marks (c : UInt8) : Prop := c ≠ tab

instance (c : UInt8) : Decidable (Marks c) := inferInstanceAs (Decidable (_ ≠ _))

theorem charWidth_of_marks {c : UInt8} (h : Marks c) : charWidth c = 1 := if_neg h

theorem charWidth_bounds (c : UInt8) : 1 ≤ charWidth c ∧ charWidth c ≤ 4 := by
  unfold charWidth
  simp only [fourBit]
  split_ifs <;> omega

theorem span_charWidth_nonneg (text : List UInt8) : 0 ≤ span charWidth text :=
  span_nonneg charWidth (fun c => Int.le_trans (by decide) (charWidth_bounds c).1) text

/-- The width of a line. -/
theorem span_charWidth_le {text : List UInt8} (hlength : text.length ≤ bufferSize) :
    span charWidth text ≤ 508 := by
  have hspan := span_le charWidth (fun c => (charWidth_bounds c).2) text
  simp only [bufferSize] at hlength
  omega

/-- A tab. -/
theorem drawing_tab {x y : Int} (hx0 : 0 ≤ x) (hx1 : x ≤ numCols) (c1 : UInt8) :
    drawing x y c1 tab =
      if x ≤ 76 then ⟨.keep, x + 4, y⟩
      else if y + 1 ≥ numRows then ⟨.scroll, x - 76, 24⟩
      else ⟨.keep, x - 76, y + 1⟩ := by
  have hbreak : ¬ (tab = newline ∨ tab = carriageReturn) := by decide
  have hback : ¬ tab = backspace := by decide
  rw [drawing, if_neg hbreak, if_neg hback, if_pos rfl]
  -- room for the four columns of the tab, or not
  by_cases hroom : x ≤ 76
  · have hin : 0 ≤ x ∧ x ≤ numCols - fourBit := ⟨hx0, hroom⟩
    rw [if_pos hin, if_pos hroom]
    rfl
  · have hout : ¬ (0 ≤ x ∧ x ≤ numCols - fourBit) := fun h => hroom h.2
    have hwrap : x > numCols - fourBit := Int.lt_of_not_ge hroom
    -- the column is never negative, so C's remainder is the mathematical one
    have hmod4 : (x + fourBit).tmod numCols = (x + 4) % 80 :=
      Int.tmod_eq_emod_of_nonneg (a := x + 4) (by omega)
    have hmod : (x + fourBit).tmod numCols = x - 76 := by
      simp only [numCols] at hx1
      omega
    rw [if_neg hout, if_pos hwrap, if_neg hroom, hmod]
    rfl

/-- Behind the last column a character is written into the next row, and the cursor stays in its
    own. -/
theorem drawing_behindRow {y : Int} (hy : y < numRows) (c1 : UInt8) {c : UInt8}
    (hc : Printable c) : drawing numCols y c1 c = ⟨.put numCols y c, 1, y⟩ := by
  have hbreak : ¬ (c = newline ∨ c = carriageReturn) := not_or.mpr ⟨hc.1, hc.2.1⟩
  have hmod : (numCols + 1).tmod numCols = 1 := by decide
  have hone : ¬ (1 : Int) = 0 := by decide
  have hrow : ¬ y ≥ numRows := Int.not_le.mpr hy
  rw [drawing, if_neg hbreak, if_neg hc.2.2.1, if_neg hc.2.2.2]
  simp only [hmod, hone, if_false, hrow]

/-- What a backspace draws behind `c`. -/
inductive ErasedDrawing (x y : Int) (c : UInt8) : Drawing → Prop
  -- a tab only moved the cursor, so only the cursor moves back
  | tabIn (hc : c = tab) (hx : 4 ≤ x) : ErasedDrawing x y c ⟨.keep, x - 4, y⟩
  | tabBack (hc : c = tab) (hx : x < 4) : ErasedDrawing x y c ⟨.keep, x + 76, y - 1⟩
  -- the cell of a character is blanked
  | char (hc : c ≠ tab) (hx : 0 < x) : ErasedDrawing x y c ⟨.put (x - 1) y blank, x - 1, y⟩
  | charBack (hc : c ≠ tab) (hx : x = 0) :
      ErasedDrawing x y c ⟨.put 79 (y - 1) blank, 79, y - 1⟩

theorem drawing_erased {x y : Int} (hx0 : 0 ≤ x) (hcorner : ¬ (x = 0 ∧ y = 0)) (c : UInt8) :
    ErasedDrawing x y c (drawing x y c backspace) := by
  have hbreak : ¬ (backspace = newline ∨ backspace = carriageReturn) := by decide
  rw [drawing, if_neg hbreak, if_pos rfl, if_neg hcorner]
  -- a tab goes back four columns, any other letter one
  by_cases htab : c = tab
  · have hzero : ¬ (x = 0 ∧ c ≠ tab) := fun h => h.2 htab
    have hpos : ¬ (x > 0 ∧ c ≠ tab) := fun h => h.2 htab
    rw [if_neg hzero, if_neg hpos]
    -- at the start of a row the cursor goes back into the row above
    by_cases hwrap : x < 4
    · have hback : numCols + x - fourBit = x + 76 := by simp only [numCols, fourBit]; omega
      rw [if_pos ⟨hx0, hwrap, htab⟩, hback]
      exact .tabBack htab hwrap
    · have hout : ¬ (0 ≤ x ∧ x < fourBit ∧ c = tab) := fun h => hwrap h.2.1
      rw [if_neg hout, if_pos ⟨Int.not_lt.mp hwrap, htab⟩]
      exact .tabIn htab (Int.not_lt.mp hwrap)
  · by_cases hx : x = 0
    · rw [if_pos ⟨hx, htab⟩]
      exact .charBack htab hx
    · have hpos : 0 < x := by omega
      rw [if_neg fun h => hx h.1, if_pos ⟨hpos, htab⟩]
      exact .char htab hpos

/-- A byte that a key types. -/
def Typed (c : UInt8) : Prop := c = tab ∨ Printable c

/-- The cursor is in one of the 25 rows, in a column or right behind the last one. -/
structure LogicalScreen.InRange (l : LogicalScreen) : Prop where
  x_nonneg : 0 ≤ l.x
  x_le : l.x ≤ 80
  y_nonneg : 0 ≤ l.y
  y_le : l.y ≤ 24

/-- What typing draws. -/
inductive TypedDrawing (x y : Int) : UInt8 → Drawing → Prop
  -- column 76 still counts as inside, so the cursor may end behind the last column
  | tabIn (hx : x ≤ 76) : TypedDrawing x y tab ⟨.keep, x + 4, y⟩
  | tabWrap (hx : 76 < x) (hy : y < 24) : TypedDrawing x y tab ⟨.keep, x - 76, y + 1⟩
  | tabScroll (hx : 76 < x) (hy : y = 24) : TypedDrawing x y tab ⟨.scroll, x - 76, 24⟩
  | char {c : UInt8} (hc : c ≠ tab) (hx : x < 79) : TypedDrawing x y c ⟨.put x y c, x + 1, y⟩
  -- the last column: on to the next row, or scroll
  | charWrap {c : UInt8} (hc : c ≠ tab) (hx : x = 79) (hy : y < 24) :
      TypedDrawing x y c ⟨.put x y c, 0, y + 1⟩
  | charScroll {c : UInt8} (hc : c ≠ tab) (hx : x = 79) (hy : y = 24) :
      TypedDrawing x y c ⟨.putScroll x y c, 0, 24⟩
  -- written into the next row, with the cursor in the old one
  | behindRow {c : UInt8} (hc : c ≠ tab) (hx : x = 80) : TypedDrawing x y c ⟨.put x y c, 1, y⟩

theorem drawing_typed {l : LogicalScreen} (h : l.InRange) (c1 : UInt8) {c : UInt8}
    (hc : Typed c) : TypedDrawing l.x l.y c (drawing l.x l.y c1 c) := by
  obtain ⟨hx0, hx1, hy0, hy1⟩ := h
  -- a tab moves the cursor only; a letter is drawn where the cursor is
  rcases hc with rfl | hc
  · rw [drawing_tab hx0 hx1]
    split_ifs with hroom hlast
    · exact .tabIn hroom
    · have hrow : l.y = 24 := by simp only [numRows] at hlast; omega
      exact .tabScroll (Int.not_le.mp hroom) hrow
    · have hrow : l.y < 24 := by simp only [numRows] at hlast; omega
      exact .tabWrap (Int.not_le.mp hroom) hrow
  · have hrow : l.y < numRows := by simp only [numRows]; omega
    have htab := hc.2.2.2
    -- column 80 is behind the row: the letter goes there, the cursor back to column 1 of the row
    by_cases hend : l.x = numCols
    · have hdraw := drawing_behindRow hrow c1 hc
      rw [← hend] at hdraw
      rw [hdraw]
      exact .behindRow htab hend
    · have hcolumn : l.x < 80 := Int.lt_iff_le_and_ne.mpr ⟨hx1, hend⟩
      rw [drawing_printable hx0 hcolumn hy0 hrow c1 hc]
      -- the last column: the cursor goes on in the next row, or the screen scrolls
      by_cases hwrap : l.x = 79
      · by_cases hlast : l.y = 24
        · have hcorner : numCols * l.y + l.x = 1999 := by rw [hwrap, hlast]; rfl
          rw [if_pos hcorner]
          exact .charScroll htab hwrap hlast
        · have hcorner : ¬ numCols * l.y + l.x = 1999 := by simp only [numCols]; omega
          have hmod : (l.x + 1) % 80 = 0 := by omega
          rw [if_neg hcorner, if_pos hwrap, hmod]
          exact .charWrap htab hwrap (Int.lt_iff_le_and_ne.mpr ⟨hy1, hlast⟩)
      · have hcorner : ¬ numCols * l.y + l.x = 1999 := by simp only [numCols]; omega
        have hmod : (l.x + 1) % 80 = l.x + 1 := by omega
        rw [if_neg hcorner, if_neg hwrap, hmod]
        exact .char htab (by omega)

/-! ## The cursor -/

/-- The position of the cursor on the tape. -/
def Echo.pos (e : Echo) : Int := e.screen.position + numCols * e.lines

/-- Echoing a character is its drawing. -/
theorem Echo.type_eq {e : Echo} {c : UInt8} {d : Drawing}
    (hd : drawing e.screen.x e.screen.y 0 c = d) :
    (e.type c).screen.x = d.x ∧ (e.type c).screen.y = d.y ∧
      (e.type c).screen.char = d.edit.chars e.screen.char ∧
      (e.type c).lines = e.lines + d.edit.lines ∧
      (e.type c).wrote = e.wrote ++ d.edit.cells.map (· + numCols * e.lines) := by
  subst hd
  obtain ⟨hx, hy, hchar⟩ := e.screen.draw_eq 0 c
  exact ⟨hx, hy, hchar, rfl, rfl⟩

/-- Echoing a character moves the cursor by its width, but 80 columns less behind the last column;
    the screen scrolls only with the cursor in the last row. -/
theorem Echo.type_pos {e : Echo} (h : e.screen.InRange) {c : UInt8} (hc : Typed c) :
    (e.type c).screen.InRange ∧
      (e.type c).pos = e.pos + charWidth c - (if c ≠ tab ∧ e.screen.x = numCols then 80 else 0) ∧
      ((e.type c).lines = e.lines ∨ (e.type c).screen.y = 24) := by
  have hdraw := drawing_typed h 0 hc
  generalize hd : drawing e.screen.x e.screen.y 0 c = d at hdraw
  obtain ⟨hx, hy, -, hlines, -⟩ := Echo.type_eq hd
  -- in range before and after, whatever the drawing
  have hrange : (e.type c).screen.InRange ↔ 0 ≤ d.x ∧ d.x ≤ 80 ∧ 0 ≤ d.y ∧ d.y ≤ 24 := by
    rw [← hx, ← hy]
    exact ⟨fun ⟨h1, h2, h3, h4⟩ => ⟨h1, h2, h3, h4⟩, fun ⟨h1, h2, h3, h4⟩ => ⟨h1, h2, h3, h4⟩⟩
  obtain ⟨hx0, hx1, hy0, hy1⟩ := h
  simp only [hrange, Echo.pos, LogicalScreen.position, hx, hy, hlines, numCols]
  clear hrange hx hy hlines hd
  -- one case for each kind of drawing; the sums are linear in the two coordinates
  cases hdraw with
  | tabIn | tabWrap | tabScroll =>
    simp only [PageEdit.lines, charWidth, fourBit, if_true, ne_eq, not_true, false_and, if_false,
      or_true, and_true]
    omega
  | char hc | charWrap hc | charScroll hc | behindRow hc =>
    simp only [PageEdit.lines, charWidth, hc, if_false, ne_eq, not_false_eq_true, true_and,
      or_true, and_true]
    split_ifs <;> omega

/-! ## The screen on the tape -/

/-- The characters of a screen are the 25 rows of the tape behind the first `lines` ones, and the
    rows below are blank. -/
structure Window (chars : Fin 2000 → UInt8) (cell : Int → UInt8) (lines : Nat) : Prop where
  char : ∀ q : Fin 2000, chars q = cell ((q : Nat) + 80 * (lines : Int))
  below : ∀ p, 2000 + 80 * (lines : Int) ≤ p → cell p = blank

variable {chars : Fin 2000 → UInt8} {cell : Int → UInt8} {lines : Nat}

/-- Scrolling moves the window down by one row. -/
theorem Window.scroll (h : Window chars cell lines) : Window (scrolled chars) cell (lines + 1) := by
  refine ⟨fun q => ?_, fun p hp => h.below p (by push_cast at hp; omega)⟩
  unfold scrolled
  split_ifs with hrow
  · rw [h.char]
    congr 1
    push_cast
    omega
  · exact (h.below _ (by push_cast; omega)).symm

/-- Storing a character stores it on the tape. -/
theorem Window.put (h : Window chars cell lines) {x y : Int} (c : UInt8)
    (hcell : numCols * y + x < 2000) :
    Window ((PageEdit.put x y c).chars chars)
      (Function.update cell (numCols * y + x + 80 * lines) c) lines := by
  constructor
  · intro q
    rw [Function.update_apply, PageEdit.chars]
    exact if_congr (by omega) rfl (h.char q)
  · intro p hp
    rw [Function.update_of_ne (by omega)]
    exact h.below p hp

/-- The screen shows the tape behind the first `lines` rows, with the cursor at the position. -/
structure LogicalScreen.OnTape (l : LogicalScreen) (t : Tape UInt8) (lines : Nat) : Prop
    extends l.InRange where
  window : Window l.char t.cell lines
  pos : l.position + 80 * lines = t.pos

/-- Without scrolling, a screen is its own tape. -/
theorem LogicalScreen.onTape_rows {l : LogicalScreen} (h : l.InRange) :
    l.OnTape ⟨l.rows, l.position⟩ 0 := by
  have hzero : 80 * ((0 : Nat) : Int) = 0 := rfl
  refine ⟨h, ⟨fun q => ?_, fun p hp => ?_⟩, by rw [hzero, Int.add_zero]⟩
  · have hq : 0 ≤ ((q : Nat) : Int) ∧ ((q : Nat) : Int) < 2000 := by omega
    simp only [hzero, Int.add_zero, rows, dif_pos hq, Int.toNat_natCast]
  · have hp' : ¬ (0 ≤ p ∧ p < 2000) := by omega
    simp only [rows, dif_neg hp']

/-- **Echoing a character types it on the tape**, unless the cursor is behind the last column. -/
theorem LogicalScreen.OnTape.type {e : Echo} {t : Tape UInt8} (h : e.screen.OnTape t e.lines)
    {c : UInt8} (hc : Typed c) (hcolumn : c = tab ∨ e.screen.x ≠ numCols) :
    (e.type c).screen.OnTape (t.type charWidth Marks c) (e.type c).lines ∧
      (e.type c).wrote = e.wrote ++ if Marks c then [t.pos] else [] := by
  have hdraw := drawing_typed h.toInRange 0 hc
  generalize hd : drawing e.screen.x e.screen.y 0 c = d at hdraw
  obtain ⟨-, -, hchar, hlines, hwrote⟩ := Echo.type_eq hd
  obtain ⟨hrange, hpos, -⟩ := Echo.type_pos h.toInRange hc
  have hold := h.pos
  have hcell : numCols * e.screen.y + e.screen.x + 80 * e.lines = t.pos := h.pos
  -- the cursor on the screen is the position on the tape, less the lines scrolled off
  have hnew : (e.type c).screen.position + 80 * (e.type c).lines =
      (t.type charWidth Marks c).pos := by
    have hgood : ¬ (c ≠ tab ∧ e.screen.x = numCols) := fun hbad =>
      hcolumn.elim hbad.1 fun hx => hx hbad.2
    rw [if_neg hgood] at hpos
    simp only [Echo.pos, numCols] at hpos
    simp only [Tape.type]
    omega
  -- what remains is that the cells agree and the same cells are written
  suffices hwindow : Window (e.type c).screen.char (t.type charWidth Marks c).cell
      (e.type c).lines ∧ (e.type c).wrote = e.wrote ++ if Marks c then [t.pos] else [] from
    ⟨⟨hrange, hwindow.1, hnew⟩, hwindow.2⟩
  rw [hchar, hlines, hwrote]
  have hy := h.y_le
  have htab : ¬ Marks tab := fun hne => hne rfl
  -- the kinds of drawing: the tape moves, writes, or scrolls with the screen
  cases hdraw with
  | tabIn | tabWrap =>
    simp only [Tape.type, if_neg htab]
    exact ⟨h.window, rfl⟩
  | tabScroll =>
    simp only [Tape.type, if_neg htab]
    exact ⟨h.window.scroll, rfl⟩
  | char hmarks hx | charWrap hmarks hx =>
    have hmarks : Marks c := hmarks
    have hin : numCols * e.screen.y + e.screen.x < 2000 := by simp only [numCols]; omega
    simp only [Tape.type, if_pos hmarks, ← hcell]
    exact ⟨h.window.put c hin, rfl⟩
  | charScroll hmarks hx =>
    have hmarks : Marks c := hmarks
    have hin : numCols * e.screen.y + e.screen.x < 2000 := by simp only [numCols]; omega
    simp only [Tape.type, if_pos hmarks, ← hcell]
    exact ⟨(h.window.put c hin).scroll, rfl⟩
  | behindRow hmarks hx => exact absurd hx (hcolumn.resolve_left hmarks)

/-- **Erasing a character erases it on the tape**, as long as the position stays on the screen. -/
theorem LogicalScreen.OnTape.erase {l : LogicalScreen} {t : Tape UInt8} (h : l.OnTape t lines)
    {c : UInt8} (hroom : 80 * lines ≤ t.pos - charWidth c) :
    (l.draw c backspace).OnTape (t.erase charWidth Marks blank c) lines := by
  obtain ⟨⟨hx0, hx1, hy0, hy1⟩, hwindow, hpos⟩ := h
  obtain ⟨hx, hy, hchar⟩ := l.draw_eq c backspace
  simp only [LogicalScreen.position, numCols] at hpos
  have hwidth := (charWidth_bounds c).1
  have hcorner : ¬ (l.x = 0 ∧ l.y = 0) := by omega
  have hdraw := drawing_erased hx0 hcorner c
  generalize drawing l.x l.y c backspace = d at hx hy hchar hdraw
  suffices hnew : (0 ≤ d.x ∧ d.x ≤ 80 ∧ 0 ≤ d.y ∧ d.y ≤ 24) ∧
      Window (d.edit.chars l.char) (t.erase charWidth Marks blank c).cell lines ∧
      80 * d.y + d.x + 80 * lines = t.pos - charWidth c by
    obtain ⟨⟨hx0', hx1', hy0', hy1'⟩, hwindow', hpos'⟩ := hnew
    rw [← hx, ← hy] at hpos'
    rw [← hchar] at hwindow'
    exact ⟨⟨hx ▸ hx0', hx ▸ hx1', hy ▸ hy0', hy ▸ hy1'⟩, hwindow', hpos'⟩
  cases hdraw with
  | tabIn htab | tabBack htab =>
    have hmarks : ¬ Marks c := fun hne => hne htab
    have hfour : charWidth c = 4 := if_pos htab
    simp only [Tape.erase, if_neg hmarks, hfour] at hroom ⊢
    refine ⟨by omega, hwindow, by omega⟩
  | char htab | charBack htab =>
    have hmarks : Marks c := htab
    have hone : charWidth c = 1 := if_neg htab
    have hleft : (Tape.erase charWidth Marks blank t c).cell =
        Function.update t.cell (t.pos - 1) blank := if_pos hmarks
    -- the blank goes into the cell before the cursor
    have hput : ∀ {x y : Int}, numCols * y + x + 1 = 80 * l.y + l.x →
        Window ((PageEdit.put x y blank).chars l.char)
          (Tape.erase charWidth Marks blank t c).cell lines := by
      intro x y hbefore
      have hcell : t.pos - 1 = numCols * y + x + 80 * lines := by omega
      rw [hleft, hcell]
      exact hwindow.put blank (by omega)
    rw [hone] at hroom ⊢
    refine ⟨by dsimp only; omega, hput ?_, by dsimp only; omega⟩
    simp only [numCols]
    omega

/-! ## Typing and erasing a text -/

/-- **Typing** a text on the screen types it on the tape. -/
theorem LogicalScreen.OnTape.typeText {e : Echo} {t : Tape UInt8} (h : e.screen.OnTape t e.lines)
    {text : List UInt8} (htyped : ∀ c ∈ text, Typed c) (hrows : e.screen.TypedOnRows text) :
    (text.foldl Echo.type e).screen.OnTape (text.foldl (Tape.type charWidth Marks) t)
        (text.foldl Echo.type e).lines ∧
      (text.foldl Echo.type e).wrote = e.wrote ++ marked charWidth Marks t.pos text := by
  induction text generalizing e t with
  | nil => exact ⟨h, (List.append_nil _).symm⟩
  | cons c text ih =>
    obtain ⟨hfirst, hwrote⟩ := h.type (htyped c List.mem_cons_self) hrows.1
    obtain ⟨hrest, hwrote'⟩ := ih hfirst (fun d hd => htyped d (List.mem_cons_of_mem _ hd)) hrows.2
    refine ⟨hrest, ?_⟩
    rw [List.foldl_cons, hwrote', hwrote, marked, List.append_assoc]
    rfl

/-- **Erasing** a text on the screen erases it on the tape, as long as the position stays on the
    screen. -/
theorem LogicalScreen.OnTape.eraseAll {l : LogicalScreen} {t : Tape UInt8} (h : l.OnTape t lines)
    {text : List UInt8} (hroom : 80 * lines ≤ t.pos - span charWidth text) :
    (text.foldl (fun l c => l.draw c backspace) l).OnTape
      (text.foldl (Tape.erase charWidth Marks blank) t) lines := by
  induction text generalizing l t with
  | nil => exact h
  | cons c text ih =>
    rw [span] at hroom
    have hspan := span_charWidth_nonneg text
    have hnext : 80 * lines ≤ (t.erase charWidth Marks blank c).pos - span charWidth text := by
      simp only [Tape.erase]
      omega
    exact ih (h.erase (by omega)) hnext

/-- Where a text ends: at most its width behind the start, and 80 columns before that if a
    character was typed behind the last column; the screen has scrolled only as far as the text
    went. -/
theorem Echo.typeText_pos {e : Echo} (h : e.screen.InRange) {text : List UInt8}
    (htyped : ∀ c ∈ text, Typed c) :
    (text.foldl Echo.type e).screen.InRange ∧
      (text.foldl Echo.type e).pos ≤ e.pos + span charWidth text ∧
      (¬ e.screen.TypedOnRows text →
        (text.foldl Echo.type e).pos + 80 ≤ e.pos + span charWidth text) ∧
      ((text.foldl Echo.type e).lines = e.lines ∨
        1920 + 80 * ((text.foldl Echo.type e).lines : Int) ≤ e.pos + span charWidth text) := by
  -- on the text; the position is behind by 80 for each letter typed in column 80
  induction text generalizing e with
  | nil =>
    exact ⟨h, Int.le_of_eq (Int.add_zero _).symm, fun hbad => absurd trivial hbad, .inl rfl⟩
  | cons c text ih =>
    have hc := htyped c List.mem_cons_self
    obtain ⟨hrange, hpos, hscroll⟩ := Echo.type_pos h hc
    obtain ⟨hend, hle, hbad, hlines⟩ := ih hrange fun d hd => htyped d (List.mem_cons_of_mem _ hd)
    have hspan := span_charWidth_nonneg text
    rw [List.foldl_cons, span]
    -- a letter moves the position by its width, or by 80 less
    have hstep : (e.type c).pos ≤ e.pos + charWidth c := by
      rw [hpos]
      split_ifs <;> omega
    refine ⟨hend, by omega, fun hnot => ?_, ?_⟩
    · by_cases hrest : (e.type c).screen.TypedOnRows text
      · -- it was the first character
        have hfirst : c ≠ tab ∧ e.screen.x = numCols := by
          rw [LogicalScreen.TypedOnRows, not_and_or, not_or, not_not] at hnot
          exact hnot.resolve_right fun hno => hno hrest
        rw [if_pos hfirst] at hpos
        omega
      · have := hbad hrest
        omega
    · -- the lines scrolled so far are still small against the position reached
      rcases hlines with hsame | hfar
      · rw [hsame]
        rcases hscroll with hsame' | hlast
        · exact .inl hsame'
        · right
          have hx0 := hrange.x_nonneg
          have hend : (e.type c).pos = 80 * 24 + (e.type c).screen.x + 80 * (e.type c).lines := by
            simp only [Echo.pos, LogicalScreen.position, hlast, numCols]
          omega
      · right
        omega

/-- In the top left corner there is nothing to erase. -/
theorem LogicalScreen.draw_corner {l : LogicalScreen} (hcorner : l.x = 0 ∧ l.y = 0) (c : UInt8) :
    l.draw c backspace = l := by
  have hstay : specialPutc l.toScreen c backspace = l.toScreen :=
    specialPutc_corner (s := l.toScreen) hcorner c
  rw [draw, hstay, toScreen_logical]

/-- Elsewhere a Backspace takes the cursor back by the width of the character. -/
theorem LogicalScreen.draw_backspace_pos {l : LogicalScreen} (hx0 : 0 ≤ l.x) (hx1 : l.x ≤ 80)
    (hcorner : ¬ (l.x = 0 ∧ l.y = 0)) (c : UInt8) :
    0 ≤ (l.draw c backspace).x ∧ (l.draw c backspace).x < 80 ∧
      (l.draw c backspace).position = l.position - charWidth c := by
  obtain ⟨hx, hy, -⟩ := l.draw_eq c backspace
  simp only [position, hx, hy, numCols]
  have hdraw := drawing_erased hx0 hcorner c
  generalize drawing l.x l.y c backspace = d at hdraw
  cases hdraw with
  | tabIn htab | tabBack htab =>
    simp only [charWidth, if_pos htab, fourBit]
    omega
  | char htab | charBack htab =>
    simp only [charWidth, if_neg htab]
    omega

/-- Several ones take it back by the width of the text, unless it gets stuck in the corner. -/
theorem LogicalScreen.eraseAll_pos {l : LogicalScreen} (hx0 : 0 ≤ l.x) (hx1 : l.x ≤ 80)
    (text : List UInt8) :
    (text = [] ∨ (text.foldl (fun l c => l.draw c backspace) l).x < 80) ∧
      ((text.foldl (fun l c => l.draw c backspace) l).x = 0 ∧
          (text.foldl (fun l c => l.draw c backspace) l).y = 0 ∨
        (text.foldl (fun l c => l.draw c backspace) l).position =
          l.position - span charWidth text) := by
  -- on the text to erase; in the corner Backspace changes nothing more
  induction text generalizing l with
  | nil => exact ⟨.inl rfl, .inr (Int.sub_zero _).symm⟩
  | cons c text ih =>
    by_cases hcorner : l.x = 0 ∧ l.y = 0
    · -- it stays there
      have hstay := List.foldl_fixed' (f := fun l c => LogicalScreen.draw l c backspace)
        (fun c => draw_corner hcorner c) (c :: text)
      rw [hstay]
      exact ⟨.inr (by omega), .inl hcorner⟩
    · -- else the cursor goes back by the width of the letter
      obtain ⟨hx0', hx1', hpos⟩ := l.draw_backspace_pos hx0 hx1 hcorner c
      obtain ⟨hcolumn, hend⟩ := ih hx0' (Int.le_of_lt hx1')
      rw [List.foldl_cons, span]
      refine ⟨.inr ?_, hend.imp_right fun heq => by omega⟩
      rcases hcolumn with rfl | hlt
      · exact hx1'
      · exact hlt

theorem LogicalScreen.OnScreen.inRange {l : LogicalScreen} (h : l.OnScreen) : l.InRange :=
  ⟨h.x_nonneg, Int.le_of_lt h.x_lt, h.y_nonneg, Int.le_of_lt_add_one h.y_lt⟩

/-- Where the echo of a line ends, and that it scrolls by less than the rows above the start. -/
theorem LogicalScreen.echo_pos {l : LogicalScreen} (h : l.OnScreen) {text : List UInt8}
    (htyped : ∀ c ∈ text, Typed c) (hlength : text.length ≤ bufferSize) :
    (l.echo text).screen.InRange ∧
      (¬ l.TypedOnRows text →
        (l.echo text).screen.position + 80 * ((l.echo text).lines : Int) + 80 ≤
          l.position + span charWidth text) ∧
      ((l.echo text).lines = 0 ∨ 1412 + 80 * ((l.echo text).lines : Int) ≤ l.position) := by
  have hstart : (⟨l, 0, []⟩ : Echo).pos = l.position := Int.add_zero _
  have hspan := span_charWidth_le hlength
  obtain ⟨hrange, -, hback, hscroll⟩ := Echo.typeText_pos (e := ⟨l, 0, []⟩) h.inRange htyped
  rw [hstart] at hback hscroll
  refine ⟨hrange, hback, hscroll.imp_right fun hfar => ?_⟩
  have hlines : 1920 + 80 * ((l.echo text).lines : Int) ≤ l.position + span charWidth text := hfar
  omega

/-- The echo on the tape of the screen. -/
theorem LogicalScreen.echo_onTape {l : LogicalScreen} (h : l.OnScreen) {text : List UInt8}
    (htyped : ∀ c ∈ text, Typed c) (hrows : l.TypedOnRows text) :
    (l.echo text).screen.OnTape (text.foldl (Tape.type charWidth Marks) ⟨l.rows, l.position⟩)
        (l.echo text).lines ∧
      (l.echo text).wrote = marked charWidth Marks l.position text :=
  (onTape_rows h.inRange).typeText (e := ⟨l, 0, []⟩) htyped hrows

/-- Where erasing a text ends. -/
theorem LogicalScreen.eraseText_pos {l : LogicalScreen} (h : l.InRange) (text : List UInt8) :
    (text = [] ∨ (l.eraseText text).x < 80) ∧
      ((l.eraseText text).x = 0 ∧ (l.eraseText text).y = 0 ∨
        (l.eraseText text).position = l.position - span charWidth text) := by
  have hpos := eraseAll_pos h.x_nonneg h.x_le text.reverse
  rwa [List.reverse_eq_nil_iff, span_reverse] at hpos

/-- **Erasing undoes typing** where no character is typed behind the last column. -/
theorem LogicalScreen.undone_of_typedOnRows {l : LogicalScreen} (h : l.OnScreen)
    {text : List UInt8} (htyped : ∀ c ∈ text, Typed c) (hlength : text.length ≤ bufferSize)
    (hrows : l.TypedOnRows text) : l.Undone text ((l.echo text).screen.eraseText text) := by
  obtain ⟨hrange, -, hscroll⟩ := echo_pos h htyped hlength
  obtain ⟨htape, hwrote⟩ := echo_onTape h htyped hrows
  obtain ⟨hx0, hx1, hy0, -⟩ := h
  have hcursor : l.position = 80 * l.y + l.x := rfl
  -- the start is still on the screen
  have hroom : 80 * ((l.echo text).lines : Int) ≤
      (text.foldl (Tape.type charWidth Marks) ⟨l.rows, l.position⟩).pos -
        span charWidth text.reverse := by
    rw [Tape.pos_type, span_reverse, Int.add_sub_cancel]
    dsimp only
    omega
  have herased := htape.eraseAll hroom
  rw [Tape.erase_text charWidth Marks blank (fun _ => charWidth_of_marks)] at herased
  have hx : ((l.echo text).screen.eraseText text).x < 80 := by
    obtain ⟨rfl | hlt, -⟩ := eraseText_pos hrange text
    · exact hx1
    · exact hlt
  have hx' : 0 ≤ ((l.echo text).screen.eraseText text).x := herased.x_nonneg
  have hpos : 80 * ((l.echo text).screen.eraseText text).y +
      ((l.echo text).screen.eraseText text).x + 80 * ((l.echo text).lines : Int) = l.position :=
    herased.pos
  simp only [numCols] at hx1
  refine ⟨by omega, by omega, fun q => ?_⟩
  have hchar := herased.window.char q
  simp only [hwrote, numCols]
  rw [eraseText, hchar]

/-- A character typed behind the last column takes the cursor away, but for a start in the
    corner. -/
theorem LogicalScreen.typedOnRows_of_undone {l : LogicalScreen} (h : l.OnScreen)
    (hcorner : ¬ (l.x = 0 ∧ l.y = 0)) {text : List UInt8} (htyped : ∀ c ∈ text, Typed c)
    (hlength : text.length ≤ bufferSize)
    (hundone : l.Undone text ((l.echo text).screen.eraseText text)) : l.TypedOnRows text := by
  by_contra hbad
  -- a letter was typed in column 80, which put the cursor back by 80 cells
  obtain ⟨hrange, hback, hscroll⟩ := echo_pos h htyped hlength
  have hback := hback hbad
  have hcursor : l.position = 80 * l.y + l.x := rfl
  have hx := hundone.x
  have hy := hundone.y
  obtain ⟨-, hstuck | hpos⟩ := eraseText_pos hrange text
  · -- then the start was the corner, for so far the screen does not scroll
    omega
  · -- and a cursor that went all the way back is before the start
    have hend : ((l.echo text).screen.eraseText text).position =
        80 * ((l.echo text).screen.eraseText text).y +
          ((l.echo text).screen.eraseText text).x := rfl
    omega

/-! ## At the keyboard -/

/-- The text that scan codes type: characters and tabs, with the keys that type nothing in
    between. -/
def keyText : Tty → List UInt8 → Option (List UInt8)
  | _, [] => some []
  | tty, code :: codes =>
    match keyPress tty.keyboard code.toNat with
    | .letter c => (keyText (keyboardHandler tty code) codes).map (c :: ·)
    | .none => keyText (keyboardHandler tty code) codes
    | .switch _ | .enter | .erase | .clear => none

/-- The scan code of Backspace. -/
def backspaceCode : UInt8 := 0x0e

/-- The keys of `codes` are pressed and then Backspace `n` times. -/
def typeAndErase (tty : Tty) (codes : List UInt8) (n : Nat) : Tty :=
  (List.replicate n backspaceCode).foldl keyboardHandler (codes.foldl keyboardHandler tty)

theorem keyPress_backspaceCode (kb : Keyboard) : keyPress kb backspaceCode.toNat = .erase :=
  keyPress_of_ne (by decide) kb

/-- The key of a character, while the line has room. -/
theorem key_letter {tty : Tty} {code c : UInt8}
    (hpress : keyPress tty.keyboard code.toNat = .letter c)
    (hroom : tty.lineState.live.contents.length < bufferSize) :
    (keyboardHandler tty code).screen = specialPutc tty.screen 0 c ∧
      (keyboardHandler tty code).lineState.live.contents =
        tty.lineState.live.contents ++ [c] := by
  constructor
  · rw [keyboardHandler_eq, hpress]
    rfl
  · rw [FillBuffer.length_contents] at hroom
    rw [keyboardHandler_lineState, keyAction_eq, hpress]
    simp only [KeyPress.lineAction, LineState.apply, if_pos hroom]
    exact FillBuffer.contents_push ..

/-- A key that types nothing. -/
theorem key_none {tty : Tty} {code : UInt8} (hpress : keyPress tty.keyboard code.toNat = .none) :
    (keyboardHandler tty code).screen = tty.screen ∧
      (keyboardHandler tty code).lineState = tty.lineState := by
  constructor
  · rw [keyboardHandler_eq, hpress]
    rfl
  · rw [keyboardHandler_lineState, keyAction_eq, hpress]
    rfl

/-- Backspace erases the last character of the line. -/
theorem key_backspace {tty : Tty} {text : List UInt8} {c : UInt8}
    (hline : tty.lineState.live.contents = text ++ [c]) :
    (keyboardHandler tty backspaceCode).screen = specialPutc tty.screen c backspace ∧
      (keyboardHandler tty backspaceCode).lineState.live.contents = text := by
  have hlength : tty.lineState.live.fill = text.length + 1 := by
    rw [← FillBuffer.length_contents, hline, List.length_append, List.length_singleton]
  constructor
  · -- the letter erased is the last one of the line
    obtain ⟨-, hscreen⟩ := ttyStep_backspace (e := .key backspaceCode)
      (keyPress_backspaceCode tty.keyboard) rfl
    have hposition : tty.keyboard.bufferPosition = text.length + 1 := hlength
    have hnonempty : ¬ tty.LineEmpty := fun hempty =>
      Nat.succ_ne_zero _ (hposition.symm.trans hempty.1)
    have hlast : tty.lastTyped = c := by
      have hin : text.length < tty.lineState.live.contents.length := by
        rw [FillBuffer.length_contents, hlength]
        exact Nat.lt_succ_self _
      have hcell := FillBuffer.cells_eq_of_contents hin
      simp only [hline, List.getElem_concat_length] at hcell
      rw [Tty.lastTyped, hposition, if_pos (Nat.succ_ne_zero _)]
      exact hcell
    rw [if_neg hnonempty, hlast] at hscreen
    exact hscreen
  · -- and the buffer loses it too
    have hnonempty : tty.lineState.live.fill ≠ 0 := by rw [hlength]; exact Nat.succ_ne_zero _
    rw [keyboardHandler_lineState, keyAction_eq, keyPress_backspaceCode]
    simp only [KeyPress.lineAction, LineState.apply, if_pos hnonempty]
    rw [FillBuffer.contents_pop, hline, List.dropLast_concat]

/-- **Typing** at the keyboard echoes the text and appends it to the line. -/
theorem keyText_spec {tty : Tty} {codes text : List UInt8} (htext : keyText tty codes = some text)
    (hroom : tty.lineState.live.contents.length + text.length ≤ bufferSize) {e : Echo}
    (hscreen : tty.screen.logical = e.screen) :
    (codes.foldl keyboardHandler tty).screen.logical = (text.foldl Echo.type e).screen ∧
      (codes.foldl keyboardHandler tty).lineState.live.contents =
        tty.lineState.live.contents ++ text ∧
      ∀ c ∈ text, Typed c := by
  -- on the keys; the line has room for every letter, so the echo types what the line gets
  induction codes generalizing tty text e with
  | nil =>
    obtain rfl := Option.some.inj htext
    exact ⟨hscreen, (List.append_nil _).symm, fun c hc => absurd hc List.not_mem_nil⟩
  | cons code codes ih =>
    rw [List.foldl_cons]
    cases hpress : keyPress tty.keyboard code.toNat with
    | letter c =>
      -- a letter key types one letter
      simp only [keyText, hpress] at htext
      obtain ⟨rest, hrest, rfl⟩ := Option.map_eq_some_iff.mp htext
      rw [List.length_cons] at hroom
      obtain ⟨hdrawn, hline⟩ := key_letter hpress (by omega)
      obtain ⟨hne, hback, hret⟩ := keyPress_letter hpress
      have htyped : Typed c := by
        by_cases htab : c = tab
        · exact .inl htab
        · exact .inr ⟨hne, hret, hback, htab⟩
      have hnext : (keyboardHandler tty code).screen.logical = (e.type c).screen := by
        rw [hdrawn, logical_specialPutc, hscreen]
        rfl
      obtain ⟨hscreen', hline', htyped'⟩ := ih hrest (by
        rw [hline, List.length_append, List.length_singleton]
        omega) hnext
      refine ⟨hscreen', ?_, List.forall_mem_cons.mpr ⟨htyped, htyped'⟩⟩
      rw [hline', hline, List.append_assoc]
      rfl
    | none =>
      -- a key that types nothing leaves the screen and the line alone
      simp only [keyText, hpress] at htext
      obtain ⟨hsame, hline⟩ := key_none hpress
      rw [← hline] at hroom ⊢
      exact ih htext hroom (hsame ▸ hscreen)
    | switch | enter | erase | clear =>
      -- the other keys are no text
      simp only [keyText, hpress] at htext
      cases htext

/-- **Erasing** at the keyboard erases the line from its end on. -/
theorem eraseKeys_spec {tty : Tty} {text : List UInt8}
    (hline : tty.lineState.live.contents = text) :
    ((List.replicate text.length backspaceCode).foldl keyboardHandler tty).screen.logical =
      tty.screen.logical.eraseText text := by
  induction text using List.reverseRecOn generalizing tty with
  | nil => rfl
  | append_singleton text c ih =>
    obtain ⟨hdrawn, hrest⟩ := key_backspace hline
    rw [List.length_append, List.length_singleton, List.replicate_succ, List.foldl_cons, ih hrest,
      hdrawn, logical_specialPutc, LogicalScreen.eraseText, LogicalScreen.eraseText,
      List.reverse_append]
    rfl

/-- **Erasing undoes typing**: a text of at most 127 characters is typed on an empty line and then
    erased with one Backspace for each character.  If no character is typed behind the last column,
    the screen is as before; and for every start but the top left corner, only then. -/
theorem erase_undoes_typing_iff {tty : Tty} (hempty : tty.keyboard.bufferPosition = 0)
    (hcursor : tty.screen.logical.OnScreen) {codes text : List UInt8}
    (htext : keyText tty codes = some text) (hlength : text.length ≤ bufferSize) :
    (tty.screen.logical.TypedOnRows text →
      tty.screen.logical.Undone text
        (typeAndErase tty codes text.length).screen.logical) ∧
    (¬ tty.screen.AtCorner →
      tty.screen.logical.Undone text
        (typeAndErase tty codes text.length).screen.logical →
      tty.screen.logical.TypedOnRows text) := by
  -- the line starts empty and has room for the text
  have hnil : tty.lineState.live.contents = [] := by
    refine List.eq_nil_of_length_eq_zero ?_
    rw [FillBuffer.length_contents]
    exact hempty
  have hroom : tty.lineState.live.contents.length + text.length ≤ bufferSize := by
    rw [hnil, List.length_nil, Nat.zero_add]
    exact hlength
  -- the keys type the text, and Backspace erases it letter by letter
  obtain ⟨hscreen, hline, htyped⟩ := keyText_spec (e := ⟨tty.screen.logical, 0, []⟩) htext hroom rfl
  rw [hnil, List.nil_append] at hline
  have hend : (typeAndErase tty codes text.length).screen.logical =
      (tty.screen.logical.echo text).screen.eraseText text := by
    rw [typeAndErase, eraseKeys_spec hline, hscreen]
    rfl
  rw [hend]
  exact ⟨LogicalScreen.undone_of_typedOnRows hcursor htyped hlength, fun hcorner =>
    LogicalScreen.typedOnRows_of_undone hcursor hcorner htyped hlength⟩

/-- The terminals with the cursor in column 78 of row 3. -/
def nearRowEnd : Tty :=
  { initTerminal zeroTty with
    screen := { (initTerminal zeroTty).screen with screenX := 78, screenY := 3 } }

/-- A letter and a tab, which goes on in the next row. -/
theorem erase_undoes_typing_iff_two_keys :
    ¬ nearRowEnd.screen.AtCorner ∧
    (nearRowEnd.screen.logical.TypedOnRows [97, tab] →
      nearRowEnd.screen.logical.Undone [97, tab]
        (typeAndErase nearRowEnd [0x1e, 0x0f] [97, tab].length).screen.logical) ∧
    (¬ nearRowEnd.screen.AtCorner →
      nearRowEnd.screen.logical.Undone [97, tab]
        (typeAndErase nearRowEnd [0x1e, 0x0f] [97, tab].length).screen.logical →
      nearRowEnd.screen.logical.TypedOnRows [97, tab]) :=
  ⟨by decide, erase_undoes_typing_iff (by decide +kernel) (by decide +kernel) (by decide +kernel)
    (by decide +kernel)⟩

/-- A tab and a letter, typed in column 76 of the first row. -/
theorem tab_at_edge_is_not_undone :
    let tty : Tty := { zeroTty with screen := ⟨fun _ => 0, 76, 0⟩ }
    tty.keyboard.bufferPosition = 0 ∧ tty.screen.logical.OnScreen ∧
      keyText tty [0x0f, 0x1e] = some [tab, 97] ∧
      ¬ tty.screen.logical.Undone [tab, 97] (typeAndErase tty [0x0f, 0x1e] 2).screen.logical := by
  refine ⟨by decide +kernel, by decide +kernel, by decide +kernel, fun hundone => ?_⟩
  have hx := hundone.x
  revert hx
  decide +kernel

end LinuxLikeOs
