import LinuxLikeOs.Console
import Mathlib.Tactic.SplitIfs

/-!
# Laws of the two console implementations

- **Scrolling**: what the nested loops leave at every address (`scrollingoneline_apply`)
- **One drawing function**: `special_putc` and `terminal_special_putc` both make the edit of
  `drawing` on their page (`specialPutc_eq`, `terminalSpecialPutc_eq`)
- **Shift**: `terminal_special_putc` on a page is `special_putc` on that page moved to
  video memory (`terminalSpecialPutc_shift`)
- **Cursor**: the cursor stays within `CursorOk` (`specialPutc_cursorOk`), one column more
  than the screen has
- **Locality**: drawing depends on the page and changes only the page
-/

namespace LinuxLikeOs

/-! ## Scrolling -/

private theorem foldl_range_succ {α : Type} (f : α → Nat → α) (a : α) (n : Nat) :
    (List.range (n + 1)).foldl f a = f ((List.range n).foldl f a) n := by
  rw [List.range_succ, List.foldl_append]
  rfl

/-- The first `n` columns of the inner loop. -/
private theorem scrollRow_columns (base : Int) (mem : Memory) (i n : Nat) (a : Int) :
    (List.range n).foldl
        (fun m (j : Nat) => Function.update m (cellAddr base j ((i : Int) - 1))
          (m (cellAddr base j i))) mem a =
      if base + 160 * ((i : Int) - 1) ≤ a ∧ a < base + 160 * ((i : Int) - 1) + 2 * n ∧
          (a - base) % 2 = 0 then mem (a + 160)
      else mem a := by
  -- on the cells moved; the copy runs left to right
  induction n generalizing a with
  | zero =>
    rw [if_neg (by omega)]
    rfl
  | succ n ih =>
    rw [foldl_range_succ, Function.update_apply, ih, ih]
    have htarget := cellAddr_eq base n ((i : Int) - 1)
    have hsource := cellAddr_eq base n i
    by_cases ha : a = cellAddr base n ((i : Int) - 1)
    · -- the cell written last reads row `i`, which the loop has not touched
      rw [if_pos ha, if_neg (by omega), if_pos (by omega)]
      congr 1
      omega
    · rw [if_neg ha]
      exact if_congr (by omega) rfl rfl

theorem scrollRow_apply (base : Int) (mem : Memory) (i : Nat) (a : Int) :
    scrollRow base mem i a =
      if base + 160 * ((i : Int) - 1) ≤ a ∧ a < base + 160 * i ∧ (a - base) % 2 = 0 then
        mem (a + 160)
      else mem a := by
  rw [scrollRow, scrollRow_columns]
  exact if_congr (by omega) rfl rfl

private theorem scrollRows_apply (base : Int) (mem : Memory) (n : Nat) (a : Int) :
    (List.range' 1 n).foldl (scrollRow base) mem a =
      if base ≤ a ∧ a < base + 160 * n ∧ (a - base) % 2 = 0 then mem (a + 160) else mem a := by
  -- on the rows moved; the copy runs downwards, so row `n + 1` is still the old one when read
  induction n generalizing a with
  | zero =>
    rw [if_neg (by omega)]
    rfl
  | succ n ih =>
    rw [List.range'_1_concat, List.foldl_append, List.foldl_cons, List.foldl_nil,
      scrollRow_apply, ih, ih]
    by_cases hrow : base + 160 * (((1 + n : Nat) : Int) - 1) ≤ a ∧
        a < base + 160 * ((1 + n : Nat) : Int) ∧ (a - base) % 2 = 0
    · -- the row below has not been moved yet
      rw [if_pos hrow, if_neg (by omega), if_pos (by omega)]
    · rw [if_neg hrow]
      exact if_congr (by omega) rfl rfl

private theorem blankColumns_apply (base : Int) (mem : Memory) (n : Nat) (a : Int) :
    (List.range n).foldl
        (fun m (k : Nat) => Function.update m (cellAddr base k (numRows - 1)) blank) mem a =
      if base + 3840 ≤ a ∧ a < base + 3840 + 2 * n ∧ (a - base) % 2 = 0 then blank
      else mem a := by
  induction n generalizing a with
  | zero =>
    rw [if_neg (by omega)]
    rfl
  | succ n ih =>
    rw [foldl_range_succ, Function.update_apply, ih]
    have htarget : cellAddr base n (numRows - 1) = base + 2 * (80 * 24 + n) := rfl
    -- the cell blanked last, or one blanked before
    by_cases ha : a = cellAddr base n (numRows - 1)
    · rw [if_pos ha, if_pos (by omega)]
    · rw [if_neg ha]
      exact if_congr (by omega) rfl rfl

/-- Scrolling a page: every character moves up one row, the last row becomes blank and
    nothing else changes. -/
theorem scrollingoneline_apply (mem : Memory) (base a : Int) :
    scrollingoneline mem base a =
      if base ≤ a ∧ a < base + 4000 ∧ (a - base) % 2 = 0 then
        if a < base + 3840 then mem (a + 160) else blank
      else mem a := by
  rw [scrollingoneline, blankLastRow, blankColumns_apply, scrollRows_apply]
  split_ifs <;> first | rfl | omega

/-! ## One drawing function behind both implementations -/

/-- What drawing a character does to a page. -/
inductive PageEdit where
  | keep
  | scroll
  | put (x y : Int) (c : UInt8)
  | putScroll (x y : Int) (c : UInt8)

/-- The edit on the page at `base`. -/
def PageEdit.apply (base : Int) (mem : Memory) : PageEdit → Memory
  | .keep => mem
  | .scroll => scrollingoneline mem base
  | .put x y c => putCell mem base x y c
  | .putScroll x y c => scrollingoneline (putCell mem base x y c) base

/-- An edit of the page with the new cursor. -/
structure Drawing where
  edit : PageEdit
  x : Int
  y : Int

/-- The drawing of `c` behind `c1` with the cursor at `(x, y)`: the branches that
    `special_putc` and `terminal_special_putc` share. -/
def drawing (x y : Int) (c1 c : UInt8) : Drawing :=
  if c = newline ∨ c = carriageReturn then
    if y + 1 ≥ numRows then ⟨.scroll, 0, numRows - 1⟩ else ⟨.keep, 0, y + 1⟩
  else if c = backspace then
    if x = 0 ∧ y = 0 then ⟨.keep, x, y⟩
    else if x = 0 ∧ c1 ≠ tab then
      ⟨.put (numCols - 1) (y - 1) blank, numCols - 1, y - 1⟩
    else if x > 0 ∧ c1 ≠ tab then ⟨.put (x - 1) y blank, x - 1, y⟩
    else if 0 ≤ x ∧ x < fourBit ∧ c1 = tab then ⟨.keep, numCols + x - fourBit, y - 1⟩
    else if x ≥ fourBit ∧ c1 = tab then ⟨.keep, x - fourBit, y⟩
    else ⟨.keep, x, y⟩
  else if c = tab then
    if 0 ≤ x ∧ x ≤ numCols - fourBit then ⟨.keep, x + fourBit, y⟩
    else if x > numCols - fourBit then
      if y + 1 ≥ numRows then ⟨.scroll, (x + fourBit).tmod numCols, numRows - 1⟩
      else ⟨.keep, (x + fourBit).tmod numCols, y + 1⟩
    else ⟨.keep, x, y⟩
  else
    let x' := x + 1
    let y' := if x'.tmod numCols = 0 then y + 1 else y
    if y' ≥ numRows then ⟨.putScroll x y c, x'.tmod numCols, numRows - 1⟩
    else ⟨.put x y c, x'.tmod numCols, y'⟩

/-- The drawing on video memory. -/
def Drawing.onScreen (d : Drawing) (s : Screen) : Screen := ⟨d.edit.apply video s.mem, d.x, d.y⟩

/-- The drawing on the page of a terminal in the background. -/
def Drawing.onTerminal (d : Drawing) (mem : Memory) (term : Terminal) : Memory × Terminal :=
  (d.edit.apply term.vidBuf mem, { term with xPosition := d.x, yPosition := d.y })

theorem specialPutc_eq (s : Screen) (c1 c : UInt8) :
    specialPutc s c1 c = (drawing s.screenX s.screenY c1 c).onScreen s := by
  simp only [drawing, apply_ite (Drawing.onScreen · s)]
  rfl

theorem terminalSpecialPutc_eq (mem : Memory) (term : Terminal) (c1 c : UInt8) :
    terminalSpecialPutc mem term c1 c =
      (drawing term.xPosition term.yPosition c1 c).onTerminal mem term := by
  simp only [drawing, apply_ite (Drawing.onTerminal · mem term)]
  rfl

/-! ## Shift: a page seen at the address of video memory -/

/-- Memory moved so that the page at `base` lies at `video`. -/
def pageView (mem : Memory) (base : Int) : Memory := fun a => mem (a - video + base)

/-- The screen that a terminal in the background keeps in its `terminal_t`. -/
def Terminal.screen (mem : Memory) (term : Terminal) : Screen :=
  ⟨pageView mem term.vidBuf, term.xPosition, term.yPosition⟩

theorem pageView_putCell (mem : Memory) (base x y : Int) (c : UInt8) :
    pageView (putCell mem base x y c) base = putCell (pageView mem base) video x y c := by
  funext a
  have h1 : a - video + base = cellAddr base x y + 1 ↔ a = cellAddr video x y + 1 := by
    simp only [cellAddr]; omega
  have h2 : a - video + base = cellAddr base x y ↔ a = cellAddr video x y := by
    simp only [cellAddr]; omega
  simp only [pageView, putCell, Function.update_apply, h1, h2]

theorem pageView_scroll (mem : Memory) (base : Int) :
    pageView (scrollingoneline mem base) base = scrollingoneline (pageView mem base) video := by
  funext a
  simp only [pageView, scrollingoneline_apply]
  rw [show a + 160 - video + base = a - video + base + 160 by omega]
  split_ifs <;> first | rfl | omega

/-- An edit does the same on every page. -/
theorem PageEdit.pageView_apply (edit : PageEdit) (mem : Memory) (base : Int) :
    pageView (edit.apply base mem) base = edit.apply video (pageView mem base) := by
  cases edit with
  | keep => rfl
  | scroll => exact pageView_scroll mem base
  | put x y c => exact pageView_putCell mem base x y c
  | putScroll x y c => simp only [apply, pageView_scroll, pageView_putCell]

/-- The background implementation moves the cursor and changes nothing else of its
    terminal. -/
theorem terminalSpecialPutc_terminal (mem : Memory) (term : Terminal) (c1 c : UInt8) :
    ∃ x y, (terminalSpecialPutc mem term c1 c).2 =
      { term with xPosition := x, yPosition := y } := by
  rw [terminalSpecialPutc_eq]
  exact ⟨_, _, rfl⟩

theorem terminalSpecialPutc_vidBuf (mem : Memory) (term : Terminal) (c1 c : UInt8) :
    (terminalSpecialPutc mem term c1 c).2.vidBuf = term.vidBuf := by
  rw [terminalSpecialPutc_eq, Drawing.onTerminal]

/-- **The two implementations agree**: drawing on a page in the background is drawing on
    that page as video memory. -/
theorem terminalSpecialPutc_shift (mem : Memory) (term : Terminal) (c1 c : UInt8) :
    (terminalSpecialPutc mem term c1 c).2.screen (terminalSpecialPutc mem term c1 c).1 =
      specialPutc (term.screen mem) c1 c := by
  rw [terminalSpecialPutc_eq, specialPutc_eq]
  simp only [Drawing.onTerminal, Drawing.onScreen, Terminal.screen, PageEdit.pageView_apply]

/-! ## The cursor -/

/-- The cursor is on the screen or, after a tab from column 76, right behind a row; behind
    a tab it is not in the first three columns of the first row. -/
structure CursorOk (s : Screen) (c1 : UInt8) : Prop where
  x_nonneg : 0 ≤ s.screenX
  x_le : s.screenX ≤ numCols
  y_nonneg : 0 ≤ s.screenY
  y_lt : s.screenY < numRows
  after_tab : c1 = tab → fourBit ≤ s.screenX ∨ 1 ≤ s.screenY

/-- Behind no tab the range is all there is to it. -/
theorem CursorOk.zero {s : Screen} {c1 : UInt8} (h : CursorOk s c1) : CursorOk s 0 :=
  ⟨h.x_nonneg, h.x_le, h.y_nonneg, h.y_lt, fun h0 => absurd h0 (by decide)⟩

/-- The cell that an edit writes lies on the page. -/
def PageEdit.InRange : PageEdit → Prop
  | .keep | .scroll => True
  | .put x y _ | .putScroll x y _ => 0 ≤ x ∧ x ≤ numCols ∧ 0 ≤ y ∧ y < numRows

private theorem tmod_numCols {x : Int} (h : 0 ≤ x) : x.tmod numCols = x % 80 :=
  Int.tmod_eq_emod_of_nonneg h

/-- From a cursor in range, drawing any character writes on the page and leaves the cursor
    in range. -/
private theorem drawing_spec {s : Screen} {c1 c : UInt8} (h : CursorOk s c1) :
    (drawing s.screenX s.screenY c1 c).edit.InRange ∧
      CursorOk ((drawing s.screenX s.screenY c1 c).onScreen s) c := by
  obtain ⟨hx0, hx1, hy0, hy1, htab⟩ := h
  have hmod : (s.screenX + 1).tmod numCols = (s.screenX + 1) % 80 := tmod_numCols (by omega)
  have hmod4 : (s.screenX + fourBit).tmod numCols = (s.screenX + 4) % 80 :=
    tmod_numCols (x := s.screenX + 4) (by omega)
  have hback : backspace ≠ tab := by decide
  unfold drawing
  dsimp only
  rw [hmod, hmod4]
  simp only [numCols, numRows, fourBit] at hx1 hy1 htab ⊢
  -- every branch moves by constants; erasing a tab needs `htab`, and a backspace is no tab
  split_ifs with h1 h2 h3 h4 h5 h6 h7 h8 h9 h10 <;>
    refine ⟨?_, ?_, ?_, ?_, ?_, fun hc => ?_⟩ <;>
    simp only [PageEdit.InRange, Drawing.onScreen, numCols, numRows, fourBit] <;>
    first | omega | (exact absurd (h3.symm.trans hc) hback) | grind

/-- Drawing any character keeps the cursor in range. -/
theorem specialPutc_cursorOk {s : Screen} {c1 c : UInt8} (h : CursorOk s c1) :
    CursorOk (specialPutc s c1 c) c := by
  rw [specialPutc_eq]
  exact (drawing_spec h).2

/-! ## Locality -/

/-- Two memories agree on the text page at `base`. -/
def AgreeOn (base : Int) (m m' : Memory) : Prop :=
  ∀ a, base ≤ a → a < base + fourKB → m a = m' a

/-- Two memories agree everywhere but on the text page at `base`. -/
def AgreeOff (base : Int) (m m' : Memory) : Prop :=
  ∀ a, (a < base ∨ base + fourKB ≤ a) → m a = m' a

theorem AgreeOn.putCell {base : Int} {m m' : Memory} (h : AgreeOn base m m') (x y : Int)
    (c : UInt8) : AgreeOn base (putCell m base x y c) (putCell m' base x y c) := by
  intro a h1 h2
  simp only [LinuxLikeOs.putCell, Function.update_apply, h a h1 h2]

theorem AgreeOn.scroll {base : Int} {m m' : Memory} (h : AgreeOn base m m') :
    AgreeOn base (scrollingoneline m base) (scrollingoneline m' base) := by
  intro a h1 h2
  rw [scrollingoneline_apply, scrollingoneline_apply]
  split_ifs with hin hrow
  · exact h (a + 160) (by omega) (by simp only [fourKB]; omega)
  · rfl
  · exact h a h1 h2

theorem AgreeOn.apply {base : Int} {m m' : Memory} (h : AgreeOn base m m') (edit : PageEdit) :
    AgreeOn base (edit.apply base m) (edit.apply base m') := by
  cases edit with
  | keep => exact h
  | scroll => exact h.scroll
  | put x y c => exact h.putCell x y c
  | putScroll x y c => exact (h.putCell x y c).scroll

/-- Drawing depends on the page only. -/
theorem specialPutc_agreeOn {m m' : Memory} (h : AgreeOn video m m') (x y : Int)
    (c1 c : UInt8) :
    AgreeOn video (specialPutc ⟨m, x, y⟩ c1 c).mem (specialPutc ⟨m', x, y⟩ c1 c).mem ∧
      (specialPutc ⟨m, x, y⟩ c1 c).screenX = (specialPutc ⟨m', x, y⟩ c1 c).screenX ∧
      (specialPutc ⟨m, x, y⟩ c1 c).screenY = (specialPutc ⟨m', x, y⟩ c1 c).screenY := by
  rw [specialPutc_eq ⟨m, x, y⟩, specialPutc_eq ⟨m', x, y⟩]
  exact ⟨h.apply _, rfl, rfl⟩

theorem AgreeOff.refl (base : Int) (m : Memory) : AgreeOff base m m := fun _ _ => rfl

theorem AgreeOff.trans {base : Int} {m₁ m₂ m₃ : Memory} (h₁₂ : AgreeOff base m₁ m₂)
    (h₂₃ : AgreeOff base m₂ m₃) : AgreeOff base m₁ m₃ :=
  fun a ha => (h₁₂ a ha).trans (h₂₃ a ha)

theorem agreeOff_putCell (base : Int) (m : Memory) {x y : Int} (c : UInt8) (hx0 : 0 ≤ x)
    (hx1 : x ≤ numCols) (hy0 : 0 ≤ y) (hy1 : y < numRows) :
    AgreeOff base (putCell m base x y c) m := by
  intro a ha
  simp only [numCols, numRows, fourKB] at *
  rw [putCell, Function.update_of_ne (by simp only [cellAddr, numCols]; omega),
    Function.update_of_ne (by simp only [cellAddr, numCols]; omega)]

theorem agreeOff_scroll (base : Int) (m : Memory) :
    AgreeOff base (scrollingoneline m base) m := by
  intro a ha
  rw [scrollingoneline_apply, if_neg]
  simp only [fourKB] at ha
  omega

theorem PageEdit.InRange.agreeOff {edit : PageEdit} (h : edit.InRange) (base : Int)
    (m : Memory) : AgreeOff base (edit.apply base m) m := by
  cases edit with
  | keep => exact AgreeOff.refl base m
  | scroll => exact agreeOff_scroll base m
  | put x y c => exact agreeOff_putCell base m c h.1 h.2.1 h.2.2.1 h.2.2.2
  | putScroll x y c =>
    exact (agreeOff_scroll base _).trans (agreeOff_putCell base m c h.1 h.2.1 h.2.2.1 h.2.2.2)

/-- Drawing changes the page only. -/
theorem specialPutc_agreeOff {s : Screen} {c1 : UInt8} (c : UInt8) (h : CursorOk s c1) :
    AgreeOff video (specialPutc s c1 c).mem s.mem := by
  rw [specialPutc_eq]
  exact (drawing_spec h).1.agreeOff video s.mem

end LinuxLikeOs
