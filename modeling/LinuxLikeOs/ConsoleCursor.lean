import LinuxLikeOs.Consoles

/-!
# The cursor of the consoles

What every single byte of a write does: `terminal_write` draws its buffer byte by byte, and the
state after `i` bytes is the one that a write of the first `i` bytes leaves.

- `LogicalScreen.Types`: a character is stored at the cursor, which goes on by one cell
- `draw_types`, `draw_onScreen`: what drawing does while the cursor is on the screen
- `cursor_on_screen_iff`: all bytes of a run are drawn on the screen exactly when no tab is
  written in column 76
-/

namespace LinuxLikeOs

open Library

/-! ## The screen in reading order -/

namespace LogicalScreen

/-- The number of the cell under the cursor in reading order. -/
def position (l : LogicalScreen) : Int := numCols * l.y + l.x

/-- The character of cell `q` in reading order. -/
def char (l : LogicalScreen) (q : Fin 2000) : UInt8 := l.cell ⟨2 * q, by omega⟩

/-- The cursor is in one of the 80 columns and 25 rows. -/
structure OnScreen (l : LogicalScreen) : Prop where
  x_nonneg : 0 ≤ l.x
  x_lt : l.x < numCols
  y_nonneg : 0 ≤ l.y
  y_lt : l.y < numRows

instance (l : LogicalScreen) : Decidable l.OnScreen :=
  decidable_of_iff (0 ≤ l.x ∧ l.x < numCols ∧ 0 ≤ l.y ∧ l.y < numRows)
    ⟨fun ⟨h1, h2, h3, h4⟩ => ⟨h1, h2, h3, h4⟩, fun ⟨h1, h2, h3, h4⟩ => ⟨h1, h2, h3, h4⟩⟩

end LogicalScreen

/-- All rows of characters moved up by one. -/
def scrolled (chars : Fin 2000 → UInt8) : Fin 2000 → UInt8 := fun q =>
  if h : (q : Nat) + 80 < 2000 then chars ⟨q + 80, h⟩ else blank

namespace LogicalScreen

/-- The characters with `c` at the cursor. -/
def stored (l : LogicalScreen) (c : UInt8) : Fin 2000 → UInt8 := fun q =>
  if (q : Int) = l.position then c else l.char q

/-- From `l` to `l'` the character `c` was typed: it is stored at the cursor, which goes on by
    one cell in reading order; behind the last cell the screen scrolls. -/
structure Types (l : LogicalScreen) (c : UInt8) (l' : LogicalScreen) : Prop where
  within : l.position < 1999 → l'.position = l.position + 1 ∧ l'.char = l.stored c
  last : l.position = 1999 → l'.position = 1920 ∧ l'.char = scrolled (l.stored c)

end LogicalScreen

/-- A byte that is none of the four control characters. -/
def Printable (c : UInt8) : Prop :=
  c ≠ newline ∧ c ≠ carriageReturn ∧ c ≠ backspace ∧ c ≠ tab

instance (c : UInt8) : Decidable (Printable c) := inferInstanceAs (Decidable (_ ∧ _))

/-! ## What drawing one byte does -/

/-- The characters of the page at `base`. -/
def charsAt (mem : Memory) (base : Int) : Fin 2000 → UInt8 := fun q => mem (base + 2 * (q : Int))

theorem charsAt_putCell (mem : Memory) (base x y : Int) (c : UInt8) :
    charsAt (putCell mem base x y c) base =
      fun q : Fin 2000 => if (q : Int) = numCols * y + x then c else charsAt mem base q := by
  funext q
  have hattr : base + 2 * (q : Int) ≠ cellAddr base x y + 1 := by
    simp only [cellAddr]
    omega
  rw [charsAt, putCell, Function.update_of_ne hattr, Function.update_apply]
  exact if_congr (by simp only [cellAddr]; omega) rfl rfl

theorem charsAt_scroll (mem : Memory) (base : Int) :
    charsAt (scrollingoneline mem base) base = scrolled (charsAt mem base) := by
  funext q
  have hq := q.isLt
  rw [charsAt, scrollingoneline_apply, if_pos (by omega), scrolled]
  by_cases hrow : (q : Nat) + 80 < 2000
  · rw [if_pos (by omega), dif_pos hrow, charsAt]
    congr 1
    push_cast
    omega
  · rw [if_neg (by omega), dif_neg hrow]

/-- The characters of a screen. -/
theorem char_logical (s : Screen) : s.logical.char = charsAt s.mem video := by
  funext q
  simp only [LogicalScreen.char, Screen.logical, charsAt]
  push_cast
  rfl

/-- What an edit does to the characters. -/
def PageEdit.chars (chars : Fin 2000 → UInt8) : PageEdit → Fin 2000 → UInt8
  | .keep => chars
  | .scroll => scrolled chars
  | .put x y c => fun q : Fin 2000 => if (q : Int) = numCols * y + x then c else chars q
  | .putScroll x y c =>
    scrolled fun q : Fin 2000 => if (q : Int) = numCols * y + x then c else chars q

theorem charsAt_apply (edit : PageEdit) (mem : Memory) (base : Int) :
    charsAt (edit.apply base mem) base = edit.chars (charsAt mem base) := by
  cases edit with
  | keep => rfl
  | scroll => exact charsAt_scroll mem base
  | put x y c => exact charsAt_putCell mem base x y c
  | putScroll x y c => simp only [PageEdit.apply, PageEdit.chars, charsAt_scroll, charsAt_putCell]

namespace LogicalScreen

/-- Drawing on a logical screen is its drawing. -/
theorem draw_eq (l : LogicalScreen) (c1 c : UInt8) :
    (l.draw c1 c).x = (drawing l.x l.y c1 c).x ∧ (l.draw c1 c).y = (drawing l.x l.y c1 c).y ∧
      (l.draw c1 c).char = (drawing l.x l.y c1 c).edit.chars l.char := by
  have hscreen : specialPutc l.toScreen c1 c = (drawing l.x l.y c1 c).onScreen l.toScreen :=
    specialPutc_eq ..
  have hchar : charsAt l.toScreen.mem video = l.char := by
    rw [← char_logical, toScreen_logical]
  refine ⟨?_, ?_, ?_⟩
  · rw [draw, hscreen]
    rfl
  · rw [draw, hscreen]
    rfl
  · rw [draw, char_logical, hscreen, Drawing.onScreen, charsAt_apply, hchar]

end LogicalScreen

/-- The drawing of a printable byte with the cursor on the screen. -/
theorem drawing_printable {x y : Int} (hx0 : 0 ≤ x) (hx1 : x < numCols) (hy0 : 0 ≤ y)
    (hy1 : y < numRows) (c1 : UInt8) {c : UInt8} (hc : Printable c) :
    drawing x y c1 c =
      if numCols * y + x = 1999 then ⟨.putScroll x y c, 0, 24⟩
      else ⟨.put x y c, (x + 1) % 80, if x = 79 then y + 1 else y⟩ := by
  have hbreak : ¬ (c = newline ∨ c = carriageReturn) := not_or.mpr ⟨hc.1, hc.2.1⟩
  have hmod : (x + 1).tmod numCols = (x + 1) % 80 := Int.tmod_eq_emod_of_nonneg (by omega)
  have hwrap : (x + 1) % 80 = 0 ↔ x = 79 := by
    simp only [numCols] at hx1
    omega
  rw [drawing, if_neg hbreak, if_neg hc.2.2.1, if_neg hc.2.2.2]
  simp only [hmod, hwrap]
  -- only a character in the last cell scrolls the screen
  by_cases hlast : numCols * y + x = 1999
  · have hcorner : x = 79 ∧ y = 24 := by
      simp only [numCols, numRows] at *
      omega
    rw [if_pos hlast, hcorner.1, hcorner.2]
    rfl
  · have hrow : ¬ (if x = 79 then y + 1 else y) ≥ numRows := by
      simp only [numCols, numRows] at *
      split_ifs <;> omega
    rw [if_neg hlast, if_neg hrow]

/-- Only a tab in column 76 leaves the cursor behind the last column. -/
theorem drawing_column_iff {x y : Int} (hx0 : 0 ≤ x) (hx1 : x < numCols) (c1 c : UInt8) :
    (drawing x y c1 c).x = numCols ↔ c = tab ∧ x = 76 := by
  have hmod : (x + 1).tmod numCols = (x + 1) % 80 := Int.tmod_eq_emod_of_nonneg (by omega)
  have hmod4 : (x + fourBit).tmod numCols = (x + 4) % 80 :=
    Int.tmod_eq_emod_of_nonneg (a := x + 4) (by omega)
  have hback : backspace ≠ tab := by decide
  have hnew : newline ≠ tab := by decide
  have hret : carriageReturn ≠ tab := by decide
  unfold drawing
  dsimp only
  rw [hmod, hmod4]
  simp only [numCols, numRows, fourBit] at hx1 ⊢
  -- no other branch reaches column 80, and the columns of a tab behind 76 are reduced
  split_ifs <;> grind

namespace LogicalScreen

/-- A printable byte is typed. -/
theorem draw_types {l : LogicalScreen} (h : l.OnScreen) (c1 : UInt8) {c : UInt8}
    (hc : Printable c) : l.Types c (l.draw c1 c) := by
  obtain ⟨hx, hy, hchar⟩ := l.draw_eq c1 c
  rw [drawing_printable h.x_nonneg h.x_lt h.y_nonneg h.y_lt c1 hc] at hx hy hchar
  constructor
  case within =>
    -- before the last cell the cursor moves on, at the last cell the screen scrolls
    intro hpos
    have hnot : ¬ numCols * l.y + l.x = 1999 := Int.ne_of_lt hpos
    rw [if_neg hnot] at hx hy hchar
    refine ⟨?_, hchar⟩
    have hx0 := h.x_nonneg
    have hx1 := h.x_lt
    simp only [position, numCols, hx, hy] at hx1 ⊢
    split_ifs <;> omega
  case last =>
    intro hpos
    have hcorner : numCols * l.y + l.x = 1999 := hpos
    rw [if_pos hcorner] at hx hy hchar
    refine ⟨?_, hchar⟩
    rw [position, hx, hy]
    rfl

/-- Drawing leaves the cursor on the screen, unless it is a tab in column 76. -/
theorem draw_onScreen_iff {l : LogicalScreen} (h : l.OnScreen) {c1 : UInt8}
    (htab : c1 = tab → fourBit ≤ l.x ∨ 1 ≤ l.y) (c : UInt8) :
    (l.draw c1 c).OnScreen ↔ ¬ (c = tab ∧ l.x = 76) := by
  obtain ⟨hx, hy, -⟩ := l.draw_eq c1 c
  have hbefore : LinuxLikeOs.CursorOk l.toScreen c1 :=
    ⟨h.x_nonneg, Int.le_of_lt h.x_lt, h.y_nonneg, h.y_lt, htab⟩
  have hrange : LinuxLikeOs.CursorOk (specialPutc l.toScreen c1 c) c := specialPutc_cursorOk hbefore
  have hle : (l.draw c1 c).x ≤ numCols := hrange.x_le
  -- the cursor stays in its rows, so only column 80 is in question
  have hcolumn : (l.draw c1 c).x = numCols ↔ c = tab ∧ l.x = 76 := by
    rw [hx, drawing_column_iff h.x_nonneg h.x_lt]
  constructor
  · intro hon hbad
    exact absurd (hcolumn.mpr hbad) (Int.ne_of_lt hon.x_lt)
  · intro hgood
    exact ⟨hrange.x_nonneg, Int.lt_iff_le_and_ne.mpr ⟨hle, fun heq => hgood (hcolumn.mp heq)⟩,
      hrange.y_nonneg, hrange.y_lt⟩

end LogicalScreen

/-- The cell that an edit writes is one of the screen. -/
def PageEdit.Inside : PageEdit → Prop
  | .keep | .scroll => True
  | .put x y _ | .putScroll x y _ => 0 ≤ x ∧ x < numCols ∧ 0 ≤ y ∧ y < numRows

/-- With the cursor on the screen, drawing writes cells of the screen only. -/
theorem drawing_inside {x y : Int} (hx0 : 0 ≤ x) (hx1 : x < numCols) (hy0 : 0 ≤ y)
    (hy1 : y < numRows) (c1 c : UInt8) : (drawing x y c1 c).edit.Inside := by
  unfold drawing
  dsimp only
  split_ifs <;> first | trivial | (simp only [PageEdit.Inside, numCols, numRows] at *; omega)

/-- Such an edit keeps everything but the 80 x 25 cells. -/
theorem PageEdit.Inside.frame {edit : PageEdit} (h : edit.Inside) (mem : Memory) {base a : Int}
    (ha : a < base ∨ base + 4000 ≤ a) : edit.apply base mem a = mem a := by
  -- cells and rows of the page lie between `base` and `base + 4000`
  have hput : ∀ {x y : Int} (c : UInt8), 0 ≤ x ∧ x < numCols ∧ 0 ≤ y ∧ y < numRows →
      putCell mem base x y c a = mem a := by
    intro x y c hxy
    simp only [numCols, numRows] at hxy
    rw [putCell, Function.update_of_ne (by simp only [cellAddr, numCols]; omega),
      Function.update_of_ne (by simp only [cellAddr, numCols]; omega)]
  have hscroll : ∀ m : Memory, scrollingoneline m base a = m a := by
    intro m
    rw [scrollingoneline_apply, if_neg (by omega)]
  -- the four things one letter can do to a page
  cases edit with
  | keep => rfl
  | scroll => exact hscroll mem
  | put x y c => exact hput c h
  | putScroll x y c => exact (hscroll _).trans (hput c h)

/-! ## A write byte by byte -/

/-- The address of the page that a process of terminal `t` draws on. -/
def textPage (tty : Tty) (t : Nat) : Int :=
  if tty.curDisplayTid = t then video else (tty.terminals t).vidBuf

/-- The body of the loop of `terminal_write`. -/
def putByte (tty : Tty) (t : Nat) (c1 c : UInt8) : Tty :=
  if tty.curDisplayTid = t then { tty with screen := specialPutc tty.screen c1 c }
  else
    let out := terminalSpecialPutc tty.screen.mem (tty.terminals t) c1 c
    { tty with screen := { tty.screen with mem := out.1 } }.setTerminal t out.2

/-- The terminals after the first `i` bytes of a write. -/
def afterBytes (tty : Tty) (t : Nat) (buf : Buffer) (i : Nat) : Tty :=
  (terminalWrite tty t (some buf) i).2

/-- One byte more is one turn of the loop more. -/
theorem afterBytes_succ (tty : Tty) (t : Nat) (buf : Buffer) (i : Nat) :
    afterBytes tty t buf (i + 1) =
      putByte (afterBytes tty t buf i) t (previousChar buf i) (buf i) := by
  have hto : ∀ n : Nat, ((n : Int)).toNat = n := fun n => rfl
  by_cases hd : tty.curDisplayTid = t
  · simp only [afterBytes, terminalWrite, hto, if_pos hd, putByte, List.range_succ,
      List.foldl_append, List.foldl_cons, List.foldl_nil]
  · simp only [afterBytes, terminalWrite, hto, if_neg hd, putByte, List.range_succ,
      List.foldl_append, List.foldl_cons, List.foldl_nil, Tty.setTerminal, Function.update_self,
      Function.update_idem]

/-- Outside the cells of its page, a byte changes nothing. -/
theorem putByte_frame {tty : Tty} {t : Nat} (h : (logicalScreen tty t).OnScreen) (c1 c : UInt8)
    {a : Int} (ha : a < textPage tty t ∨ textPage tty t + 4000 ≤ a) :
    (putByte tty t c1 c).screen.mem a = tty.screen.mem a := by
  by_cases hd : tty.curDisplayTid = t
  · rw [logicalScreen_displayed hd] at h
    rw [textPage, if_pos hd] at ha
    rw [putByte, if_pos hd, specialPutc_eq]
    exact (drawing_inside h.x_nonneg h.x_lt h.y_nonneg h.y_lt c1 c).frame _ ha
  · rw [logicalScreen_background hd] at h
    rw [textPage, if_neg hd] at ha
    rw [putByte, if_neg hd, terminalSpecialPutc_eq]
    exact (drawing_inside h.x_nonneg h.x_lt h.y_nonneg h.y_lt c1 c).frame _ ha

/-- The screens after the first bytes of a write: its own screen has drawn them, the others are
    as before. -/
theorem afterBytes_consoles {tty : Tty} (hok : ConsolesOk tty) {t : Nat}
    (ht : t < terminalTotalNum) (buf : Buffer) (i : Nat) :
    ConsolesOk (afterBytes tty t buf i) ∧
      logicalScreen (afterBytes tty t buf i) t = (logicalScreen tty t).drawAll buf i ∧
      ∀ t' < terminalTotalNum, t' ≠ t →
        logicalScreen (afterBytes tty t buf i) t' = logicalScreen tty t' := by
  obtain ⟨hok', hstep⟩ := consoles_step (e := .write t (some buf) i) hok ht (if_pos ht)
  refine ⟨hok', ?_, fun t' ht' hne => ?_⟩
  · exact (congrFun hstep ⟨t, ht⟩).trans (if_pos rfl)
  · exact (congrFun hstep ⟨t', ht'⟩).trans (if_neg hne)

/-- Behind `n` bytes of a write the cursor is in range for the byte that follows. -/
theorem LogicalScreen.CursorOk.drawAll {l : LogicalScreen} (h : l.CursorOk) (buf : Buffer)
    (n : Nat) : LinuxLikeOs.CursorOk (l.drawAll buf n).toScreen (previousChar buf n) := by
  induction n with
  | zero => exact h
  | succ n ih =>
    have hnext := specialPutc_cursorOk (c := buf n) ih
    rw [LogicalScreen.drawAll, List.range_succ, List.foldl_append]
    exact ⟨hnext.x_nonneg, hnext.x_le, hnext.y_nonneg, hnext.y_lt, hnext.after_tab⟩

/-! ## The cursor along a run -/

/-- One byte of a write, from `s` to `s'`: afterwards the cursor is on the screen, only cells of
    the screen have changed, and a printable byte has been typed. -/
structure DrawsByte (s s' : Tty) (t : Nat) (c : UInt8) : Prop where
  cursor : (logicalScreen s' t).OnScreen
  cells : ∀ a, a < textPage s t ∨ textPage s t + 4000 ≤ a → s'.screen.mem a = s.screen.mem a
  typed : Printable c → (logicalScreen s t).Types c (logicalScreen s' t)

/-- All bytes of a write are drawn so. -/
def DrawsOnScreen (s : Tty) : TtyEvent → Prop
  | .write t (some buf) nbytes => ∀ i < nbytes.toNat,
    DrawsByte (afterBytes s t buf i) (afterBytes s t buf (i + 1)) t (buf i)
  | _ => True

/-- No byte of a write is a tab that finds the cursor in column 76. -/
def NoTabInColumn76 (s : Tty) : TtyEvent → Prop
  | .write t (some buf) nbytes => ∀ i < nbytes.toNat,
    buf i = tab → (logicalScreen (afterBytes s t buf i) t).x ≠ 76
  | _ => True

/-- The consoles are in order and all cursors on the screen. -/
structure CursorsOnScreen (tty : Tty) : Prop extends ConsolesOk tty where
  onScreen : ∀ t < terminalTotalNum, (logicalScreen tty t).OnScreen

/-- **One byte** is drawn on the screen exactly if it is no tab in column 76. -/
theorem drawsByte_iff {tty : Tty} (hok : ConsolesOk tty) {t : Nat} (ht : t < terminalTotalNum)
    {buf : Buffer} {i : Nat} (hon : (logicalScreen (afterBytes tty t buf i) t).OnScreen) :
    DrawsByte (afterBytes tty t buf i) (afterBytes tty t buf (i + 1)) t (buf i) ↔
      (buf i = tab → (logicalScreen (afterBytes tty t buf i) t).x ≠ 76) := by
  obtain ⟨-, hself, -⟩ := afterBytes_consoles hok ht buf i
  obtain ⟨-, hnext, -⟩ := afterBytes_consoles hok ht buf (i + 1)
  have hdraw : logicalScreen (afterBytes tty t buf (i + 1)) t =
      (logicalScreen (afterBytes tty t buf i) t).draw (previousChar buf i) (buf i) := by
    rw [hnext, hself]
    simp only [LogicalScreen.drawAll, List.range_succ, List.foldl_append, List.foldl_cons,
      List.foldl_nil]
  -- a tab before this byte has left the cursor behind its blanks, or in a new row
  have htab : previousChar buf i = tab →
      fourBit ≤ (logicalScreen (afterBytes tty t buf i) t).x ∨
        1 ≤ (logicalScreen (afterBytes tty t buf i) t).y := by
    rw [hself]
    exact (LogicalScreen.CursorOk.drawAll (hok.cursor t ht) buf i).after_tab
  have hiff := LogicalScreen.draw_onScreen_iff hon htab (buf i)
  constructor
  · intro h hc hx
    exact hiff.mp (hdraw ▸ h.cursor) ⟨hc, hx⟩
  · intro h
    constructor
    case cursor =>
      rw [hdraw]
      exact hiff.mpr fun hboth => h hboth.1 hboth.2
    case cells =>
      intro a ha
      rw [afterBytes_succ]
      exact putByte_frame hon _ _ ha
    case typed =>
      intro hc
      rw [hdraw]
      exact LogicalScreen.draw_types hon _ hc

/-- Bytes that meet the condition leave the cursor on the screen. -/
theorem onScreen_afterBytes {tty : Tty} (h : CursorsOnScreen tty) {t : Nat}
    (ht : t < terminalTotalNum) {buf : Buffer} {n : Nat}
    (hc : ∀ i < n, buf i = tab → (logicalScreen (afterBytes tty t buf i) t).x ≠ 76) :
    (logicalScreen (afterBytes tty t buf n) t).OnScreen := by
  induction n with
  | zero =>
    rw [(afterBytes_consoles h.toConsolesOk ht buf 0).2.1]
    exact h.onScreen t ht
  | succ n ih =>
    have hon := ih fun i hi => hc i (Nat.lt_succ_of_lt hi)
    exact ((drawsByte_iff h.toConsolesOk ht hon).mpr (hc n n.lt_succ_self)).cursor

/-- A write that meets the condition leaves all cursors on the screen. -/
theorem CursorsOnScreen.step {s s' : Tty} {e : TtyEvent} (h : CursorsOnScreen s)
    (he : e.IsConsole) (hc : NoTabInColumn76 s e) (hstep : ttyStep s e = some s') :
    CursorsOnScreen s' := by
  obtain ⟨hok', habs⟩ := consoles_step h.toConsolesOk he hstep
  refine ⟨hok', fun t ht => ?_⟩
  have hsame : (consolesOf s).step e ⟨t, ht⟩ = logicalScreen s t →
      (logicalScreen s' t).OnScreen := by
    intro heq
    rw [show logicalScreen s' t = consolesOf s' ⟨t, ht⟩ from rfl, habs, heq]
    exact h.onScreen t ht
  cases e with
  | key | read => exact he.elim
  | switch n => exact hsame rfl
  | write t' buf nbytes =>
    cases buf with
    | none => exact hsame rfl
    | some buf =>
      -- only the terminal that is written to is drawn on
      by_cases hne : t = t'
      · subst hne
        obtain ⟨-, hself, -⟩ := afterBytes_consoles h.toConsolesOk ht buf nbytes.toNat
        have hscreen : logicalScreen s' t =
            logicalScreen (afterBytes s t buf nbytes.toNat) t := by
          rw [hself]
          exact (congrFun habs ⟨t, ht⟩).trans (if_pos rfl)
        rw [hscreen]
        exact onScreen_afterBytes h ht hc
      · exact hsame (if_neg hne)

/-- A write is drawn on the screen exactly if it meets the condition. -/
theorem CursorsOnScreen.draws_iff {s s' : Tty} {e : TtyEvent} (h : CursorsOnScreen s)
    (hstep : ttyStep s e = some s') : DrawsOnScreen s e ↔ NoTabInColumn76 s e := by
  cases e with
  | key | switch | read => exact Iff.rfl
  | write t buf nbytes =>
    cases buf with
    | none => exact Iff.rfl
    | some buf =>
      have ht : t < terminalTotalNum := by
        by_contra hnot
        rw [ttyStep, if_neg hnot] at hstep
        cases hstep
      -- byte by byte: as long as each stays on the screen, the next one is in question
      refine forall_lt_iff_forall_lt
        (J := fun i => (logicalScreen (afterBytes s t buf i) t).OnScreen) ?_ ?_ ?_
      · exact fun i _ hon hc => ((drawsByte_iff h.toConsolesOk ht hon).mpr hc).cursor
      · exact fun i _ hon => drawsByte_iff h.toConsolesOk ht hon
      · rw [(afterBytes_consoles h.toConsolesOk ht buf 0).2.1]
        exact h.onScreen t ht

/-- `init_terminal` puts all cursors in the top left corner. -/
theorem cursorsOnScreen_initTerminal (tty : Tty) : CursorsOnScreen (initTerminal tty) where
  toConsolesOk := consolesOk_initTerminal tty
  onScreen t ht := by
    have hcorner := logicalScreen_initTerminal tty ht
    refine ⟨?_, ?_, ?_, ?_⟩ <;> simp [hcorner, numCols, numRows]

/-- **The cursor stays on the screen** after every byte of every write, every byte changes cells
    of the screen only and every printable byte is typed, exactly when no tab is written in
    column 76. -/
theorem cursor_on_screen_iff (tty : Tty) (es : List TtyEvent) (hes : ∀ e ∈ es, e.IsConsole) :
    EachStep ttyStep DrawsOnScreen (initTerminal tty) es ↔
      EachStep ttyStep NoTabInColumn76 (initTerminal tty) es :=
  eachStep_iff_eachStep (fun _ _ _ hs he hc hstep => hs.step he hc hstep)
    (fun _ _ _ hs _ hstep => hs.draws_iff hstep) (cursorsOnScreen_initTerminal tty) hes

/-- Terminal 1 writes in the background up to column 76, then a newline and a tab. -/
theorem cursor_on_screen_iff_two_writes :
    EachStep ttyStep DrawsOnScreen (initTerminal zeroTty)
        [.write 1 (some fun _ => 65) 76, .write 1 (some fun i => if i = 0 then 10 else 9) 2] ↔
      EachStep ttyStep NoTabInColumn76 (initTerminal zeroTty)
        [.write 1 (some fun _ => 65) 76, .write 1 (some fun i => if i = 0 then 10 else 9) 2] :=
  cursor_on_screen_iff zeroTty _ (by simp [TtyEvent.IsConsole, terminalTotalNum])

/-- 76 letters, a tab and a letter: the tab leaves the cursor in column 80. -/
def tabInColumn76 : TtyEvent := .write 0 (some fun i => if i = 76 then tab else 65) 78

theorem tab_in_column_76 :
    ¬ EachStep ttyStep DrawsOnScreen (initTerminal zeroTty) [tabInColumn76] := by
  intro h
  obtain ⟨s', hstep⟩ : ∃ s', ttyStep (initTerminal zeroTty) tabInColumn76 = some s' := ⟨_, rfl⟩
  have hcursor := ((h s' hstep).1 76 (by decide)).cursor
  exact absurd hcursor (by decide +kernel)

end LinuxLikeOs
