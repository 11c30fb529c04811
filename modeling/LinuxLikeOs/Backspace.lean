import LinuxLikeOs.Consoles
import LinuxLikeOs.LineInput

/-!
# What Backspace erases

Backspace should take back what was typed on its terminal and nothing else.  The code goes by the
line buffer and by `overflow_bits`, which all terminals share; Enter types its newline into the
next line.

- `consolesOk_ttyStep`: every event keeps the cursors in range, but a Backspace over a tab in the
  first row
- `typedStep`: the terminals with the characters typed and not erased since the last Enter
- `backspace_law_iff`: the runs in which Backspace erases typed characters only
- `backspace_law_of_orderly`: what users have to do for that
-/

namespace LinuxLikeOs

open Library

/-! ## Drawing a backspace -/

/-- The cursor is in the top left corner. -/
def Screen.AtCorner (s : Screen) : Prop := s.screenX = 0 ∧ s.screenY = 0

instance (s : Screen) : Decidable s.AtCorner := inferInstanceAs (Decidable (_ ∧ _))

/-- A tab behind the first columns of the first row: erasing one would need a row above. -/
def Screen.TabAtTop (s : Screen) (c1 : UInt8) : Prop :=
  c1 = tab ∧ s.screenY = 0 ∧ 0 < s.screenX ∧ s.screenX < fourBit

instance (s : Screen) (c1 : UInt8) : Decidable (s.TabAtTop c1) :=
  inferInstanceAs (Decidable (_ ∧ _))

theorem specialPutc_corner {s : Screen} (h : s.AtCorner) (c1 : UInt8) :
    specialPutc s c1 backspace = s := by
  have hbreak : ¬ (backspace = newline ∨ backspace = carriageReturn) := by decide
  unfold Screen.AtCorner at h
  rw [specialPutc, if_neg hbreak, if_pos rfl, if_pos h]

/-- Elsewhere a backspace moves the cursor. -/
theorem specialPutc_backspace_ne {s : Screen} (h : CursorOk s 0) (hcorner : ¬ s.AtCorner)
    (c1 : UInt8) : specialPutc s c1 backspace ≠ s := by
  intro heq
  have hx := congrArg Screen.screenX heq
  have hx0 := h.x_nonneg
  have hbreak : ¬ (backspace = newline ∨ backspace = carriageReturn) := by decide
  unfold Screen.AtCorner at hcorner
  simp only [specialPutc, if_neg hbreak, if_true, if_neg hcorner] at hx
  simp only [numCols, fourBit] at hx
  by_cases htab : c1 = tab
  · simp only [htab, ne_eq, not_true, and_false, and_true, if_false] at hx
    split_ifs at hx <;> simp only at hx <;> omega
  · simp only [htab, ne_eq, not_false_eq_true, and_true, and_false, if_false] at hx
    split_ifs at hx <;> simp only at hx <;> omega

/-- A backspace over a tab in the first columns of the first row leaves the screen. -/
theorem specialPutc_tabAtTop {s : Screen} {c1 : UInt8} (h : s.TabAtTop c1) :
    (specialPutc s c1 backspace).screenY = -1 := by
  obtain ⟨rfl, hy, hx0, hx1⟩ := h
  have hbreak : ¬ (backspace = newline ∨ backspace = carriageReturn) := by decide
  have hne : ¬ s.screenX = 0 := by omega
  simp only [specialPutc, if_neg hbreak, if_true, hne, if_false, ne_eq, not_true, and_false,
    and_true, Int.le_of_lt hx0, hx1, and_self, hy]
  rfl

/-- Any other backspace keeps the cursor in range. -/
theorem cursorOk_backspace {s : Screen} (h : CursorOk s 0) {c1 : UInt8} (htop : ¬ s.TabAtTop c1) :
    CursorOk (specialPutc s c1 backspace) 0 := by
  by_cases hcorner : s.AtCorner
  · rwa [specialPutc_corner hcorner]
  · have hx0 := h.x_nonneg
    have hy0 := h.y_nonneg
    have hstart : CursorOk s c1 := by
      refine ⟨h.x_nonneg, h.x_le, h.y_nonneg, h.y_lt, fun htab => ?_⟩
      unfold Screen.TabAtTop at htop
      unfold Screen.AtCorner at hcorner
      simp only [fourBit] at *
      by_contra hnot
      exact htop ⟨htab, by omega, by omega, by omega⟩
    exact (specialPutc_cursorOk hstart).zero

/-! ## Every event keeps the cursors in range -/

/-- Nothing is left to erase: no character in the line and none that was only counted. -/
def Tty.LineEmpty (tty : Tty) : Prop :=
  tty.keyboard.bufferPosition = 0 ∧ tty.keyboard.overflowBits = 0

instance (tty : Tty) : Decidable tty.LineEmpty := inferInstanceAs (Decidable (_ ∧ _))

/-- The character that Backspace erases next; one that was only counted is unknown. -/
def Tty.lastTyped (tty : Tty) : UInt8 :=
  if tty.keyboard.bufferPosition ≠ 0 then
    tty.keyboard.keyboardBuffer (tty.keyboard.bufferPosition - 1)
  else 0

/-- The screen after Backspace. -/
theorem screen_eraseChar (tty : Tty) :
    (eraseChar tty).screen =
      if tty.LineEmpty then tty.screen else specialPutc tty.screen tty.lastTyped backspace := by
  unfold eraseChar Tty.LineEmpty Tty.lastTyped
  by_cases hline : tty.keyboard.bufferPosition = 0
  · by_cases hcount : tty.keyboard.overflowBits = 0
    · simp [hline, hcount]
    · simp [hline, hcount]
  · simp [hline]

/-- The event is a press of Backspace. -/
def IsBackspace (tty : Tty) : TtyEvent → Prop
  | .key code => keyPress tty.keyboard code.toNat = .erase
  | .switch _ | .read .. | .write .. => False

instance (tty : Tty) : ∀ e, Decidable (IsBackspace tty e)
  | .key _ => inferInstanceAs (Decidable (_ = _))
  | .switch _ | .read .. | .write .. => isFalse id

/-- The cursor range is a matter of the cursor alone. -/
theorem LogicalScreen.CursorOk.of_cursor {l l' : LogicalScreen} (h : l.CursorOk) (hx : l'.x = l.x)
    (hy : l'.y = l.y) : l'.CursorOk where
  x_nonneg := by show 0 ≤ l'.x; rw [hx]; exact h.x_nonneg
  x_le := by show l'.x ≤ numCols; rw [hx]; exact h.x_le
  y_nonneg := by show 0 ≤ l'.y; rw [hy]; exact h.y_nonneg
  y_lt := by show l'.y < numRows; rw [hy]; exact h.y_lt
  after_tab h0 := absurd h0 (by decide)

/-- Consoles that keep their pages and cursors, with a cursor in range on the displayed one. -/
theorem ConsolesOk.of_same {tty tty' : Tty} (h : ConsolesOk tty)
    (hdisplay : tty'.curDisplayTid = tty.curDisplayTid) (hscreen : CursorOk tty'.screen 0)
    (hterm : ∀ t, (tty'.terminals t).vidBuf = (tty.terminals t).vidBuf ∧
      (tty'.terminals t).xPosition = (tty.terminals t).xPosition ∧
      (tty'.terminals t).yPosition = (tty.terminals t).yPosition) : ConsolesOk tty' := by
  refine ⟨hdisplay ▸ h.display, fun t ht => (hterm t).1.trans (h.page t ht), fun t ht => ?_⟩
  by_cases hd : tty.curDisplayTid = t
  · rw [logicalScreen_displayed (hdisplay.trans hd)]
    exact .of_screen hscreen
  · -- in the background nothing has moved
    have hold := h.cursor t ht
    rw [logicalScreen_background hd] at hold
    rw [logicalScreen_background (hdisplay ▸ hd)]
    obtain ⟨-, hx, hy⟩ := hterm t
    exact hold.of_cursor hx hy

/-- The cursor of the displayed terminal is in range. -/
theorem ConsolesOk.screen {tty : Tty} (h : ConsolesOk tty) : CursorOk tty.screen 0 := by
  have hcursor := h.cursor _ h.display
  rw [logicalScreen_displayed rfl] at hcursor
  exact hcursor.screen

/-- Typing a character. -/
private theorem consolesOk_typeChar {tty : Tty} (h : ConsolesOk tty) (c : UInt8) :
    ConsolesOk (typeChar tty c) :=
  h.of_same rfl (specialPutc_cursorOk h.screen).zero fun _ => ⟨rfl, rfl, rfl⟩

/-- Storing an entry of `terminals` that has the page and the cursor of the old one. -/
private theorem consolesOk_setTerminal {tty : Tty} (h : ConsolesOk tty) (kb : Keyboard) (t : Nat)
    (term : Terminal) (hpage : term.vidBuf = (tty.terminals t).vidBuf)
    (hx : term.xPosition = (tty.terminals t).xPosition)
    (hy : term.yPosition = (tty.terminals t).yPosition) :
    ConsolesOk ({ tty with keyboard := kb }.setTerminal t term) := by
  refine h.of_same rfl h.screen fun u => ?_
  by_cases hu : u = t
  · subst hu
    have hterm : Function.update tty.terminals u term u = term := Function.update_self ..
    exact ⟨(congrArg _ hterm).trans hpage, (congrArg _ hterm).trans hx,
      (congrArg _ hterm).trans hy⟩
  · have hterm : Function.update tty.terminals t term u = tty.terminals u :=
      Function.update_of_ne hu ..
    exact ⟨congrArg _ hterm, congrArg _ hterm, congrArg _ hterm⟩

/-- A key press. -/
private theorem consolesOk_press {tty : Tty} (h : ConsolesOk tty) (p : KeyPress)
    (htop : p = .erase → ¬ tty.LineEmpty → ¬ tty.screen.TabAtTop tty.lastTyped) :
    ConsolesOk (tty.press p) := by
  -- only Backspace can move the cursor up, and `htop` says it does not
  cases p with
  | switch t => exact (consoles_step (e := .switch t) h trivial rfl).1
  | enter =>
    have hsaved : ConsolesOk (saveLine tty) := by
      unfold saveLine
      exact consolesOk_setTerminal h _ _ _ rfl rfl rfl
    exact consolesOk_typeChar hsaved newline
  | erase =>
    have hcursor : CursorOk (eraseChar tty).screen 0 := by
      rw [screen_eraseChar]
      split_ifs with hempty
      · exact h.screen
      · exact cursorOk_backspace h.screen (htop rfl hempty)
    -- nothing else of the terminals changes
    refine h.of_same ?_ hcursor fun t => ?_
    · simp only [Tty.press, eraseChar]
      split_ifs <;> rfl
    · simp only [Tty.press, eraseChar]
      split_ifs <;> exact ⟨rfl, rfl, rfl⟩
  | clear =>
    have hcorner : CursorOk (clearScreen tty.screen) 0 :=
      ⟨Int.le_refl 0, show (0 : Int) ≤ numCols by decide, Int.le_refl 0,
        show (0 : Int) < numRows by decide, fun h0 => absurd h0 (by decide)⟩
    exact h.of_same rfl hcorner fun _ => ⟨rfl, rfl, rfl⟩
  | letter c => exact consolesOk_typeChar h c
  | none => exact h

/-- **Every event** keeps the cursors in range, if no Backspace is pressed over a tab in the first
    row. -/
theorem consolesOk_ttyStep {tty tty' : Tty} {e : TtyEvent} (h : ConsolesOk tty)
    (htop : IsBackspace tty e → ¬ tty.LineEmpty → ¬ tty.screen.TabAtTop tty.lastTyped)
    (hstep : ttyStep tty e = some tty') : ConsolesOk tty' := by
  cases e with
  | switch n => exact (consoles_step (e := .switch n) h trivial hstep).1
  | write t buf nbytes =>
    have ht : t < terminalTotalNum := by
      by_contra hge
      rw [ttyStep, if_neg hge] at hstep
      cases hstep
    exact (consoles_step (e := .write t buf nbytes) h ht hstep).1
  | read t buf nbytes =>
    simp only [ttyStep] at hstep
    split_ifs at hstep with ht
    obtain ⟨r, hr, rfl⟩ := Option.map_eq_some_iff.mp hstep
    cases buf with
    | none =>
      obtain rfl := Option.some.inj hr
      exact h
    | some buf =>
      simp only [terminalRead] at hr
      split_ifs at hr
      obtain rfl := Option.some.inj hr
      exact consolesOk_setTerminal h _ t _ rfl rfl rfl
  | key code =>
    obtain rfl := Option.some.inj hstep
    rw [keyboardHandler_eq]
    -- the flags are no part of the consoles
    obtain ⟨caps, shift, ctrl, alt, hflags⟩ := flagsAfter_eq tty.keyboard code.toNat
    rw [hflags]
    refine consolesOk_press ?_ _ htop
    exact h.of_same rfl h.screen fun _ => ⟨rfl, rfl, rfl⟩

/-! ## Typed characters -/

/-- The number of characters typed on each terminal since its last Enter and not erased yet, after
    a key press. -/
def Tty.typedAfter (tty : Tty) (typed : Nat → Nat) : KeyPress → Nat → Nat
  | .enter => Function.update typed tty.curDisplayTid 0
  | .letter _ => Function.update typed tty.curDisplayTid (typed tty.curDisplayTid + 1)
  | .erase =>
    if tty.LineEmpty then typed
    else Function.update typed tty.curDisplayTid (typed tty.curDisplayTid - 1)
  | .switch _ | .clear | .none => typed

/-- One event, with the numbers of typed characters. -/
def typedStep (s : Tty × (Nat → Nat)) (e : TtyEvent) : Option (Tty × (Nat → Nat)) :=
  (ttyStep s.1 e).map fun tty' =>
    (tty', match e with
      | .key code => s.1.typedAfter s.2 (keyPress s.1.keyboard code.toNat)
      | .switch _ | .read .. | .write .. => s.2)

/-- Backspace leaves screen and cursor as they are when no typed character is left on the displayed
    terminal, and no cursor leaves the screen at the top. -/
def BackspaceLaw (s : Tty × (Nat → Nat)) (e : TtyEvent) : Prop :=
  ∀ tty' ∈ ttyStep s.1 e,
    (IsBackspace s.1 e → s.2 s.1.curDisplayTid = 0 → tty'.screen = s.1.screen) ∧
    ∀ t < terminalTotalNum, 0 ≤ (logicalScreen tty' t).y

/-- Backspace is pressed with a typed character left, or it has nothing to do; and what it erases
    is no tab in the first columns of the first row. -/
def ErasesTyped (s : Tty × (Nat → Nat)) (e : TtyEvent) : Prop :=
  IsBackspace s.1 e →
    (s.2 s.1.curDisplayTid = 0 → s.1.LineEmpty ∨ s.1.screen.AtCorner) ∧
    (s.1.LineEmpty ∨ ¬ s.1.screen.TabAtTop s.1.lastTyped)

instance (s : Tty × (Nat → Nat)) (e : TtyEvent) : Decidable (ErasesTyped s e) :=
  inferInstanceAs (Decidable (_ → _))

/-- Backspace touches the screen alone of the consoles. -/
theorem ttyStep_backspace {tty tty' : Tty} {e : TtyEvent} (herase : IsBackspace tty e)
    (hstep : ttyStep tty e = some tty') :
    tty'.curDisplayTid = tty.curDisplayTid ∧ tty'.screen =
      if tty.LineEmpty then tty.screen else specialPutc tty.screen tty.lastTyped backspace := by
  cases e with
  | switch | read | write => exact herase.elim
  | key code =>
    obtain rfl := Option.some.inj hstep
    have hpress : keyPress tty.keyboard code.toNat = .erase := herase
    rw [keyboardHandler_eq, hpress]
    -- the flags are no part of the line
    obtain ⟨caps, shift, ctrl, alt, hflags⟩ := flagsAfter_eq tty.keyboard code.toNat
    rw [hflags]
    refine ⟨?_, screen_eraseChar _⟩
    simp only [Tty.press, eraseChar]
    split_ifs <;> rfl

/-- **One event** keeps to the law exactly if Backspace erases what was typed. -/
theorem backspaceLaw_iff {s : Tty × (Nat → Nat)} (h : ConsolesOk s.1) {e : TtyEvent} {tty' : Tty}
    (hstep : ttyStep s.1 e = some tty') : BackspaceLaw s e ↔ ErasesTyped s e := by
  obtain ⟨tty, typed⟩ := s
  -- the law is about the one state after the event
  have hlaw : BackspaceLaw (tty, typed) e ↔
      (IsBackspace tty e → typed tty.curDisplayTid = 0 → tty'.screen = tty.screen) ∧
      ∀ t < terminalTotalNum, 0 ≤ (logicalScreen tty' t).y := by
    simp only [BackspaceLaw, hstep, Option.mem_some_iff, forall_eq']
  rw [hlaw]
  -- on Backspace the law says that the screen may not change, and that the cursor stays on it
  by_cases herase : IsBackspace tty e
  · obtain ⟨hdisplay, hscreen⟩ := ttyStep_backspace herase hstep
    simp only [ErasesTyped, herase, forall_const]
    constructor
    · -- if nothing was typed the condition says that nothing is erased, or nothing can be
      rintro ⟨hkeep, hrow⟩
      refine ⟨fun hnone => ?_, ?_⟩
      · by_contra hnot
        rw [not_or] at hnot
        have hsame := hkeep hnone
        rw [hscreen, if_neg hnot.1] at hsame
        exact specialPutc_backspace_ne h.screen hnot.2 _ hsame
      · by_contra hnot
        rw [not_or, not_not] at hnot
        have hy := hrow _ h.display
        rw [logicalScreen_displayed hdisplay, hscreen, if_neg hnot.1] at hy
        have hneg := specialPutc_tabAtTop hnot.2
        simp only [Screen.logical, hneg] at hy
        omega
    · -- conversely: an empty line and the corner are the two ways to change nothing
      rintro ⟨hnone, htop⟩
      refine ⟨fun hzero => ?_, fun t ht => ?_⟩
      · rw [hscreen]
        split_ifs with hempty
        · rfl
        · exact specialPutc_corner ((hnone hzero).resolve_left hempty) _
      · have hok := consolesOk_ttyStep h (fun _ hline => htop.resolve_left hline) hstep
        exact (hok.cursor t ht).y_nonneg
  · -- any other event keeps the cursor on the screen and erases nothing
    have hok := consolesOk_ttyStep h (fun hpress => absurd hpress herase) hstep
    exact iff_of_true
      ⟨fun hpress => absurd hpress herase, fun t ht => (hok.cursor t ht).y_nonneg⟩
      fun hpress => absurd hpress herase

/-- **Runs**: in a run from `init_terminal`, Backspace erases typed characters only and no cursor
    leaves the screen at the top, exactly if every Backspace finds a typed character or nothing to
    do, and never a tab in the first columns of the first row. -/
theorem backspace_law_iff (tty : Tty) (es : List TtyEvent) :
    EachStep typedStep BackspaceLaw (initTerminal tty, fun _ => 0) es ↔
      EachStep typedStep ErasesTyped (initTerminal tty, fun _ => 0) es := by
  refine eachStep_iff_eachStep (E := fun _ => True) (J := fun s => ConsolesOk s.1)
    (fun s e s' hok _ hcond hstep => ?_) (fun s e s' hok _ hstep => ?_)
    (consolesOk_initTerminal tty) fun _ _ => trivial
  · obtain ⟨tty', htty', rfl⟩ := Option.map_eq_some_iff.mp hstep
    exact consolesOk_ttyStep hok (fun hpress hline => (hcond hpress).2.resolve_left hline) htty'
  · obtain ⟨tty', htty', -⟩ := Option.map_eq_some_iff.mp hstep
    exact backspaceLaw_iff hok htty'

/-- Enter with no reader, then a program writes `A`: its newline is typed into the next line, so
    Backspace erases the `A`. -/
theorem backspace_erases_output :
    ¬ EachStep typedStep BackspaceLaw (initTerminal zeroTty, fun _ => 0)
      [.key 0x1c, .write 0 (some fun _ => 65) 1, .key 0x0e] := by
  intro hlaw
  have hlast := (((hlaw _ rfl).2 _ rfl).2 _ rfl).1
  obtain ⟨hkeep, -⟩ := hlast _ rfl
  have hx := congrArg Screen.screenX (hkeep (by decide +kernel) (by decide +kernel))
  revert hx
  decide +kernel

/-! ## Orderly typing -/

/-- The run as its users see it: how many characters have been typed on each terminal since its last
    Enter and not been erased, and whether the line of that Enter still waits for its read. -/
structure TypingLog where
  typed : Nat → Nat
  unread : Nat → Bool

namespace TypingLog

/-- Nothing typed yet. -/
def empty : TypingLog := ⟨fun _ => 0, fun _ => false⟩

/-- Keys act on the displayed terminal, a read on its own. -/
def apply (log : TypingLog) (display : Nat) : LineAction → TypingLog
  | .letter _ => { log with typed := Function.update log.typed display (log.typed display + 1) }
  | .erase => { log with typed := Function.update log.typed display (log.typed display - 1) }
  | .enter =>
    { typed := Function.update log.typed display 0
      unread := Function.update log.unread display true }
  | .read t => { log with unread := Function.update log.unread t false }
  | .switch _ | .other => log

/-- A line has at most 126 characters and no tab, and Backspace is pressed only while a character is
    left to erase or when the line of the last Enter has been read. -/
def Orderly (log : TypingLog) (display : Nat) : LineAction → Prop
  | .letter c => c ≠ tab ∧ log.typed display + 1 < bufferSize
  | .erase => log.typed display ≠ 0 ∨ log.unread display = false
  | .enter | .read _ | .switch _ | .other => True

instance (log : TypingLog) (display : Nat) : ∀ a, Decidable (log.Orderly display a)
  | .letter _ => inferInstanceAs (Decidable (_ ∧ _))
  | .erase => inferInstanceAs (Decidable (_ ∨ _))
  | .enter | .read _ | .switch _ | .other => isTrue trivial

end TypingLog

/-- One event, with the history. -/
def historyStep (s : (Tty × (Nat → Nat)) × TypingLog) (e : TtyEvent) :
    Option ((Tty × (Nat → Nat)) × TypingLog) :=
  (typedStep s.1 e).map fun s' => (s', s.2.apply s.1.1.curDisplayTid (lineAction s.1.1 e))

/-- The event is part of orderly typing. -/
def OrderlyEvent (s : (Tty × (Nat → Nat)) × TypingLog) (e : TtyEvent) : Prop :=
  s.2.Orderly s.1.1.curDisplayTid (lineAction s.1.1 e)

instance (s : (Tty × (Nat → Nat)) × TypingLog) (e : TtyEvent) : Decidable (OrderlyEvent s e) :=
  inferInstanceAs (Decidable (TypingLog.Orderly ..))

/-- The buffers hold no more than was typed and the newline of an unread line, and no tab. -/
structure HoldsTyping (l : LineState) (log : TypingLog) : Prop where
  positions : l.PositionsOk
  count : ∀ t < terminalTotalNum, (l.pending t).length ≤ log.typed t + (log.unread t).toNat
  noTab : ∀ t < terminalTotalNum, tab ∉ l.pending t

namespace HoldsTyping

variable {l : LineState} {log : TypingLog}

/-- A line has room for the next letter. -/
theorem room (h : HoldsTyping l log) (hletter : log.typed l.display + 1 < bufferSize) :
    (l.pending l.display).length < bufferSize := by
  have hcount := h.count _ h.positions.display
  have hone : (log.unread l.display).toNat ≤ 1 := Bool.toNat_le _
  omega

/-- **One action**. -/
theorem apply (h : HoldsTyping l log) {a : LineAction} (ha : l.Enabled a)
    (horderly : log.Orderly l.display a) :
    HoldsTyping (l.apply a) (log.apply l.display a) := by
  have hpos := LineState.positionsOk_apply h.positions ha
  -- one case for each action on the line; the count goes on the display's terminal only
  cases a with
  | other => exact h
  | switch n =>
    have hpending := fun t => LineState.pending_switch (t := t) h.positions ha
    exact ⟨hpos, fun t ht => hpending t ▸ h.count t ht, fun t ht => hpending t ▸ h.noTab t ht⟩
  | read n =>
    refine ⟨hpos, fun t ht => ?_, fun t ht => ?_⟩
    · -- the reader takes its line away
      rw [LineState.pending_read]
      split_ifs with hcleared
      · exact Nat.zero_le _
      · rw [not_or] at hcleared
        simpa only [TypingLog.apply, Function.update_of_ne hcleared.2] using h.count t ht
    · rw [LineState.pending_read]
      split_ifs
      · exact List.not_mem_nil
      · exact h.noTab t ht
  | enter =>
    refine ⟨hpos, fun t ht => ?_, fun t ht => ?_⟩
    · rw [LineState.pending_enter]
      by_cases hd : t = l.display
      · -- the newline of the line that now waits
        subst hd
        simp [TypingLog.apply]
      · simpa only [if_neg hd, TypingLog.apply, Function.update_of_ne hd] using h.count t ht
    · rw [LineState.pending_enter]
      split_ifs
      · decide
      · exact h.noTab t ht
  | erase =>
    refine ⟨hpos, fun t ht => ?_, fun t ht => ?_⟩
    · -- the display's terminal loses a letter of the line and one of the count
      have hcount := h.count t ht
      rw [LineState.pending_erase]
      by_cases hd : t = l.display
      · subst hd
        have hone : (log.unread l.display).toNat ≤ 1 := Bool.toNat_le _
        simp only [if_true, List.length_dropLast, TypingLog.apply, Function.update_self]
        omega
      · simpa only [if_neg hd, TypingLog.apply, Function.update_of_ne hd] using hcount
    · rw [LineState.pending_erase]
      split_ifs
      · exact fun hmem => h.noTab t ht (List.dropLast_subset _ hmem)
      · exact h.noTab t ht
  | letter c =>
    -- a letter comes after the line before it has been read, and is no tab
    obtain ⟨htab, hletter⟩ := horderly
    have hroom := h.room hletter
    refine ⟨hpos, fun t ht => ?_, fun t ht => ?_⟩
    · have hcount := h.count t ht
      rw [LineState.pending_letter]
      by_cases hd : t = l.display
      · subst hd
        simp only [if_true, typeLetter, if_pos hroom, List.length_append, List.length_singleton,
          TypingLog.apply, Function.update_self]
        omega
      · simpa only [if_neg hd, TypingLog.apply, Function.update_of_ne hd] using hcount
    · rw [LineState.pending_letter]
      split_ifs with hd
      · subst hd
        rw [typeLetter, if_pos hroom, List.mem_append, List.mem_singleton, not_or]
        exact ⟨h.noTab _ ht, htab.symm⟩
      · exact h.noTab t ht

end HoldsTyping

/-- The characters that are only counted are those that find the line full. -/
theorem ttyStep_overflowBits {tty tty' : Tty} {e : TtyEvent}
    (hzero : tty.keyboard.overflowBits = 0)
    (hroom : ∀ c, lineAction tty e = .letter c → tty.keyboard.bufferPosition < bufferSize)
    (hstep : ttyStep tty e = some tty') : tty'.keyboard.overflowBits = 0 := by
  have hswitch : ∀ (tty : Tty) (n : Int), tty.keyboard.overflowBits = 0 →
      (terminalSwitch tty n).2.keyboard.overflowBits = 0 := by
    intro tty n hzero
    unfold terminalSwitch
    split_ifs <;> exact hzero
  cases e with
  | switch n =>
    obtain rfl := Option.some.inj hstep
    exact hswitch tty n hzero
  | write t buf nbytes =>
    simp only [ttyStep] at hstep
    split_ifs at hstep
    obtain rfl := Option.some.inj hstep
    rcases terminalWrite_frame tty t buf nbytes with ⟨screen, heq⟩ | ⟨screen, x, y, heq⟩
    · rw [heq]
      exact hzero
    · rw [heq]
      exact hzero
  | read t buf nbytes =>
    simp only [ttyStep] at hstep
    split_ifs at hstep
    obtain ⟨r, hr, rfl⟩ := Option.map_eq_some_iff.mp hstep
    cases buf with
    | none =>
      obtain rfl := Option.some.inj hr
      exact hzero
    | some buf =>
      simp only [terminalRead] at hr
      split_ifs at hr
      obtain rfl := Option.some.inj hr
      exact hzero
  | key code =>
    obtain rfl := Option.some.inj hstep
    have hletter : ∀ c, keyPress tty.keyboard code.toNat = .letter c →
        tty.keyboard.bufferPosition < bufferSize := by
      intro c hc
      refine hroom c ?_
      show keyAction tty.keyboard code.toNat = _
      rw [keyAction_eq, hc]
      rfl
    rw [keyboardHandler_eq]
    -- the flags are no part of the line
    obtain ⟨caps, shift, ctrl, alt, hflags⟩ := flagsAfter_eq tty.keyboard code.toNat
    rw [hflags]
    cases hpress : keyPress tty.keyboard code.toNat with
    | switch t => exact hswitch _ t hzero
    | enter => rfl
    | erase =>
      simp only [Tty.press, eraseChar]
      split_ifs with hline hcount
      · exact hzero
      · exact absurd hzero hcount
      · exact hzero
    | letter c =>
      simp only [Tty.press, typeChar, if_pos (hletter c hpress)]
      exact hzero
    | clear | none => exact hzero

/-- What orderly typing keeps. -/
structure TypingOk (s : Tty × (Nat → Nat)) (log : TypingLog) : Prop where
  consoles : ConsolesOk s.1
  line : HoldsTyping s.1.lineState log
  counted : s.1.keyboard.overflowBits = 0
  typed : ∀ t, log.typed t ≤ s.2 t

namespace TypingOk

variable {s s' : Tty × (Nat → Nat)} {log : TypingLog} {e : TtyEvent}

/-- An orderly Backspace erases a typed character, or finds nothing. -/
theorem erasesTyped (h : TypingOk s log)
    (horderly : log.Orderly s.1.curDisplayTid (lineAction s.1 e)) : ErasesTyped s e := by
  intro herase
  have haction : lineAction s.1 e = .erase := by
    cases e with
    | switch | read | write => exact herase.elim
    | key code => exact (keyAction_eq ..).trans (congrArg KeyPress.lineAction herase)
  rw [haction] at horderly
  have hdisplay := h.consoles.display
  have hcount : s.1.keyboard.bufferPosition ≤
      log.typed s.1.curDisplayTid + (log.unread s.1.curDisplayTid).toNat := by
    have hlength := h.line.count _ hdisplay
    rwa [show s.1.curDisplayTid = s.1.lineState.display from rfl, LineState.pending_display,
      FillBuffer.length_contents] at hlength
  constructor
  · intro hnone
    have htyped := h.typed s.1.curDisplayTid
    have hzero : log.typed s.1.curDisplayTid = 0 := by omega
    have hread := horderly.resolve_left (not_not.mpr hzero)
    rw [hzero, hread] at hcount
    exact .inl ⟨Nat.le_zero.mp hcount, h.counted⟩
  · by_cases hempty : s.1.keyboard.bufferPosition = 0
    · exact .inl ⟨hempty, h.counted⟩
    · refine .inr fun htop => h.line.noTab _ hdisplay ?_
      -- what is erased is the last character of the line
      have hlast : s.1.keyboard.keyboardBuffer (s.1.keyboard.bufferPosition - 1) = tab := by
        rw [← htop.1, Tty.lastTyped, if_pos hempty]
      rw [show s.1.curDisplayTid = s.1.lineState.display from rfl, LineState.pending_display]
      exact List.mem_map.mpr ⟨_, List.mem_range.mpr (Nat.sub_one_lt hempty), hlast⟩

/-- What is counted by the code's rule is at least what the users count. -/
private theorem typed_step (h : TypingOk s log) (hstep : typedStep s e = some s') :
    ∀ t, (log.apply s.1.curDisplayTid (lineAction s.1 e)).typed t ≤ s'.2 t := by
  obtain ⟨tty', -, rfl⟩ := Option.map_eq_some_iff.mp hstep
  -- the kernel's count is at least the log's before the event, and both change alike
  have hupdate : ∀ {a b : Nat}, a ≤ b → ∀ t, Function.update log.typed s.1.curDisplayTid a t ≤
      Function.update s.2 s.1.curDisplayTid b t := by
    intro a b hab t
    by_cases ht : t = s.1.curDisplayTid
    · rwa [ht, Function.update_self, Function.update_self]
    · rw [Function.update_of_ne ht, Function.update_of_ne ht]
      exact h.typed t
  -- only a key counts
  have hhere := h.typed s.1.curDisplayTid
  cases e with
  | write => exact h.typed
  | switch n =>
    simp only [lineAction]
    split_ifs <;> exact h.typed
  | read t buf nbytes => cases buf <;> exact h.typed
  | key code =>
    simp only [lineAction, keyAction_eq]
    cases keyPress s.1.keyboard code.toNat with
    | switch | clear | none => exact h.typed
    | enter => exact hupdate (Nat.le_refl 0)
    | letter => exact hupdate (Nat.succ_le_succ hhere)
    | erase =>
      simp only [Tty.typedAfter]
      split_ifs
      · -- nothing is erased, and nothing counted back
        have hkeep := hupdate (Nat.le_trans (Nat.sub_le _ 1) hhere)
        rwa [Function.update_eq_self] at hkeep
      · exact hupdate (Nat.sub_le_sub_right hhere 1)

/-- **One event** of orderly typing. -/
theorem step (h : TypingOk s log)
    (horderly : log.Orderly s.1.curDisplayTid (lineAction s.1 e))
    (hstep : typedStep s e = some s') :
    TypingOk s' (log.apply s.1.curDisplayTid (lineAction s.1 e)) := by
  have htyped := h.typed_step hstep
  obtain ⟨tty', htty', rfl⟩ := Option.map_eq_some_iff.mp hstep
  obtain ⟨henabled, hline⟩ := ttyStep_lineState htty'
  -- consoles, line, count and typed letters, each by its own step lemma
  refine ⟨?_, ?_, ?_, htyped⟩
  · exact consolesOk_ttyStep h.consoles
      (fun hpress hempty => (h.erasesTyped horderly hpress).2.resolve_left hempty) htty'
  · show HoldsTyping tty'.lineState _
    rw [hline]
    exact h.line.apply henabled horderly
  · refine ttyStep_overflowBits h.counted (fun c hletter => ?_) htty'
    rw [hletter] at horderly
    have hroom := h.line.room horderly.2
    rwa [LineState.pending_display, FillBuffer.length_contents] at hroom

end TypingOk

/-- **Orderly typing** meets the condition: if no line has a tab or more than 126 characters, and
    Backspace is pressed only with a character left to erase or when the line before has been read,
    then Backspace erases typed characters only. -/
theorem backspace_law_of_orderly {tty : Tty} (hzero : tty.keyboard.overflowBits = 0)
    {es : List TtyEvent}
    (h : EachStep historyStep OrderlyEvent ((initTerminal tty, fun _ => 0), .empty) es) :
    EachStep typedStep BackspaceLaw (initTerminal tty, fun _ => 0) es := by
  obtain ⟨hpositions, hpending⟩ := initTerminal_lineState tty
  have hstart : TypingOk (initTerminal tty, fun _ => 0) .empty := by
    refine ⟨consolesOk_initTerminal tty, ⟨hpositions, fun t ht => ?_, fun t ht => ?_⟩, hzero,
      fun _ => Nat.le_refl 0⟩
    · rw [(hpending t ht).1]
      exact Nat.zero_le _
    · rw [(hpending t ht).1]
      exact List.not_mem_nil
  refine (backspace_law_iff tty es).mpr ?_
  generalize hs : ((initTerminal tty, fun _ => 0) : Tty × (Nat → Nat)) = s at h hstart ⊢
  generalize TypingLog.empty = log at h hstart
  clear hs
  -- the history goes on beside the run
  induction es generalizing s log with
  | nil => trivial
  | cons e es ih =>
    intro s' hs'
    have hnext : historyStep (s, log) e =
        some (s', log.apply s.1.curDisplayTid (lineAction s.1 e)) := by
      rw [historyStep, hs']
      rfl
    obtain ⟨horderly, hrest⟩ := h _ hnext
    exact ⟨hstart.erasesTyped horderly, ih _ _ hrest (hstart.step horderly hs')⟩

/-- A line is read, and then one Backspace more is pressed than there are letters. -/
example : EachStep historyStep OrderlyEvent ((initTerminal zeroTty, fun _ => 0), .empty)
    [.key 0x1c, .read 0 (some fun _ => 0) 128, .key 0x1e, .key 0x0e, .key 0x0e] := by
  decide +kernel

end LinuxLikeOs
