import LinuxLikeOs.ConsoleLayout

/-!
# Kernel output between program output

`putc` prints the messages of the kernel and `special_putc` the output of the programs, with one
cursor but by different rules: `putc` does not scroll, and it reduces the column before it looks
whether the row is full.

- `Output.chars`: the outputs as one run of characters (`exec_outputs`)
- `kernel_output_visible`: where all characters are stored on the screen
-/

namespace LinuxLikeOs

open Library

/-! ## Outputs -/

/-- A character that is output: by the kernel, or by a program behind character `c1`. -/
inductive OutputChar where
  | kernel (c : UInt8)
  | program (c1 c : UInt8)

def OutputChar.char : OutputChar → UInt8
  | .kernel c | .program _ c => c

/-- The screen after the character. -/
def OutputChar.draw (s : Screen) : OutputChar → Screen
  | .kernel c => putc s c
  | .program c1 c => specialPutc s c1 c

/-- A message of the kernel, or a write to the displayed terminal. -/
inductive Output where
  | printf (text : List UInt8)
  | write (buf : Buffer) (nbytes : Int)

/-- The terminals after an output. -/
def Tty.output (tty : Tty) : Output → Tty
  | .printf text => { tty with screen := printf tty.screen text }
  | .write buf nbytes => (terminalWrite tty tty.curDisplayTid (some buf) nbytes).2

/-- The characters of an output. -/
def Output.chars : Output → List OutputChar
  | .printf text => text.map .kernel
  | .write buf nbytes =>
    (List.range nbytes.toNat).map fun i => .program (previousChar buf i) (buf i)

/-- A write has neither a tab nor a backspace. -/
def Output.Plain : Output → Prop
  | .printf _ => True
  | .write buf nbytes => ∀ i < nbytes.toNat, buf i ≠ tab ∧ buf i ≠ backspace

instance : ∀ o : Output, Decidable o.Plain
  | .printf _ => isTrue trivial
  | .write .. => inferInstanceAs (Decidable (∀ _ < _, _))

/-- One character. -/
def drawStep (s : Screen) (ch : OutputChar) : Option Screen := some (ch.draw s)

/-- The characters of an output are drawn one by one. -/
theorem screen_output (tty : Tty) (o : Output) :
    (tty.output o).screen = o.chars.foldl OutputChar.draw tty.screen := by
  cases o with
  | printf text =>
    rw [Output.chars, List.foldl_map]
    rfl
  | write buf nbytes =>
    rw [Output.chars, List.foldl_map]
    simp only [Tty.output, terminalWrite, if_true]
    rfl

theorem exec_drawStep (s : Screen) (chars : List OutputChar) :
    exec drawStep s chars = some (chars.foldl OutputChar.draw s) := by
  induction chars generalizing s with
  | nil => rfl
  | cons ch chars ih => exact ih (ch.draw s)

/-- **Outputs** are one run of characters. -/
theorem exec_outputs (tty : Tty) (os : List Output) :
    exec drawStep tty.screen (os.flatMap Output.chars) =
      some (os.foldl Tty.output tty).screen := by
  rw [exec_drawStep]
  congr 1
  induction os generalizing tty with
  | nil => rfl
  | cons o os ih => rw [List.flatMap_cons, List.foldl_append, ← screen_output, ih, List.foldl_cons]

/-! ## What a character does -/

/-- The character changes cells of the screen only; one that is stored finds the cursor on the
    screen and is typed there. -/
structure StoresVisibly (s : Screen) (ch : OutputChar) : Prop where
  cells : ∀ a, a < video ∨ video + 4000 ≤ a → (ch.draw s).mem a = s.mem a
  cursor : ¬ IsBreak ch.char → s.logical.OnScreen
  typed : ¬ IsBreak ch.char → s.logical.Types ch.char (ch.draw s).logical

/-- The kernel ends no line in the last row, and prints no character in the last column. -/
def PrintsInside (s : Screen) : OutputChar → Prop
  | .kernel c =>
    (IsBreak c → s.screenY ≠ numRows - 1) ∧ (¬ IsBreak c → s.screenX ≠ numCols - 1)
  | .program .. => True

instance (s : Screen) : ∀ ch, Decidable (PrintsInside s ch)
  | .kernel _ => inferInstanceAs (Decidable (_ ∧ _))
  | .program .. => isTrue trivial

/-- A character of a plain write. -/
def OutputChar.Plain : OutputChar → Prop
  | .kernel _ => True
  | .program c1 c => c1 ≠ tab ∧ c ≠ tab ∧ c ≠ backspace

/-- `putc` of a character before the last column. -/
theorem putc_eq {s : Screen} (h : s.logical.OnScreen) {c : UInt8} (hbreak : ¬ IsBreak c)
    (hcolumn : s.screenX ≠ numCols - 1) :
    putc s c = ⟨putCell s.mem video s.screenX s.screenY c, s.screenX + 1, s.screenY⟩ := by
  have hx0 : 0 ≤ s.screenX := h.x_nonneg
  have hx1 : s.screenX + 1 < numCols := by
    have hlt : s.screenX < numCols := h.x_lt
    omega
  -- the column does not wrap, so `putc` reduces nothing and the row stays
  have hmod : (s.screenX + 1).tmod numCols = s.screenX + 1 :=
    Int.tmod_eq_of_lt (Int.le_add_one hx0) hx1
  have hdiv : (s.screenX + 1).tdiv numCols = 0 :=
    Int.tdiv_eq_zero_of_lt (Int.le_add_one hx0) hx1
  have hrow : s.screenY.tmod numRows = s.screenY := Int.tmod_eq_of_lt h.y_nonneg h.y_lt
  simp only [putc, hmod, hdiv, Int.add_zero, hrow]
  exact if_neg hbreak

/-- **The kernel's characters** before the last column and its line ends before the last row. -/
theorem putc_inside {s : Screen} (h : s.logical.OnScreen) {c : UInt8}
    (hinside : PrintsInside s (.kernel c)) :
    StoresVisibly s (.kernel c) ∧ (putc s c).logical.OnScreen := by
  obtain ⟨hrow, hcolumn⟩ := hinside
  -- a newline stores nothing and must have a row below to move to
  by_cases hbreak : IsBreak c
  · have hputc : putc s c = { s with screenX := 0, screenY := s.screenY + 1 } := if_pos hbreak
    refine ⟨⟨fun a _ => ?_, fun hno => absurd hbreak hno, fun hno => absurd hbreak hno⟩, ?_⟩
    · rw [OutputChar.draw, hputc]
    · have hbelow : s.screenY + 1 < numRows := by
        have hlt : s.screenY < numRows := h.y_lt
        have hnext := hrow hbreak
        omega
      rw [hputc]
      exact ⟨Int.le_refl 0, show (0 : Int) < numCols by decide, Int.le_add_one h.y_nonneg, hbelow⟩
  · -- a letter before the last column moves the cursor by one and stays in its row
    have hputc := putc_eq h hbreak (hcolumn hbreak)
    have hx0 : 0 ≤ s.screenX := h.x_nonneg
    have hx1 : s.screenX < numCols := h.x_lt
    have hy1 : s.screenY < numRows := h.y_lt
    have hnext := hcolumn hbreak
    have hedit : PageEdit.Inside (.put s.screenX s.screenY c) := ⟨hx0, hx1, h.y_nonneg, hy1⟩
    refine ⟨⟨fun a ha => ?_, fun _ => h, fun _ => ⟨fun _ => ⟨?_, ?_⟩, fun hlast => ?_⟩⟩, ?_⟩
    · rw [OutputChar.draw, hputc]
      exact hedit.frame s.mem ha
    · rw [OutputChar.draw, hputc]
      exact (Int.add_assoc ..).symm
    · rw [OutputChar.draw, hputc, char_logical, charsAt_putCell, ← char_logical]
      rfl
    · -- the last cell is in the last column
      have hlast : numCols * s.screenY + s.screenX = 1999 := hlast
      simp only [numCols, numRows] at *
      omega
    · have hend : s.screenX + 1 < numCols := by omega
      rw [hputc]
      exact ⟨Int.le_add_one hx0, hend, h.y_nonneg, hy1⟩

/-- **A program's characters**, with the cursor on the screen. -/
theorem specialPutc_inside {s : Screen} (h : s.logical.OnScreen) {c1 c : UInt8}
    (hplain : (OutputChar.program c1 c).Plain) :
    StoresVisibly s (.program c1 c) ∧ (specialPutc s c1 c).logical.OnScreen := by
  obtain ⟨hc1, htab, hback⟩ := hplain
  -- the tab is the only letter that can move the cursor off the screen
  have hrange := (LogicalScreen.draw_onScreen_iff h (fun heq => absurd heq hc1) c).mpr
    fun hbad => htab hbad.1
  have hprintable : ¬ IsBreak c → Printable c := fun hbreak =>
    ⟨fun hc => hbreak (.inl hc), fun hc => hbreak (.inr hc), hback, htab⟩
  refine ⟨⟨fun a ha => ?_, fun _ => h, fun hbreak => ?_⟩, ?_⟩
  · rw [OutputChar.draw, specialPutc_eq]
    exact (drawing_inside h.x_nonneg h.x_lt h.y_nonneg h.y_lt c1 c).frame s.mem ha
  · rw [OutputChar.draw, logical_specialPutc]
    exact LogicalScreen.draw_types h c1 (hprintable hbreak)
  · rw [logical_specialPutc]
    exact hrange

/-! ## Runs -/

/-- The characters of a plain output. -/
theorem Output.Plain.chars {o : Output} (h : o.Plain) : ∀ ch ∈ o.chars, ch.Plain := by
  intro ch hch
  cases o with
  | printf text =>
    obtain ⟨c, -, rfl⟩ := List.mem_map.mp hch
    trivial
  | write buf nbytes =>
    obtain ⟨i, hi, rfl⟩ := List.mem_map.mp hch
    have hin := List.mem_range.mp hi
    refine ⟨?_, h i hin⟩
    cases i with
    | zero => exact show (0 : UInt8) ≠ tab by decide
    | succ i => exact (h i (Nat.lt_of_succ_lt hin)).1

/-- **Kernel and program output**: from a cleared screen, any sequence of kernel messages and of
    writes without tab and backspace stores every character on the screen and types it there, if
    the kernel ends no line in the last row and prints no character in the last column. -/
theorem kernel_output_visible {tty : Tty} {s : Screen} (hclear : tty.screen = clearScreen s)
    {os : List Output} (hplain : ∀ o ∈ os, o.Plain)
    (hinside : EachStep drawStep PrintsInside tty.screen (os.flatMap Output.chars)) :
    exec drawStep tty.screen (os.flatMap Output.chars) =
        some (os.foldl Tty.output tty).screen ∧
      EachStep drawStep StoresVisibly tty.screen (os.flatMap Output.chars) := by
  have hchars : ∀ ch ∈ os.flatMap Output.chars, ch.Plain := by
    intro ch hch
    obtain ⟨o, ho, hmem⟩ := List.mem_flatMap.mp hch
    exact (hplain o ho).chars ch hmem
  have hstart : tty.screen.logical.OnScreen := by
    rw [hclear]
    exact ⟨Int.le_refl 0, show (0 : Int) < numCols by decide, Int.le_refl 0,
      show (0 : Int) < numRows by decide⟩
  -- one character keeps the cursor on the screen and is stored there
  have hone : ∀ s ch, s.logical.OnScreen → ch.Plain ∧ PrintsInside s ch →
      StoresVisibly s ch ∧ (ch.draw s).logical.OnScreen := by
    intro s ch hon hcond
    cases ch with
    | kernel c => exact putc_inside hon hcond.2
    | program c1 c => exact specialPutc_inside hon hcond.1
  refine ⟨exec_outputs tty os, eachStep_of_invariant (I := fun s => s.logical.OnScreen) ?_ ?_
    hstart ((eachStep_of_forall hchars).and hinside)⟩
  · intro s ch s' hon hcond hstep
    obtain rfl := Option.some.inj hstep
    exact (hone s ch hon hcond).2
  · intro s ch s' hon hcond _
    exact (hone s ch hon hcond).1

/-- A message with its newline, and a program's letter behind it. -/
theorem kernel_output_visible_message :
    exec drawStep (initTerminal zeroTty).screen
        ([.printf [72, 105, newline], .write (fun _ => 65) 1].flatMap Output.chars) =
        some ([Output.printf [72, 105, newline], .write (fun _ => 65) 1].foldl Tty.output
          (initTerminal zeroTty)).screen ∧
      EachStep drawStep StoresVisibly (initTerminal zeroTty).screen
        ([.printf [72, 105, newline], .write (fun _ => 65) 1].flatMap Output.chars) :=
  kernel_output_visible (show (initTerminal zeroTty).screen = clearScreen _ from rfl)
    (by decide +kernel) (by decide +kernel)

/-- One character of a run, if all are stored visibly. -/
private theorem storesVisibly_after {s : Screen} (chars rest : List OutputChar) (ch : OutputChar)
    (h : EachStep drawStep StoresVisibly s (chars ++ ch :: rest)) :
    StoresVisibly (chars.foldl OutputChar.draw s) ch :=
  h.after (exec_drawStep s chars) rfl

/-- The 80th character of a line takes the cursor back to the start of the line, and the 81st one,
    a `B`, is stored over the first; and the 25th newline takes the cursor below the screen, where
    the next character is stored. -/
theorem kernel_output_leaves_screen :
    (¬ EachStep drawStep StoresVisibly (initTerminal zeroTty).screen
        ([.printf (List.replicate 80 65 ++ [66])].flatMap Output.chars) ∧
      (printf (initTerminal zeroTty).screen (List.replicate 80 65)).mem video = 65 ∧
      (printf (initTerminal zeroTty).screen (List.replicate 80 65 ++ [66])).mem video = 66) ∧
      ¬ EachStep drawStep StoresVisibly (initTerminal zeroTty).screen
        ([.printf (List.replicate 25 newline ++ [65])].flatMap Output.chars) := by
  refine ⟨⟨fun h => ?_, by decide +kernel, by decide +kernel⟩, fun h => ?_⟩
  · -- 81 letters: the last one overwrites the first cell of its own line
    have hchar := storesVisibly_after (List.replicate 79 (.kernel 65)) [.kernel 66] (.kernel 65) h
    have hnext := ((hchar.typed (by decide)).within (by decide +kernel)).1
    revert hnext
    decide +kernel
  · -- 25 newlines take the cursor below the last row
    have hchar := storesVisibly_after (List.replicate 25 (.kernel newline)) [] (.kernel 65) h
    have hrow := (hchar.cursor (by decide)).y_lt
    revert hrow
    decide +kernel

end LinuxLikeOs
