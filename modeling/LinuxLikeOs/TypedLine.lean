import LinuxLikeOs.LineOwnership

/-!
# The typed line and the shown line

A line takes 127 characters; what is typed beyond them is echoed and only counted.  Backspace
takes a character off the line before it takes one off the count.

- `typingStep`: the terminals with the text that is still shown
- `LineShown`: the line is the text that is shown, cut to 127 characters
- `typed_line_iff`: when that holds all along a run of key presses
-/

namespace LinuxLikeOs

open Library

/-! ## Typing -/

/-- A key press, with the text still shown: a character is added to it, and Backspace removes the
    last one.  Enter, the switches and Ctrl+L are left out. -/
def typingStep (s : Tty × List UInt8) (code : UInt8) : Option (Tty × List UInt8) :=
  match keyPress s.1.keyboard code.toNat with
  | .letter c => some (keyboardHandler s.1 code, s.2 ++ [c])
  | .erase => some (keyboardHandler s.1 code, s.2.dropLast)
  | .none => some (keyboardHandler s.1 code, s.2)
  | .switch _ | .enter | .clear => none

/-- The scan code of Enter. -/
def enterCode : UInt8 := 0x1c

/-- Enter ends `line`: a `terminal_read` with room for a full line then returns it with its
    newline. -/
def Tty.EnterDelivers (tty : Tty) (line : List UInt8) : Prop :=
  ∀ (buf : Buffer) (nbytes : Int), 128 ≤ nbytes → ∃ out tty',
    terminalRead (keyboardHandler tty enterCode) tty.curDisplayTid (some buf) nbytes =
        some (((line.length + 1 : Nat) : Int), some out, tty') ∧
      (List.range (line.length + 1)).map out = line ++ [newline]

/-- The line is the shown text, cut to 127 characters. -/
structure LineShown (s : Tty × List UInt8) : Prop where
  pending : s.1.lineState.pending s.1.curDisplayTid = s.2.take bufferSize
  delivers : s.1.EnterDelivers (s.2.take bufferSize)

/-- Backspace is pressed while at most 127 characters are shown. -/
def ErasesWithin (s : Tty × List UInt8) (code : UInt8) : Prop :=
  keyPress s.1.keyboard code.toNat = .erase → s.2.length ≤ bufferSize

instance (s : Tty × List UInt8) (code : UInt8) : Decidable (ErasesWithin s code) :=
  inferInstanceAs (Decidable (_ → _))

/-! ## Ending the line -/

theorem keyPress_enterCode (kb : Keyboard) : keyPress kb enterCode.toNat = .enter :=
  keyPress_of_ne (by decide) kb

/-- Enter hands the text of the displayed terminal to the reader. -/
theorem enterDelivers {tty : Tty} {line : List UInt8}
    (hpending : tty.lineState.pending tty.curDisplayTid = line) (hchars : newline ∉ line)
    (hlength : line.length ≤ bufferSize) : tty.EnterDelivers line := by
  intro buf nbytes hn
  -- what the display's terminal has pending is what the live buffer holds
  have hlive : tty.lineState.live.contents = line :=
    tty.lineState.pending_display.symm.trans hpending
  have hfill : tty.lineState.live.fill ≤ bufferSize + 1 := by
    rw [← FillBuffer.length_contents, hlive]
    exact Nat.le_succ_of_le hlength
  -- Enter copies the live buffer to the saved line and raises the flag of the terminal
  have hstate : (keyboardHandler tty enterCode).lineState = tty.lineState.apply .enter := by
    rw [keyboardHandler_lineState, keyAction_eq, keyPress_enterCode]
    rfl
  have hflag : ((keyboardHandler tty enterCode).terminals tty.curDisplayTid).enterFlag = 1 :=
    (congrFun (congrArg LineState.enterFlag hstate) _).trans (Function.update_self ..)
  have hsaved : (keyboardHandler tty enterCode).lineState.saved.contents = line := by
    rw [hstate]
    exact (FillBuffer.contents_copy hfill).trans hlive
  -- the saved line holds no newline before its end, so the read stops there
  obtain ⟨hcount, hcells⟩ := readLoop_line (.inl hsaved) hchars hlength hn buf
  simp only [terminalRead, if_pos hflag]
  exact ⟨_, _, by rw [← hcount]; rfl, hcells⟩

/-! ## One key press -/

variable {s s' : Tty × List UInt8} {code : UInt8}

/-- The key press acts on the line input and on the shown text. -/
theorem typingStep_spec (hstep : typingStep s code = some s') :
    s'.1.lineState = s.1.lineState.apply (keyPress s.1.keyboard code.toNat).lineAction ∧
      match keyPress s.1.keyboard code.toNat with
      | .letter c => c ≠ newline ∧ s'.2 = s.2 ++ [c]
      | .erase => s'.2 = s.2.dropLast
      | _ => s'.2 = s.2 := by
  have hhandler := keyboardHandler_lineState s.1 code
  rw [keyAction_eq] at hhandler
  unfold typingStep at hstep
  -- the key's press decides both what the kernel stores and what is shown
  cases hpress : keyPress s.1.keyboard code.toNat with
  | letter c =>
    rw [hpress] at hstep hhandler
    obtain rfl := Option.some.inj hstep
    exact ⟨hhandler, (keyPress_letter hpress).1, rfl⟩
  | erase | none =>
    rw [hpress] at hstep hhandler
    obtain rfl := Option.some.inj hstep
    exact ⟨hhandler, rfl⟩
  | switch | enter | clear =>
    rw [hpress] at hstep
    cases hstep

/-- The shown text has no newline. -/
theorem notMem_typingStep (hstep : typingStep s code = some s') (h : newline ∉ s.2) :
    newline ∉ s'.2 := by
  obtain ⟨-, hshown⟩ := typingStep_spec hstep
  cases hpress : keyPress s.1.keyboard code.toNat with
  | letter c =>
    -- a letter key never gives the newline
    rw [hpress] at hshown
    rw [hshown.2]
    simp [h, hshown.1.symm]
  | erase =>
    rw [hpress] at hshown
    rw [hshown]
    exact fun hmem => h (List.dropLast_subset _ hmem)
  | switch | enter | clear | none =>
    rw [hpress] at hshown
    rwa [hshown]

/-- A full line takes no more characters. -/
theorem typeLetter_take (shown : List UInt8) (c : UInt8) :
    typeLetter (shown.take bufferSize) c = (shown ++ [c]).take bufferSize := by
  unfold typeLetter
  rw [List.length_take]
  by_cases hroom : shown.length < bufferSize
  · rw [if_pos (Nat.lt_of_le_of_lt (Nat.min_le_right ..) hroom),
      List.take_of_length_le (Nat.le_of_lt hroom), List.take_of_length_le]
    rw [List.length_append]
    exact hroom
  · have hle : bufferSize ≤ shown.length := Nat.le_of_not_lt hroom
    rw [if_neg (Nat.not_lt.mpr (Nat.le_min.mpr ⟨Nat.le_refl _, hle⟩)),
      List.take_append_of_le_length hle]

/-- Taking a character off the line takes it off the shown text only if the line has it all. -/
theorem dropLast_take_iff (shown : List UInt8) :
    (shown.take bufferSize).dropLast = shown.dropLast.take bufferSize ↔
      shown.length ≤ bufferSize := by
  constructor
  · intro heq
    have hlength := congrArg List.length heq
    simp only [List.length_dropLast, List.length_take, bufferSize] at hlength ⊢
    omega
  · intro hle
    rw [List.take_of_length_le hle, List.take_of_length_le]
    rw [List.length_dropLast]
    omega

/-- **One key press** keeps the line and the shown text together, unless Backspace is pressed
    while more than 127 characters are shown. -/
theorem pending_typingStep (hstep : typingStep s code = some s')
    (h : s.1.lineState.pending s.1.curDisplayTid = s.2.take bufferSize) :
    s'.1.lineState.pending s'.1.curDisplayTid = s'.2.take bufferSize ↔ ErasesWithin s code := by
  obtain ⟨hstate, hshown⟩ := typingStep_spec hstep
  have hdisplay : s'.1.curDisplayTid = s'.1.lineState.display := rfl
  rw [hdisplay, hstate]
  unfold ErasesWithin
  cases hpress : keyPress s.1.keyboard code.toNat with
  | letter c =>
    rw [hpress] at hshown
    -- a letter joins both lines, or neither when the line is full
    refine iff_of_true ?_ fun herase => by cases herase
    have hsame : (s.1.lineState.apply (.letter c)).display = s.1.lineState.display := by
      simp only [LineState.apply]
      split_ifs <;> rfl
    rw [KeyPress.lineAction, hsame, LineState.pending_letter, if_pos rfl, hshown.2]
    exact (congrArg (typeLetter · c) h).trans (typeLetter_take ..)
  | erase =>
    rw [hpress] at hshown
    have hsame : (s.1.lineState.apply .erase).display = s.1.lineState.display := by
      simp only [LineState.apply]
      split_ifs <;> rfl
    -- Backspace takes a letter from the buffer and one from the screen: the same one as long as
    -- the line is no longer than the buffer
    rw [KeyPress.lineAction, hsame, LineState.pending_erase, if_pos rfl, hshown,
      imp_iff_right rfl, ← dropLast_take_iff, ← h]
    rfl
  | none =>
    rw [hpress] at hshown
    refine iff_of_true ?_ fun herase => by cases herase
    rw [hshown]
    exact h
  | switch | enter | clear =>
    simp only [typingStep, hpress] at hstep
    cases hstep

/-! ## Runs -/

/-- **Typed line and shown line**: from an empty line on, the line is the shown text, cut to 127
    characters, all along a run of key presses exactly if Backspace is never pressed while more
    than 127 characters are shown. -/
theorem typed_line_iff {tty : Tty} (hempty : tty.keyboard.bufferPosition = 0)
    (codes : List UInt8) :
    Always typingStep LineShown (tty, []) codes ↔
      EachStep typingStep ErasesWithin (tty, []) codes := by
  -- without a newline in the text, what Enter delivers follows from the line
  have hdelivers : ∀ {s : Tty × List UInt8}, newline ∉ s.2 →
      (LineShown s ↔ s.1.lineState.pending s.1.curDisplayTid = s.2.take bufferSize) := by
    intro s hchars
    refine ⟨LineShown.pending, fun hpending => ⟨hpending, enterDelivers hpending ?_ ?_⟩⟩
    · exact fun hmem => hchars (List.take_subset _ _ hmem)
    · exact List.length_take_le ..
  have hstart : tty.lineState.pending tty.curDisplayTid = [] := by
    refine tty.lineState.pending_display.trans (List.eq_nil_of_length_eq_zero ?_)
    rw [FillBuffer.length_contents]
    exact hempty
  refine always_iff_eachStep (J := fun s => newline ∉ s.2)
    (fun _ _ _ hchars hstep => notMem_typingStep hstep hchars) ?_ List.not_mem_nil
    ((hdelivers List.not_mem_nil).mpr hstart)
  intro s code s' hchars hshown hstep
  rw [hdelivers (notMem_typingStep hstep hchars)]
  exact pending_typingStep hstep hshown.pending

/-- A letter and Backspace. -/
theorem typed_line_iff_letter :
    Always typingStep LineShown (initTerminal zeroTty, []) [0x1e, 0x0e] ↔
      EachStep typingStep ErasesWithin (initTerminal zeroTty, []) [0x1e, 0x0e] :=
  typed_line_iff rfl _

/-- 128 letters and Backspace: 127 letters are shown, and the line has 126. -/
theorem erase_beyond_line_loses_letter :
    ¬ Always typingStep LineShown (initTerminal zeroTty, [])
      (List.replicate 128 0x1e ++ [0x0e]) := by
  intro halways
  -- 128 letters, of which the buffer holds 127, then one Backspace
  have hrun : (exec typingStep (initTerminal zeroTty, [])
      (List.replicate 128 0x1e ++ [0x0e])).map
        (fun s => (s.1.keyboard.bufferPosition, s.2.length)) = some (126, 127) := by
    decide +kernel
  obtain ⟨s, hs, hvalues⟩ := Option.map_eq_some_iff.mp hrun
  obtain ⟨hposition, hlength⟩ := Prod.mk.inj hvalues
  have hlive : s.1.lineState.live.contents = s.2.take bufferSize :=
    -- `LineShown` would have all 127 letters shown pending
    s.1.lineState.pending_display.symm.trans (halways.of_exec hs).pending
  have hpending := congrArg List.length hlive
  rw [FillBuffer.length_contents, List.length_take, hlength] at hpending
  exact absurd (hposition.symm.trans hpending) (by decide)

end LinuxLikeOs
