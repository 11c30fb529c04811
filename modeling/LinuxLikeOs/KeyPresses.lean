import Mathlib.Tactic.SplitIfs
import LinuxLikeOs.Terminal

/-!
# What a key press does

`keyboard_handler` tests one scan code again and again, here and in `output_keyvalue`. In the end
a key press does one of six things, besides setting the flags.

- `keyPress`: what a scan code does
- `Tty.press`: its effect on the terminals
- `keyboardHandler_eq`: the handler sets the flags and has this effect
-/

namespace LinuxLikeOs

/-! ## The effects -/

/-- Store a character in the line, or count it if the line is full, and echo it. -/
def typeChar (tty : Tty) (letter : UInt8) : Tty :=
  let kb := tty.keyboard
  { tty with
    keyboard :=
      if kb.bufferPosition < bufferSize then
        { kb with
          keyboardBuffer := Function.update kb.keyboardBuffer kb.bufferPosition letter
          bufferPosition := kb.bufferPosition + 1 }
      else { kb with overflowBits := kb.overflowBits + 1 }
    screen := specialPutc tty.screen 0 letter }

/-- Erase the last character of the line; if the line is empty, one that was only counted. -/
def eraseChar (tty : Tty) : Tty :=
  let kb := tty.keyboard
  if kb.bufferPosition ≠ 0 then
    { tty with
      keyboard :=
        { kb with
          keyboardBuffer := Function.update kb.keyboardBuffer kb.bufferPosition 0
          bufferPosition := kb.bufferPosition - 1 }
      screen :=
        specialPutc tty.screen (kb.keyboardBuffer (kb.bufferPosition - 1)) backspace }
  else if kb.overflowBits ≠ 0 then
    { tty with
      keyboard := { kb with overflowBits := kb.overflowBits - 1 }
      screen := specialPutc tty.screen 0 backspace }
  else tty

/-- What a key press does besides setting the flags. -/
inductive KeyPress where
  | switch (t : Nat)
  | enter
  | erase
  | clear
  | letter (c : UInt8)
  | none
  deriving DecidableEq

/-- Its effect on the terminals. -/
def Tty.press (tty : Tty) : KeyPress → Tty
  | .switch t => (terminalSwitch tty t).2
  -- Enter is typed like any other character, into the cleared line
  | .enter => typeChar (saveLine tty) newline
  | .erase => eraseChar tty
  | .clear => { tty with screen := clearScreen tty.screen }
  | .letter c => typeChar tty c
  | .none => tty

/-- What a key does that does not switch the display. -/
def charPress (kb : Keyboard) (code : Nat) : KeyPress :=
  if ¬ code < keySize then .none
  else if keyChar 0 code = newline then .enter
  else if keyChar 0 code = backspace then .erase
  else if keyChar 0 code = letterL ∧ kb.ctrlFlag = true then .clear
  else if keyChar kb.row code = 0 then .none
  else .letter (keyChar kb.row code)

/-- What scan code `code` does, from the flags as they are when it arrives. -/
def keyPress (kb : Keyboard) (code : Nat) : KeyPress :=
  let kb := releaseFlags kb code
  match switchKey kb code with
  | some t => .switch t
  | none => charPress kb code

/-- Only the function keys switch the display. -/
theorem code_of_switchKey {kb : Keyboard} {code t : Nat} (h : switchKey kb code = some t) :
    code = f1 ∨ code = f2 ∨ code = f3 := by
  unfold switchKey at h
  split_ifs at h with h1 h2 h3
  · exact .inl h1.2
  · exact .inr (.inl h2.2)
  · exact .inr (.inr h3.2)

/-- The other keys do what they do without a switch. -/
theorem keyPress_of_ne {code : Nat} (h : code ≠ f1 ∧ code ≠ f2 ∧ code ≠ f3) (kb : Keyboard) :
    keyPress kb code = charPress (releaseFlags kb code) code := by
  have hswitch : switchKey (releaseFlags kb code) code = none := by
    simp only [switchKey, h, and_false, if_false]
  simp only [keyPress, hswitch]

/-- The make codes of the flag keys. -/
def setFlags (kb : Keyboard) (code : Nat) : Keyboard :=
  if code = capsOn then { kb with capsFlag := !kb.capsFlag }
  else if code = lshiftOn ∨ code = rshiftOn then { kb with shiftFlag := true }
  else if code = ctrlOn then { kb with ctrlFlag := true }
  else if code = altOn then { kb with altFlag := true }
  else kb

/-- The keyboard with the flags as scan code `code` leaves them. -/
def flagsAfter (kb : Keyboard) (code : Nat) : Keyboard := setFlags (releaseFlags kb code) code

/-- Only the flags change. -/
theorem flagsAfter_eq (kb : Keyboard) (code : Nat) :
    ∃ caps shift ctrl alt, flagsAfter kb code =
      { kb with capsFlag := caps, shiftFlag := shift, ctrlFlag := ctrl, altFlag := alt } := by
  unfold flagsAfter setFlags releaseFlags
  dsimp only
  split_ifs <;> exact ⟨_, _, _, _, rfl⟩

/-! ## The keys -/

/-- The keys that set a flag. -/
def IsFlagKey (code : Nat) : Prop :=
  code = capsOn ∨ code = lshiftOn ∨ code = rshiftOn ∨ code = ctrlOn ∨ code = altOn

instance (code : Nat) : Decidable (IsFlagKey code) := inferInstanceAs (Decidable (_ ∨ _))

/-- The flag keys have no character in any row. -/
theorem keyChar_flagKey {code : Nat} (h : IsFlagKey code) (row : Nat) : keyChar row code = 0 := by
  rcases row with _ | _ | _ | _ <;> rcases h with rfl | rfl | rfl | rfl | rfl <;> rfl

/-- A key without a character in the first row has none in any row. -/
theorem keyChar_of_not_lt {code : Nat} (h : ¬ code < keySize) (row : Nat) :
    keyChar row code = 0 := by
  have hlen : (keyboardReference row).length ≤ code := by
    rcases row with _ | _ | _ | _ <;> exact Nat.le_of_not_lt h
  simp [keyChar, List.getD_eq_getElem?_getD, List.getElem?_eq_none hlen]

/-- The control characters that are typed stand at the same key in every row: Backspace, Enter
    and no character. -/
theorem keyChar_row_iff {c : UInt8} (hc : c = backspace ∨ c = newline ∨ c = carriageReturn)
    (row code : Nat) : keyChar row code = c ↔ keyChar 0 code = c := by
  have hzero : c ≠ 0 := by rcases hc with rfl | rfl | rfl <;> decide
  by_cases hlt : code < keySize
  · have hrows : ∀ c ∈ [backspace, newline, carriageReturn], ∀ r < 4, ∀ k < keySize,
        (keyChar r k = c ↔ keyChar 0 k = c) := by decide +kernel
    have hmem : c ∈ [backspace, newline, carriageReturn] := by
      rw [List.mem_cons, List.mem_cons, List.mem_singleton]
      exact hc
    rcases row with _ | _ | _ | row
    · exact hrows c hmem 0 (by decide) code hlt
    · exact hrows c hmem 1 (by decide) code hlt
    · exact hrows c hmem 2 (by decide) code hlt
    · exact hrows c hmem 3 (by decide) code hlt
  · rw [keyChar_of_not_lt hlt, keyChar_of_not_lt hlt]

/-- A character that a key types is no control character but the tab. -/
theorem keyPress_letter {kb : Keyboard} {code : Nat} {c : UInt8}
    (h : keyPress kb code = .letter c) :
    c ≠ newline ∧ c ≠ backspace ∧ c ≠ carriageReturn := by
  unfold keyPress at h
  dsimp only at h
  cases hswitch : switchKey (releaseFlags kb code) code with
  | some t =>
    rw [hswitch] at h
    cases h
  | none =>
    rw [hswitch] at h
    simp only [charPress] at h
    split_ifs at h with hlt henter herase hclear hzero
    obtain rfl := KeyPress.letter.inj h
    refine ⟨mt (keyChar_row_iff (.inr (.inl rfl)) _ _).mp henter,
      mt (keyChar_row_iff (.inl rfl) _ _).mp herase, fun hret => ?_⟩
    -- no key has the carriage return
    have hfirst := (keyChar_row_iff (.inr (.inr rfl)) _ _).mp hret
    have hnone : ∀ k < keySize, keyChar 0 k ≠ carriageReturn := by decide +kernel
    exact hnone code hlt hfirst

/-! ## The handler -/

/-- `output_keyvalue` for a key other than the flag keys. -/
private theorem outputKeyvalue_key (tty : Tty) {code : Nat} (hlt : code < keySize)
    (hflag : ¬ IsFlagKey code) :
    outputKeyvalue tty code =
      if keyChar 0 code = backspace then eraseChar tty
      else if keyChar 0 code = letterL ∧ tty.keyboard.ctrlFlag = true then
        { tty with screen := clearScreen tty.screen }
      else if keyChar tty.keyboard.row code = 0 then tty
      else typeChar tty (keyChar tty.keyboard.row code) := by
  simp only [IsFlagKey, not_or] at hflag
  -- a key of the table that sets no flag is none of the modifier codes
  have hoff : ¬ (code = capsOn ∨ code = capsOff) ∧ ¬ (code = lshiftOff ∨ code = rshiftOff) ∧
      ¬ (code = altOff ∨ code = altOn) := by
    simp only [keySize, capsOn, capsOff, lshiftOff, rshiftOff, altOff, altOn] at *
    omega
  unfold outputKeyvalue
  simp only [if_neg hoff.1, if_neg hoff.2.1, if_neg hoff.2.2]
  -- Backspace, Ctrl+L, a key without a letter in this row, and a letter
  by_cases herase : keyChar 0 code = backspace
  · rw [if_pos herase, if_pos herase]
    rfl
  by_cases hclear : keyChar 0 code = letterL ∧ tty.keyboard.ctrlFlag = true
  · rw [if_neg herase, if_neg herase, if_pos hclear, if_pos hclear]
  rw [if_neg herase, if_neg herase, if_neg hclear, if_neg hclear]
  by_cases hzero : keyChar tty.keyboard.row code = 0
  · rw [if_neg (not_not.mpr hzero), if_pos hzero]
  · rw [if_pos hzero, if_neg hzero]
    rfl

/-- The flag keys type nothing. -/
private theorem outputKeyvalue_flagKey (tty : Tty) {code : Nat} (h : IsFlagKey code) :
    outputKeyvalue tty code = tty := by
  have hzero := keyChar_flagKey h
  have hback : ¬ (0 : UInt8) = backspace := by decide
  have hl : ¬ (0 : UInt8) = letterL := by decide
  unfold outputKeyvalue
  simp only [hzero, if_neg hback, hl, false_and, if_false]
  rcases h with rfl | rfl | rfl | rfl | rfl <;> rfl

/-- The body of the handler. -/
private theorem handleKey_eq (tty : Tty) (code : Nat) :
    handleKey tty code =
      { tty with keyboard := setFlags tty.keyboard code }.press (charPress tty.keyboard code) := by
  unfold handleKey charPress setFlags
  by_cases hlt : code < keySize
  · by_cases hflag : IsFlagKey code
    · -- a flag key has no character, so it is not Enter and types nothing
      have hzero := keyChar_flagKey hflag
      have hnewline : ¬ (0 : UInt8) = newline := by decide
      have hback : ¬ (0 : UInt8) = backspace := by decide
      have hl : ¬ (0 : UInt8) = letterL := by decide
      simp only [hlt, if_true, not_true, if_false, outputKeyvalue_flagKey _ hflag, hzero, hnewline,
        hback, hl, false_and]
      rcases hflag with rfl | rfl | rfl | rfl | rfl <;> rfl
    · have hkeys := hflag
      simp only [IsFlagKey, not_or] at hkeys
      obtain ⟨hcaps, hlshift, hrshift, hctrl, halt⟩ := hkeys
      simp only [hlt, if_true, not_true, if_false, hcaps, hlshift, hrshift, hctrl, halt, or_self]
      by_cases henter : keyChar 0 code = newline
      · -- Enter has the newline in every row, and `output_keyvalue` types it
        have hrow := fun row => (keyChar_row_iff (.inr (.inl rfl)) row code).mpr henter
        have hback : ¬ newline = backspace := by decide
        have hl : ¬ newline = letterL := by decide
        have hzero : ¬ newline = 0 := by decide
        rw [outputKeyvalue_key _ hlt hflag]
        simp only [hrow, hback, hl, hzero, false_and, if_true, if_false]
        rfl
      · simp only [if_neg henter]
        rw [outputKeyvalue_key _ hlt hflag]
        split_ifs <;> rfl
  · -- a break code or a key without a table entry
    have hflag : ¬ (code = capsOn ∨ code = lshiftOn ∨ code = rshiftOn ∨ code = ctrlOn ∨
        code = altOn) := by
      simp only [keySize, capsOn, lshiftOn, rshiftOn, ctrlOn, altOn] at *
      omega
    simp only [not_or] at hflag
    obtain ⟨hcaps, hlshift, hrshift, hctrl, halt⟩ := hflag
    simp only [hlt, not_false_eq_true, if_true, if_false, hcaps, hlshift, hrshift, hctrl, halt,
      or_self]
    rfl

/-- **The handler** sets the flags and does what the key does. -/
theorem keyboardHandler_eq (tty : Tty) (code : UInt8) :
    keyboardHandler tty code =
      { tty with keyboard := flagsAfter tty.keyboard code.toNat }.press
        (keyPress tty.keyboard code.toNat) := by
  unfold keyboardHandler keyPress flagsAfter
  cases hswitch : switchKey (releaseFlags tty.keyboard code.toNat) code.toNat with
  | none =>
    simp only [hswitch]
    exact handleKey_eq { tty with keyboard := releaseFlags tty.keyboard code.toNat } _
  | some t =>
    -- the function keys set no flag
    have hkeys : setFlags (releaseFlags tty.keyboard code.toNat) code.toNat =
        releaseFlags tty.keyboard code.toNat := by
      rcases code_of_switchKey hswitch with h | h | h <;> rw [h] <;> rfl
    simp only [hswitch, hkeys]
    rfl

end LinuxLikeOs
