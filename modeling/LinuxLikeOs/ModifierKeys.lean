import LinuxLikeOs.KeyPresses
import LinuxLikeOs.Library.Trace

/-!
# Modifier keys

`keyboard_handler` keeps one flag for both Shift keys, and a table with a row for each state of
Caps Lock and Shift.

- `Typing`: the terminals beside the keys that are held
- `Typing.Law`: the flags say what is held, and a key types the character that they select
- `modifier_keys_of_run`: the runs in which the law holds at every event
-/

namespace LinuxLikeOs

open Library

/-! ## The flags -/

/-- `caps_flag`, `shift_flag`, `ctrl_flag` and `alt_flag`. -/
@[ext]
structure ModifierFlags where
  caps : Bool
  shift : Bool
  ctrl : Bool
  alt : Bool
  deriving DecidableEq

def Keyboard.flags (kb : Keyboard) : ModifierFlags :=
  ⟨kb.capsFlag, kb.shiftFlag, kb.ctrlFlag, kb.altFlag⟩

/-- A scan code changes the flag of its key. -/
theorem flags_flagsAfter (kb : Keyboard) (code : Nat) :
    (flagsAfter kb code).flags =
      { caps := if code = capsOn then !kb.capsFlag else kb.capsFlag
        shift :=
          if code = lshiftOff ∨ code = rshiftOff then false
          else if code = lshiftOn ∨ code = rshiftOn then true
          else kb.shiftFlag
        ctrl :=
          if code = ctrlOff then false else if code = ctrlOn then true else kb.ctrlFlag
        alt := if code = altOff then false else if code = altOn then true else kb.altFlag } := by
  -- the five keys that set a flag when pressed; for the others only a release can matter
  by_cases hflag : IsFlagKey code
  · rcases hflag with rfl | rfl | rfl | rfl | rfl <;> rfl
  · simp only [IsFlagKey, not_or] at hflag
    simp only [flagsAfter, setFlags, hflag, or_self, if_false]
    rfl

/-- What a key does besides leaves the flags alone. -/
theorem flags_press (tty : Tty) (p : KeyPress) :
    (tty.press p).keyboard.flags = tty.keyboard.flags := by
  -- what a key does after the flags are set: none of it writes a flag
  cases p with
  | switch t =>
    simp only [Tty.press, terminalSwitch]
    split_ifs <;> rfl
  | enter =>
    simp only [Tty.press, typeChar]
    split_ifs <;> rfl
  | erase =>
    simp only [Tty.press, eraseChar]
    split_ifs <;> rfl
  | clear => rfl
  | letter c =>
    simp only [Tty.press, typeChar]
    split_ifs <;> rfl
  | none => rfl

theorem flags_keyboardHandler (tty : Tty) (code : UInt8) :
    (keyboardHandler tty code).keyboard.flags = (flagsAfter tty.keyboard code.toNat).flags := by
  rw [keyboardHandler_eq, flags_press]

/-- Only scan codes change the flags. -/
theorem flags_ttyStep {tty tty' : Tty} {e : TtyEvent} (he : ∀ code, e ≠ .key code)
    (hstep : ttyStep tty e = some tty') : tty'.keyboard.flags = tty.keyboard.flags := by
  -- no other event touches the keyboard's flags
  cases e with
  | key code => exact absurd rfl (he code)
  | switch n =>
    obtain rfl := Option.some.inj hstep
    simp only [terminalSwitch]
    split_ifs <;> rfl
  | read t buf nbytes =>
    simp only [ttyStep] at hstep
    split_ifs at hstep
    obtain ⟨r, hr, rfl⟩ := Option.map_eq_some_iff.mp hstep
    cases buf with
    | none =>
      obtain rfl := Option.some.inj hr
      rfl
    | some buf =>
      simp only [terminalRead] at hr
      split_ifs at hr
      obtain rfl := Option.some.inj hr
      rfl
  | write t buf nbytes =>
    simp only [ttyStep] at hstep
    split_ifs at hstep
    obtain rfl := Option.some.inj hstep
    cases buf with
    | none => rfl
    | some buf =>
      simp only [terminalWrite]
      split_ifs <;> rfl

/-! ## The keys that are held -/

/-- A scan code below 128 is the make code of a key; its break code is 128 more. -/
def makeCodes : Nat := 128

/-- The terminals, with the keys that are held, by their make codes, and the number of times that
    Caps Lock has been pressed. -/
structure Typing where
  tty : Tty
  held : Nat → Bool
  capsPresses : Nat

namespace Typing

/-- A key is released only when it is held, and Caps Lock is pressed only when it is not; the other
    keys may repeat. -/
def Alternates (s : Typing) (code : UInt8) : Prop :=
  (code.toNat = capsOn → s.held capsOn = false) ∧
    (makeCodes ≤ code.toNat → s.held (code.toNat - makeCodes) = true)

instance (s : Typing) (code : UInt8) : Decidable (s.Alternates code) :=
  inferInstanceAs (Decidable (_ ∧ _))

/-- The handler takes a scan code. -/
def key (s : Typing) (code : UInt8) : Typing where
  tty := keyboardHandler s.tty code
  held := Function.update s.held (code.toNat % makeCodes) (code.toNat < makeCodes)
  capsPresses := if code.toNat = capsOn then s.capsPresses + 1 else s.capsPresses

/-- A scan code of a keyboard, or any other event of the terminals. -/
def step (s : Typing) : TtyEvent → Option Typing
  | .key code => if s.Alternates code then some (s.key code) else none
  | e => (ttyStep s.tty e).map fun tty => { s with tty := tty }

/-- The flags that the keys tell. -/
def heldFlags (s : Typing) : ModifierFlags where
  caps := s.capsPresses % 2 = 1
  shift := s.held lshiftOn || s.held rshiftOn
  ctrl := s.held ctrlOn
  alt := s.held altOn

/-- The flags of the handler are the ones that the keys tell. -/
def FlagsOk (s : Typing) : Prop := s.tty.keyboard.flags = s.heldFlags

instance (s : Typing) : Decidable s.FlagsOk := inferInstanceAs (Decidable (_ = _))

/-! ## Characters -/

/-- A lower or upper case letter. -/
def IsLetter (c : UInt8) : Prop := 97 ≤ c ∧ c ≤ 122 ∨ 65 ≤ c ∧ c ≤ 90

instance (c : UInt8) : Decidable (IsLetter c) := inferInstanceAs (Decidable (_ ∨ _))

/-- The other case of a letter. -/
def otherCase (c : UInt8) : UInt8 := if IsLetter c then c ^^^ 0x20 else c

/-- The character of a key: Shift selects the symbol, and Caps Lock inverts the case of a letter. -/
def symbol (caps shift : Bool) (code : Nat) : UInt8 :=
  let c := keyChar (if shift then 2 else 0) code
  if caps then otherCase c else c

/-- The character that scan code `code` should enter: none for Backspace and for Ctrl+L, which
    clears the screen. -/
def expected (flags : ModifierFlags) (code : Nat) : Option UInt8 :=
  if keyChar 0 code = backspace ∨ keyChar 0 code = letterL ∧ flags.ctrl = true ∨
      symbol flags.caps flags.shift code = 0 then none
  else some (symbol flags.caps flags.shift code)

/-- The character that it enters. -/
def entered (kb : Keyboard) (code : Nat) : Option UInt8 :=
  match keyPress kb code with
  | .letter c => some c
  | .enter => some newline
  | .switch _ | .erase | .clear | .none => none

/-- The law of an event: afterwards the flags say what is held, and a scan code enters the
    character that the keys tell. -/
structure Law (s : Typing) (e : TtyEvent) : Prop where
  flags : ∀ s', s.step e = some s' → s'.FlagsOk
  character : ∀ code, e = .key code →
    entered s.tty.keyboard code.toNat = expected s.heldFlags code.toNat

/-- The make code of the key with the backslash. -/
def backslashKey : Nat := 0x2B

/-- The scan code is not the release of one Shift key while the other is held, nor the key with the
    backslash while a Shift key is held and Caps Lock is on. -/
def Proper (s : Typing) : TtyEvent → Prop
  | .key code =>
    ¬ (code.toNat = lshiftOff ∧ s.held rshiftOn = true ∨
        code.toNat = rshiftOff ∧ s.held lshiftOn = true) ∧
      ¬ (code.toNat = backslashKey ∧ s.heldFlags.caps = true ∧ s.heldFlags.shift = true)
  | .switch _ | .read .. | .write .. => True

/-! ## One event -/

/-- What is held after a scan code. -/
theorem held_step (held : Nat → Bool) (code : UInt8) {m : Nat} (hm : m < makeCodes) :
    Function.update held (code.toNat % makeCodes) (code.toNat < makeCodes : Bool) m =
      if code.toNat = m then true else if code.toNat = m + makeCodes then false else held m := by
  have hcode : code.toNat < 256 := code.toNat_lt
  have hhalf : makeCodes = 128 := rfl
  -- the make code of key `m`, its break code, or the code of another key
  by_cases hmake : code.toNat = m
  · have hkey : code.toNat % makeCodes = m := by rw [hhalf]; omega
    rw [if_pos hmake, hkey, Function.update_self]
    exact decide_eq_true (by omega)
  by_cases hbreak : code.toNat = m + makeCodes
  · have hkey : code.toNat % makeCodes = m := by rw [hhalf]; omega
    rw [if_neg hmake, if_pos hbreak, hkey, Function.update_self]
    exact decide_eq_false (by omega)
  · have hkey : m ≠ code.toNat % makeCodes := by rw [hhalf]; omega
    rw [if_neg hmake, if_neg hbreak, Function.update_of_ne hkey]

/-- No scan code is both the make code and the break code of a key. -/
private theorem release_press {code on off : Nat} (hne : on ≠ off) (b : Bool) :
    (if code = off then false else if code = on then true else b) =
      if code = on then true else if code = off then false else b := by
  split_ifs with hoff hon
  · exact absurd (hon.symm.trans hoff) hne
  · rfl
  · rfl
  · rfl

/-- One flag for both Shift keys tells whether one of them is held, but for a release of one while
    the other is held. -/
private theorem shift_iff (code : Nat) (left right : Bool) :
    (if code = lshiftOff ∨ code = rshiftOff then false
      else if code = lshiftOn ∨ code = rshiftOn then true
      else left || right) =
        ((if code = lshiftOn then true else if code = lshiftOff then false else left) ||
          if code = rshiftOn then true else if code = rshiftOff then false else right) ↔
      ¬ (code = lshiftOff ∧ right = true ∨ code = rshiftOff ∧ left = true) := by
  by_cases hshift : code = lshiftOff ∨ code = rshiftOff ∨ code = lshiftOn ∨ code = rshiftOn
  · revert left right
    rcases hshift with rfl | rfl | rfl | rfl <;> decide
  · obtain ⟨hloff, hroff, hlon, hron⟩ : _ ∧ _ ∧ _ ∧ _ := by simpa only [not_or] using hshift
    simp only [hloff, hroff, hlon, hron, or_self, false_and, if_false, not_false_eq_true]

/-- The flags go on saying what is held, unless a Shift key is released while the other is held. -/
theorem flagsOk_key_iff {s : Typing} (h : s.FlagsOk) (code : UInt8) :
    (s.key code).FlagsOk ↔ ¬ (code.toNat = lshiftOff ∧ s.held rshiftOn = true ∨
      code.toNat = rshiftOff ∧ s.held lshiftOn = true) := by
  obtain ⟨hcaps, hshift, hctrl, halt⟩ := ModifierFlags.ext_iff.mp h
  simp only [Keyboard.flags, heldFlags] at hcaps hshift hctrl halt
  have hlshift : _ = if code.toNat = lshiftOn then true else if code.toNat = lshiftOff then false
      else s.held lshiftOn := held_step s.held code (by decide)
  have hrshift : _ = if code.toNat = rshiftOn then true else if code.toNat = rshiftOff then false
      else s.held rshiftOn := held_step s.held code (by decide)
  have hctrlHeld : _ = if code.toNat = ctrlOn then true else if code.toNat = ctrlOff then false
      else s.held ctrlOn := held_step s.held code (by decide)
  have haltHeld : _ = if code.toNat = altOn then true else if code.toNat = altOff then false
      else s.held altOn := held_step s.held code (by decide)
  -- Caps Lock is toggled and counted by the same scan code
  have hparity : (if code.toNat = capsOn then !decide (s.capsPresses % 2 = 1)
      else decide (s.capsPresses % 2 = 1)) =
        decide ((if code.toNat = capsOn then s.capsPresses + 1 else s.capsPresses) % 2 = 1) := by
    split_ifs
    · rw [← decide_not]
      exact decide_eq_decide.mpr (by omega)
    · rfl
  simp only [FlagsOk, key, flags_keyboardHandler, flags_flagsAfter, heldFlags, hlshift, hrshift,
    hctrlHeld, haltHeld, hcaps, hshift, hctrl, halt, ModifierFlags.mk.injEq, hparity,
    release_press (show ctrlOn ≠ ctrlOff by decide),
    release_press (show altOn ≠ altOff by decide), and_true]
  exact (and_iff_right rfl).trans (shift_iff code.toNat (s.held lshiftOn) (s.held rshiftOn))

/-- The four rows of the table agree with the symbols of the keys, but for the backslash with both
    Caps Lock and Shift. -/
theorem symbol_eq_iff (kb : Keyboard) {code : Nat} (hlt : code < keySize) :
    keyChar kb.row code = symbol kb.capsFlag kb.shiftFlag code ↔
      ¬ (code = backslashKey ∧ kb.capsFlag = true ∧ kb.shiftFlag = true) := by
  have hrows : ∀ code < keySize, keyChar 0 code = symbol false false code ∧
      keyChar 1 code = symbol true false code ∧ keyChar 2 code = symbol false true code ∧
      (keyChar 3 code = symbol true true code ↔ code ≠ backslashKey) := by decide +kernel
  obtain ⟨hplain, hcaps, hshift, hboth⟩ := hrows code hlt
  unfold Keyboard.row
  cases kb.capsFlag <;> cases kb.shiftFlag
  · exact iff_of_true hplain fun h => Bool.noConfusion h.2.1
  · exact iff_of_true hshift fun h => Bool.noConfusion h.2.1
  · exact iff_of_true hcaps fun h => Bool.noConfusion h.2.2
  · exact hboth.trans ⟨fun hne h => hne h.1, fun h heq => h ⟨heq, rfl, rfl⟩⟩

/-- What a scan code enters, by the row that the flags select. -/
theorem entered_eq (kb : Keyboard) (code : Nat) :
    entered kb code =
      if keyChar 0 code = backspace ∨ keyChar 0 code = letterL ∧ kb.ctrlFlag = true ∨
          keyChar kb.row code = 0 then none
      else some (keyChar kb.row code) := by
  unfold entered keyPress
  cases hswitch : switchKey (releaseFlags kb code) code with
  | some t =>
    -- the function keys have no character
    have hzero : keyChar kb.row code = 0 := by
      generalize kb.row = row
      rcases code_of_switchKey hswitch with rfl | rfl | rfl <;>
        rcases row with _ | _ | _ | _ <;> rfl
    simp only [hswitch]
    rw [if_pos (.inr (.inr hzero))]
  | none =>
    simp only [hswitch]
    by_cases hlt : code < keySize
    · have hsame : releaseFlags kb code = kb := by
        have hoff : ¬ (code = lshiftOff ∨ code = rshiftOff) ∧ ¬ code = ctrlOff ∧
            ¬ code = altOff := by
          simp only [keySize, lshiftOff, rshiftOff, ctrlOff, altOff] at *
          omega
        simp only [releaseFlags, hoff, if_false]
      rw [hsame, charPress, if_neg (not_not.mpr hlt)]
      by_cases henter : keyChar 0 code = newline
      · -- Enter has the newline in every row
        have hrow := (keyChar_row_iff (.inr (.inl rfl)) kb.row code).mpr henter
        have hback : ¬ newline = backspace := by decide
        have hl : ¬ newline = letterL := by decide
        have hzero : ¬ newline = 0 := by decide
        simp only [if_true, henter, hrow, hback, hl, hzero, false_and, or_self, if_false]
      by_cases herase : keyChar 0 code = backspace
      · rw [if_neg henter, if_pos herase, if_pos (.inl herase)]
      by_cases hclear : keyChar 0 code = letterL ∧ kb.ctrlFlag = true
      · rw [if_neg henter, if_neg herase, if_pos hclear, if_pos (.inr (.inl hclear))]
      by_cases hzero : keyChar kb.row code = 0
      · rw [if_neg henter, if_neg herase, if_neg hclear, if_pos hzero, if_pos (.inr (.inr hzero))]
      · rw [if_neg henter, if_neg herase, if_neg hclear, if_neg hzero,
          if_neg (not_or.mpr ⟨herase, not_or.mpr ⟨hclear, hzero⟩⟩)]
    · rw [charPress, if_pos hlt, if_pos (.inr (.inr (keyChar_of_not_lt hlt _)))]

/-- A scan code enters the character that the flags tell, but for that key. -/
theorem entered_iff (kb : Keyboard) (code : Nat) :
    entered kb code = expected kb.flags code ↔
      ¬ (code = backslashKey ∧ kb.capsFlag = true ∧ kb.shiftFlag = true) := by
  rw [entered_eq, expected]
  by_cases hbad : code = backslashKey ∧ kb.capsFlag = true ∧ kb.shiftFlag = true
  · obtain ⟨rfl, hcaps, hshift⟩ := hbad
    have hrow : kb.row = 3 := by rw [Keyboard.row, hcaps, hshift]
    simp only [Keyboard.flags, hcaps, hshift, hrow]
    -- a backslash instead of a bar
    generalize kb.ctrlFlag = ctrl
    revert ctrl
    decide
  · have hsymbol : keyChar kb.row code = symbol kb.capsFlag kb.shiftFlag code := by
      by_cases hlt : code < keySize
      · exact (symbol_eq_iff kb hlt).mpr hbad
      · rw [symbol, keyChar_of_not_lt hlt, keyChar_of_not_lt hlt]
        exact (ite_self _).symm
    rw [hsymbol]
    exact iff_of_true rfl hbad

/-- **One event** obeys the law exactly if it is proper. -/
theorem law_iff {s s' : Typing} (h : s.FlagsOk) {e : TtyEvent} (hstep : s.step e = some s') :
    s.Law e ↔ s.Proper e := by
  -- the law of an event is about the flags after it and the character it enters
  have hevent : s.Law e ↔ s'.FlagsOk ∧ ∀ code, e = .key code →
      entered s.tty.keyboard code.toNat = expected s.heldFlags code.toNat := by
    constructor
    · exact fun hlaw => ⟨hlaw.flags s' hstep, hlaw.character⟩
    · rintro ⟨hflags, hcharacter⟩
      refine ⟨fun t ht => ?_, hcharacter⟩
      obtain rfl := Option.some.inj (hstep.symm.trans ht)
      exact hflags
  rw [hevent]
  -- a key
  by_cases hkey : ∃ code, e = .key code
  · obtain ⟨code, rfl⟩ := hkey
    obtain rfl := Option.some.inj (Option.ite_none_right_eq_some.mp hstep).2
    have hflagsOk := flagsOk_key_iff h code
    -- the flags are those of the keys held, so the code enters what they say
    have hcharacter := entered_iff s.tty.keyboard code.toNat
    rw [show s.tty.keyboard.flags = s.heldFlags from h] at hcharacter
    obtain ⟨hcaps, hshift, -, -⟩ := ModifierFlags.ext_iff.mp h
    rw [show s.tty.keyboard.capsFlag = _ from hcaps, show s.tty.keyboard.shiftFlag = _ from hshift]
      at hcharacter
    constructor
    · rintro ⟨hflags, hentered⟩
      exact ⟨hflagsOk.mp hflags, hcharacter.mp (hentered code rfl)⟩
    · rintro ⟨hrelease, hbackslash⟩
      refine ⟨hflagsOk.mpr hrelease, fun code' hcode' => ?_⟩
      obtain rfl := TtyEvent.key.inj hcode'
      exact hcharacter.mpr hbackslash
  · -- any other event leaves the keys and the flags as they are
    have hother : ∀ code, e ≠ .key code := fun code he => hkey ⟨code, he⟩
    have hkeeps : s'.FlagsOk := by
      have hmap : (ttyStep s.tty e).map (fun tty => { s with tty := tty }) = some s' := by
        cases e with
        | key code => exact absurd rfl (hother code)
        | switch | read | write => exact hstep
      obtain ⟨tty, htty, rfl⟩ := Option.map_eq_some_iff.mp hmap
      exact (flags_ttyStep hother htty).trans h
    refine iff_of_true ⟨hkeeps, fun code he => absurd he (hother code)⟩ ?_
    cases e with
    | key code => exact absurd rfl (hother code)
    | switch | read | write => trivial

end Typing

/-! ## Whole runs -/

/-- The keyboard when the kernel starts: no key is held. -/
def startTyping : Typing := ⟨initTerminal zeroTty, fun _ => false, 0⟩

/-- Caps Lock, then Shift and `a`. -/
def capsShiftA : List TtyEvent := [.key 0x3A, .key 0xBA, .key 0x2A, .key 0x1E, .key 0xAA]

/-- Both Shift keys are pressed, and the left one is released; Caps Lock, and then the bar is
    typed. -/
def releaseOneShift : List TtyEvent := [.key 0x2A, .key 0x36, .key 0xAA]
def capsBar : List TtyEvent := [.key 0x3A, .key 0xBA, .key 0x2A, .key 0x2B]

end LinuxLikeOs
