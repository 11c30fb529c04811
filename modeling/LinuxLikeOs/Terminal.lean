import LinuxLikeOs.Console

/-!
# Terminals and keyboard

State and operations of `terminal.c` and `keyboard_handler.c`: three terminals, of
which one is displayed, the live keyboard buffer of the displayed one, and the saved
line that Enter hands to `terminal_read`.

The user video page, which `terminal_switch` also remaps, belongs to the kernel state
(`Kernel.terminalSwitch`).
-/

namespace LinuxLikeOs

/-! ## State -/

/-- Bytes of a caller's buffer by index. -/
abbrev Buffer := Nat → UInt8

/-- `buffer_size`; the keyboard arrays have one byte more. -/
def bufferSize : Nat := 127

/-- `key_size`, the scan codes the key tables cover. -/
def keySize : Nat := 60

/-- `SCREEN_SIZE`, `Terminal_total_num` and `Terminal_max_num`. -/
def terminalTotalNum : Nat := 3
def terminalMaxNum : Int := 2

/-- The globals of `keyboard_handler.c`. -/
structure Keyboard where
  capsFlag : Bool
  shiftFlag : Bool
  ctrlFlag : Bool
  altFlag : Bool
  keyboardBuffer : Buffer
  savedKeyboardBuffer : Buffer
  bufferPosition : Nat
  savedBufferPosition : Nat
  overflowBits : Int

/-- The globals of `lib.c`, `terminal.c` and `keyboard_handler.c` together. -/
structure Tty where
  screen : Screen
  keyboard : Keyboard
  terminals : Nat → Terminal
  curDisplayTid : Nat

/-- All globals zero, as the loader leaves them. -/
def zeroTty : Tty where
  screen := ⟨fun _ => 0, 0, 0⟩
  keyboard := ⟨false, false, false, false, fun _ => 0, fun _ => 0, 0, 0, 0⟩
  terminals _ := ⟨0, 0, 0, 0, 0, fun _ => 0, 0, 0⟩
  curDisplayTid := 0

/-- Change one entry of `terminals`. -/
def Tty.setTerminal (tty : Tty) (t : Nat) (term : Terminal) : Tty :=
  { tty with terminals := Function.update tty.terminals t term }

/-- `buffer_clear`: zero the live keyboard buffer and its position. -/
def bufferClear (kb : Keyboard) : Keyboard :=
  { kb with
    keyboardBuffer := fun i => if i ≤ bufferSize then 0 else kb.keyboardBuffer i
    bufferPosition := 0 }

/-! ## `terminal.c` -/

/-- The entry that `init_terminal` writes for terminal `t`. -/
def freshTerminal (t : Nat) (vidBuf : Int) (old : Terminal) : Terminal where
  tid := t
  curPid := -1
  vidBuf := vidBuf
  xPosition := 0
  yPosition := 0
  terminalBuffer := fun i => if i ≤ bufferSize then 0 else old.terminalBuffer i
  bufferPosition := 0
  enterFlag := 0

/-- The buffer page of terminal `t`. -/
def terminalPage : Nat → Int
  | 0 => terminal0Buffer
  | 1 => terminal1Buffer
  | _ => terminal2Buffer

/-- `init_terminal`. -/
def initTerminal (tty : Tty) : Tty where
  screen := clearScreen
    { tty.screen with
      mem := clearText (clearText (clearText tty.screen.mem terminal0Buffer) terminal1Buffer)
        terminal2Buffer }
  keyboard := bufferClear tty.keyboard
  terminals := fun t =>
    if t < terminalTotalNum then freshTerminal t (terminalPage t) (tty.terminals t)
    else tty.terminals t
  curDisplayTid := 0

/-- Conversion to `int8_t`, as in `get_x`, `get_y`, `change_x` and `change_y`. -/
def toInt8 (i : Int) : Int := (i + 128) % 256 - 128

/-- The entry that `terminal_switch` stores for the displayed terminal. -/
def savedTerminal (tty : Tty) : Terminal :=
  let cur := tty.terminals tty.curDisplayTid
  { cur with
    xPosition := toInt8 tty.screen.screenX
    yPosition := toInt8 tty.screen.screenY
    bufferPosition := tty.keyboard.bufferPosition
    terminalBuffer := fun i =>
      if i ≤ bufferSize then tty.keyboard.keyboardBuffer i else cur.terminalBuffer i }

/-- The part of `terminal_switch` that saves the displayed terminal and shows terminal `n`. -/
def switchDisplay (tty : Tty) (n : Nat) : Tty :=
  let cur := tty.terminals tty.curDisplayTid
  -- save the terminal that was displayed
  let tty := tty.setTerminal tty.curDisplayTid (savedTerminal tty)
  let mem := copyPage tty.screen.mem cur.vidBuf video
  -- load the other one
  let next := tty.terminals n
  let kb := bufferClear tty.keyboard
  { screen := ⟨copyPage mem video next.vidBuf, toInt8 next.xPosition, toInt8 next.yPosition⟩
    keyboard :=
      { kb with
        keyboardBuffer := fun i =>
          if i ≤ bufferSize then next.terminalBuffer i else kb.keyboardBuffer i
        bufferPosition := next.bufferPosition }
    terminals := tty.terminals
    curDisplayTid := n }

/-- `terminal_switch`, the display and the keyboard. -/
def terminalSwitch (tty : Tty) (terminalNumber : Int) : Int × Tty :=
  if terminalNumber < 0 ∨ terminalNumber > terminalMaxNum then (-1, tty)
  else if terminalNumber = tty.curDisplayTid then (0, tty)
  else (0, switchDisplay tty terminalNumber.toNat)

/-- The copy loop of `terminal_read`, from index `i` on; `char_number` stays 0 when no
    newline is met. -/
def readLoop (saved : Buffer) (nbytes : Int) : Nat → Nat → Buffer → Nat × Buffer
  | 0, _, buf => (0, buf)
  | fuel + 1, i, buf =>
    let buf := Function.update buf i (saved i)
    if saved i = newline ∨ (i : Int) = nbytes - 1 then (i + 1, buf)
    else readLoop saved nbytes fuel (i + 1) buf

/-- `terminal_read` by a process of terminal `t`.  `none` while `enter_flag` is not 1: the
    call is still waiting. -/
def terminalRead (tty : Tty) (t : Nat) (buf : Option Buffer) (nbytes : Int) :
    Option (Int × Option Buffer × Tty) :=
  match buf with
  | none => some (-1, none, tty)
  | some buf =>
    if (tty.terminals t).enterFlag = 1 then
      let kb := tty.keyboard
      -- the newline goes behind the saved line, whatever terminal that is from
      let saved := Function.update kb.savedKeyboardBuffer kb.savedBufferPosition newline
      let (charNumber, buf) := readLoop saved nbytes (bufferSize + 1) 0 buf
      -- `buffer_clear` clears the line being typed on the displayed terminal
      let kb := bufferClear
        { kb with
          savedKeyboardBuffer := saved
          savedBufferPosition := (kb.savedBufferPosition + 1) % 256 }
      let term := tty.terminals t
      let term : Terminal :=
        { term with
          enterFlag := 0
          terminalBuffer := fun i => if i ≤ bufferSize then 0 else term.terminalBuffer i
          bufferPosition := 0 }
      some (charNumber, some buf, { tty with keyboard := kb }.setTerminal t term)
    else none

/-- The character before index `i` of a write, `'\0'` for the first. -/
def previousChar (buf : Buffer) (i : Nat) : UInt8 := if i = 0 then 0 else buf (i - 1)

/-- `terminal_write` by a process of terminal `t`. -/
def terminalWrite (tty : Tty) (t : Nat) (buf : Option Buffer) (nbytes : Int) : Int × Tty :=
  match buf with
  | none => (-1, tty)
  | some buf =>
    let indices := List.range nbytes.toNat
    if tty.curDisplayTid = t then
      (nbytes.toNat,
        { tty with
          screen := indices.foldl (fun s i => specialPutc s (previousChar buf i) (buf i))
            tty.screen })
    else
      let out := indices.foldl
        (fun (m : Memory × Terminal) i =>
          terminalSpecialPutc m.1 m.2 (previousChar buf i) (buf i))
        (tty.screen.mem, tty.terminals t)
      (nbytes.toNat, { tty with screen := { tty.screen with mem := out.1 } }.setTerminal t out.2)

/-- `terminal_open` and `terminal_close`. -/
def terminalOpen : Int := 0
def terminalClose : Int := -1

/-! ## `keyboard_handler.c` -/

/-- `keyboard_reference`: the characters of the scan codes, plain, with Caps Lock, with
    Shift and with both. -/
def keyboardReference : Nat → List UInt8
  -- 1234567890-=  qwertyuiop[]  asdfghjkl;'`  \zxcvbnm,./  *  blank
  | 0 => [0, 0, 49, 50, 51, 52, 53, 54, 55, 56, 57, 48, 45, 61,
      8, 9, 113, 119, 101, 114, 116, 121, 117, 105, 111, 112, 91, 93,
      10, 0, 97, 115, 100, 102, 103, 104, 106, 107, 108, 59, 39, 96,
      0, 92, 122, 120, 99, 118, 98, 110, 109, 44, 46, 47, 0, 42, 0, 32, 0, 0]
  -- 1234567890-=  QWERTYUIOP[]  ASDFGHJKL;'`  \ZXCVBNM,./  *  blank
  | 1 => [0, 0, 49, 50, 51, 52, 53, 54, 55, 56, 57, 48, 45, 61,
      8, 9, 81, 87, 69, 82, 84, 89, 85, 73, 79, 80, 91, 93,
      10, 0, 65, 83, 68, 70, 71, 72, 74, 75, 76, 59, 39, 96,
      0, 92, 90, 88, 67, 86, 66, 78, 77, 44, 46, 47, 0, 42, 0, 32, 0, 0]
  -- !@#$%^&*()_+  QWERTYUIOP and braces  ASDFGHJKL:"~  |ZXCVBNM<>?  *  blank
  | 2 => [0, 0, 33, 64, 35, 36, 37, 94, 38, 42, 40, 41, 95, 43,
      8, 9, 81, 87, 69, 82, 84, 89, 85, 73, 79, 80, 123, 125,
      10, 0, 65, 83, 68, 70, 71, 72, 74, 75, 76, 58, 34, 126,
      0, 124, 90, 88, 67, 86, 66, 78, 77, 60, 62, 63, 0, 42, 0, 32, 0, 0]
  -- !@#$%^&*()_+  qwertyuiop and braces  asdfghjkl:"~  \zxcvbnm<>?  *  blank
  | _ => [0, 0, 33, 64, 35, 36, 37, 94, 38, 42, 40, 41, 95, 43,
      8, 9, 113, 119, 101, 114, 116, 121, 117, 105, 111, 112, 123, 125,
      10, 0, 97, 115, 100, 102, 103, 104, 106, 107, 108, 58, 34, 126,
      0, 92, 122, 120, 99, 118, 98, 110, 109, 60, 62, 63, 0, 42, 0, 32, 0, 0]

/-- The character of scan code `code` in row `row` of `keyboard_reference`. -/
def keyChar (row code : Nat) : UInt8 := (keyboardReference row).getD code 0

def lshiftOn : Nat := 0x2A
def lshiftOff : Nat := 0xAA
def rshiftOn : Nat := 0x36
def rshiftOff : Nat := 0xB6
def capsOn : Nat := 0x3A
def capsOff : Nat := 0xBA
def ctrlOn : Nat := 0x1D
def ctrlOff : Nat := 0x9D
def altOn : Nat := 0x38
def altOff : Nat := 0xB8
def f1 : Nat := 0x3B
def f2 : Nat := 0x3C
def f3 : Nat := 0x3D

/-- The letter `l` that clears the screen together with Ctrl. -/
def letterL : UInt8 := 108

/-- The row of `keyboard_reference` that the Caps Lock and Shift flags select. -/
def Keyboard.row (kb : Keyboard) : Nat :=
  match kb.capsFlag, kb.shiftFlag with
  | false, false => 0
  | true, false => 1
  | false, true => 2
  | true, true => 3

/-- `output_keyvalue`. -/
def outputKeyvalue (tty : Tty) (code : Nat) : Tty :=
  let kb := tty.keyboard
  if keyChar 0 code = backspace then
    -- erase from the buffer first, then the characters that were typed beyond it
    if kb.bufferPosition ≠ 0 then
      let temp := kb.keyboardBuffer (kb.bufferPosition - 1)
      { tty with
        keyboard :=
          { kb with
            keyboardBuffer := Function.update kb.keyboardBuffer kb.bufferPosition 0
            bufferPosition := kb.bufferPosition - 1 }
        screen := specialPutc tty.screen temp backspace }
    else if kb.overflowBits ≠ 0 then
      { tty with
        keyboard := { kb with overflowBits := kb.overflowBits - 1 }
        screen := specialPutc tty.screen 0 backspace }
    else tty
  else if code = capsOn ∨ code = capsOff then tty
  else if code = lshiftOff ∨ code = rshiftOff then
    { tty with keyboard := { kb with shiftFlag := false } }
  else if code = altOff ∨ code = altOn then tty
  -- Ctrl+L clears the screen and keeps the line
  else if keyChar 0 code = letterL ∧ kb.ctrlFlag = true then
    { tty with screen := clearScreen tty.screen }
  else
    let letter := keyChar kb.row code
    if letter ≠ 0 then
      let kb :=
        if kb.bufferPosition < bufferSize then
          { kb with
            keyboardBuffer := Function.update kb.keyboardBuffer kb.bufferPosition letter
            bufferPosition := kb.bufferPosition + 1 }
        -- a full line is echoed but not stored
        else { kb with overflowBits := kb.overflowBits + 1 }
      { tty with keyboard := kb, screen := specialPutc tty.screen 0 letter }
    else tty

/-- The break codes at the head of `keyboard_handler`. -/
def releaseFlags (kb : Keyboard) (code : Nat) : Keyboard :=
  { kb with
    shiftFlag := if code = lshiftOff ∨ code = rshiftOff then false else kb.shiftFlag
    ctrlFlag := if code = ctrlOff then false else kb.ctrlFlag
    altFlag := if code = altOff then false else kb.altFlag }

/-- Enter: raise the flag of the displayed terminal and save its line. -/
def saveLine (tty : Tty) : Tty :=
  let kb := tty.keyboard
  let term := tty.terminals tty.curDisplayTid
  { tty with
    keyboard := bufferClear
      { kb with
        overflowBits := 0
        savedKeyboardBuffer := fun i =>
          if i ≤ bufferSize then kb.keyboardBuffer i else kb.savedKeyboardBuffer i
        savedBufferPosition := kb.bufferPosition } }.setTerminal
    tty.curDisplayTid { term with enterFlag := 1 }

/-- The body of `keyboard_handler` below the terminal switches. -/
def handleKey (tty : Tty) (code : Nat) : Tty :=
  let kb := tty.keyboard
  if code < keySize then
    let tty :=
      if code = capsOn then { tty with keyboard := { kb with capsFlag := !kb.capsFlag } }
      else if code = lshiftOn ∨ code = rshiftOn then
        { tty with keyboard := { kb with shiftFlag := true } }
      else if code = ctrlOn then { tty with keyboard := { kb with ctrlFlag := true } }
      else if code = altOn then { tty with keyboard := { kb with altFlag := true } }
      else if keyChar 0 code = newline then saveLine tty
      else tty
    -- also after Enter, so the newline becomes the first character of the next line
    outputKeyvalue tty code
  else tty

/-- The terminal that the key selects together with Alt. -/
def switchKey (kb : Keyboard) (code : Nat) : Option Nat :=
  if kb.altFlag = true ∧ code = f1 then some 0
  else if kb.altFlag = true ∧ code = f2 then some 1
  else if kb.altFlag = true ∧ code = f3 then some 2
  else none

/-- `keyboard_handler`, for the scan code read from the port. -/
def keyboardHandler (tty : Tty) (code : UInt8) : Tty :=
  let tty := { tty with keyboard := releaseFlags tty.keyboard code.toNat }
  match switchKey tty.keyboard code.toNat with
  | some t => (terminalSwitch tty t).2
  | none => handleKey tty code.toNat

/-! ## Interleavings -/

/-- What happens to the terminals: a scan code arrives, the display is switched, or a
    process of terminal `t` completes a `terminal_read` or performs a `terminal_write`. -/
inductive TtyEvent where
  | key (code : UInt8)
  | switch (terminalNumber : Int)
  | read (t : Nat) (buf : Option Buffer) (nbytes : Int)
  | write (t : Nat) (buf : Option Buffer) (nbytes : Int)

/-- One event; `none` for a read that is still waiting. -/
def ttyStep (tty : Tty) : TtyEvent → Option Tty
  | .key code => some (keyboardHandler tty code)
  | .switch n => some (terminalSwitch tty n).2
  | .read t buf nbytes =>
    if t < terminalTotalNum then (terminalRead tty t buf nbytes).map fun r => r.2.2 else none
  | .write t buf nbytes =>
    if t < terminalTotalNum then some (terminalWrite tty t buf nbytes).2 else none

end LinuxLikeOs
