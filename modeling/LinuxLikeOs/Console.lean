import Mathlib.Logic.Function.Basic

/-!
# Text screens

The two console implementations of `lib.c`: `special_putc` draws on video memory
with the cursor `screen_x`/`screen_y`, `terminal_special_putc` draws on the buffer
page of a terminal in the background with the cursor kept in its `terminal_t`.

Text memory is a total function from physical addresses.  A page is 4 KB, 80 x 25
cells of a character byte and an attribute byte; `move_cursor` only programs the
VGA cursor registers from `screen_x`/`screen_y` and is left out.
-/

namespace LinuxLikeOs

/-! ## Constants of `lib.c`, `paging.h` and `terminal.h` -/

/-- Bytes of physical memory by address. -/
abbrev Memory := Int → UInt8

/-- Physical address of video memory, `VIDEO`. -/
def video : Int := 0xB8000

def terminal0Buffer : Int := 0xD0000
def terminal1Buffer : Int := 0xD1000
def terminal2Buffer : Int := 0xD2000

def numCols : Int := 80
def numRows : Int := 25

/-- `_4KB`, the size of a text page. -/
def fourKB : Int := 0x1000

/-- `four_bit`, the width of a tab. -/
def fourBit : Int := 4

def attrib : UInt8 := 0x7

def backspace : UInt8 := 0x08
def tab : UInt8 := 0x09
def newline : UInt8 := 0x0A
def carriageReturn : UInt8 := 0x0D
def blank : UInt8 := 0x20

/-! ## Cells -/

/-- Address of the character byte of cell `(x, y)` on the page at `base`. -/
def cellAddr (base x y : Int) : Int := base + 2 * (numCols * y + x)

theorem cellAddr_eq (base x y : Int) : cellAddr base x y = base + 2 * (80 * y + x) := rfl

/-- Store a character and the attribute at cell `(x, y)`. -/
def putCell (mem : Memory) (base x y : Int) (c : UInt8) : Memory :=
  Function.update (Function.update mem (cellAddr base x y) c) (cellAddr base x y + 1) attrib

/-- The text part of a page: 2000 blank cells. -/
def clearText (mem : Memory) (base : Int) : Memory := fun a =>
  if base ≤ a ∧ a < base + 2 * (numRows * numCols) then
    if (a - base) % 2 = 0 then blank else attrib
  else mem a

/-- `memcpy` of a whole text page. -/
def copyPage (mem : Memory) (dst src : Int) : Memory := fun a =>
  if dst ≤ a ∧ a < dst + fourKB then mem (a - dst + src) else mem a

/-! ## Scrolling -/

/-- Inner loop of the scrolling functions: the characters of row `i` go to row `i - 1`. -/
def scrollRow (base : Int) (mem : Memory) (i : Nat) : Memory :=
  (List.range 80).foldl
    -- the character byte only
    (fun m (j : Nat) =>
      Function.update m (cellAddr base j ((i : Int) - 1)) (m (cellAddr base j i))) mem

/-- Last loop of the scrolling functions: blank the characters of the last row. -/
def blankLastRow (base : Int) (mem : Memory) : Memory :=
  (List.range 80).foldl
    (fun m (k : Nat) => Function.update m (cellAddr base k (numRows - 1)) blank) mem

/-- `scrolling_oneline`: scroll video memory; attributes stay where they are. -/
def scrollingOneline (mem : Memory) : Memory :=
  blankLastRow video ((List.range' 1 24).foldl (scrollRow video) mem)

/-- `scrollingoneline`: scroll the buffer page of a terminal in the background. -/
def scrollingoneline (mem : Memory) (vidBuf : Int) : Memory :=
  blankLastRow vidBuf ((List.range' 1 24).foldl (scrollRow vidBuf) mem)

/-! ## Foreground output -/

/-- Video memory with the static cursor of `lib.c`. -/
structure Screen where
  mem : Memory
  screenX : Int
  screenY : Int

/-- `clear` and `init_screen`, as called by `clear_screen` and Ctrl+L. -/
def clearScreen (s : Screen) : Screen := ⟨clearText s.mem video, 0, 0⟩

/-- `putc`, the kernel's own output. -/
def putc (s : Screen) (c : UInt8) : Screen :=
  if c = newline ∨ c = carriageReturn then
    { s with screenX := 0, screenY := s.screenY + 1 }
  else
    let x := (s.screenX + 1).tmod numCols
    { mem := putCell s.mem video s.screenX s.screenY c
      screenX := x
      screenY := (s.screenY + x.tdiv numCols).tmod numRows }

/-- `printf` of a text without conversions: one `putc` for each character. -/
def printf (s : Screen) (text : List UInt8) : Screen := text.foldl putc s

/-- `special_putc`: draw `c`; `c1` is the character before it (a tab is erased whole). -/
def specialPutc (s : Screen) (c1 c : UInt8) : Screen :=
  if c = newline ∨ c = carriageReturn then
    if s.screenY + 1 ≥ numRows then ⟨scrollingOneline s.mem, 0, numRows - 1⟩
    else ⟨s.mem, 0, s.screenY + 1⟩
  else if c = backspace then
    -- in the corner there is nothing to erase
    if s.screenX = 0 ∧ s.screenY = 0 then s
    -- the character is the last one of the row above
    else if s.screenX = 0 ∧ c1 ≠ tab then
      ⟨putCell s.mem video (numCols - 1) (s.screenY - 1) blank, numCols - 1, s.screenY - 1⟩
    else if s.screenX > 0 ∧ c1 ≠ tab then
      ⟨putCell s.mem video (s.screenX - 1) s.screenY blank, s.screenX - 1, s.screenY⟩
    -- back over a tab: only the cursor moves, maybe to the row above
    else if 0 ≤ s.screenX ∧ s.screenX < fourBit ∧ c1 = tab then
      ⟨s.mem, numCols + s.screenX - fourBit, s.screenY - 1⟩
    else if s.screenX ≥ fourBit ∧ c1 = tab then
      ⟨s.mem, s.screenX - fourBit, s.screenY⟩
    else s
  else if c = tab then
    -- column 76 still counts as inside, which leaves the cursor in column 80
    if 0 ≤ s.screenX ∧ s.screenX ≤ numCols - fourBit then
      ⟨s.mem, s.screenX + fourBit, s.screenY⟩
    else if s.screenX > numCols - fourBit then
      if s.screenY + 1 ≥ numRows then
        ⟨scrollingOneline s.mem, (s.screenX + fourBit).tmod numCols, numRows - 1⟩
      else ⟨s.mem, (s.screenX + fourBit).tmod numCols, s.screenY + 1⟩
    else s
  else
    -- the row is counted before the column is reduced modulo its width
    let mem := putCell s.mem video s.screenX s.screenY c
    let x := s.screenX + 1
    let y := if x.tmod numCols = 0 then s.screenY + 1 else s.screenY
    if y ≥ numRows then ⟨scrollingOneline mem, x.tmod numCols, numRows - 1⟩
    else ⟨mem, x.tmod numCols, y⟩

/-! ## Background output -/

/-- `terminal_t`, one entry of `terminals`. -/
structure Terminal where
  tid : Int
  curPid : Int
  vidBuf : Int
  xPosition : Int
  yPosition : Int
  terminalBuffer : Nat → UInt8
  bufferPosition : Nat
  enterFlag : Int

/-- `terminal_special_putc`: the same on the buffer page of terminal `term`. -/
def terminalSpecialPutc (mem : Memory) (term : Terminal) (c1 c : UInt8) : Memory × Terminal :=
  let videomem := term.vidBuf
  let screenx := term.xPosition
  let screeny := term.yPosition
  if c = newline ∨ c = carriageReturn then
    if screeny + 1 ≥ numRows then
      (scrollingoneline mem videomem,
        { term with xPosition := 0, yPosition := numRows - 1 })
    else (mem, { term with xPosition := 0, yPosition := screeny + 1 })
  else if c = backspace then
    if screenx = 0 ∧ screeny = 0 then (mem, term)
    else if screenx = 0 ∧ c1 ≠ tab then
      (putCell mem videomem (numCols - 1) (screeny - 1) blank,
        { term with xPosition := numCols - 1, yPosition := screeny - 1 })
    else if screenx > 0 ∧ c1 ≠ tab then
      (putCell mem videomem (screenx - 1) screeny blank,
        { term with xPosition := screenx - 1, yPosition := screeny })
    else if 0 ≤ screenx ∧ screenx < fourBit ∧ c1 = tab then
      (mem, { term with xPosition := numCols + screenx - fourBit, yPosition := screeny - 1 })
    else if screenx ≥ fourBit ∧ c1 = tab then
      (mem, { term with xPosition := screenx - fourBit, yPosition := screeny })
    else (mem, { term with xPosition := screenx, yPosition := screeny })
  else if c = tab then
    if 0 ≤ screenx ∧ screenx ≤ numCols - fourBit then
      (mem, { term with xPosition := screenx + fourBit, yPosition := screeny })
    else if screenx > numCols - fourBit then
      if screeny + 1 ≥ numRows then
        (scrollingoneline mem videomem,
          { term with xPosition := (screenx + fourBit).tmod numCols, yPosition := numRows - 1 })
      else
        (mem, { term with xPosition := (screenx + fourBit).tmod numCols, yPosition := screeny + 1 })
    else (mem, { term with xPosition := screenx, yPosition := screeny })
  else
    let mem := putCell mem videomem screenx screeny c
    let x := screenx + 1
    let y := if x.tmod numCols = 0 then screeny + 1 else screeny
    if y ≥ numRows then
      (scrollingoneline mem videomem,
        { term with xPosition := x.tmod numCols, yPosition := numRows - 1 })
    else (mem, { term with xPosition := x.tmod numCols, yPosition := y })

end LinuxLikeOs
