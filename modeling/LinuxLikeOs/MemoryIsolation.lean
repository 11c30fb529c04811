import LinuxLikeOs.ExecuteName
import LinuxLikeOs.KernelConsole

/-!
# Memory isolation

The kernel together with the stores of the programs: every store goes through the page tables, and
the consoles draw in the same physical memory.

- `CursorLow`: the cursors stay where the consoles draw below the frames of the processes
- `machineStep`: an event of the kernel, which loads the program that it starts, or a store
- `store_confined`: what a program can change
- `memory_isolation_of_run`: a frame changes only by its own process
-/

namespace LinuxLikeOs

open Library

/-! ## The consoles draw below the frames -/

/-- What `get_x` and `get_y` return is an `int8_t`. -/
def maxInt8 : Int := 127

/-- No cursor is further right or down than an `int8_t` can say, and the pages are text pages. -/
structure CursorLow (tty : Tty) : Prop where
  screenX : tty.screen.screenX ≤ maxInt8
  screenY : tty.screen.screenY ≤ maxInt8
  xPosition : ∀ t, (tty.terminals t).xPosition ≤ maxInt8
  yPosition : ∀ t, (tty.terminals t).yPosition ≤ maxInt8
  vidBuf : ∀ t, (tty.terminals t).vidBuf ≤ terminal2Buffer

/-- Both memories hold the same in the frames of the processes. -/
def SameFrames (mem mem' : Memory) : Prop := ∀ x, (eightMB : Int) ≤ x → mem' x = mem x

theorem SameFrames.trans {mem mem₁ mem' : Memory} (h : SameFrames mem mem₁)
    (h' : SameFrames mem₁ mem') : SameFrames mem mem' := fun x hx => (h' x hx).trans (h x hx)

theorem toInt8_le (i : Int) : toInt8 i ≤ maxInt8 := by
  simp only [toInt8, maxInt8]
  omega

/-- A cell that an edit writes is not further right or down. -/
def PageEdit.Low : PageEdit → Prop
  | .keep | .scroll => True
  | .put x y _ | .putScroll x y _ => x ≤ maxInt8 ∧ y ≤ maxInt8

theorem PageEdit.Low.sameFrames {edit : PageEdit} (h : edit.Low) {base : Int}
    (hbase : base ≤ terminal2Buffer) (mem : Memory) : SameFrames mem (edit.apply base mem) := by
  -- scrolling copies within one page of text, and `base` lies below 8 MB
  have hscroll : ∀ mem, SameFrames mem (scrollingoneline mem base) := by
    intro mem x hx
    rw [scrollingoneline_apply, if_neg]
    simp only [eightMB, terminal2Buffer] at hx hbase
    omega
  -- a cell of a low cursor is at most a few rows past the page, still below 8 MB
  have hput : ∀ {u v : Int} (c : UInt8), u ≤ maxInt8 → v ≤ maxInt8 →
      SameFrames mem (putCell mem base u v c) := by
    intro u v c hu hv x hx
    simp only [eightMB, terminal2Buffer, maxInt8] at hx hbase hu hv
    have hcell := cellAddr_eq base u v
    rw [putCell, Function.update_of_ne (by omega), Function.update_of_ne (by omega)]
  -- the four things one letter can do to a page
  cases edit with
  | keep => exact fun _ _ => rfl
  | scroll => exact hscroll mem
  | put x y c => exact hput c h.1 h.2
  | putScroll x y c => exact (hput c h.1 h.2).trans (hscroll _)

/-- A drawing that writes on the page and leaves the cursor in bounds. -/
structure Drawing.Low (d : Drawing) : Prop where
  edit : d.edit.Low
  x : d.x ≤ maxInt8
  y : d.y ≤ maxInt8

/-- Drawing keeps the bounds: a line end below the last row scrolls. -/
theorem drawing_low {x y : Int} (hx : x ≤ maxInt8) (hy : y ≤ maxInt8) (c1 c : UInt8) :
    (drawing x y c1 c).Low := by
  have hmod : (x + 1).tmod numCols < numCols := Int.tmod_lt_of_pos _ (by decide)
  have hmod4 : (x + fourBit).tmod numCols < numCols := Int.tmod_lt_of_pos _ (by decide)
  unfold drawing
  dsimp only
  -- every branch moves by constants or wraps around
  split_ifs
  all_goals
    refine ⟨?_, ?_, ?_⟩ <;>
      simp only [PageEdit.Low, maxInt8, numCols, numRows, fourBit] at * <;> omega

theorem specialPutc_low {s : Screen} (hx : s.screenX ≤ maxInt8) (hy : s.screenY ≤ maxInt8)
    (c1 c : UInt8) : (specialPutc s c1 c).screenX ≤ maxInt8 ∧
      (specialPutc s c1 c).screenY ≤ maxInt8 ∧ SameFrames s.mem (specialPutc s c1 c).mem := by
  have hlow := drawing_low hx hy c1 c
  rw [specialPutc_eq]
  exact ⟨hlow.x, hlow.y, hlow.edit.sameFrames (by decide) s.mem⟩

/-- `putc` of a character that ends no line takes the cursor to a row of the screen. -/
theorem putc_low {s : Screen} (hx : s.screenX ≤ maxInt8) (hy : s.screenY ≤ maxInt8) {c : UInt8}
    (hbreak : ¬ (c = newline ∨ c = carriageReturn)) :
    (putc s c).screenX ≤ maxInt8 ∧ (putc s c).screenY < numRows ∧
      SameFrames s.mem (putc s c).mem := by
  have hput : PageEdit.Low (.put s.screenX s.screenY c) := ⟨hx, hy⟩
  unfold putc
  rw [if_neg hbreak]
  refine ⟨?_, Int.tmod_lt_of_pos _ (by decide), hput.sameFrames (by decide) s.mem⟩
  exact Int.le_trans (Int.le_of_lt (Int.tmod_lt_of_pos _ (by decide))) (by decide)

/-- A message without line ends. -/
theorem printf_low {text : List UInt8} (htext : ∀ c ∈ text, ¬ (c = newline ∨ c = carriageReturn))
    {s : Screen} (hx : s.screenX ≤ maxInt8) (hy : s.screenY < numRows) :
    (printf s text).screenX ≤ maxInt8 ∧ (printf s text).screenY < numRows ∧
      SameFrames s.mem (printf s text).mem := by
  induction text generalizing s with
  | nil => exact ⟨hx, hy, fun _ _ => rfl⟩
  | cons c text ih =>
    have hrow : s.screenY ≤ maxInt8 := Int.le_trans (Int.le_of_lt hy) (by decide)
    obtain ⟨hx', hy', hmem⟩ := putc_low hx hrow (htext c List.mem_cons_self)
    obtain ⟨hx'', hy'', hmem'⟩ := ih (fun d hd => htext d (List.mem_cons_of_mem _ hd)) hx' hy'
    exact ⟨hx'', hy'', hmem.trans hmem'⟩

/-- The messages of the kernel: a line with its end. -/
theorem message_low {s : Screen} (hx : s.screenX ≤ maxInt8) (hy : s.screenY ≤ maxInt8)
    (m : KernelMessage) : (printf s m.text).screenX ≤ maxInt8 ∧
      (printf s m.text).screenY ≤ maxInt8 ∧ SameFrames s.mem (printf s m.text).mem := by
  obtain ⟨c, line, hc, hline, htext⟩ : ∃ c line, ¬ (c = newline ∨ c = carriageReturn) ∧
      (∀ d ∈ line, ¬ (d = newline ∨ d = carriageReturn)) ∧ m.text = c :: line ++ [newline] := by
    cases m with
    | fileMissing => exact ⟨70, fileMissingText.tail.dropLast, by decide, by decide +kernel, rfl⟩
    | filenameCheck =>
      exact ⟨70, filenameCheckText.tail.dropLast, by decide, by decide +kernel, rfl⟩
    | enablingInterrupts =>
      exact ⟨69, enablingInterruptsText.tail.dropLast, by decide, by decide +kernel, rfl⟩
  obtain ⟨hx₁, hy₁, hmem₁⟩ := putc_low hx hy hc
  obtain ⟨-, hy₂, hmem₂⟩ := printf_low hline hx₁ hy₁
  -- the line end does not scroll, but it is only one
  have hend : printf s m.text =
      { printf (putc s c) line with
        screenX := 0, screenY := (printf (putc s c) line).screenY + 1 } := by
    rw [htext, printf, List.foldl_append]
    show putc (printf (putc s c) line) newline = _
    rw [putc, if_pos (.inl rfl)]
  rw [hend]
  refine ⟨show (0 : Int) ≤ maxInt8 by decide, ?_, hmem₁.trans hmem₂⟩
  simp only [numRows, maxInt8] at hy₂ ⊢
  omega

/-! ### The events of the consoles -/

/-- What an event of the consoles keeps. -/
structure DrawsLow (tty tty' : Tty) : Prop where
  keep : CursorLow tty → CursorLow tty' ∧ SameFrames tty.screen.mem tty'.screen.mem

namespace DrawsLow

theorem trans {tty tty₁ tty' : Tty} (h : DrawsLow tty tty₁) (h' : DrawsLow tty₁ tty') :
    DrawsLow tty tty' := by
  refine ⟨fun hlow => ?_⟩
  obtain ⟨hlow₁, hmem⟩ := h.keep hlow
  obtain ⟨hlow', hmem'⟩ := h'.keep hlow₁
  exact ⟨hlow', hmem.trans hmem'⟩

/-- A screen that keeps the bounds, on other fields of the keyboard. -/
theorem ofScreen {tty : Tty} {s : Screen} {kb : Keyboard}
    (h : tty.screen.screenX ≤ maxInt8 → tty.screen.screenY ≤ maxInt8 →
      s.screenX ≤ maxInt8 ∧ s.screenY ≤ maxInt8 ∧ SameFrames tty.screen.mem s.mem) :
    DrawsLow tty { tty with screen := s, keyboard := kb } := by
  refine ⟨fun hlow => ?_⟩
  obtain ⟨hx, hy, hmem⟩ := h hlow.screenX hlow.screenY
  exact ⟨⟨hx, hy, hlow.xPosition, hlow.yPosition, hlow.vidBuf⟩, hmem⟩

theorem ofKeyboard (tty : Tty) (kb : Keyboard) : DrawsLow tty { tty with keyboard := kb } :=
  ofScreen fun hx hy => ⟨hx, hy, fun _ _ => rfl⟩

/-- A terminal whose cursor keeps the bounds, on its page. -/
theorem ofTerminal {tty : Tty} {t : Nat} {term : Terminal} (hx : term.xPosition ≤ maxInt8)
    (hy : term.yPosition ≤ maxInt8) (hbuf : term.vidBuf = (tty.terminals t).vidBuf) :
    DrawsLow tty (tty.setTerminal t term) := by
  refine ⟨fun hlow => ?_⟩
  -- only terminal `t` has a new record
  have hterm : ∀ u, (tty.setTerminal t term).terminals u = term ∧ u = t ∨
      (tty.setTerminal t term).terminals u = tty.terminals u := by
    intro u
    by_cases hu : u = t
    · subst hu
      exact .inl ⟨Function.update_self .., rfl⟩
    · exact .inr (Function.update_of_ne hu ..)
  refine ⟨⟨hlow.screenX, hlow.screenY, fun u => ?_, fun u => ?_, fun u => ?_⟩, fun _ _ => rfl⟩
  all_goals rcases hterm u with ⟨heq, rfl⟩ | heq
  all_goals rw [heq]
  · exact hx
  · exact hlow.xPosition u
  · exact hy
  · exact hlow.yPosition u
  · exact hbuf ▸ hlow.vidBuf u
  · exact hlow.vidBuf u

/-- A terminal that keeps its cursor, with other fields of the keyboard. -/
theorem ofLine {tty : Tty} {kb : Keyboard} {t : Nat} {term : Terminal}
    (hx : term.xPosition = (tty.terminals t).xPosition)
    (hy : term.yPosition = (tty.terminals t).yPosition)
    (hbuf : term.vidBuf = (tty.terminals t).vidBuf) :
    DrawsLow tty ({ tty with keyboard := kb }.setTerminal t term) := by
  refine ⟨fun hlow => ?_⟩
  have hterm :
      DrawsLow { tty with keyboard := kb } ({ tty with keyboard := kb }.setTerminal t term) :=
    ofTerminal (hx ▸ hlow.xPosition t) (hy ▸ hlow.yPosition t) hbuf
  exact ((ofKeyboard tty kb).trans hterm).keep hlow

theorem clearScreen_low (s : Screen) : SameFrames s.mem (clearScreen s).mem := by
  intro x hx
  refine if_neg ?_
  simp only [eightMB, video, numRows, numCols] at hx ⊢
  omega

/-- `clear_screen`. -/
theorem clear (tty : Tty) : DrawsLow tty { tty with screen := clearScreen tty.screen } :=
  ofScreen fun _ _ =>
    ⟨show (0 : Int) ≤ maxInt8 by decide, show (0 : Int) ≤ maxInt8 by decide, clearScreen_low _⟩

/-- `output_keyvalue` echoes the key, or clears the screen. -/
theorem outputKeyvalue (tty : Tty) (code : Nat) :
    DrawsLow tty (LinuxLikeOs.outputKeyvalue tty code) := by
  unfold LinuxLikeOs.outputKeyvalue
  dsimp only
  -- printable keys draw one letter, the others change the line or clear the screen
  split_ifs
  · exact ofScreen fun hx hy => specialPutc_low hx hy _ _
  · exact ofScreen fun hx hy => specialPutc_low hx hy _ _
  · exact ofKeyboard ..
  · exact ofKeyboard ..
  · exact ofKeyboard ..
  · exact ofKeyboard ..
  · exact clear tty
  · exact ofScreen fun hx hy => specialPutc_low hx hy _ _
  · exact ofScreen fun hx hy => specialPutc_low hx hy _ _
  · exact ofKeyboard ..

/-- Enter saves the line of the displayed terminal. -/
theorem saveLine (tty : Tty) : DrawsLow tty (LinuxLikeOs.saveLine tty) := ofLine rfl rfl rfl

theorem handleKey (tty : Tty) (code : Nat) : DrawsLow tty (LinuxLikeOs.handleKey tty code) := by
  unfold LinuxLikeOs.handleKey
  dsimp only
  split_ifs
  · exact (ofKeyboard ..).trans (outputKeyvalue ..)
  · exact (ofKeyboard ..).trans (outputKeyvalue ..)
  · exact (ofKeyboard ..).trans (outputKeyvalue ..)
  · exact (ofKeyboard ..).trans (outputKeyvalue ..)
  · exact (saveLine tty).trans (outputKeyvalue ..)
  · exact outputKeyvalue ..
  · exact ofKeyboard ..

/-- `memcpy` to a text page. -/
theorem copyPage_low (mem : Memory) {dst : Int} (hdst : dst ≤ terminal2Buffer) (src : Int) :
    SameFrames mem (copyPage mem dst src) := by
  intro x hx
  refine if_neg ?_
  simp only [eightMB, terminal2Buffer, fourKB] at hx hdst ⊢
  omega

theorem switchDisplay (tty : Tty) (n : Nat) :
    DrawsLow tty (LinuxLikeOs.switchDisplay tty n) := by
  refine ⟨fun hlow => ?_⟩
  let saved := tty.setTerminal tty.curDisplayTid (savedTerminal tty)
  have hsaved : DrawsLow tty saved := ofTerminal (toInt8_le _) (toInt8_le _) rfl
  obtain ⟨hlow', -⟩ := hsaved.keep hlow
  refine ⟨⟨toInt8_le _, toInt8_le _, hlow'.xPosition, hlow'.yPosition, hlow'.vidBuf⟩, ?_⟩
  exact (copyPage_low _ (hlow.vidBuf _) video).trans (copyPage_low _ (by decide) _)

theorem terminalSwitch (tty : Tty) (n : Int) :
    DrawsLow tty (LinuxLikeOs.terminalSwitch tty n).2 := by
  unfold LinuxLikeOs.terminalSwitch
  split_ifs
  · exact ofKeyboard tty tty.keyboard
  · exact ofKeyboard tty tty.keyboard
  · exact switchDisplay tty n.toNat

theorem keyboardHandler (tty : Tty) (code : UInt8) :
    DrawsLow tty (LinuxLikeOs.keyboardHandler tty code) := by
  have hreleased := ofKeyboard tty (releaseFlags tty.keyboard code.toNat)
  unfold LinuxLikeOs.keyboardHandler
  dsimp only
  cases switchKey (releaseFlags tty.keyboard code.toNat) code.toNat with
  | some t => exact hreleased.trans (terminalSwitch ..)
  | none => exact hreleased.trans (handleKey ..)

theorem terminalRead {tty : Tty} {t : Nat} {buf : Option Buffer} {nbytes : Int}
    {r : Int × Option Buffer × Tty} (h : LinuxLikeOs.terminalRead tty t buf nbytes = some r) :
    DrawsLow tty r.2.2 := by
  cases buf with
  | none =>
    obtain rfl := Option.some.inj h
    exact ofKeyboard tty tty.keyboard
  | some buf =>
    simp only [LinuxLikeOs.terminalRead] at h
    split_ifs at h
    obtain rfl := Option.some.inj h
    exact ofLine rfl rfl rfl

/-- The loop of a write to the displayed terminal. -/
theorem foreground_low (buf : Buffer) (is : List Nat) {s : Screen} (hx : s.screenX ≤ maxInt8)
    (hy : s.screenY ≤ maxInt8) :
    let out := is.foldl (fun s i => specialPutc s (previousChar buf i) (buf i)) s
    out.screenX ≤ maxInt8 ∧ out.screenY ≤ maxInt8 ∧ SameFrames s.mem out.mem := by
  induction is generalizing s with
  | nil => exact ⟨hx, hy, fun _ _ => rfl⟩
  | cons i is ih =>
    obtain ⟨hx', hy', hmem⟩ := specialPutc_low hx hy (previousChar buf i) (buf i)
    obtain ⟨hx'', hy'', hmem'⟩ := ih hx' hy'
    exact ⟨hx'', hy'', hmem.trans hmem'⟩

/-- The loop of a write to a terminal in the background. -/
theorem background_low (buf : Buffer) (is : List Nat) :
    ∀ (mem : Memory) (term : Terminal), term.xPosition ≤ maxInt8 → term.yPosition ≤ maxInt8 →
      term.vidBuf ≤ terminal2Buffer →
      let out := is.foldl (fun (m : Memory × Terminal) i =>
        terminalSpecialPutc m.1 m.2 (previousChar buf i) (buf i)) (mem, term)
      out.2.xPosition ≤ maxInt8 ∧ out.2.yPosition ≤ maxInt8 ∧ out.2.vidBuf = term.vidBuf ∧
        SameFrames mem out.1 := by
  -- on the letters written; the cursor stays low whatever is drawn
  induction is with
  | nil => exact fun _ _ hx hy _ => ⟨hx, hy, rfl, fun _ _ => rfl⟩
  | cons i is ih =>
    intro mem term hx hy hbuf
    let d := drawing term.xPosition term.yPosition (previousChar buf i) (buf i)
    have hlow : d.Low := drawing_low hx hy _ _
    obtain ⟨hx', hy', hbuf', hmem'⟩ :=
      ih (d.onTerminal mem term).1 (d.onTerminal mem term).2 hlow.x hlow.y hbuf
    rw [List.foldl_cons, terminalSpecialPutc_eq]
    exact ⟨hx', hy', hbuf', (hlow.edit.sameFrames hbuf mem).trans hmem'⟩

theorem terminalWrite (tty : Tty) (t : Nat) (buf : Option Buffer) (nbytes : Int) :
    DrawsLow tty (LinuxLikeOs.terminalWrite tty t buf nbytes).2 := by
  cases buf with
  | none => exact ofKeyboard tty tty.keyboard
  | some buf =>
    simp only [LinuxLikeOs.terminalWrite]
    -- the displayed terminal draws on video memory, another one on its buffer page
    split_ifs
    · exact ofScreen fun hx hy => foreground_low buf _ hx hy
    · refine ⟨fun hlow => ?_⟩
      let out := (List.range nbytes.toNat).foldl (fun (m : Memory × Terminal) i =>
        terminalSpecialPutc m.1 m.2 (previousChar buf i) (buf i))
        (tty.screen.mem, tty.terminals t)
      obtain ⟨hx, hy, hbuf, hmem⟩ := background_low buf (List.range nbytes.toNat)
        tty.screen.mem (tty.terminals t) (hlow.xPosition t) (hlow.yPosition t) (hlow.vidBuf t)
      have hscreen : DrawsLow tty { tty with screen := { tty.screen with mem := out.1 } } :=
        ofScreen fun hx hy => ⟨hx, hy, hmem⟩
      exact (hscreen.trans (ofTerminal hx hy hbuf)).keep hlow

end DrawsLow

/-- **Every event of the consoles** keeps the bounds and leaves the frames alone. -/
theorem consoleStep_low {tty tty' : Tty} {e : ConsoleEvent}
    (hstep : consoleStep tty e = some tty') :
    DrawsLow tty tty' := by
  -- messages and `clear` draw with `putc`, terminal events with `special_putc`
  cases e with
  | message m =>
    obtain rfl := Option.some.inj hstep
    exact DrawsLow.ofScreen fun hx hy => message_low hx hy m
  | clear =>
    obtain rfl := Option.some.inj hstep
    exact .clear tty
  | tty e =>
    cases e with
    | key code =>
      obtain rfl := Option.some.inj hstep
      exact .keyboardHandler ..
    | switch n =>
      obtain rfl := Option.some.inj hstep
      exact .terminalSwitch ..
    | read t buf nbytes =>
      simp only [consoleStep, ttyStep] at hstep
      split_ifs at hstep
      obtain ⟨r, hr, rfl⟩ := Option.map_eq_some_iff.mp hstep
      exact .terminalRead hr
    | write t buf nbytes =>
      simp only [consoleStep, ttyStep] at hstep
      split_ifs at hstep
      obtain rfl := Option.some.inj hstep
      exact .terminalWrite ..

/-- **Every event of the kernel** keeps the bounds and leaves the frames alone. -/
theorem kernelStep_low {k k' : Kernel} {e : KernelEvent}
    (hterm : k.currPcb.terminalNumber < terminalTotalNum) (hstep : kernelStep k e = some k') :
    DrawsLow k.tty k'.tty := by
  refine ⟨fun hlow => ?_⟩
  have hconsole : CursorLow k.tty.console :=
    ⟨hlow.screenX, hlow.screenY, hlow.xPosition, hlow.yPosition, hlow.vidBuf⟩
  obtain ⟨hlow', hmem⟩ := exec_invariant
    (I := fun tty => CursorLow tty ∧ SameFrames k.tty.screen.mem tty.screen.mem)
    (fun tty e tty' h hone =>
      have hnext := (consoleStep_low hone).keep h.1
      ⟨hnext.1, h.2.trans hnext.2⟩)
    ⟨hconsole, fun _ _ => rfl⟩ (kernelStep_console hterm hstep)
  exact ⟨⟨hlow'.screenX, hlow'.screenY, hlow'.xPosition, hlow'.yPosition, hlow'.vidBuf⟩, hmem⟩

/-! ## The machine -/

/-- An event of the kernel, `launch_tests`, or a byte that the running process stores, or the kernel
    for it. -/
inductive MachineEvent where
  | event (e : KernelEvent)
  | launchTests
  | store (user : Bool) (addr : Nat) (b : UInt8)

/-- The calls that store in the memory of the program, through the pointer that it gives: their
    bytes are stores of the kernel for it. -/
def KernelEvent.StoresForCaller : KernelEvent → Prop
  | .read .. | .getargs .. | .vidmap _ => True
  | .tick .. | .key _ | .rtcInterrupt | .switch _ | .execute .. | .halt .. | .write .. | .open _
  | .close _ => False

instance : DecidablePred KernelEvent.StoresForCaller
  | .read .. | .getargs .. | .vidmap _ => isTrue trivial
  | .tick .. | .key _ | .rtcInterrupt | .switch _ | .execute .. | .halt .. | .write .. | .open _
  | .close _ => isFalse id

namespace Kernel

/-- Physical memory, where the consoles draw and the processes have their frames. -/
def mem (k : Kernel) : Memory := k.tty.screen.mem

/-- The kernel with another memory. -/
def withMem (k : Kernel) (mem : Memory) : Kernel :=
  { k with tty := { k.tty with screen := { k.tty.screen with mem := mem } } }

/-- The file whose program an event starts. -/
def startedFile (k : Kernel) : KernelEvent → Option CString
  | .execute command stack _ =>
    if (k.spawned command stack).isSome then command.map fun command => (parseCommand command).1
    else none
  | .halt _ stack _ =>
    -- a root shell is started again
    if k.currPid = k.currParentPid ∧ k.checkExecutable shellName stack = true then some shellName
    else none
  | .tick stack _ =>
    if k.shellTid ≤ 2 ∧ (k.tty.terminals k.shellTid).curPid = -1 ∧
        (k.spawned (some shellName) stack).isSome = true then some shellName
    else none
  | .key _ | .rtcInterrupt | .switch _ | .read .. | .write .. | .open _ | .close _ | .getargs ..
  | .vidmap _ => none

/-- `read_data(dentry.num_inode, 0, virtual_target, Maximum_file_length)`: the bytes of the file
    go through the tables that have just been set; `none` when one of them faults. -/
def loadFile (a : TableAddresses) (k : Kernel) (fileName : CString) : Option Kernel :=
  match k.image.readDentryByName (some fileName) with
  | none => some k
  | some dentry =>
    let (count, buf) :=
      k.image.readData dentry.numInode 0 (some fun _ => 0) maximumFileLength
    (storeBytes (k.pageTables a) false k.mem virtualTarget (buf.getD fun _ => 0) count.toNat).map
      k.withMem

/-- One event of the machine; `none` for a page fault, whose handler never returns.  A store goes
    to `mem` only: the variables of the kernel, in its own page, are fields of the state. -/
def machineStep (a : TableAddresses) (k : Kernel) : MachineEvent → Option Kernel
  | .event e =>
    (startupStep k e).bind fun k' =>
      match k.startedFile e with
      | none => some k'
      | some fileName => k'.loadFile a fileName
  | .launchTests => entryStep k .launchTests
  | .store user addr b => (storeByte (k.pageTables a) user k.mem addr b).map k.withMem

/-- The frames of the processes lie above the text pages. -/
theorem frame_above (p i : Nat) : (eightMB : Int) ≤ (processFrame p + i : Nat) := by
  simp only [processFrame]
  omega

/-- What every event of the machine keeps. -/
structure MachineOk (a : TableAddresses) (img : Image) (k : Kernel) : Prop where
  mapped : k.WellMapped
  maps : (entry a img).Remaps k
  low : CursorLow k.tty

variable {a : TableAddresses} {img : Image} {k k' : Kernel}

theorem MachineOk.withMem (h : k.MachineOk a img) (mem : Memory) :
    (k.withMem mem).MachineOk a img where
  mapped := h.mapped.withScreen _
  maps := ⟨h.maps.addr, h.maps.directory, h.maps.vidEntry, h.maps.table⟩
  low := ⟨h.low.screenX, h.low.screenY, h.low.xPosition, h.low.yPosition, h.low.vidBuf⟩

/-- Where an access can go: to the frame of the running process, to a text page, or, for the
    supervisor, to the kernel's own page. -/
theorem MachineOk.reaches (h : k.MachineOk a img) {acc : Access} {addr phys : Nat}
    (htranslate : translate (k.pageTables a) acc addr = some phys) :
    (processFrame k.currPid ≤ phys ∧ phys < processFrame k.currPid + fourMB) ∨
      (∃ base ∈ textBases, base ≤ phys ∧ phys < base + 2 ^ 12) ∨
      acc.user = false ∧ fourMB ≤ phys ∧ phys < eightMB := by
  obtain ⟨page, hpage, hspace⟩ := h.mapped.translate_eq h.maps
  rw [hspace, addressSpace] at htranslate
  -- one case for each region of the abstract address space
  split_ifs at htranslate with hprogram hvideo hkernel
  · -- the program area goes to the frame of the running process
    obtain ⟨frame, hframe, rfl⟩ := Option.map_eq_some_iff.mp htranslate
    unfold programFrame at hframe
    split_ifs at hframe
    obtain rfl := Option.some.inj hframe
    left
    simp only [programImage, oneThirtyTwoMB, fourMB] at hprogram ⊢
    omega
  · -- the page of `vidmap` is a text page
    obtain ⟨base, hbase, rfl⟩ := Option.map_eq_some_iff.mp htranslate
    refine .inr (.inl ⟨base, hpage base hbase, ?_⟩)
    omega
  · -- only the kernel reaches its own page; the text pages are reached under their own address
    obtain rfl := Option.some.inj htranslate
    obtain ⟨huser, hin | hmem⟩ := hkernel
    · exact .inr (.inr ⟨huser, hin⟩)
    · refine .inr (.inl ⟨_, hmem, ?_⟩)
      omega

/-- No access goes to the frame of another process. -/
theorem MachineOk.spares (h : k.MachineOk a img) {p : Nat} (hp : k.currPid ≠ p) {acc : Access}
    {addr phys : Nat} (htranslate : translate (k.pageTables a) acc addr = some phys) {i : Nat}
    (hi : i < fourMB) : processFrame p + i ≠ phys := by
  have htext : ∀ base ∈ textBases, base + 2 ^ 12 ≤ eightMB := by decide
  -- frames of different processes do not overlap, and all lie above 8 MB
  rcases h.reaches htranslate with hown | ⟨base, hbase, hin⟩ | ⟨-, hkernel⟩
  · rcases Nat.lt_or_gt_of_ne hp with hlt | hlt
    · have hapart := processFrame_disjoint hlt
      omega
    · have hapart := processFrame_disjoint hlt
      omega
  · have hlow := htext base hbase
    simp only [processFrame]
    omega
  · simp only [processFrame]
    omega

/-- An event keeps the machine in order. -/
theorem MachineOk.event (h : k.MachineOk a img) {e : KernelEvent} (hquiet : k.NoEarlyProgram e)
    (hstep : startupStep k e = some k') :
    k'.MachineOk a img ∧ SameFrames k.mem k'.mem := by
  have hkernel := (startupStep_eq_some hstep).2
  obtain ⟨hlow, hmem⟩ := (kernelStep_low h.mapped.onTerminal.terminal hkernel).keep h.low
  exact ⟨⟨h.mapped.step hquiet hstep, h.maps.trans (kernelStep_remaps hkernel), hlow⟩, hmem⟩

/-- `launch_tests` clears the screen. -/
theorem MachineOk.launchTests (h : k.MachineOk a img)
    (hstep : entryStep k .launchTests = some k') :
    k'.MachineOk a img ∧ SameFrames k.mem k'.mem := by
  have hmapped := h.mapped.entryStep (e := .launchTests) trivial hstep
  simp only [entryStep] at hstep
  split_ifs at hstep
  obtain rfl := Option.some.inj hstep
  obtain ⟨hlow, hmem⟩ := (DrawsLow.clear k.tty).keep h.low
  exact ⟨⟨hmapped, ⟨h.maps.addr, h.maps.directory, h.maps.vidEntry, h.maps.table⟩, hlow⟩, hmem⟩

/-- Loading a program stores in the frame of its process. -/
theorem MachineOk.loadFile (h : k.MachineOk a img) {fileName : CString}
    (hload : k.loadFile a fileName = some k') :
    k'.MachineOk a img ∧ ∀ p, k.currPid ≠ p → ∀ i < fourMB,
      k'.mem (processFrame p + i : Nat) = k.mem (processFrame p + i : Nat) := by
  unfold Kernel.loadFile at hload
  -- `read_data` stores through the new process's page tables, so only its frame changes
  cases hentry : k.image.readDentryByName (some fileName) with
  | none =>
    rw [hentry] at hload
    obtain rfl := Option.some.inj hload
    exact ⟨h, fun _ _ _ _ => rfl⟩
  | some dentry =>
    rw [hentry] at hload
    obtain ⟨mem, hstores, rfl⟩ := Option.map_eq_some_iff.mp hload
    refine ⟨h.withMem mem, fun p hp i hi => storeBytes_of_unmapped hstores ?_⟩
    intro v phys htranslate heq
    exact h.spares hp htranslate hi (Int.ofNat_inj.mp heq)

end Kernel

/-! ## Runs of the machine -/

/-- The start-up condition, and the kernel stores nothing in its own page: `read` and `getargs`
    check the buffer that the program gives for `NULL` only, so that a program that gives an address
    from 4 MB to 8 MB has the kernel overwrite itself. -/
def Kernel.QuietEvent (k : Kernel) : MachineEvent → Prop
  | .event e => k.NoEarlyProgram e
  | .launchTests => True
  | .store user addr _ => user = true ∨ ¬ (fourMB ≤ addr ∧ addr < eightMB)

/-- Process `p` stores nothing in this event, makes no call that stores for it, and is not
    started. -/
def Kernel.Spares (p : Nat) (k : Kernel) : MachineEvent → Prop
  | .event e =>
    (k.currPid = p → ¬ e.StoresForCaller) ∧
      ((k.startedFile e).isSome = true → ∀ k', kernelStep k e = some k' → k'.currPid ≠ p)
  | .launchTests => True
  | .store .. => k.currPid ≠ p

instance decidableSpares (p : Nat) (k : Kernel) : ∀ e, Decidable (k.Spares p e)
  | .event e =>
    decidable_of_iff ((k.currPid = p → ¬ e.StoresForCaller) ∧
        ((k.startedFile e).isSome = true → (kernelStep k e).map Kernel.currPid ≠ some p)) <| by
      simp [Kernel.Spares]
  | .launchTests => inferInstanceAs (Decidable True)
  | .store .. => inferInstanceAs (Decidable (k.currPid ≠ p))

/-- **One event of the machine**. -/
theorem Kernel.MachineOk.step {a : TableAddresses} {img : Image} {k k' : Kernel} {e : MachineEvent}
    (h : k.MachineOk a img) (hquiet : k.QuietEvent e) (hstep : k.machineStep a e = some k') :
    k'.MachineOk a img ∧ ∀ p, k.Spares p e → ∀ i < fourMB,
      k'.mem (processFrame p + i : Nat) = k.mem (processFrame p + i : Nat) := by
  -- a store, the tests at start-up, or an event with the file it loads
  cases e with
  | store user addr b =>
    obtain ⟨mem, hstore, rfl⟩ := Option.map_eq_some_iff.mp hstep
    refine ⟨h.withMem mem, fun p hp i hi => storeByte_of_unmapped hstore ?_⟩
    intro phys htranslate heq
    exact h.spares hp htranslate hi (Int.ofNat_inj.mp heq)
  | launchTests =>
    obtain ⟨hok, hframes⟩ := h.launchTests hstep
    exact ⟨hok, fun p _ i _ => hframes _ (frame_above p i)⟩
  | event e =>
    obtain ⟨k₁, hevent, hload⟩ := Option.bind_eq_some_iff.mp hstep
    obtain ⟨hok, hframes⟩ := h.event hquiet hevent
    -- what the event itself draws lies below all frames
    have hconsole : ∀ p i,
        k₁.mem (processFrame p + i : Nat) = k.mem (processFrame p + i : Nat) :=
      fun p i => hframes _ (frame_above p i)
    cases hfile : k.startedFile e with
    | none =>
      rw [hfile] at hload
      obtain rfl := Option.some.inj hload
      exact ⟨hok, fun p _ i _ => hconsole p i⟩
    | some fileName =>
      rw [hfile] at hload
      obtain ⟨hok', hrest⟩ := hok.loadFile hload
      refine ⟨hok', fun p hp i hi => ?_⟩
      -- the file goes to the frame of the process just started, which `Spares` says is not `p`
      have hother := hp.2 (by rw [hfile]; rfl) k₁ (startupStep_eq_some hevent).2
      exact (hrest p hother i hi).trans (hconsole p i)

/-- The cursors of `init_terminal` are in the corner. -/
theorem cursorLow_initTerminal : CursorLow (initTerminal zeroTty) := by
  -- `terminal_init` puts every cursor in the corner and gives three terminals their pages
  have hterm : ∀ t, ((initTerminal zeroTty).terminals t).xPosition = 0 ∧
      ((initTerminal zeroTty).terminals t).yPosition = 0 ∧
      ((initTerminal zeroTty).terminals t).vidBuf ≤ terminal2Buffer := by
    intro t
    simp only [initTerminal]
    split_ifs with ht
    · refine ⟨rfl, rfl, ?_⟩
      simp only [terminalTotalNum] at ht
      obtain rfl | rfl | rfl : t = 0 ∨ t = 1 ∨ t = 2 := by omega
      all_goals decide
    · exact ⟨rfl, rfl, show (0 : Int) ≤ terminal2Buffer by decide⟩
  constructor
  case screenX | screenY => exact show (0 : Int) ≤ maxInt8 by decide
  case xPosition => exact fun t => (hterm t).1 ▸ show (0 : Int) ≤ maxInt8 by decide
  case yPosition => exact fun t => (hterm t).2.1 ▸ show (0 : Int) ≤ maxInt8 by decide
  case vidBuf => exact fun t => (hterm t).2.2

/-- The machine when `entry` enables the interrupts. -/
theorem machineOk_entry (a : TableAddresses) {img : Image} (hshell : img.HoldsShell) :
    (Kernel.entry a img).MachineOk a img := by
  have hmessage : consoleStep (initTerminal zeroTty) (.message .enablingInterrupts) =
      some (Kernel.entry a img).tty := rfl
  have hlow := (consoleStep_low hmessage).keep cursorLow_initTerminal
  exact ⟨.entry a hshell, .refl _, hlow.1⟩

/-- A run of the machine keeps it in order. -/
theorem machineOk_of_run {a : TableAddresses} {img : Image} (hshell : img.HoldsShell)
    {es : List MachineEvent}
    (hquiet : EachStep (Kernel.machineStep a) Kernel.QuietEvent (.entry a img) es) {k : Kernel}
    (hrun : exec (Kernel.machineStep a) (.entry a img) es = some k) : k.MachineOk a img :=
  exec_invariant_of_eachStep (fun _ _ _ h hC hstep => (h.step hC hstep).1)
    (machineOk_entry a hshell) hquiet hrun

/-- The tick that starts the first shell. -/
def firstTick : MachineEvent := .event (.tick (fun _ => 0) ⟨0, 0⟩)

end LinuxLikeOs
