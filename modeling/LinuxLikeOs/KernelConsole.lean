import LinuxLikeOs.Library.Refinement
import LinuxLikeOs.AddressSpace

/-!
# The consoles under the kernel

The terminals and the keyboard were modelled on their own, with reads and writes of terminal
numbers.  The kernel drives them: a system call reaches them through the descriptor of the running
process, and `open` prints its messages between.

- `Tty.console`: the terminals without the processes that hold them
- `Kernel.consoleEvents`: what an event of the kernel does to the consoles
- `entryStep`: what can happen when `entry` has enabled the interrupts
- `kernel_refines_console`: every kernel run is a run of the consoles
-/

namespace LinuxLikeOs

open Library

/-! ## The machine of the consoles -/

/-- The messages of `open` and of `entry`. -/
inductive KernelMessage where
  | fileMissing
  | filenameCheck
  | enablingInterrupts

def KernelMessage.text : KernelMessage → List UInt8
  | .fileMissing => fileMissingText
  | .filenameCheck => filenameCheckText
  | .enablingInterrupts => enablingInterruptsText

/-- An event of the terminals, or what the kernel does to the screen on its own: a message, or
    `clear_screen`. -/
inductive ConsoleEvent where
  | tty (e : TtyEvent)
  | message (m : KernelMessage)
  | clear

/-- One event; `none` for a read that is still waiting. -/
def consoleStep (tty : Tty) : ConsoleEvent → Option Tty
  | .tty e => ttyStep tty e
  | .message m => some { tty with screen := printf tty.screen m.text }
  | .clear => some { tty with screen := clearScreen tty.screen }

/-- A terminal without its process. -/
def Terminal.console (term : Terminal) : Terminal := { term with curPid := 0 }

/-- The terminals without their processes. -/
def Tty.console (tty : Tty) : Tty :=
  { tty with terminals := fun t => (tty.terminals t).console }

/-! ## The terminals do not look at their processes -/

theorem console_setTerminal (tty : Tty) (t : Nat) (term : Terminal) :
    (tty.setTerminal t term).console = tty.console.setTerminal t term.console := by
  have hterms := Function.comp_update Terminal.console tty.terminals t term
  exact congrArg (fun terms => { tty with terminals := terms }) hterms

/-- Storing another process does not show. -/
theorem console_setTerminal_self (tty : Tty) (t : Nat) {term : Terminal}
    (h : term.console = (tty.terminals t).console) :
    (tty.setTerminal t term).console = tty.console := by
  rw [console_setTerminal, h]
  exact congrArg (fun terms => { tty with terminals := terms }) (Function.update_eq_self ..)

theorem console_switchDisplay (tty : Tty) (n : Nat) :
    (switchDisplay tty n).console = switchDisplay tty.console n := by
  have hsaved := console_setTerminal tty tty.curDisplayTid (savedTerminal tty)
  have hnext : (tty.console.setTerminal tty.curDisplayTid (savedTerminal tty).console).terminals n =
      ((tty.setTerminal tty.curDisplayTid (savedTerminal tty)).terminals n).console :=
    congrFun (congrArg Tty.terminals hsaved.symm) n
  -- what is shown are fields of the next terminal other than its process
  show _ = { switchDisplay tty.console n with
    terminals := (tty.console.setTerminal tty.curDisplayTid (savedTerminal tty).console).terminals }
  rw [← hsaved]
  simp only [switchDisplay]
  rw [show savedTerminal tty.console = (savedTerminal tty).console from rfl]
  rw [show tty.console.curDisplayTid = tty.curDisplayTid from rfl, hnext]
  rfl

theorem console_terminalSwitch (tty : Tty) (n : Int) :
    (terminalSwitch tty n).2.console = (terminalSwitch tty.console n).2 := by
  unfold terminalSwitch
  rw [show tty.console.curDisplayTid = tty.curDisplayTid from rfl]
  split_ifs
  · rfl
  · rfl
  · exact console_switchDisplay tty n.toNat

theorem console_saveLine (tty : Tty) : (saveLine tty).console = saveLine tty.console :=
  console_setTerminal { tty with keyboard := _ } tty.curDisplayTid _

theorem console_outputKeyvalue (tty : Tty) (code : Nat) :
    (outputKeyvalue tty code).console = outputKeyvalue tty.console code := by
  unfold outputKeyvalue
  dsimp only [Tty.console]
  split_ifs <;> rfl

theorem console_handleKey (tty : Tty) (code : Nat) :
    (handleKey tty code).console = handleKey tty.console code := by
  unfold handleKey
  dsimp only
  rw [show tty.console.keyboard = tty.keyboard from rfl]
  split_ifs <;> first | rfl | (rw [console_outputKeyvalue, console_saveLine]) |
    exact console_outputKeyvalue ..

theorem console_keyboardHandler (tty : Tty) (code : UInt8) :
    (keyboardHandler tty code).console = keyboardHandler tty.console code := by
  let released : Tty := { tty with keyboard := releaseFlags tty.keyboard code.toNat }
  unfold keyboardHandler
  dsimp only
  rw [show tty.console.keyboard = tty.keyboard from rfl]
  cases switchKey (releaseFlags tty.keyboard code.toNat) code.toNat with
  | some t => exact console_terminalSwitch released t
  | none => exact console_handleKey released code.toNat

theorem console_terminalRead (tty : Tty) (t : Nat) (buf : Option Buffer) (nbytes : Int) :
    (terminalRead tty t buf nbytes).map (fun r => r.2.2.console) =
      (terminalRead tty.console t buf nbytes).map fun r => r.2.2 := by
  cases buf with
  | none => rfl
  | some buf =>
    have hflag : (tty.console.terminals t).enterFlag = (tty.terminals t).enterFlag := rfl
    simp only [terminalRead, hflag]
    split_ifs
    · exact congrArg some (console_setTerminal { tty with keyboard := _ } t _)
    · rfl

theorem console_terminalWrite (tty : Tty) (t : Nat) (buf : Option Buffer) (nbytes : Int) :
    (terminalWrite tty t buf nbytes).2.console = (terminalWrite tty.console t buf nbytes).2 := by
  cases buf with
  | none => rfl
  | some buf =>
    simp only [terminalWrite, show tty.console.curDisplayTid = tty.curDisplayTid from rfl]
    split_ifs
    · rfl
    · -- the loop moves the cursor of the terminal and keeps the rest
      have hloop : ∀ (is : List Nat) (mem : Memory) (term : Terminal),
          is.foldl (fun (m : Memory × Terminal) i =>
            terminalSpecialPutc m.1 m.2 (previousChar buf i) (buf i)) (mem, term.console) =
          let out := is.foldl (fun (m : Memory × Terminal) i =>
            terminalSpecialPutc m.1 m.2 (previousChar buf i) (buf i)) (mem, term)
          (out.1, out.2.console) := by
        intro is
        induction is with
        | nil => exact fun _ _ => rfl
        | cons i is ih =>
          intro mem term
          have hone : terminalSpecialPutc mem term.console (previousChar buf i) (buf i) =
              ((terminalSpecialPutc mem term (previousChar buf i) (buf i)).1,
                (terminalSpecialPutc mem term (previousChar buf i) (buf i)).2.console) := by
            rw [terminalSpecialPutc_eq, terminalSpecialPutc_eq]
            rfl
          rw [List.foldl_cons, List.foldl_cons, hone]
          exact ih ..
      have hend := hloop (List.range nbytes.toNat) tty.screen.mem (tty.terminals t)
      rw [show tty.console.terminals t = (tty.terminals t).console from rfl,
        show tty.console.screen = tty.screen from rfl, hend]
      exact console_setTerminal { tty with screen := _ } t _

/-- **The terminals do not look at their processes**: an event does the same with and without
    them. -/
theorem console_ttyStep (tty : Tty) (e : TtyEvent) :
    (ttyStep tty e).map Tty.console = ttyStep tty.console e := by
  -- what the console leaves out of a terminal, no event looks at
  cases e with
  | key code => exact congrArg some (console_keyboardHandler tty code)
  | switch n => exact congrArg some (console_terminalSwitch tty n)
  | read t buf nbytes =>
    simp only [ttyStep]
    split_ifs
    · rw [Option.map_map]
      exact console_terminalRead tty t buf nbytes
    · rfl
  | write t buf nbytes =>
    simp only [ttyStep]
    split_ifs
    · exact congrArg some (console_terminalWrite tty t buf nbytes)
    · rfl

/-! ## What the kernel does to the consoles -/

namespace Kernel

/-- The descriptor passes the checks of `read` and `write` and has this table. -/
def Reaches (k : Kernel) (fd : Int) (buf : Option Buffer) (ops : FileOperation) : Prop :=
  ¬ (¬ fdPasses fd ∨ buf.isNone = true ∨ (k.currPcb.slot fd.toNat).flags = notUse) ∧
    (k.currPcb.slot fd.toNat).funcPointer = .table ops

instance (k : Kernel) (fd : Int) (buf : Option Buffer) (ops : FileOperation) :
    Decidable (k.Reaches fd buf ops) := inferInstanceAs (Decidable (_ ∧ _))

/-- The message that `open` prints, if any. -/
def openMessage (k : Kernel) (filename : Option CString) : List KernelMessage :=
  match filename with
  | none => [.filenameCheck]
  | some name =>
    if strncmp name.byte stdinName.byte 5 = 0 ∨ strncmp name.byte stdoutName.byte 6 = 0 then []
    else if (k.image.readDentryByName filename).isNone then [.fileMissing]
    else []

/-- What an event does to the consoles. -/
def consoleEvents (k : Kernel) : KernelEvent → List ConsoleEvent
  | .key code => [.tty (.key code)]
  | .switch n => [.tty (.switch n)]
  | .read fd buf nbytes =>
    if k.Reaches fd buf .stdinOp then [.tty (.read k.currPcb.terminalNumber buf nbytes)] else []
  | .write fd buf nbytes =>
    if k.Reaches fd buf .stdoutOp then [.tty (.write k.currPcb.terminalNumber buf nbytes)] else []
  | .open filename => (k.openMessage filename).map .message
  | .tick .. | .rtcInterrupt | .execute .. | .halt .. | .close _ | .getargs .. | .vidmap _ => []

/-! ### Processes that start and end -/

theorem console_setCurPid (k : Kernel) (t pid : Nat) :
    (k.setCurPid t pid).tty.console = k.tty.console := console_setTerminal_self k.tty t rfl

theorem tty_mapVideo (k : Kernel) : k.mapVideo.tty = k.tty := by
  unfold mapVideo
  split_ifs <;> rfl

theorem tty_startProgram (k : Kernel) (args : CString) (regs : Context) :
    (k.startProgram args regs).tty = k.tty :=
  tty_mapVideo _

theorem console_execute (k : Kernel) (command : Option CString) (stack : Buffer)
    (regs : Context) : (k.execute command stack regs).2.tty.console = k.tty.console := by
  rcases k.execute_cases command stack regs with ⟨-, heq⟩ | ⟨p, args, -, -, -, heq⟩
  · rw [heq]
  · rw [heq, tty_startProgram]
    unfold enterChild
    dsimp only
    split_ifs
    · exact console_setCurPid ..
    · exact console_setCurPid ..

theorem console_halt {k : Kernel} {exitCode : UInt8} {stack : Buffer} {regs : Context}
    {r : Outcome × Kernel} (h : k.halt exitCode stack regs = some r) :
    r.2.tty.console = k.tty.console := by
  obtain ⟨k₁, hclose, hcases⟩ := halt_cases h
  have hclosed : k₁.tty = k.tty := by
    obtain ⟨fds, rfl⟩ := closePcb_eq hclose
    rfl
  rcases hcases with ⟨-, -, args, rfl⟩ | ⟨-, rfl⟩
  · rw [tty_startProgram, ← hclosed]
    exact console_setCurPid { k₁ with currParentPid := _ } ..
  · rw [← hclosed]
    exact console_setCurPid { k₁ with currPid := _ } ..

theorem console_pitHandler (k : Kernel) (stack : Buffer) (regs : Context) :
    (k.pitHandler stack regs).tty.console = k.tty.console := by
  by_cases hboot : k.shellTid ≤ 2
  · -- while booting `execute` sets the process of a terminal, which is no part of its console
    rw [pitHandler_boot hboot]
    split_ifs
    · exact console_execute k.chooseShell ..
    · exact console_execute (k.chooseShell.modifyPcb _ _) ..
    · rfl
  · -- after that a tick changes the process and not the terminals
    rw [pitHandler_eq (Nat.lt_of_not_le hboot)]
    have hrun : (k.runNext ((k.activeTid + 1) % terminalTotalNum)).tty = k.tty := by
      unfold runNext
      dsimp only
      split_ifs <;> rfl
    exact congrArg Tty.console hrun

/-! ### The keyboard and the switches -/

theorem tty_terminalSwitch (k : Kernel) (n : Int) :
    (k.terminalSwitch n).2.tty = (LinuxLikeOs.terminalSwitch k.tty n).2 := by
  unfold terminalSwitch LinuxLikeOs.terminalSwitch
  split_ifs
  · rfl
  · rfl
  · dsimp only
    split_ifs <;> rfl

theorem tty_keyboardHandler (k : Kernel) (code : UInt8) :
    (k.keyboardHandler code).tty = LinuxLikeOs.keyboardHandler k.tty code := by
  let released : Kernel :=
    { k with tty := { k.tty with keyboard := releaseFlags k.tty.keyboard code.toNat } }
  unfold keyboardHandler LinuxLikeOs.keyboardHandler
  dsimp only
  cases switchKey (releaseFlags k.tty.keyboard code.toNat) code.toNat with
  | some t => exact tty_terminalSwitch released t
  | none => rfl

/-! ### The calls on descriptors -/

/-- `read` through another table leaves the terminals alone. -/
theorem tty_readEntry {ops : FileOperation} (hops : ops ≠ .stdinOp) (k : Kernel) (fd : Nat)
    (buf : Option Buffer) (nbytes : Int) :
    (ops.read k fd buf nbytes).Keeps fun k' => k'.tty = k.tty := by
  -- only the keyboard's driver reads through the terminal
  cases ops with
  | stdinOp => exact absurd rfl hops
  | rtc =>
    simp only [FileOperation.read, rtcRead]
    split_ifs
    · exact SysResult.keeps_blocked
    · exact SysResult.keeps_ret.mpr rfl
  | file => exact SysResult.keeps_ret.mpr rfl
  | dir =>
    simp only [FileOperation.read, dirRead]
    split
    · exact SysResult.keeps_ret.mpr rfl
    · split_ifs
      · exact SysResult.keeps_ret.mpr rfl
      · split <;> exact SysResult.keeps_ret.mpr rfl
  | stdoutOp => exact SysResult.keeps_ret.mpr rfl

theorem tty_writeEntry {ops : FileOperation} (hops : ops ≠ .stdoutOp) (k : Kernel)
    (buf : Option Buffer) (nbytes : Int) :
    (ops.write k buf nbytes).Keeps fun k' => k'.tty = k.tty := by
  -- only the screen's driver writes to it
  cases ops with
  | stdoutOp => exact absurd rfl hops
  | rtc =>
    refine SysResult.keeps_ret.mpr ?_
    cases buf with
    | none => rfl
    | some buf =>
      simp only
      split_ifs <;> rfl
  | file | dir | stdinOp => exact SysResult.keeps_ret.mpr rfl

theorem tty_openEntry (ops : FileOperation) (k : Kernel) (filename : Option CString) :
    (ops.open k filename).2.tty = k.tty := by
  cases ops with
  | file =>
    simp only [FileOperation.open, fileOpen]
    split <;> rfl
  | rtc | dir | stdinOp | stdoutOp => rfl

theorem tty_closeCall (k : Kernel) (fd : Int) : (k.close fd).Keeps fun k' => k'.tty = k.tty := by
  refine SysResult.keeps_guard rfl fun ops => ?_
  have hclosed : (ops.close k fd.toNat).2.tty = k.tty := by cases ops <;> rfl
  dsimp only
  split_ifs
  · exact SysResult.keeps_ret.mpr hclosed
  · exact SysResult.keeps_ret.mpr hclosed

/-- `read`, for a running process that has a terminal. -/
theorem console_read {k k' : Kernel} (hterm : k.currPcb.terminalNumber < terminalTotalNum)
    {fd : Int} {buf : Option Buffer} {nbytes : Int} (h : (k.read fd buf nbytes).kernel? = some k') :
    exec consoleStep k.tty.console (k.consoleEvents (.read fd buf nbytes)) =
      some k'.tty.console := by
  simp only [consoleEvents]
  unfold Kernel.read at h
  by_cases hrefused : ¬ fdPasses fd ∨ buf.isNone = true ∨
      (k.currPcb.slot fd.toNat).flags = notUse
  · -- a refused call prints nothing and is no event of the console
    rw [if_pos hrefused] at h
    obtain rfl := Option.some.inj h
    rw [if_neg fun hreach => hreach.1 hrefused]
    rfl
  rw [if_neg hrefused] at h
  cases hptr : (k.currPcb.slot fd.toNat).funcPointer with
  | null | address =>
    -- no return, so nothing to show
    rw [hptr] at h
    cases h
  | table ops =>
    rw [hptr] at h
    -- the one entry that reaches the terminal is the event `read` of the console
    by_cases hops : ops = .stdinOp
    · subst hops
      rw [if_pos ⟨hrefused, hptr⟩, exec_singleton]
      have hread := console_terminalRead k.tty k.currPcb.terminalNumber buf nbytes
      simp only [FuncPointer.call, FileOperation.read] at h
      simp only [consoleStep, ttyStep, if_pos hterm, ← hread]
      cases hend : terminalRead k.tty k.currPcb.terminalNumber buf nbytes with
      | none =>
        rw [hend] at h
        cases h
      | some r =>
        rw [hend] at h
        obtain rfl := Option.some.inj h
        rfl
    · have hkeeps : k'.tty = k.tty := tty_readEntry hops k fd.toNat buf nbytes k' h
      rw [if_neg fun hreach => hops (FuncPointer.table.inj (hptr.symm.trans hreach.2)), hkeeps]
      rfl

theorem console_write {k k' : Kernel} (hterm : k.currPcb.terminalNumber < terminalTotalNum)
    {fd : Int} {buf : Option Buffer} {nbytes : Int}
    (h : (k.write fd buf nbytes).kernel? = some k') :
    exec consoleStep k.tty.console (k.consoleEvents (.write fd buf nbytes)) =
      some k'.tty.console := by
  simp only [consoleEvents]
  unfold Kernel.write at h
  by_cases hrefused : ¬ fdPasses fd ∨ buf.isNone = true ∨
      (k.currPcb.slot fd.toNat).flags = notUse
  · rw [if_pos hrefused] at h
    obtain rfl := Option.some.inj h
    -- a refused call is no event of the console
    rw [if_neg fun hreach => hreach.1 hrefused]
    rfl
  rw [if_neg hrefused] at h
  cases hptr : (k.currPcb.slot fd.toNat).funcPointer with
  | null | address =>
    rw [hptr] at h
    -- the jump leaves the kernel
    cases h
  | table ops =>
    rw [hptr] at h
    -- the one entry that reaches the screen is the event `write` of the console
    by_cases hops : ops = .stdoutOp
    · subst hops
      have hend : k'.tty = (terminalWrite k.tty k.currPcb.terminalNumber buf nbytes).2 :=
        congrArg Kernel.tty (Option.some.inj h).symm
      rw [if_pos ⟨hrefused, hptr⟩, exec_singleton, hend, console_terminalWrite]
      exact if_pos hterm
    · have hkeeps : k'.tty = k.tty := tty_writeEntry hops k buf nbytes k' h
      rw [if_neg fun hreach => hops (FuncPointer.table.inj (hptr.symm.trans hreach.2)), hkeeps]
      rfl

theorem console_open {k k' : Kernel} {filename : Option CString}
    (h : (k.open filename).kernel? = some k') :
    exec consoleStep k.tty.console (k.consoleEvents (.open filename)) = some k'.tty.console := by
  simp only [consoleEvents, openMessage]
  cases filename with
  | none =>
    obtain rfl := Option.some.inj h
    rfl
  | some name =>
    simp only [Kernel.open] at h ⊢
    by_cases hin : strncmp name.byte stdinName.byte 5 = 0
    · rw [if_pos hin] at h
      rw [if_pos (.inl hin)]
      obtain rfl := Option.some.inj h
      rfl
    by_cases hout : strncmp name.byte stdoutName.byte 6 = 0
    · rw [if_neg hin, if_pos hout] at h
      rw [if_pos (.inr hout)]
      obtain rfl := Option.some.inj h
      rfl
    rw [if_neg hin, if_neg hout] at h
    rw [if_neg (not_or.mpr ⟨hin, hout⟩)]
    cases hentry : k.image.readDentryByName (some name) with
    | none =>
      rw [hentry] at h
      obtain rfl := Option.some.inj h
      rfl
    | some dentry =>
      -- the rest of `open` prints nothing
      rw [hentry] at h
      suffices hkeeps : k'.tty = k.tty by
        rw [hkeeps]
        rfl
      cases hfree : k.lowestFree with
      | none =>
        rw [hfree] at h
        obtain rfl := Option.some.inj h
        rfl
      | some fd =>
        rw [hfree] at h
        let bound := k.modifyFd k.currPid fd (bindDentry dentry)
        dsimp only at h
        cases hptr : (bound.currPcb.fdArray fd).funcPointer with
        | null | address =>
          rw [hptr] at h
          cases h
        | table ops =>
          rw [hptr] at h
          have hopened : (ops.open bound (some name)).2.tty = k.tty := tty_openEntry ops bound _
          simp only [FuncPointer.call] at h
          split_ifs at h
          · obtain rfl := Option.some.inj h
            exact hopened
          · obtain rfl := Option.some.inj h
            exact hopened

end Kernel

/-- **Every event** of the kernel does to the consoles what its list of console events does. -/
theorem kernelStep_console {k k' : Kernel} {e : KernelEvent}
    (hterm : k.currPcb.terminalNumber < terminalTotalNum) (h : kernelStep k e = some k') :
    exec consoleStep k.tty.console (k.consoleEvents e) = some k'.tty.console := by
  -- the calls that reach a terminal are events of the same name; the others print nothing, and
  -- of a terminal they change at most the process, which is no part of its console
  cases e with
  | tick stack regs =>
    obtain rfl := Option.some.inj h
    exact congrArg some (k.console_pitHandler stack regs).symm
  | key code =>
    obtain rfl := Option.some.inj h
    show exec consoleStep k.tty.console [.tty (.key code)] = _
    rw [exec_singleton, Kernel.tty_keyboardHandler, console_keyboardHandler]
    rfl
  | rtcInterrupt =>
    obtain rfl := Option.some.inj h
    rfl
  | switch n =>
    obtain rfl := Option.some.inj h
    show exec consoleStep k.tty.console [.tty (.switch n)] = _
    rw [exec_singleton, Kernel.tty_terminalSwitch, console_terminalSwitch]
    rfl
  | execute command stack regs =>
    obtain rfl := Option.some.inj h
    exact congrArg some (k.console_execute command stack regs).symm
  | halt exitCode stack regs =>
    obtain ⟨r, hr, rfl⟩ := Option.map_eq_some_iff.mp h
    exact congrArg some (Kernel.console_halt hr).symm
  | read fd buf nbytes => exact Kernel.console_read hterm h
  | write fd buf nbytes => exact Kernel.console_write hterm h
  | «open» filename => exact Kernel.console_open h
  | close fd => exact congrArg (fun tty => some tty.console) (k.tty_closeCall fd k' h).symm
  | getargs buf nbytes =>
    obtain rfl := Option.some.inj h
    rfl
  | vidmap screenStart =>
    obtain rfl := Option.some.inj h
    have hkeeps : (k.vidmap screenStart).2.tty = k.tty := by
      unfold Kernel.vidmap
      split_ifs <;> rfl
    exact congrArg (fun tty => some tty.console) hkeeps.symm

/-! ## Runs -/

/-- What can happen from `sti` on: an event of the kernel, or `launch_tests`. -/
inductive EntryEvent where
  | kernel (e : KernelEvent)
  | launchTests

/-- `entry` goes on only until the timer starts the first program, which never gives the processor
    back to it. -/
def entryStep (k : Kernel) : EntryEvent → Option Kernel
  | .kernel e => startupStep k e
  | .launchTests =>
    if ∀ p < maxProcessNum, k.processArray p = 0 then some k.launchTests else none

namespace Kernel

/-- What it does to the consoles. -/
def entryConsoleEvents (k : Kernel) : EntryEvent → List ConsoleEvent
  | .kernel e => k.consoleEvents e
  | .launchTests => [.clear]

/-- The start-up condition, which is about the programs. -/
def QuietEntry (k : Kernel) : EntryEvent → Prop
  | .kernel e => k.NoEarlyProgram e
  | .launchTests => True

/-- `launch_tests` does not touch what the programs and the pages depend on. -/
theorem WellMapped.entryStep {k k' : Kernel} {e : EntryEvent} (h : k.WellMapped)
    (hquiet : k.QuietEntry e) (hstep : LinuxLikeOs.entryStep k e = some k') : k'.WellMapped := by
  cases e with
  | kernel e => exact h.step hquiet hstep
  | launchTests =>
    simp only [LinuxLikeOs.entryStep] at hstep
    split_ifs at hstep
    obtain rfl := Option.some.inj hstep
    exact h.withScreen _

end Kernel

/-- A well-mapped kernel refines the consoles. -/
theorem refines_console :
    Refines entryStep consoleStep (fun k => k.tty.console) Kernel.entryConsoleEvents
      Kernel.WellMapped := by
  intro k e k' h hstep
  cases e with
  | kernel e => exact kernelStep_console h.onTerminal.terminal (startupStep_eq_some hstep).2
  | launchTests =>
    simp only [entryStep] at hstep
    split_ifs at hstep
    obtain rfl := Option.some.inj hstep
    rfl

/-- **The consoles under the kernel**: in every run from `sti` on, the terminals, the keyboard and
    the screen are in the state that the message of `entry` and the console events of the run lead
    to, whatever processes are started, scheduled and ended between them. -/
theorem kernel_refines_console {a : TableAddresses} {img : Image} (hshell : img.HoldsShell)
    {es : List EntryEvent} (hquiet : EachStep entryStep Kernel.QuietEntry (.entry a img) es)
    {k : Kernel} (hrun : exec entryStep (.entry a img) es = some k) :
    exec consoleStep (initTerminal zeroTty).console
      (.message .enablingInterrupts ::
        traceOf entryStep Kernel.entryConsoleEvents (.entry a img) es) = some k.tty.console := by
  have hmessage : consoleStep (initTerminal zeroTty).console (.message .enablingInterrupts) =
      some (Kernel.entry a img).tty.console := rfl
  refine exec_cons_iff.mpr ⟨_, hmessage, ?_⟩
  exact refines_console.exec (fun _ _ _ h hC hstep => h.entryStep hC hstep) (.entry a hshell)
    hquiet hrun

/-- A key is pressed before `launch_tests` clears the screen; then the shell writes, a key is
    pressed, and a file is missing. -/
def shellAtWork : List EntryEvent :=
  [.kernel (.key 0x1e), .launchTests] ++
    [.tick (fun _ => 0) ⟨0, 0⟩, .write 1 (some fun _ => 65) 3, .key 0x1e, .open (some dotName),
      .tick (fun _ => 0) ⟨0, 0⟩].map .kernel

theorem kernel_refines_console_shell_at_work :
    ∃ k, exec entryStep (Kernel.entry sampleTables shellImage) shellAtWork = some k ∧
      exec consoleStep (initTerminal zeroTty).console
        (.message .enablingInterrupts ::
          traceOf entryStep Kernel.entryConsoleEvents (Kernel.entry sampleTables shellImage)
            shellAtWork) = some k.tty.console := by
  obtain ⟨k, hrun⟩ := Option.isSome_iff_exists.mp (show (exec entryStep
    (Kernel.entry sampleTables shellImage) shellAtWork).isSome = true by decide +kernel)
  have hquiet : EachStep entryStep Kernel.QuietEntry (Kernel.entry sampleTables shellImage)
      shellAtWork :=
    fun _ _ => ⟨trivial, fun _ _ => ⟨trivial, fun _ _ => ⟨trivial, fun _ _ => ⟨trivial,
      fun _ _ => ⟨trivial, fun _ _ => ⟨trivial, fun _ _ => ⟨trivial, trivial⟩⟩⟩⟩⟩⟩⟩
  exact ⟨k, hrun, kernel_refines_console holdsShell_shellImage hquiet hrun⟩

end LinuxLikeOs
