import LinuxLikeOs.SystemCall

/-!
# Scheduling

`scheduling.c`, the part of `terminal_switch` that remaps the user video page, and the
events of the kernel: interrupts, and the system calls of the running process.
-/

namespace LinuxLikeOs

namespace Kernel

/-! ## `terminal_switch` and the keyboard interrupt -/

/-- `terminal_switch`. -/
def terminalSwitch (k : Kernel) (terminalNumber : Int) : Int × Kernel :=
  if terminalNumber < 0 ∨ terminalNumber > terminalMaxNum then (-1, k)
  else if terminalNumber = k.tty.curDisplayTid then (0, k)
  else
    let k := { k with tty := switchDisplay k.tty terminalNumber.toNat }
    -- the running process draws on the screen only if its terminal is the one shown now
    (0,
      if (k.currPid : Int) = (k.tty.terminals k.tty.curDisplayTid).curPid then
        k.vidRemapping video
      else k.vidRemapping k.currTerminal.vidBuf)

/-- `keyboard_handler`. -/
def keyboardHandler (k : Kernel) (code : UInt8) : Kernel :=
  let k := { k with tty := { k.tty with keyboard := releaseFlags k.tty.keyboard code.toNat } }
  match switchKey k.tty.keyboard code.toNat with
  | some t => (k.terminalSwitch t).2
  | none => { k with tty := handleKey k.tty code.toNat }

/-! ## `scheduling.c` -/

/-- `reschedule`: the next terminal, and the process on it. -/
def reschedule (k : Kernel) : Int × Kernel :=
  let k := { k with nextSchedTid := (k.activeTid + 1) % terminalTotalNum }
  ((k.tty.terminals k.nextSchedTid).curPid, k)

/-- `process_switch`.  `regs` are the stack registers that it saves. -/
def processSwitch (k : Kernel) (nextPid : Int) (stack : Buffer) (regs : Context) : Kernel :=
  if k.shellTid ≤ 2 then
    -- only while the shells are started
    let k := k.modifyPcb (nextPid - 1).toNat fun pcb => { pcb with own := regs }
    (k.execute (some shellName) stack regs).2
  else
    let next := nextPid.toNat
    let cur := k.currPid
    let k :=
      if k.tty.curDisplayTid = k.nextSchedTid then k.vidMapping
      else k.vidRemapping (k.tty.terminals k.nextSchedTid).vidBuf
    let k := k.mapProcess programImage (processFrame next)
    let k :=
      { k with
        currPid := next
        currParentPid := (k.pcbArray next).parentPid
        tssEsp0 := kernelStack next
        activeTid := k.nextSchedTid }
    -- the registers are saved last, in the PCB of the process that is left
    let k := k.modifyPcb cur fun pcb => { pcb with own := regs }
    { k with context := (k.pcbArray next).own }

/-- `pit_handler`. -/
def pitHandler (k : Kernel) (stack : Buffer) (regs : Context) : Kernel :=
  if k.shellTid ≤ 2 then
    -- one tick starts the shell of terminal `shell_tid`, the next one goes on to the next
    let k := { k with activeTid := k.shellTid }
    if (k.tty.terminals k.shellTid).curPid = -1 ∧ k.shellTid = 0 then
      (k.execute (some shellName) stack regs).2
    else if (k.tty.terminals k.shellTid).curPid = -1 then k.processSwitch k.shellTid stack regs
    else { k with shellTid := k.shellTid + 1 }
  else
    let (nextProcess, k) := k.reschedule
    k.processSwitch nextProcess stack regs

end Kernel

/-! ## Events -/

/-- An interrupt, a call of `terminal_switch`, or a system call of the running process.
    `stack` and `regs` are the stack bytes and registers that the handler finds. -/
inductive KernelEvent where
  | tick (stack : Buffer) (regs : Context)
  | key (code : UInt8)
  | rtcInterrupt
  | switch (terminalNumber : Int)
  | execute (command : Option CString) (stack : Buffer) (regs : Context)
  | halt (exitCode : UInt8) (stack : Buffer) (regs : Context)
  | read (fd : Int) (buf : Option Buffer) (nbytes : Int)
  | write (fd : Int) (buf : Option Buffer) (nbytes : Int)
  | «open» (filename : Option CString)
  | close (fd : Int)
  | getargs (buf : Option Buffer) (nbytes : Int)
  | vidmap (screenStart : UInt32)

/-- One event; `none` for a call that still waits or that calls through a pointer that is no
    table. -/
def kernelStep (k : Kernel) : KernelEvent → Option Kernel
  | .tick stack regs => some (k.pitHandler stack regs)
  | .key code => some (k.keyboardHandler code)
  | .rtcInterrupt => some k.rtcHandler
  | .switch n => some (k.terminalSwitch n).2
  | .execute command stack regs => some (k.execute command stack regs).2
  | .halt exitCode stack regs => (k.halt exitCode stack regs).map Prod.snd
  | .read fd buf nbytes => (k.read fd buf nbytes).kernel?
  | .write fd buf nbytes => (k.write fd buf nbytes).kernel?
  | .open filename => (k.open filename).kernel?
  | .close fd => (k.close fd).kernel?
  | .getargs .. => some k
  | .vidmap screenStart => some (k.vidmap screenStart).2

end LinuxLikeOs
