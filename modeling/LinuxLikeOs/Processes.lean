import Mathlib.Tactic.SplitIfs
import LinuxLikeOs.LineInput
import LinuxLikeOs.Scheduling

/-!
# The process table

`ProcessState` is the part of the kernel that `execute`, `halt`, `process_switch` and
`terminal_switch` work on: the process array, the parent, terminal and saved context of
each PCB, the process of each terminal, the running process and its mappings.

- `ProcessState.apply`: one update for each thing that can happen to it
- `processAction`: what an event does to it
- `kernelStep_processes`: the kernel refines this machine, once the boot shells exist
-/

namespace LinuxLikeOs

open Library

/-! ## State and actions -/

/-- The entry that `map_process` writes for a physical frame. -/
def frameEntry (physicalMem : Nat) : Nat := physicalMem ||| readP ||| msize ||| user

/-- The entry that `vid_remapping` writes for a physical page. -/
def vidPageEntry (physicalMem : Int) : Nat := physicalMem.toNat ||| readP ||| user

/-- The page that a process of terminal `t` draws on. -/
def drawingPage (display : Nat) (vidBuf : Nat → Int) (t : Nat) : Int :=
  if t = display then video else vidBuf t

/-- The process table, the process of each terminal and the running process.  The image and
    `shell_tid` stay what they are. -/
@[ext]
structure ProcessState where
  image : Image
  shellTid : Nat
  processArray : Nat → Int
  parentPid : Nat → Nat
  terminalNumber : Nat → Nat
  own : Nat → Context
  curPid : Nat → Int
  vidBuf : Nat → Int
  display : Nat
  currPid : Nat
  currParentPid : Nat
  activeTid : Nat
  esp0 : Int
  frame : Nat
  vidPage : Nat

/-- What can happen to the process table. -/
inductive ProcessAction where
  | tick (regs : Context)
  | switch (t : Nat)
  | spawn (p : Nat)
  | exit
  | restart
  | vidmap
  | other

/-- The process table of a kernel state. -/
def Kernel.processes (k : Kernel) : ProcessState where
  image := k.image
  shellTid := k.shellTid
  processArray := k.processArray
  parentPid p := (k.pcbArray p).parentPid
  terminalNumber p := (k.pcbArray p).terminalNumber
  own p := (k.pcbArray p).own
  curPid t := (k.tty.terminals t).curPid
  vidBuf t := (k.tty.terminals t).vidBuf
  display := k.tty.curDisplayTid
  currPid := k.currPid
  currParentPid := k.currParentPid
  activeTid := k.activeTid
  frame := k.pageDirectory (programImage / fourMB)
  vidPage := k.vidPageTable 0
  esp0 := k.tssEsp0

namespace ProcessState

/-- Load the frame and the kernel stack of process `p`. -/
def enter (s : ProcessState) (p : Nat) : ProcessState :=
  { s with currPid := p, frame := frameEntry (processFrame p), esp0 := kernelStack p }

/-- The effect of an action. -/
def apply (s : ProcessState) : ProcessAction → ProcessState
  | .tick regs =>
    let t := (s.activeTid + 1) % terminalTotalNum
    let p := (s.curPid t).toNat
    { s.enter p with
      own := Function.update s.own s.currPid regs
      currParentPid := s.parentPid p
      activeTid := t
      vidPage := vidPageEntry (drawingPage s.display s.vidBuf t) }
  | .switch t =>
    { s with
      display := t
      vidPage := vidPageEntry
        -- the running process shows if it is the one on the new terminal
        (if (s.currPid : Int) = s.curPid t then video
        else s.vidBuf (s.terminalNumber s.currPid)) }
  | .spawn p =>
    let t := s.terminalNumber s.currPid
    { s.enter p with
      processArray := Function.update s.processArray p 1
      -- `bind_new_pcb` makes process 0 its own parent
      parentPid := Function.update s.parentPid p (if p = 0 then p else s.currPid)
      terminalNumber := Function.update s.terminalNumber p t
      curPid := Function.update s.curPid t p
      currParentPid := s.currPid
      vidPage := vidPageEntry (drawingPage s.display s.vidBuf t) }
  | .exit =>
    -- `close_pcb` has wiped the PCB when the parent is looked up
    let parentPid := Function.update s.parentPid s.currPid 0
    let terminalNumber := Function.update s.terminalNumber s.currPid 255
    let p := s.currParentPid
    { s.enter p with
      processArray := Function.update s.processArray s.currPid 0
      parentPid := parentPid
      terminalNumber := terminalNumber
      curPid := Function.update s.curPid (terminalNumber p) p
      currParentPid := parentPid p }
  | .restart =>
    let p := s.currPid
    { s.enter p with
      processArray := Function.update s.processArray p 1
      parentPid := Function.update s.parentPid p p
      terminalNumber := Function.update s.terminalNumber p p
      curPid := Function.update s.curPid p p
      currParentPid := p
      vidPage := vidPageEntry (drawingPage s.display s.vidBuf p) }
  | .vidmap => { s with vidPage := vidPageEntry video }
  | .other => s

end ProcessState

/-! ## Setters on the process table -/

namespace Kernel

/-- Storing a PCB stores its three fields. -/
theorem processes_modifyPcb (k : Kernel) (p : Nat) (f : Pcb → Pcb) :
    (k.modifyPcb p f).processes =
      { k.processes with
        parentPid := Function.update k.processes.parentPid p (f (k.pcbArray p)).parentPid
        terminalNumber :=
          Function.update k.processes.terminalNumber p (f (k.pcbArray p)).terminalNumber
        own := Function.update k.processes.own p (f (k.pcbArray p)).own } := by
  have hparent := Function.comp_update Pcb.parentPid k.pcbArray p (f (k.pcbArray p))
  have hterminal := Function.comp_update Pcb.terminalNumber k.pcbArray p (f (k.pcbArray p))
  have hown := Function.comp_update Pcb.own k.pcbArray p (f (k.pcbArray p))
  exact ProcessState.ext rfl rfl rfl hparent hterminal hown rfl rfl rfl rfl rfl rfl rfl rfl rfl

/-- A change of the other fields of a PCB does not show. -/
theorem processes_modifyPcb_same (k : Kernel) (p : Nat) (f : Pcb → Pcb)
    (h : ∀ pcb, (f pcb).parentPid = pcb.parentPid ∧
      (f pcb).terminalNumber = pcb.terminalNumber ∧ (f pcb).own = pcb.own) :
    (k.modifyPcb p f).processes = k.processes := by
  obtain ⟨hparent, hterminal, hown⟩ := h (k.pcbArray p)
  rw [processes_modifyPcb, hparent, hterminal, hown]
  exact ProcessState.ext rfl rfl rfl (Function.update_eq_self ..) (Function.update_eq_self ..)
    (Function.update_eq_self ..) rfl rfl rfl rfl rfl rfl rfl rfl rfl

theorem processes_setTerminalNumber (k : Kernel) (p t : Nat) :
    (k.modifyPcb p fun pcb => { pcb with terminalNumber := t }).processes =
      { k.processes with
        terminalNumber := Function.update k.processes.terminalNumber p t } := by
  rw [processes_modifyPcb]
  exact ProcessState.ext rfl rfl rfl (Function.update_eq_self ..) rfl (Function.update_eq_self ..)
    rfl rfl rfl rfl rfl rfl rfl rfl rfl

theorem processes_setOwn (k : Kernel) (p : Nat) (regs : Context) :
    (k.modifyPcb p fun pcb => { pcb with own := regs }).processes =
      { k.processes with own := Function.update k.processes.own p regs } := by
  rw [processes_modifyPcb]
  exact ProcessState.ext rfl rfl rfl (Function.update_eq_self ..) (Function.update_eq_self ..) rfl
    rfl rfl rfl rfl rfl rfl rfl rfl rfl

theorem processes_modifyFd (k : Kernel) (p i : Nat) (f : FileDescriptor → FileDescriptor) :
    (k.modifyFd p i f).processes = k.processes :=
  processes_modifyPcb_same k p _ fun _ => ⟨rfl, rfl, rfl⟩

theorem processes_setCurPid (k : Kernel) (t pid : Nat) :
    (k.setCurPid t pid).processes =
      { k.processes with curPid := Function.update k.processes.curPid t pid } := by
  have hcur := Function.comp_update Terminal.curPid k.tty.terminals t
    { k.tty.terminals t with curPid := pid }
  have hbuf : (fun t' => ((k.setCurPid t pid).tty.terminals t').vidBuf) =
      fun t' => (k.tty.terminals t').vidBuf :=
    (Function.comp_update Terminal.vidBuf k.tty.terminals t
      { k.tty.terminals t with curPid := pid }).trans (Function.update_eq_self ..)
  exact ProcessState.ext rfl rfl rfl rfl rfl rfl hcur hbuf rfl rfl rfl rfl rfl rfl rfl

theorem processes_mapProcess (k : Kernel) (physicalMem : Nat) :
    (k.mapProcess programImage physicalMem).processes =
      { k.processes with frame := frameEntry physicalMem } := by
  have hframe : (k.mapProcess programImage physicalMem).pageDirectory (programImage / fourMB) =
      frameEntry physicalMem := by simp [mapProcess, frameEntry]
  exact ProcessState.ext rfl rfl rfl rfl rfl rfl rfl rfl rfl rfl rfl rfl rfl hframe rfl

theorem processes_vidRemapping (k : Kernel) (physicalMem : Int) :
    (k.vidRemapping physicalMem).processes =
      { k.processes with vidPage := vidPageEntry physicalMem } := by
  have hindex : programImage / fourMB ≠ vidDirectoryIndex := by decide
  have hframe : (k.vidRemapping physicalMem).pageDirectory (programImage / fourMB) =
      k.pageDirectory (programImage / fourMB) := by
    simp [vidRemapping, Function.update_of_ne hindex]
  have hpage : (k.vidRemapping physicalMem).vidPageTable 0 = vidPageEntry physicalMem := by
    simp [vidRemapping, vidPageEntry]
  exact ProcessState.ext rfl rfl rfl rfl rfl rfl rfl rfl rfl rfl rfl rfl rfl hframe hpage

theorem processes_mapVideo (k : Kernel) :
    k.mapVideo.processes =
      { k.processes with
        vidPage := vidPageEntry (drawingPage k.processes.display k.processes.vidBuf
          (k.processes.terminalNumber k.currPid)) } := by
  unfold mapVideo
  by_cases h : k.currPcb.terminalNumber = k.tty.curDisplayTid
  · have hpage : drawingPage k.processes.display k.processes.vidBuf
        (k.processes.terminalNumber k.currPid) = video := if_pos h
    rw [if_pos h, processes_vidRemapping, hpage]
  · have hpage : drawingPage k.processes.display k.processes.vidBuf
        (k.processes.terminalNumber k.currPid) = k.currTerminal.vidBuf := if_neg h
    rw [if_neg h, processes_vidRemapping, hpage]

/-! ## `execute`, `halt` and the scheduler -/

/-- The common half of `execute` and `restart_shell`. -/
theorem processes_startProgram (k : Kernel) (args : CString) (regs : Context) :
    (k.startProgram args regs).processes =
      { k.processes.enter k.currPid with
        parentPid := Function.update k.processes.parentPid k.currPid
          (if k.currPid = 0 then k.currPid else k.currParentPid)
        vidPage := vidPageEntry (drawingPage k.processes.display k.processes.vidBuf
          (k.processes.terminalNumber k.currPid)) } := by
  -- the steps of the source in their order: the PCB, the pages, the descriptors, the TSS
  let bound := k.bindNewPcb k.currPid k.currParentPid
  have hbound : bound.processes =
      { k.processes with
        parentPid := Function.update k.processes.parentPid k.currPid
          (if k.currPid = 0 then k.currPid else k.currParentPid) } := by
    rw [show bound = k.modifyPcb k.currPid _ from rfl, processes_modifyPcb]
    exact ProcessState.ext rfl rfl rfl rfl (Function.update_eq_self ..) (Function.update_eq_self ..)
      rfl rfl rfl rfl rfl rfl rfl rfl rfl
  let saved := bound.modifyPcb k.currPid fun pcb => { pcb with saved := regs }
  have hsaved : saved.processes = bound.processes :=
    processes_modifyPcb_same _ _ _ fun _ => ⟨rfl, rfl, rfl⟩
  let mapped := (saved.mapProcess programImage (processFrame k.currPid)).mapVideo
  have hmapped : mapped.processes =
      { bound.processes with
        frame := frameEntry (processFrame k.currPid)
        vidPage := vidPageEntry (drawingPage bound.processes.display bound.processes.vidBuf
          (bound.processes.terminalNumber k.currPid)) } := by
    have hvideo := processes_mapVideo (saved.mapProcess programImage (processFrame k.currPid))
    rw [processes_mapProcess, hsaved] at hvideo
    exact hvideo
  let filled := mapped.modifyPcb k.currPid fun pcb =>
    { pcb with
      fdArray := fun i => if i < maximumOpenFiles then freeDescriptor else pcb.fdArray i
      argsBuf := strncpy pcb.argsBuf args.byte maximumCommandLength }
  have hfilled : filled.openStdin.openStdout.processes = mapped.processes :=
    ((processes_modifyFd ..).trans (processes_modifyFd ..)).trans
      (processes_modifyPcb_same _ _ _ fun _ => ⟨rfl, rfl, rfl⟩)
  have hstart : (k.startProgram args regs).processes =
      { mapped.processes with esp0 := kernelStack k.currPid } :=
    congrArg (fun s => { s with esp0 := kernelStack k.currPid }) hfilled
  rw [hstart, hmapped, hbound]
  rfl

/-- `create_process` hands out the first free process number. -/
theorem createProcess_some {k k' : Kernel} {p : Nat} (h : k.createProcess = some (p, k')) :
    p < maxProcessNum ∧ k.processArray p = 0 ∧
      k' = { k with processArray := Function.update k.processArray p 1 } := by
  obtain ⟨i, hi, heq⟩ := Option.map_eq_some_iff.mp h
  obtain ⟨rfl, rfl⟩ := Prod.mk.inj heq
  have hmem := List.mem_of_find?_eq_some hi
  have hfree := List.find?_some hi
  exact ⟨List.mem_range.mp hmem, of_decide_eq_true hfree, rfl⟩

/-- The process that `execute` creates, if the checks pass and a process number is free. -/
def spawned (k : Kernel) (command : Option CString) (stack : Buffer) : Option Nat :=
  command.bind fun command =>
    if k.checkExecutable (parseCommand command).1 stack = false then none
    else k.createProcess.map Prod.fst

/-- The state in which `execute` starts the program of process `p`: the parent is the process
    that was running, and the child takes its place on its terminal. -/
def enterChild (k : Kernel) (p : Nat) : Kernel :=
  let k := { k with processArray := Function.update k.processArray p 1 }
  let k := { k with currParentPid := k.currPid, currPid := p }
  if k.shellTid > 2 then
    let t := (k.pcbArray k.currParentPid).terminalNumber
    (k.setCurPid t k.currPid).modifyPcb k.currPid fun pcb => { pcb with terminalNumber := t }
  else
    ({ k.setCurPid k.shellTid k.currPid with currParentPid := k.currPid }).modifyPcb k.currPid
      fun pcb => { pcb with terminalNumber := k.shellTid }

/-- The state in which `restart_shell` starts the shell of terminal `pid`. -/
def enterShell (k : Kernel) (pid : Nat) : Kernel :=
  let k := { k with processArray := Function.update k.processArray pid 1 }
  let k := { k with currParentPid := pid, currPid := pid }
  (k.setCurPid pid pid).modifyPcb pid fun pcb => { pcb with terminalNumber := pid }

/-- `execute`, when its checks fail or no process number is free. -/
theorem execute_of_spawned_none {k : Kernel} {command : Option CString} {stack : Buffer}
    (h : k.spawned command stack = none) (regs : Context) :
    k.execute command stack regs = (.ret (-1), k) := by
  cases command with
  | none => rfl
  | some command =>
    simp only [spawned, Option.bind_some] at h
    simp only [execute]
    by_cases hcheck : k.checkExecutable (parseCommand command).1 stack = false
    · rw [if_pos hcheck]
    · rw [if_neg hcheck] at h ⊢
      rw [Option.map_eq_none_iff.mp h]

/-- Past the two checks nothing fails: the process is created and the program starts. -/
theorem execute_of_spawned {k : Kernel} {command : CString} {stack : Buffer} {p : Nat}
    (h : k.spawned (some command) stack = some p) (regs : Context) :
    (p < maxProcessNum ∧ k.processArray p = 0) ∧
      k.execute (some command) stack regs =
        (.user, (k.enterChild p).startProgram (parseCommand command).2 regs) := by
  simp only [spawned, Option.bind_some] at h
  simp only [execute]
  -- the two tests of `execute` are those of `spawned`, in the same order
  by_cases hcheck : k.checkExecutable (parseCommand command).1 stack = false
  · rw [if_pos hcheck] at h
    cases h
  · rw [if_neg hcheck] at h ⊢
    obtain ⟨⟨q, k'⟩, hcreate, rfl⟩ := Option.map_eq_some_iff.mp h
    obtain ⟨hp, hfree, rfl⟩ := createProcess_some hcreate
    rw [hcreate]
    exact ⟨⟨hp, hfree⟩, rfl⟩

/-- **`execute`** either fails and changes nothing, or starts a program in a free process. -/
theorem execute_cases (k : Kernel) (command : Option CString) (stack : Buffer) (regs : Context) :
    k.spawned command stack = none ∧ k.execute command stack regs = (.ret (-1), k) ∨
    ∃ p args, k.spawned command stack = some p ∧ p < maxProcessNum ∧ k.processArray p = 0 ∧
      k.execute command stack regs = (.user, (k.enterChild p).startProgram args regs) := by
  cases hspawn : k.spawned command stack with
  | none => exact .inl ⟨rfl, execute_of_spawned_none hspawn regs⟩
  | some p =>
    obtain ⟨command, rfl, -⟩ := Option.bind_eq_some_iff.mp hspawn
    obtain ⟨⟨hp, hfree⟩, heq⟩ := execute_of_spawned hspawn regs
    exact .inr ⟨p, _, rfl, hp, hfree, heq⟩

/-- **`restart_shell`** returns only if the shell fails the checks. -/
theorem restartShell_cases (k : Kernel) (pid : Nat) (stack : Buffer) (regs : Context) :
    k.checkExecutable shellName stack = false ∧
        k.restartShell pid stack regs = (.ret (-1), k) ∨
      k.checkExecutable shellName stack = true ∧ ∃ args,
        k.restartShell pid stack regs = (.user, (k.enterShell pid).startProgram args regs) := by
  unfold restartShell
  cases hcheck : k.checkExecutable shellName stack with
  | false => exact .inl ⟨rfl, rfl⟩
  | true => exact .inr ⟨rfl, _, rfl⟩

/-- The child is the running process and in use; the other processes keep their state. -/
theorem enterChild_frame (k : Kernel) (p : Nat) :
    (k.enterChild p).image = k.image ∧ (k.enterChild p).currPid = p ∧
      (k.enterChild p).processArray = Function.update k.processArray p 1 ∧
      ∀ q, ((k.enterChild p).pcbArray q).fdArray = (k.pcbArray q).fdArray := by
  unfold enterChild
  dsimp only
  split_ifs
  · exact ⟨rfl, rfl, rfl, fun q => fdArray_modifyPcb _ _ (by intros; rfl) q⟩
  · exact ⟨rfl, rfl, rfl, fun q => fdArray_modifyPcb _ _ (by intros; rfl) q⟩

theorem enterShell_frame (k : Kernel) (pid : Nat) :
    (k.enterShell pid).image = k.image ∧ (k.enterShell pid).currPid = pid ∧
      (k.enterShell pid).processArray = Function.update k.processArray pid 1 ∧
      ∀ q, ((k.enterShell pid).pcbArray q).fdArray = (k.pcbArray q).fdArray := by
  unfold enterShell
  exact ⟨rfl, rfl, rfl, fun q => fdArray_modifyPcb _ _ (by intros; rfl) q⟩

/-- `execute`, once the boot shells exist. -/
theorem processes_execute (k : Kernel) (hboot : 2 < k.shellTid) (command : Option CString)
    (stack : Buffer) (regs : Context) :
    (k.execute command stack regs).2.processes =
      k.processes.apply (match k.spawned command stack with
        | some p => .spawn p
        | none => .other) := by
  rcases k.execute_cases command stack regs with
    ⟨hnone, heq⟩ | ⟨p, args, hsome, -, -, heq⟩
  · rw [heq, hnone]
    rfl
  · -- the child inherits the terminal of the process that was running
    let forked : Kernel :=
      { k with
        processArray := Function.update k.processArray p 1
        currParentPid := k.currPid
        currPid := p }
    have hentered : (k.enterChild p).processes =
        { forked.processes with
          curPid := Function.update k.processes.curPid (k.processes.terminalNumber k.currPid) p
          terminalNumber := Function.update k.processes.terminalNumber p
            (k.processes.terminalNumber k.currPid) } := by
      rw [enterChild]
      simp only [if_pos (show k.shellTid > 2 from hboot)]
      rw [processes_setTerminalNumber, processes_setCurPid]
      rfl
    obtain ⟨-, hcurr, -⟩ := k.enterChild_frame p
    have hparent : (k.enterChild p).currParentPid = k.currPid :=
      congrArg ProcessState.currParentPid hentered
    rw [heq, hsome, processes_startProgram, hentered, hcurr, hparent]
    have hterminal : ∀ t, Function.update k.processes.terminalNumber p t p = t :=
      fun t => Function.update_self ..
    -- all fields but the page for drawing agree as they stand
    refine ProcessState.ext rfl rfl rfl rfl rfl rfl rfl rfl rfl rfl rfl rfl rfl rfl ?_
    exact congrArg (fun t => vidPageEntry (drawingPage k.tty.curDisplayTid
      k.processes.vidBuf t)) (hterminal _)

/-- Two changes of one PCB are one. -/
theorem modifyPcb_modifyPcb (k : Kernel) (p : Nat) (f g : Pcb → Pcb) :
    (k.modifyPcb p f).modifyPcb p g = k.modifyPcb p fun pcb => g (f pcb) := by
  simp [modifyPcb]

/-- A change that leaves the PCB as it is. -/
theorem modifyPcb_eq_self {k : Kernel} {p : Nat} {f : Pcb → Pcb}
    (h : f (k.pcbArray p) = k.pcbArray p) : k.modifyPcb p f = k := by
  simp [modifyPcb, h]

/-- Closing the RTC of a process that does not count interrupts. -/
private theorem rtcClose_idle {k : Kernel} (hfreq : k.currPcb.rtcfreq = 0)
    (hcounter : k.currPcb.rtcCounter = 0) : k.rtcClose.2 = k := by
  have hsame (pcb : Pcb) (hf : pcb.rtcfreq = 0) (hc : pcb.rtcCounter = 0) :
      { pcb with rtcfreq := 0, rtcCounter := 0 } = pcb := by
    cases pcb
    simp_all
  simp only [rtcClose, modifyPcb, currPcb] at *
  simp [hsame _ hfreq hcounter]

/-- The loop of `close_pcb` on the descriptors `is` of the running process, which does not
    count RTC interrupts any more: only its descriptors change. -/
private theorem closePcbFds {p : Nat} (is : List Nat) {k k' : Kernel} (hcurr : k.currPid = p)
    (hfreq : (k.pcbArray p).rtcfreq = 0) (hcounter : (k.pcbArray p).rtcCounter = 0)
    (h : is.foldlM (closePcbFd p) k = some k') :
    ∃ fds, k' = k.modifyPcb p fun pcb => { pcb with fdArray := fds } := by
  induction is generalizing k with
  | nil =>
    obtain rfl := Option.some.inj h
    exact ⟨(k.pcbArray p).fdArray, (modifyPcb_eq_self rfl).symm⟩
  | cons i is ih =>
    rw [List.foldlM_cons] at h
    obtain ⟨k₁, hstep, hrest⟩ := Option.bind_eq_some_iff.mp h
    have hone : ∃ fds, k₁ = k.modifyPcb p fun pcb => { pcb with fdArray := fds } := by
      unfold closePcbFd at hstep
      dsimp only at hstep
      split_ifs at hstep
      · cases hptr : ((k.pcbArray p).fdArray i).funcPointer with
        | null | address => simp [hptr] at hstep
        | table ops =>
          -- only the RTC has a close with an effect, and it resets what is 0 already
          have hclose : (ops.close k i).2 = k := by
            cases ops with
            | file | dir | stdinOp | stdoutOp => rfl
            | rtc =>
              subst hcurr
              exact rtcClose_idle hfreq hcounter
          simp only [hptr, hclose, Option.some.injEq] at hstep
          exact ⟨_, hstep.symm⟩
      · exact ⟨_, (Option.some.inj hstep).symm⟩
    obtain ⟨fds, rfl⟩ := hone
    have hpcb : (k.modifyPcb p fun pcb => { pcb with fdArray := fds }).pcbArray p =
        { k.pcbArray p with fdArray := fds } := Function.update_self ..
    have hcurr' : (k.modifyPcb p fun pcb => { pcb with fdArray := fds }).currPid = p := hcurr
    obtain ⟨fds', rfl⟩ := ih hcurr' ((congrArg Pcb.rtcfreq hpcb).trans hfreq)
      ((congrArg Pcb.rtcCounter hpcb).trans hcounter) hrest
    exact ⟨fds', modifyPcb_modifyPcb ..⟩

/-- What `close_pcb` leaves of the PCB of the running process. -/
theorem closePcb_eq {k k' : Kernel} (h : k.closePcb k.currPid = some k') :
    ∃ fds, k' =
      { k with processArray := Function.update k.processArray k.currPid 0 }.modifyPcb k.currPid
        fun pcb =>
          { pcb with
            pid := 0, parentPid := 0, terminalNumber := 255, rtcfreq := 0, rtcCounter := 0
            fdArray := fds } := by
  -- the loop over the descriptors starts from a PCB with its other fields cleared
  have hpcb : ({ k with processArray := Function.update k.processArray k.currPid 0 }.modifyPcb
      k.currPid fun pcb =>
        { pcb with
          pid := 0, parentPid := 0, terminalNumber := 255, rtcfreq := 0,
          rtcCounter := 0 }).pcbArray k.currPid =
      { k.pcbArray k.currPid with
        pid := 0, parentPid := 0, terminalNumber := 255, rtcfreq := 0, rtcCounter := 0 } :=
    Function.update_self ..
  obtain ⟨fds, rfl⟩ := closePcbFds (List.range maximumOpenFiles) rfl
    (congrArg Pcb.rtcfreq hpcb) (congrArg Pcb.rtcCounter hpcb) h
  exact ⟨fds, modifyPcb_modifyPcb ..⟩

/-- The process table after `close_pcb`. -/
theorem processes_closePcb {k k' : Kernel} (h : k.closePcb k.currPid = some k') :
    k'.processes =
      { k.processes with
        processArray := Function.update k.processArray k.currPid 0
        parentPid := Function.update k.processes.parentPid k.currPid 0
        terminalNumber := Function.update k.processes.terminalNumber k.currPid 255 } := by
  obtain ⟨fds, rfl⟩ := closePcb_eq h
  rw [processes_modifyPcb]
  exact ProcessState.ext rfl rfl rfl rfl rfl (Function.update_eq_self ..) rfl rfl rfl rfl rfl
    rfl rfl rfl rfl

/-- The checks look at the image only. -/
theorem checkExecutable_image {k k' : Kernel} (h : k'.image = k.image) (fileName : CString)
    (stack : Buffer) : k'.checkExecutable fileName stack = k.checkExecutable fileName stack := by
  unfold checkExecutable
  rw [h]

/-- The shell passes the checks, whatever the stack holds. -/
def ShellStarts (k : Kernel) : Prop := ∀ stack, k.checkExecutable shellName stack = true

/-- The process that `execute` takes depends on the image and the process table only. -/
theorem spawned_congr {k k' : Kernel} (himage : k'.image = k.image)
    (harray : k'.processArray = k.processArray) (command : Option CString) (stack : Buffer) :
    k'.spawned command stack = k.spawned command stack := by
  simp only [spawned, checkExecutable_image himage, createProcess, harray, Option.map_map]
  rfl

/-- The shell in the place of its terminal. -/
theorem processes_startShell (k : Kernel) (pid : Nat) (args : CString) (regs : Context) :
    ((k.enterShell pid).startProgram args regs).processes =
      { k.processes.enter pid with
        processArray := Function.update k.processArray pid 1
        parentPid := Function.update k.processes.parentPid pid pid
        terminalNumber := Function.update k.processes.terminalNumber pid pid
        curPid := Function.update k.processes.curPid pid pid
        currParentPid := pid
        vidPage := vidPageEntry (drawingPage k.processes.display k.processes.vidBuf pid) } := by
  rw [processes_startProgram, enterShell, processes_setTerminalNumber, processes_setCurPid]
  have hparent : (if pid = 0 then pid else pid) = pid := ite_self pid
  have hterminal : Function.update k.processes.terminalNumber pid pid pid = pid :=
    Function.update_self ..
  -- the base shell is its own parent, on the terminal of its number
  refine ProcessState.ext rfl rfl rfl ?_ rfl rfl rfl rfl rfl rfl rfl rfl rfl rfl ?_
  · exact congrArg (Function.update k.processes.parentPid pid) hparent
  · exact congrArg (fun t => vidPageEntry (drawingPage k.tty.curDisplayTid
      k.processes.vidBuf t)) hterminal

/-- Going back to the parent. -/
theorem processes_resumeParent (k : Kernel) (saved : Context) :
    (k.resumeParent saved).processes =
      { k.processes.enter k.currParentPid with
        curPid := Function.update k.processes.curPid
          (k.processes.terminalNumber k.currParentPid) k.currParentPid
        currParentPid := k.processes.parentPid k.currParentPid } := by
  -- back to the parent, then its terminal and its frame
  let back : Kernel :=
    { k with
      currPid := k.currParentPid
      currParentPid := (k.pcbArray k.currParentPid).parentPid }
  have hback := processes_setCurPid back back.currPcb.terminalNumber back.currPid
  have hmap := processes_mapProcess (back.setCurPid back.currPcb.terminalNumber back.currPid)
    (processFrame back.currPid)
  rw [hback] at hmap
  exact congrArg (fun s => { s with esp0 := kernelStack k.currParentPid }) hmap

/-- **`halt`** closes the process; then a root shell starts again, if it passes the checks, and
    any other process gives way to its parent. -/
theorem halt_cases {k : Kernel} {exitCode : UInt8} {stack : Buffer} {regs : Context}
    {r : Outcome × Kernel} (h : k.halt exitCode stack regs = some r) :
    ∃ k₁, k.closePcb k.currPid = some k₁ ∧
      (k.currPid = k.currParentPid ∧ k.checkExecutable shellName stack = true ∧
          (∃ args, r = (.user, (k₁.enterShell k.currPid).startProgram args regs)) ∨
        ¬ (k.currPid = k.currParentPid ∧ k.checkExecutable shellName stack = true) ∧
          r = (.ret exitCode.toNat, k₁.resumeParent k.currPcb.saved)) := by
  obtain ⟨k₁, hclose, rfl⟩ := Option.map_eq_some_iff.mp h
  refine ⟨k₁, hclose, ?_⟩
  obtain ⟨fds, hk₁⟩ := closePcb_eq hclose
  -- closing changes neither who runs nor what is on the disk
  have hcurr : k₁.currPid = k.currPid := by rw [hk₁]; rfl
  have hparent : k₁.currParentPid = k.currParentPid := by rw [hk₁]; rfl
  have himage : k₁.image = k.image := by rw [hk₁]; rfl
  rw [hcurr, hparent]
  -- a process that is its own parent is a base shell, and starts again
  by_cases hroot : k.currPid = k.currParentPid
  · rw [if_pos hroot, ← checkExecutable_image himage]
    rcases k₁.restartShell_cases k.currPid stack regs with ⟨hfail, heq⟩ | ⟨hpass, args, heq⟩
    · rw [heq]
      exact .inr ⟨fun hboth => absurd (hfail.symm.trans hboth.2) (by decide), rfl⟩
    · rw [heq]
      exact .inl ⟨hroot, hpass, args, rfl⟩
  · rw [if_neg hroot]
    exact .inr ⟨fun hboth => hroot hboth.1, rfl⟩

/-- A root shell that halts starts again without arguments. -/
theorem halt_root {k k₁ : Kernel} (hclose : k.closePcb k.currPid = some k₁)
    (hroot : k.currPid = k.currParentPid) {stack : Buffer}
    (hcheck : k.checkExecutable shellName stack = true) (exitCode : UInt8) (regs : Context) :
    k.halt exitCode stack regs = some
      (.user, (k₁.enterShell k.currPid).startProgram ⟨[], List.not_mem_nil⟩ regs) := by
  obtain ⟨fds, hk₁⟩ := closePcb_eq hclose
  have hcurr : k₁.currPid = k.currPid := by rw [hk₁]; rfl
  have hparent : k₁.currParentPid = k.currParentPid := by rw [hk₁]; rfl
  have himage : k₁.image = k.image := by rw [hk₁]; rfl
  -- the restart passes the same check as before
  have hrestart : k₁.restartShell k.currPid stack regs =
      (.user, (k₁.enterShell k.currPid).startProgram ⟨[], List.not_mem_nil⟩ regs) := by
    have hpass : ¬ k₁.checkExecutable shellName stack = false := by
      rw [checkExecutable_image himage, hcheck]
      decide
    rw [restartShell, if_neg hpass]
    rfl
  rw [halt, hclose, Option.map_some]
  simp only [hcurr, hparent, if_pos hroot, hrestart]

/-- `halt`, when the shell can be started. -/
theorem processes_halt {k : Kernel} (hshell : k.ShellStarts) {exitCode : UInt8}
    {stack : Buffer} {regs : Context} {r : Outcome × Kernel}
    (h : k.halt exitCode stack regs = some r) :
    r.2.processes =
      k.processes.apply (if k.currPid = k.currParentPid then .restart else .exit) := by
  obtain ⟨k₁, hclose, ⟨hroot, -, args, rfl⟩ | ⟨hnot, rfl⟩⟩ := halt_cases h
  · -- the base shell starts again in its own place
    have htable := processes_closePcb hclose
    have harray : k₁.processArray = Function.update k.processArray k.currPid 0 :=
      congrArg ProcessState.processArray htable
    rw [if_pos hroot, processes_startShell, htable, harray]
    simp only [ProcessState.apply, Function.update_idem]
    rfl
  · -- its parent goes on
    have htable := processes_closePcb hclose
    have hroot : ¬ k.currPid = k.currParentPid := fun heq => hnot ⟨heq, hshell stack⟩
    have hparent : k₁.currParentPid = k.currParentPid :=
      congrArg ProcessState.currParentPid htable
    rw [if_neg hroot, processes_resumeParent, htable, hparent]
    rfl

/-- The state in which a tick of the start-up looks at the terminal of the next shell. -/
def chooseShell (k : Kernel) : Kernel := { k with activeTid := k.shellTid }

/-- While the boot shells are started, a tick starts the shell of terminal `shell_tid`, or goes on
    to the next terminal.  `process_switch` saves the registers in the PCB of the last shell. -/
theorem pitHandler_boot {k : Kernel} (hboot : k.shellTid ≤ 2) (stack : Buffer) (regs : Context) :
    k.pitHandler stack regs =
      if (k.tty.terminals k.shellTid).curPid = -1 ∧ k.shellTid = 0 then
        (k.chooseShell.execute (some shellName) stack regs).2
      else if (k.tty.terminals k.shellTid).curPid = -1 then
        ((k.chooseShell.modifyPcb ((k.shellTid : Int) - 1).toNat fun pcb =>
          { pcb with own := regs }).execute (some shellName) stack regs).2
      else { k.chooseShell with shellTid := k.shellTid + 1 } := by
  have hswitch : k.chooseShell.processSwitch k.shellTid stack regs =
      ((k.chooseShell.modifyPcb ((k.shellTid : Int) - 1).toNat fun pcb =>
        { pcb with own := regs }).execute (some shellName) stack regs).2 := by
    rw [processSwitch, if_pos (show k.chooseShell.shellTid ≤ 2 from hboot)]
  rw [← hswitch, pitHandler, if_pos hboot]
  rfl

/-- The mappings and the running process of the next time slice, for terminal `t`. -/
def runNext (k : Kernel) (t : Nat) : Kernel :=
  let next := (k.tty.terminals t).curPid.toNat
  let chosen := { k with nextSchedTid := t }
  let viewed :=
    if k.tty.curDisplayTid = t then chosen.vidMapping
    else chosen.vidRemapping (k.tty.terminals t).vidBuf
  let mapped := viewed.mapProcess programImage (processFrame next)
  { mapped with
    currPid := next
    currParentPid := (mapped.pcbArray next).parentPid
    tssEsp0 := kernelStack next
    activeTid := viewed.nextSchedTid }

/-- Once the boot shells exist, a tick goes on to the next terminal; then it saves the registers
    of the process that it leaves and loads those of the other. -/
theorem pitHandler_eq {k : Kernel} (hboot : 2 < k.shellTid) (stack : Buffer) (regs : Context) :
    k.pitHandler stack regs =
      let left := (k.runNext ((k.activeTid + 1) % terminalTotalNum)).modifyPcb k.currPid
        fun pcb => { pcb with own := regs }
      { left with context := (left.pcbArray left.currPid).own } := by
  have hlate : ¬ k.shellTid ≤ 2 := Nat.not_le.mpr hboot
  let chosen : Kernel := { k with nextSchedTid := (k.activeTid + 1) % terminalTotalNum }
  have hlate' : ¬ chosen.shellTid ≤ 2 := hlate
  rw [pitHandler, if_neg hlate]
  show chosen.processSwitch (chosen.tty.terminals chosen.nextSchedTid).curPid stack regs = _
  rw [processSwitch, if_neg hlate']
  rfl

theorem processes_runNext (k : Kernel) (t : Nat) :
    (k.runNext t).processes =
      { k.processes.enter (k.processes.curPid t).toNat with
        currParentPid := k.processes.parentPid (k.processes.curPid t).toNat
        activeTid := t
        vidPage := vidPageEntry (drawingPage k.processes.display k.processes.vidBuf t) } := by
  let next := (k.processes.curPid t).toNat
  let chosen : Kernel := { k with nextSchedTid := t }
  let viewed :=
    if k.tty.curDisplayTid = t then chosen.vidMapping
    else chosen.vidRemapping (k.tty.terminals t).vidBuf
  -- `process_switch` compares the terminals where `execute` looks at the process
  have hviewed : viewed.processes =
      { k.processes with
        vidPage := vidPageEntry (drawingPage k.processes.display k.processes.vidBuf t) } := by
    have hchosen : chosen.processes = k.processes := rfl
    by_cases h : k.tty.curDisplayTid = t
    · -- the terminal is displayed
      have hpage : drawingPage k.processes.display k.processes.vidBuf t = video := if_pos h.symm
      simp only [viewed, if_pos h, vidMapping, processes_vidRemapping, hchosen, hpage]
    · have hpage : drawingPage k.processes.display k.processes.vidBuf t =
          (k.tty.terminals t).vidBuf := if_neg fun heq => h heq.symm
      simp only [viewed, if_neg h, processes_vidRemapping, hchosen, hpage]
  have hnext : viewed.nextSchedTid = t := by
    simp only [viewed]
    split_ifs <;> rfl
  have hmapped := processes_mapProcess viewed (processFrame next)
  rw [hviewed] at hmapped
  have hentered : (k.runNext t).processes =
      { (viewed.mapProcess programImage (processFrame next)).processes with
        currPid := next
        currParentPid :=
          (viewed.mapProcess programImage (processFrame next)).processes.parentPid next
        activeTid := viewed.nextSchedTid
        esp0 := kernelStack next } := rfl
  rw [hentered, hmapped, hnext]
  rfl

theorem pcbArray_runNext (k : Kernel) (t : Nat) : (k.runNext t).pcbArray = k.pcbArray := by
  unfold runNext
  by_cases hview : k.tty.curDisplayTid = t
  · simp only [if_pos hview]
    rfl
  · simp only [if_neg hview]
    rfl

/-- The scheduler, once the boot shells exist. -/
theorem processes_pitHandler {k : Kernel} (hboot : 2 < k.shellTid) (stack : Buffer)
    (regs : Context) :
    (k.pitHandler stack regs).processes = k.processes.apply (.tick regs) := by
  have hown := processes_setOwn (k.runNext ((k.activeTid + 1) % terminalTotalNum)) k.currPid regs
  rw [processes_runNext] at hown
  rw [pitHandler_eq hboot]
  exact hown

/-! ## The other events -/

/-- Two terminal states with the same processes, pages and display. -/
theorem processes_withTty {k : Kernel} {tty : Tty}
    (hterm : ∀ t, (tty.terminals t).curPid = (k.tty.terminals t).curPid ∧
      (tty.terminals t).vidBuf = (k.tty.terminals t).vidBuf)
    (hdisplay : tty.curDisplayTid = k.tty.curDisplayTid) :
    { k with tty := tty }.processes = k.processes :=
  ProcessState.ext rfl rfl rfl rfl rfl rfl (funext fun t => (hterm t).1)
    (funext fun t => (hterm t).2) hdisplay rfl rfl rfl rfl rfl rfl

/-- A terminal entry that keeps its process and its page. -/
private theorem processes_setTerminal {k : Kernel} {tty : Tty} {t : Nat} {term : Terminal}
    (hterms : tty.terminals = k.tty.terminals) (hdisplay : tty.curDisplayTid = k.tty.curDisplayTid)
    (hpid : term.curPid = (k.tty.terminals t).curPid)
    (hbuf : term.vidBuf = (k.tty.terminals t).vidBuf) :
    { k with tty := tty.setTerminal t term }.processes = k.processes := by
  refine processes_withTty (fun t' => ?_) hdisplay
  -- terminal `t` has the same process and page as before, the others are unchanged
  by_cases h : t' = t
  · subst h
    have hself : (tty.setTerminal t' term).terminals t' = term := Function.update_self ..
    rw [hself]
    exact ⟨hpid, hbuf⟩
  · have hother : (tty.setTerminal t term).terminals t' = k.tty.terminals t' :=
      (Function.update_of_ne h _ _).trans (congrFun hterms t')
    rw [hother]
    exact ⟨rfl, rfl⟩

/-- Showing another terminal. -/
private theorem processes_switchDisplay (k : Kernel) (n : Nat) :
    { k with tty := switchDisplay k.tty n }.processes = { k.processes with display := n } := by
  have hsave : { k with
      tty := k.tty.setTerminal k.tty.curDisplayTid (savedTerminal k.tty) }.processes =
      k.processes := processes_setTerminal rfl rfl rfl rfl
  exact congrArg (fun s => { s with display := n }) hsave

/-- `terminal_switch` to a terminal that is not displayed. -/
theorem processes_terminalSwitch (k : Kernel) (n : Int) :
    (k.terminalSwitch n).2.processes =
      k.processes.apply
        (if n < 0 ∨ n > terminalMaxNum ∨ n = k.tty.curDisplayTid then .other
        else .switch n.toNat) := by
  unfold terminalSwitch
  by_cases hrange : n < 0 ∨ n > terminalMaxNum
  · have hnone : n < 0 ∨ n > terminalMaxNum ∨ n = k.tty.curDisplayTid := by omega
    simp only [if_pos hrange, if_pos hnone]
    rfl
  by_cases hsame : n = k.tty.curDisplayTid
  · simp only [if_neg hrange, if_pos hsame]
    rw [if_pos (.inr (.inr hsame))]
    rfl
  -- the page of the running process is chosen after the display has been switched
  have hmoves : ¬ (n < 0 ∨ n > terminalMaxNum ∨ n = k.tty.curDisplayTid) := by omega
  simp only [if_neg hrange, if_neg hsame, if_neg hmoves]
  let shown : Kernel := { k with tty := switchDisplay k.tty n.toNat }
  have hshown : shown.processes = { k.processes with display := n.toNat } :=
    processes_switchDisplay k n.toNat
  have hcur : (shown.tty.terminals n.toNat).curPid = k.processes.curPid n.toNat :=
    congrFun (congrArg ProcessState.curPid hshown) n.toNat
  have hbuf : shown.currTerminal.vidBuf =
      k.processes.vidBuf (k.processes.terminalNumber k.currPid) :=
    congrFun (congrArg ProcessState.vidBuf hshown) _
  show (if (shown.currPid : Int) = (shown.tty.terminals n.toNat).curPid then
    shown.vidRemapping video else shown.vidRemapping shown.currTerminal.vidBuf).processes = _
  -- the comparison gives the same before and after the switch
  by_cases hrun : (shown.currPid : Int) = (shown.tty.terminals n.toNat).curPid
  · have hrun' : (k.processes.currPid : Int) = k.processes.curPid n.toNat := hrun.trans hcur
    rw [if_pos hrun, processes_vidRemapping, hshown]
    simp only [ProcessState.apply, if_pos hrun']
  · have hrun' : ¬ (k.processes.currPid : Int) = k.processes.curPid n.toNat :=
      fun heq => hrun (heq.trans hcur.symm)
    rw [if_neg hrun, processes_vidRemapping, hshown, hbuf]
    simp only [ProcessState.apply, if_neg hrun']
    rfl

/-- The interrupt only advances the counters of the PCBs. -/
private theorem processes_rtcHandler (k : Kernel) : k.rtcHandler.processes = k.processes := by
  have hpcb (p : Nat) : (k.rtcHandler.pcbArray p).parentPid = (k.pcbArray p).parentPid ∧
      (k.rtcHandler.pcbArray p).terminalNumber = (k.pcbArray p).terminalNumber ∧
      (k.rtcHandler.pcbArray p).own = (k.pcbArray p).own := by
    simp only [rtcHandler]
    split_ifs <;> exact ⟨rfl, rfl, rfl⟩
  exact ProcessState.ext rfl rfl rfl (funext fun p => (hpcb p).1) (funext fun p => (hpcb p).2.1)
    (funext fun p => (hpcb p).2.2) rfl rfl rfl rfl rfl rfl rfl rfl rfl

end Kernel

/-- `output_keyvalue` leaves the terminals alone. -/
private theorem outputKeyvalue_terminals (tty : Tty) (code : Nat) :
    (outputKeyvalue tty code).terminals = tty.terminals ∧
      (outputKeyvalue tty code).curDisplayTid = tty.curDisplayTid := by
  unfold outputKeyvalue
  dsimp only
  split_ifs <;> exact ⟨rfl, rfl⟩

/-- The keys other than the switches leave the processes and pages of the terminals alone. -/
private theorem handleKey_terminals (tty : Tty) (code : Nat) :
    (∀ t, ((handleKey tty code).terminals t).curPid = (tty.terminals t).curPid ∧
      ((handleKey tty code).terminals t).vidBuf = (tty.terminals t).vidBuf) ∧
      (handleKey tty code).curDisplayTid = tty.curDisplayTid := by
  have hsave : ∀ t, ((saveLine tty).terminals t).curPid = (tty.terminals t).curPid ∧
      ((saveLine tty).terminals t).vidBuf = (tty.terminals t).vidBuf := by
    intro t
    by_cases h : t = tty.curDisplayTid
    · simp [saveLine, Tty.setTerminal, h]
    · simp [saveLine, Tty.setTerminal, h]
  have hdisplay : (saveLine tty).curDisplayTid = tty.curDisplayTid := rfl
  unfold handleKey
  dsimp only
  split_ifs <;> simp [outputKeyvalue_terminals, hsave, hdisplay]

namespace SysResult

/-- A property of the state after the call, if it returns. -/
def Keeps (r : SysResult) (P : Kernel → Prop) : Prop := ∀ k ∈ r.kernel?, P k

theorem keeps_ret {P : Kernel → Prop} {value : Int} {buf : Option Buffer} {k : Kernel} :
    (SysResult.ret value buf k).Keeps P ↔ P k := by
  simp [Keeps, kernel?]

theorem keeps_blocked {P : Kernel → Prop} : SysResult.blocked.Keeps P := by
  simp [Keeps, kernel?]

theorem keeps_wild {P : Kernel → Prop} : SysResult.wild.Keeps P := by
  simp [Keeps, kernel?]

theorem keeps_call {P : Kernel → Prop} {f : FuncPointer} {entry : FileOperation → SysResult}
    (h : ∀ ops, (entry ops).Keeps P) : (f.call entry).Keeps P := by
  cases f with
  | table ops => exact h ops
  | null | address => exact keeps_wild

/-- A call behind the guard that `read`, `write` and `close` begin with. -/
theorem keeps_guard {P : Kernel → Prop} {refused : Prop} [Decidable refused] {buf : Option Buffer}
    {k : Kernel} {f : FuncPointer} {entry : FileOperation → SysResult} (hk : P k)
    (h : ∀ ops, (entry ops).Keeps P) :
    (if refused then SysResult.ret (-1) buf k else f.call entry).Keeps P := by
  split_ifs
  · exact keeps_ret.mpr hk
  · exact keeps_call h

end SysResult

namespace Kernel

/-- The keyboard interrupt: a switch, or nothing that shows. -/
private theorem processes_keyboardHandler (k : Kernel) (code : UInt8) :
    (k.keyboardHandler code).processes =
      k.processes.apply (match switchKey (releaseFlags k.tty.keyboard code.toNat) code.toNat with
        | some t =>
          if (t : Int) < 0 ∨ (t : Int) > terminalMaxNum ∨ (t : Int) = k.tty.curDisplayTid then
            .other
          else .switch t
        | none => .other) := by
  let tty : Tty := { k.tty with keyboard := releaseFlags k.tty.keyboard code.toNat }
  have htty : { k with tty := tty }.processes = k.processes := rfl
  unfold keyboardHandler
  dsimp only
  -- Alt+F1..F3 switches the terminal, the other keys belong to its line
  cases switchKey (releaseFlags k.tty.keyboard code.toNat) code.toNat with
  | some t =>
    simp only
    rw [processes_terminalSwitch, htty, Int.toNat_natCast]
  | none =>
    obtain ⟨hterm, hdisplay⟩ := handleKey_terminals tty code.toNat
    exact processes_withTty hterm hdisplay

/-- A completed read clears the buffers and the flag of its terminal. -/
private theorem processes_terminalRead {k : Kernel} {t : Nat} {buf : Option Buffer}
    {nbytes : Int} {r : Int × Option Buffer × Tty} (h : terminalRead k.tty t buf nbytes = some r) :
    { k with tty := r.2.2 }.processes = k.processes := by
  cases buf with
  | none =>
    obtain rfl := Option.some.inj h
    rfl
  | some buf =>
    simp only [terminalRead] at h
    split_ifs at h
    obtain rfl := Option.some.inj h
    exact processes_setTerminal rfl rfl rfl rfl

private theorem processes_terminalWrite (k : Kernel) (t : Nat) (buf : Option Buffer)
    (nbytes : Int) :
    { k with tty := (terminalWrite k.tty t buf nbytes).2 }.processes = k.processes := by
  rcases terminalWrite_frame k.tty t buf nbytes with ⟨screen, h⟩ | ⟨screen, x, y, h⟩
  · rw [h]
    rfl
  · rw [h]
    exact processes_setTerminal rfl rfl rfl rfl

/-- The operations on an open file leave the process table alone. -/
theorem keeps_processes_read (ops : FileOperation) (k : Kernel) (fd : Nat) (buf : Option Buffer)
    (nbytes : Int) : (ops.read k fd buf nbytes).Keeps fun k' => k'.processes = k.processes := by
  -- a driver reads from the file or the terminal, and sets at most its descriptor
  cases ops with
  | rtc =>
    simp only [FileOperation.read, rtcRead]
    split_ifs
    · exact SysResult.keeps_blocked
    · exact SysResult.keeps_ret.mpr (processes_modifyPcb_same _ _ _ fun _ => ⟨rfl, rfl, rfl⟩)
  | file => exact SysResult.keeps_ret.mpr (processes_modifyFd ..)
  | dir =>
    simp only [FileOperation.read, dirRead]
    split
    · exact SysResult.keeps_ret.mpr rfl
    · split_ifs
      · exact SysResult.keeps_ret.mpr rfl
      · split <;> exact SysResult.keeps_ret.mpr rfl
  | stdoutOp => exact SysResult.keeps_ret.mpr rfl
  | stdinOp =>
    simp only [FileOperation.read]
    cases hread : terminalRead k.tty k.currPcb.terminalNumber buf nbytes with
    | none => exact SysResult.keeps_blocked
    | some r => exact SysResult.keeps_ret.mpr (processes_terminalRead hread)

theorem keeps_processes_write (ops : FileOperation) (k : Kernel) (buf : Option Buffer)
    (nbytes : Int) : (ops.write k buf nbytes).Keeps fun k' => k'.processes = k.processes := by
  cases ops with
  | rtc =>
    -- `rtc_write` sets the caller's rate, which is not in the process table
    refine SysResult.keeps_ret.mpr ?_
    cases buf with
    | none => rfl
    | some buf =>
      simp only
      split_ifs
      · rfl
      · rfl
      · exact processes_modifyPcb_same _ _ _ fun _ => ⟨rfl, rfl, rfl⟩
  | file | dir | stdinOp => exact SysResult.keeps_ret.mpr rfl
  | stdoutOp => exact SysResult.keeps_ret.mpr (processes_terminalWrite ..)

theorem processes_open (ops : FileOperation) (k : Kernel) (filename : Option CString) :
    (ops.open k filename).2.processes = k.processes := by
  cases ops with
  | rtc => exact processes_modifyPcb_same _ _ _ fun _ => ⟨rfl, rfl, rfl⟩
  | file =>
    simp only [FileOperation.open, fileOpen]
    split <;> rfl
  | dir | stdinOp | stdoutOp => rfl

theorem processes_close (ops : FileOperation) (k : Kernel) (fd : Nat) :
    (ops.close k fd).2.processes = k.processes := by
  cases ops with
  | rtc => exact processes_modifyPcb_same _ _ _ fun _ => ⟨rfl, rfl, rfl⟩
  | file | dir | stdinOp | stdoutOp => rfl

/-- **`open`**, if it returns, has found no entry or no free descriptor, opened one of the first
    two, or bound a free one to the table of the file and called its `open`. -/
theorem open_cases {k k' : Kernel} {filename : Option CString}
    (h : (k.open filename).kernel? = some k') :
    (k.image.readDentryByName filename = none ∨ k.lowestFree = none) ∧
        (k' = k ∨ ∃ text, k' = k.printf text) ∨
      (∃ name, filename = some name ∧
        (strncmp name.byte stdinName.byte 5 = 0 ∧ k' = k.openStdin ∨
          strncmp name.byte stdoutName.byte 6 = 0 ∧ k' = k.openStdout)) ∨
      ∃ name dentry fd ops f, filename = some name ∧
        ¬ strncmp name.byte stdinName.byte 5 = 0 ∧ ¬ strncmp name.byte stdoutName.byte 6 = 0 ∧
        k.image.readDentryByName (some name) = some dentry ∧ k.lowestFree = some fd ∧
        (bindDentry dentry (k.currPcb.fdArray fd)).funcPointer = .table ops ∧
        k' = (ops.open (k.modifyFd k.currPid fd (bindDentry dentry)) filename).2.modifyFd
          (ops.open (k.modifyFd k.currPid fd (bindDentry dentry)) filename).2.currPid fd f := by
  cases filename with
  | none => exact .inl ⟨.inl rfl, .inr ⟨_, (Option.some.inj h).symm⟩⟩
  | some name =>
    simp only [Kernel.open] at h
    by_cases hin : strncmp name.byte stdinName.byte 5 = 0
    · rw [if_pos hin] at h
      exact .inr (.inl ⟨name, rfl, .inl ⟨hin, (Option.some.inj h).symm⟩⟩)
    by_cases hout : strncmp name.byte stdoutName.byte 6 = 0
    · rw [if_neg hin, if_pos hout] at h
      exact .inr (.inl ⟨name, rfl, .inr ⟨hout, (Option.some.inj h).symm⟩⟩)
    rw [if_neg hin, if_neg hout] at h
    cases hentry : k.image.readDentryByName (some name) with
    | none =>
      rw [hentry] at h
      exact .inl ⟨.inl rfl, .inr ⟨_, (Option.some.inj h).symm⟩⟩
    | some dentry =>
      cases hfree : k.lowestFree with
      | none =>
        rw [hentry, hfree] at h
        exact .inl ⟨.inr rfl, .inl (Option.some.inj h).symm⟩
      | some fd =>
        rw [hentry, hfree] at h
        -- the pointer is looked up again after the descriptor has been bound
        have hbound : (k.modifyFd k.currPid fd (bindDentry dentry)).currPcb.fdArray fd =
            bindDentry dentry (k.currPcb.fdArray fd) :=
          (congrFun (fdArray_modifyFd ..) fd).trans (Function.update_self ..)
        dsimp only at h
        rw [hbound] at h
        -- a descriptor that no file type has bound keeps its old pointer, and the call goes wild
        cases hptr : (bindDentry dentry (k.currPcb.fdArray fd)).funcPointer with
        | null | address =>
          rw [hptr] at h
          cases h
        | table ops =>
          rw [hptr] at h
          simp only [FuncPointer.call] at h
          refine .inr (.inr ⟨name, dentry, fd, ops, ?_⟩)
          split_ifs at h
          · exact ⟨_, rfl, hin, hout, hentry, rfl, hptr, (Option.some.inj h).symm⟩
          · exact ⟨_, rfl, hin, hout, hentry, rfl, hptr, (Option.some.inj h).symm⟩

theorem keeps_processes_open (k : Kernel) (filename : Option CString) :
    (k.open filename).Keeps fun k' => k'.processes = k.processes := by
  intro k' h
  rcases open_cases h with ⟨-, rfl | ⟨text, rfl⟩⟩ | ⟨name, -, ⟨-, rfl⟩ | ⟨-, rfl⟩⟩ |
    ⟨name, dentry, fd, ops, f, -, -, -, -, -, -, rfl⟩
  · rfl
  · rfl
  · exact processes_modifyFd ..
  · exact processes_modifyFd ..
  · have hopen := processes_open ops (k.modifyFd k.currPid fd (bindDentry dentry)) filename
    exact (processes_modifyFd ..).trans (hopen.trans (processes_modifyFd ..))

/-! ## All events -/

/-- What an event does to the process table. -/
def processAction (k : Kernel) : KernelEvent → ProcessAction
  | .tick _ regs => .tick regs
  | .key code =>
    match switchKey (releaseFlags k.tty.keyboard code.toNat) code.toNat with
    | some t =>
      if (t : Int) < 0 ∨ (t : Int) > terminalMaxNum ∨ (t : Int) = k.tty.curDisplayTid then .other
      else .switch t
    | none => .other
  | .switch n =>
    if n < 0 ∨ n > terminalMaxNum ∨ n = k.tty.curDisplayTid then .other else .switch n.toNat
  | .execute command stack _ =>
    match k.spawned command stack with
    | some p => .spawn p
    | none => .other
  | .halt .. => if k.currPid = k.currParentPid then .restart else .exit
  | .vidmap screenStart =>
    if screenStart.toNat = 0 ∨ screenStart.toNat < programImage ∨
        screenStart.toNat ≥ oneThirtyTwoMB then .other
    else .vidmap
  | .rtcInterrupt | .read .. | .write .. | .open _ | .close _ | .getargs .. => .other

end Kernel

/-- The events that look at `shell_tid`. -/
def KernelEvent.LooksAtShellTid : KernelEvent → Prop
  | .tick .. | .execute .. => True
  | .key _ | .rtcInterrupt | .switch _ | .halt .. | .read .. | .write .. | .open _ | .close _
  | .getargs .. | .vidmap _ => False

/-- **Refinement**: as long as the shell can be started, the events that do not look at
    `shell_tid` act on the process table as their action says. -/
theorem kernelStep_processes_of_not {k k' : Kernel} {e : KernelEvent}
    (he : ¬ e.LooksAtShellTid) (hshell : k.ShellStarts) (h : kernelStep k e = some k') :
    k'.processes = k.processes.apply (k.processAction e) := by
  -- a tick and `execute` are about `shell_tid`; the others need only that the shell starts
  cases e with
  | tick | execute => exact absurd trivial he
  | key code =>
    obtain rfl := Option.some.inj h
    exact Kernel.processes_keyboardHandler k code
  | rtcInterrupt =>
    obtain rfl := Option.some.inj h
    exact Kernel.processes_rtcHandler k
  | switch n =>
    obtain rfl := Option.some.inj h
    exact Kernel.processes_terminalSwitch k n
  | halt exitCode stack regs =>
    obtain ⟨r, hr, rfl⟩ := Option.map_eq_some_iff.mp h
    exact Kernel.processes_halt hshell hr
  | read fd buf nbytes =>
    have hkeeps : (k.read fd buf nbytes).Keeps fun k' => k'.processes = k.processes :=
      SysResult.keeps_guard rfl fun ops => Kernel.keeps_processes_read ops k _ _ _
    exact hkeeps k' h
  | write fd buf nbytes =>
    have hkeeps : (k.write fd buf nbytes).Keeps fun k' => k'.processes = k.processes :=
      SysResult.keeps_guard rfl fun ops => Kernel.keeps_processes_write ops k _ _
    exact hkeeps k' h
  | «open» filename =>
    exact Kernel.keeps_processes_open k filename k' h
  | close fd =>
    have hkeeps : (k.close fd).Keeps fun k' => k'.processes = k.processes := by
      -- closing writes the descriptor, which is not in the process table either
      refine SysResult.keeps_guard rfl fun ops => ?_
      have hclose := Kernel.processes_close ops k fd.toNat
      dsimp only
      split_ifs
      · exact SysResult.keeps_ret.mpr ((Kernel.processes_modifyFd ..).trans hclose)
      · exact SysResult.keeps_ret.mpr hclose
    exact hkeeps k' h
  | getargs buf nbytes =>
    obtain rfl := Option.some.inj h
    rfl
  | vidmap screenStart =>
    obtain rfl := Option.some.inj h
    simp only [Kernel.vidmap, Kernel.processAction]
    by_cases hnull : screenStart.toNat = 0
    · -- NULL and addresses outside the program area are refused
      rw [if_pos hnull, if_pos (.inl hnull)]
      rfl
    by_cases hrange : screenStart.toNat < programImage ∨ screenStart.toNat ≥ oneThirtyTwoMB
    · rw [if_neg hnull, if_pos hrange, if_pos (.inr hrange)]
      rfl
    · rw [if_neg hnull, if_neg hrange, if_neg (not_or.mpr ⟨hnull, hrange⟩)]
      exact Kernel.processes_vidRemapping k video

/-- The same for every event, once the boot shells exist. -/
theorem kernelStep_processes {k k' : Kernel} {e : KernelEvent} (hboot : 2 < k.shellTid)
    (hshell : k.ShellStarts) (h : kernelStep k e = some k') :
    k'.processes = k.processes.apply (k.processAction e) := by
  cases e with
  | tick stack regs =>
    obtain rfl := Option.some.inj h
    exact Kernel.processes_pitHandler hboot stack regs
  | execute command stack regs =>
    obtain rfl := Option.some.inj h
    exact Kernel.processes_execute k hboot command stack regs
  | key | rtcInterrupt | switch | halt | read | write | «open» | close | getargs | vidmap =>
    exact kernelStep_processes_of_not id hshell h

end LinuxLikeOs
