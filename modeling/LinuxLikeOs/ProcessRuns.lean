import LinuxLikeOs.FileContents
import LinuxLikeOs.ProcessTree

/-!
# Runs of the booted kernel

The state in which the three boot shells exist, what every event keeps of it, and the process
tree in every state that ticks, switches, `execute` and `halt` lead to.

- `Image.HoldsShell`: the file system has an executable named "shell"
- `Kernel.Settled`: the process table describes stacks of processes
- `Kernel.Callable`: descriptors in use name an operation table, so that `halt` can close them
- `process_tree_of_run`
-/

namespace LinuxLikeOs

open Library

/-! ## The shell -/

namespace Image

/-- The file system has a file named "shell" that starts with the ELF magic. -/
def HoldsShell (img : Image) : Prop :=
  ∃ dentry, img.readDentryByName (some shellName) = some dentry ∧
    img.GoodInode dentry.numInode ∧ elfMagic.chars <+: img.contents dentry.numInode

end Image

/-- Strings that agree on the characters to compare. -/
theorem strncmp_eq_zero {s1 s2 : Nat → UInt8} {n : Nat} (h : ∀ i < n, s1 i = s2 i) :
    strncmp s1 s2 n = 0 := by
  have hfrom : ∀ n i, (∀ j < n, s1 (i + j) = s2 (i + j)) → strncmpFrom s1 s2 n i = 0 := by
    intro n
    -- on the letters left: equal strings are equal from every start
    induction n with
    | zero => exact fun _ _ => rfl
    | succ n ih =>
      intro i hi
      have hhead : s1 i = s2 i := hi 0 n.succ_pos
      unfold strncmpFrom
      split_ifs
      · rw [hhead, Int.sub_self]
      · refine ih (i + 1) fun j hj => ?_
        rw [Nat.add_assoc, Nat.add_comm 1 j]
        exact hi (j + 1) (Nat.succ_lt_succ hj)
  exact hfrom n 0 fun j hj => by rw [Nat.zero_add]; exact h j hj

namespace Kernel

/-- A file system with a shell lets the shell start. -/
theorem shellStarts_of_holdsShell {k : Kernel} (h : k.image.HoldsShell) : k.ShellStarts := by
  obtain ⟨dentry, hname, hgood, hmagic⟩ := h
  intro stack
  have hlength : elfMagic.chars.length ≤ (k.image.inodeLength dentry.numInode).toNat := by
    have hle := hmagic.length_le
    rwa [Image.length_contents] at hle
  have hfour : elfMagic.chars.length = checkValid := rfl
  have hcount : Image.readCount (k.image.inodeLength dentry.numInode).toNat (0 : UInt32).toNat
      (UInt32.ofNat checkValid).toNat = checkValid := by
    rw [Image.readCount, if_pos (show (0 : UInt32).toNat ≤ _ from Nat.zero_le _)]
    exact Nat.min_eq_left hlength
  have hread := Image.readData_eq hgood (Nat.zero_le _) stack
    (show (0 : UInt32).toNat + (UInt32.ofNat checkValid).toNat < 2 ^ 32 by decide)
  rw [hcount] at hread
  -- the four bytes that the check reads are the magic number at the head of the file
  have hbytes : ∀ i < checkValid, copyRange stack 0 checkValid
      (fun j => k.image.fileByte dentry.numInode ((0 : UInt32).toNat + j)) i =
        elfMagic.byte i := by
    intro i hi
    have hin : i < (k.image.inodeLength dentry.numInode).toNat :=
      Nat.lt_of_lt_of_le hi (hfour ▸ hlength)
    have hbyte := Image.contents_getElem? k.image dentry.numInode hin
    have hprefix : (k.image.contents dentry.numInode)[i]? = some elfMagic.chars[i] :=
      List.prefix_iff_getElem?.mp hmagic i hi
    have hcopied : copyRange stack 0 checkValid (fun j =>
        k.image.fileByte dentry.numInode ((0 : UInt32).toNat + j)) i =
        k.image.fileByte dentry.numInode i := by
      simp [copyRange, hi]
    rw [hcopied, CString.byte, List.getD_eq_getElem?_getD,
      List.getElem?_eq_getElem hi, Option.getD_some]
    exact Option.some.inj (hbyte.symm.trans hprefix)
  simp only [checkExecutable, hname, hread, Option.getD_some]
  exact decide_eq_true (strncmp_eq_zero hbytes)

/-! ## The process table in every state -/

/-- The boot shells exist, the shell can be started, and the process table describes stacks of
    processes. -/
structure Settled (k : Kernel) : Prop where
  boot : 2 < k.shellTid
  shell : k.ShellStarts
  tree : ∃ top stack, k.processes.TreeInv top stack

/-- The code takes only enabled actions. -/
theorem processAction_enabled (k : Kernel) (e : KernelEvent) :
    k.processes.Enabled (k.processAction e) := by
  cases e with
  | execute command stack regs =>
    simp only [processAction]
    cases hspawn : k.spawned command stack with
    | none => trivial
    | some p =>
      obtain ⟨name, -, hname⟩ := Option.bind_eq_some_iff.mp hspawn
      split_ifs at hname
      obtain ⟨⟨q, k'⟩, hcreate, rfl⟩ := Option.map_eq_some_iff.mp hname
      -- `create_process` hands out a free number
      obtain ⟨hbound, hfree, -⟩ := createProcess_some hcreate
      exact ⟨hbound, hfree⟩
  | halt exitCode stack regs =>
    simp only [processAction]
    by_cases hroot : k.currPid = k.currParentPid
    · rw [if_pos hroot]
      exact hroot
    · rw [if_neg hroot]
      exact hroot
  | key code =>
    simp only [processAction]
    split
    · split_ifs with hnone
      · trivial
      · simp only [ProcessState.Enabled, terminalTotalNum, terminalMaxNum] at hnone ⊢
        omega
    · trivial
  | switch n =>
    simp only [processAction]
    split_ifs with hnone
    · trivial
    · simp only [ProcessState.Enabled, terminalTotalNum, terminalMaxNum] at hnone ⊢
      omega
  | vidmap screenStart =>
    simp only [processAction]
    split_ifs <;> trivial
  | tick | rtcInterrupt | read | write | «open» | close | getargs => trivial

/-- **Every event keeps the stacks.** -/
theorem Settled.step {k k' : Kernel} {e : KernelEvent} (h : k.Settled)
    (hstep : kernelStep k e = some k') : k'.Settled := by
  have hrefines := kernelStep_processes h.boot h.shell hstep
  -- no action of the process table changes `shell_tid` or the disk
  have hfixed : ∀ a, (k.processes.apply a).shellTid = k.shellTid ∧
      (k.processes.apply a).image = k.image := by
    intro a
    cases a <;> exact ⟨rfl, rfl⟩
  obtain ⟨top, stack, htree⟩ := h.tree
  constructor
  case boot =>
    have hboot : k'.shellTid = k.shellTid :=
      (congrArg ProcessState.shellTid hrefines).trans (hfixed _).1
    exact hboot ▸ h.boot
  case shell =>
    have himage : k'.image = k.image :=
      (congrArg ProcessState.image hrefines).trans (hfixed _).2
    exact fun buf => (checkExecutable_image himage shellName buf).trans (h.shell buf)
  case tree =>
    -- and the tree is kept by every action that is enabled
    rw [hrefines]
    exact htree.apply (k.processAction_enabled e)

end Kernel

/-! ## Descriptors that `halt` can close -/

/-- A pointer to one of the operation tables. -/
def FuncPointer.IsTable (f : FuncPointer) : Prop := ∃ ops, f = .table ops

instance (f : FuncPointer) : Decidable f.IsTable :=
  match f with
  | .table ops => isTrue ⟨ops, rfl⟩
  | .null => isFalse fun h => nomatch h
  | .address _ => isFalse fun h => nomatch h

/-- Every descriptor in use names an operation table. -/
def Pcb.Callable (pcb : Pcb) : Prop :=
  ∀ i < maximumOpenFiles, (pcb.fdArray i).flags = inUse → (pcb.fdArray i).funcPointer.IsTable

/-- The descriptor `i` of a program that starts. -/
def startDescriptor (i : Nat) : FileDescriptor :=
  if i = stdinFd then { freeDescriptor with flags := inUse, funcPointer := .table .stdinOp }
  else if i = stdoutFd then { freeDescriptor with flags := inUse, funcPointer := .table .stdoutOp }
  else freeDescriptor

namespace Kernel

/-- The same for all processes. -/
def Callable (k : Kernel) : Prop := ∀ p < maxProcessNum, (k.pcbArray p).Callable

/-- Changing one PCB. -/
theorem Callable.modifyPcb {k : Kernel} (h : k.Callable) {p : Nat} {f : Pcb → Pcb}
    (hf : p < maxProcessNum → (f (k.pcbArray p)).Callable) : (k.modifyPcb p f).Callable := by
  intro q hq
  by_cases hqp : q = p
  · subst hqp
    rw [pcbArray_modifyPcb_self]
    exact hf hq
  · rw [pcbArray_modifyPcb_of_ne k hqp]
    exact h q hq

/-- A state with the same descriptors. -/
theorem Callable.congr {k k' : Kernel} (h : k.Callable)
    (heq : ∀ p, (k'.pcbArray p).fdArray = (k.pcbArray p).fdArray) : k'.Callable := by
  intro p hp i hi
  rw [heq]
  exact h p hp i hi

/-- Changing one descriptor of a process. -/
theorem Callable.modifyFd {k : Kernel} (h : k.Callable) {p i : Nat}
    {f : FileDescriptor → FileDescriptor}
    (hf : (f ((k.pcbArray p).fdArray i)).flags = inUse →
      (f ((k.pcbArray p).fdArray i)).funcPointer.IsTable) : (k.modifyFd p i f).Callable := by
  refine h.modifyPcb fun hp j hj => ?_
  by_cases hji : j = i
  · subst hji
    dsimp only
    rw [Function.update_self]
    exact hf
  · dsimp only
    rw [Function.update_of_ne hji]
    exact h p hp j hj

/-- `mapVideo` changes the page table only. -/
theorem mapVideo_frame (k : Kernel) :
    k.mapVideo.pcbArray = k.pcbArray ∧ k.mapVideo.currPid = k.currPid := by
  unfold mapVideo
  split_ifs <;> exact ⟨rfl, rfl⟩

/-- Opening the first two descriptors of an empty table. -/
private theorem fdArray_openStdio {k : Kernel}
    (hfree : ∀ i < maximumOpenFiles, k.currPcb.fdArray i = freeDescriptor) {i : Nat}
    (hi : i < maximumOpenFiles) :
    (k.openStdin.openStdout.pcbArray k.currPid).fdArray i = startDescriptor i := by
  have hin := fdArray_modifyFd k k.currPid stdinFd fun d =>
    { d with flags := inUse, funcPointer := .table .stdinOp }
  have hout := fdArray_modifyFd k.openStdin k.currPid stdoutFd fun d =>
    { d with flags := inUse, funcPointer := .table .stdoutOp }
  rw [show (k.openStdin.pcbArray k.currPid).fdArray = _ from hin] at hout
  rw [show (k.openStdin.openStdout.pcbArray k.currPid).fdArray = _ from hout]
  have hzero : (k.pcbArray k.currPid).fdArray stdinFd = freeDescriptor := hfree _ (by decide)
  have hone : (k.pcbArray k.currPid).fdArray stdoutFd = freeDescriptor := hfree _ (by decide)
  unfold startDescriptor
  -- the second update leaves the first alone
  by_cases h0 : i = stdinFd
  · subst h0
    rw [if_pos rfl, Function.update_of_ne (by decide), Function.update_self, hzero]
  by_cases h1 : i = stdoutFd
  · subst h1
    rw [if_neg h0, if_pos rfl, Function.update_self, Function.update_of_ne h0, hone]
  · rw [if_neg h0, if_neg h1, Function.update_of_ne h1, Function.update_of_ne h0]
    exact hfree i hi

/-- The descriptors of a program that starts; the other processes keep theirs. -/
theorem pcbArray_startProgram (k : Kernel) (args : CString) (regs : Context) :
    (∀ i < maximumOpenFiles,
      ((k.startProgram args regs).pcbArray k.currPid).fdArray i = startDescriptor i) ∧
      ∀ q, q ≠ k.currPid → (k.startProgram args regs).pcbArray q = k.pcbArray q := by
  -- the steps of `startProgram`, of which only the last writes descriptors
  let bound := (k.bindNewPcb k.currPid k.currParentPid).modifyPcb k.currPid
    fun pcb => { pcb with saved := regs }
  let mapped := (bound.mapProcess programImage (processFrame k.currPid)).mapVideo
  let filled := mapped.modifyPcb k.currPid fun pcb =>
    { pcb with
      fdArray := fun i => if i < maximumOpenFiles then freeDescriptor else pcb.fdArray i
      argsBuf := strncpy pcb.argsBuf args.byte maximumCommandLength }
  obtain ⟨hpcbs, hcurr⟩ :=
    mapVideo_frame (bound.mapProcess programImage (processFrame k.currPid))
  have hpid : filled.currPid = k.currPid := hcurr
  constructor
  · intro i hi
    have hfree : ∀ j < maximumOpenFiles, filled.currPcb.fdArray j = freeDescriptor := by
      intro j hj
      rw [currPcb, hpid, pcbArray_modifyPcb_self]
      exact if_pos hj
    have hopen := fdArray_openStdio hfree hi
    rw [hpid] at hopen
    exact hopen
  · -- every step writes the PCB of the running process only
    intro q hq
    have hq' : q ≠ filled.currPid := hpid ▸ hq
    have hin : filled.openStdin.pcbArray q = filled.pcbArray q :=
      pcbArray_modifyFd_of_ne filled hq' _ _
    have hout : filled.openStdin.openStdout.pcbArray q = filled.openStdin.pcbArray q :=
      pcbArray_modifyFd_of_ne filled.openStdin hq' _ _
    have hbound : bound.pcbArray q = k.pcbArray q :=
      (pcbArray_modifyPcb_of_ne _ hq _).trans (pcbArray_modifyPcb_of_ne _ hq _)
    have hmapped : mapped.pcbArray q = k.pcbArray q := (congrFun hpcbs q).trans hbound
    exact (hout.trans hin).trans ((pcbArray_modifyPcb_of_ne mapped hq _).trans hmapped)

/-- The PCB of a program that starts, but for its descriptors. -/
theorem pcb_startProgram (k : Kernel) (args : CString) (regs : Context) :
    (k.startProgram args regs).pcbArray k.currPid =
      { k.pcbArray k.currPid with
        pid := k.currPid
        parentPid := if k.currPid = 0 then k.currPid else k.currParentPid
        fdArray := ((k.startProgram args regs).pcbArray k.currPid).fdArray
        saved := regs
        argsBuf :=
          strncpy (k.pcbArray k.currPid).argsBuf args.byte maximumCommandLength } := by
  have hpcbs (k : Kernel) : k.mapVideo.pcbArray = k.pcbArray := (mapVideo_frame k).1
  have hcurr (k : Kernel) : k.mapVideo.currPid = k.currPid := (mapVideo_frame k).2
  simp [Kernel.startProgram, openStdin, openStdout, Kernel.modifyFd, Kernel.modifyPcb, hpcbs,
    hcurr, Kernel.mapProcess, bindNewPcb]

/-! ## Progress -/

/-- A program that starts can be closed. -/
theorem Callable.startProgram {k : Kernel} (h : k.Callable) (args : CString) (regs : Context) :
    (k.startProgram args regs).Callable := by
  obtain ⟨hstarted, hothers⟩ := pcbArray_startProgram k args regs
  intro q hq i hi
  by_cases hqp : q = k.currPid
  · subst hqp
    rw [hstarted i hi]
    unfold startDescriptor
    split_ifs
    · exact fun _ => ⟨_, rfl⟩
    · exact fun _ => ⟨_, rfl⟩
    · exact fun huse => absurd huse (by decide)
  · rw [hothers q hqp]
    exact h q hq i hi

theorem Callable.execute {k : Kernel} (h : k.Callable) (command : Option CString)
    (stack : Buffer) (regs : Context) : (k.execute command stack regs).2.Callable := by
  rcases k.execute_cases command stack regs with ⟨-, heq⟩ | ⟨p, args, -, -, -, heq⟩
  · rw [heq]
    exact h
  · rw [heq]
    exact (h.congr (k.enterChild_frame p).2.2.2).startProgram args regs

theorem Callable.closePcb {k : Kernel} (h : k.Callable) {pid : Nat} (hpid : pid < maxProcessNum) :
    ∃ k', k.closePcb pid = some k' ∧ k'.Callable := by
  have hfree : notUse ≠ inUse := by decide
  -- each turn of the loop finds an operation table and leaves a free slot behind
  have hloop : ∀ (is : List Nat), (∀ i ∈ is, i < maximumOpenFiles) →
      ∀ k : Kernel, k.Callable → ∃ k', is.foldlM (closePcbFd pid) k = some k' ∧ k'.Callable := by
    intro is
    induction is with
    | nil => exact fun _ k hk => ⟨k, rfl, hk⟩
    | cons i is ih =>
      intro his k hk
      have hi := his i List.mem_cons_self
      have hone : ∃ k', closePcbFd pid k i = some k' ∧ k'.Callable := by
        unfold closePcbFd
        dsimp only
        by_cases huse : ((k.pcbArray pid).fdArray i).flags = inUse
        · obtain ⟨ops, hops⟩ := hk pid hpid i hi huse
          have hclosed : (ops.close k i).2.Callable := by
            cases ops with
            | rtc =>
              refine hk.congr fun q => ?_
              simp only [FileOperation.close, rtcClose]
              exact fdArray_modifyPcb k k.currPid (by intros; rfl) q
            | file | dir | stdinOp | stdoutOp => exact hk
          rw [if_pos huse, hops]
          exact ⟨_, rfl, hclosed.modifyFd fun hflag => absurd hflag hfree⟩
        · rw [if_neg huse]
          exact ⟨_, rfl, hk.modifyFd fun hflag => absurd hflag hfree⟩
      obtain ⟨k₁, hstep, hk₁⟩ := hone
      obtain ⟨k', hrest, hk'⟩ := ih (fun j hj => his j (List.mem_cons_of_mem _ hj)) k₁ hk₁
      exact ⟨k', by rw [List.foldlM_cons, hstep]; exact hrest, hk'⟩
  refine hloop _ (fun i hi => List.mem_range.mp hi) _ (h.congr fun q => fdArray_modifyPcb _ _ ?_ q)
  exact fun _ => rfl

theorem Callable.halt {k : Kernel} (h : k.Callable) (hcurr : k.currPid < maxProcessNum)
    (exitCode : UInt8) (stack : Buffer) (regs : Context) :
    ∃ r, k.halt exitCode stack regs = some r ∧ r.2.Callable := by
  obtain ⟨k₁, hclose, hk₁⟩ := h.closePcb hcurr
  obtain ⟨r, hr⟩ : ∃ r, k.halt exitCode stack regs = some r := by
    rw [Kernel.halt, hclose]
    exact ⟨_, rfl⟩
  refine ⟨r, hr, ?_⟩
  obtain ⟨k₂, hclose₂, ⟨-, -, args, rfl⟩ | ⟨-, rfl⟩⟩ := halt_cases hr
  · obtain rfl := Option.some.inj (hclose.symm.trans hclose₂)
    exact (hk₁.congr (k₁.enterShell_frame k.currPid).2.2.2).startProgram args regs
  · obtain rfl := Option.some.inj (hclose.symm.trans hclose₂)
    exact hk₁

/-- A tick stores the registers of the process that it interrupts. -/
theorem pcbArray_pitHandler {k : Kernel} (hboot : 2 < k.shellTid) (stack : Buffer)
    (regs : Context) :
    (k.pitHandler stack regs).pcbArray =
      (k.modifyPcb k.currPid fun pcb => { pcb with own := regs }).pcbArray := by
  rw [pitHandler_eq hboot]
  simp only [modifyPcb, pcbArray_runNext]

theorem Callable.pitHandler {k : Kernel} (h : k.Callable) (hboot : 2 < k.shellTid)
    (stack : Buffer) (regs : Context) : (k.pitHandler stack regs).Callable := by
  refine h.congr fun q => ?_
  rw [pcbArray_pitHandler hboot]
  refine fdArray_modifyPcb k k.currPid ?_ q
  exact fun _ => rfl

theorem Callable.terminalSwitch {k : Kernel} (h : k.Callable) (n : Int) :
    (k.terminalSwitch n).2.Callable := by
  unfold Kernel.terminalSwitch
  split_ifs
  · exact h
  · exact h
  · dsimp only
    split_ifs <;> exact h

/-! ## The booted kernel -/

/-- The three boot shells exist: process `t` runs the root shell of terminal `t`. -/
structure Booted (k : Kernel) : Prop where
  boot : k.shellTid = 3
  shells : ∀ t < terminalTotalNum, (k.tty.terminals t).curPid = t ∧ k.processArray t = 1 ∧
    (k.pcbArray t).parentPid = t ∧ (k.pcbArray t).terminalNumber = t
  free : ∀ p < maxProcessNum, terminalTotalNum ≤ p → k.processArray p = 0
  pages : ∀ t < terminalTotalNum, (k.tty.terminals t).vidBuf = terminalPage t
  display : k.tty.curDisplayTid < terminalTotalNum
  active : k.activeTid < terminalTotalNum
  running : k.currPid = k.activeTid
  parent : k.currParentPid = k.currPid
  stack : k.tssEsp0 = kernelStack k.currPid
  frame : k.pageDirectory (programImage / fourMB) = frameEntry (processFrame k.currPid)
  vidPage : k.vidPageTable 0 =
    vidPageEntry (drawingPage k.tty.curDisplayTid k.processes.vidBuf k.activeTid)
  callable : k.Callable

/-- A booted kernel that has a shell is settled. -/
theorem Booted.settled {k : Kernel} (h : k.Booted) (hshell : k.image.HoldsShell) : k.Settled where
  boot := by rw [h.boot]; decide
  shell := shellStarts_of_holdsShell hshell
  tree := ⟨_, _, ProcessState.treeInv_of_shells h.shells h.free h.active h.running h.parent⟩

end Kernel

/-! ## Runs of ticks, switches, `execute` and `halt` -/

/-- The events that the process table is made for. -/
def KernelEvent.IsProcessEvent : KernelEvent → Prop
  | .tick .. | .switch _ | .execute .. | .halt .. => True
  | .key _ | .rtcInterrupt | .read .. | .write .. | .open _ | .close _ | .getargs .. | .vidmap _ =>
    False

namespace Kernel

/-- These events can always happen. -/
theorem Callable.step {k : Kernel} (h : k.Callable) (hsettled : k.Settled) {e : KernelEvent}
    (he : e.IsProcessEvent) : ∃ k', kernelStep k e = some k' ∧ k'.Callable := by
  cases e with
  | tick stack regs => exact ⟨_, rfl, h.pitHandler hsettled.boot stack regs⟩
  | switch n => exact ⟨_, rfl, h.terminalSwitch n⟩
  | execute command stack regs => exact ⟨_, rfl, h.execute command stack regs⟩
  | halt exitCode stack regs =>
    -- the running process is the top of its terminal's chain, so its number is in range
    obtain ⟨top, procs, htree⟩ := hsettled.tree
    have hcurr : k.currPid < maxProcessNum := by
      obtain ⟨t, -, hrun⟩ := htree.running
      rw [show k.currPid = top t from hrun]
      exact htree.bounded t _ (htree.top_mem t)
    obtain ⟨r, hr, hcall⟩ := h.halt hcurr exitCode stack regs
    refine ⟨r.2, ?_, hcall⟩
    rw [kernelStep, hr, Option.map_some]
  | key | rtcInterrupt | read | write | «open» | close | getargs | vidmap => exact he.elim

/-- A run of these events comes to its end, in a settled state. -/
theorem Settled.run {k : Kernel} (h : k.Settled) (hcall : k.Callable) {es : List KernelEvent}
    (hes : ∀ e ∈ es, e.IsProcessEvent) : ∃ k', exec kernelStep k es = some k' ∧ k'.Settled := by
  induction es generalizing k with
  | nil => exact ⟨k, rfl, h⟩
  | cons e es ih =>
    obtain ⟨k₁, hstep, hcall₁⟩ := hcall.step h (hes e List.mem_cons_self)
    obtain ⟨k', hrun, hsettled⟩ :=
      ih (h.step hstep) hcall₁ fun e' he' => hes e' (List.mem_cons_of_mem _ he')
    exact ⟨k', (exec_cons_of_step hstep).trans hrun, hsettled⟩

/-- `create_process` hands out no process of the tree. -/
theorem Settled.createProcess_fresh {k k' : Kernel} (h : k.Settled) {p : Nat}
    (hcreate : k.createProcess = some (p, k')) {t : Nat} (ht : t < terminalTotalNum) :
    ¬ k.processes.OnChain t p := by
  obtain ⟨top, stack, htree⟩ := h.tree
  obtain ⟨hp, hfree, -⟩ := createProcess_some hcreate
  intro hchain
  exact htree.free_not_mem hp hfree ⟨t, ht⟩ ((htree.onChain_iff ⟨t, ht⟩ p).mp hchain)

end Kernel

/-- **The process tree of every reachable state**: from the booted kernel, every run of ticks,
    switches, `execute` and `halt` goes through and ends with a process tree, from which the
    next tick goes on to the next terminal and `create_process` takes a process outside the
    tree. -/
theorem process_tree_of_run {k : Kernel} (hboot : k.Booted) (hshell : k.image.HoldsShell)
    {es : List KernelEvent} (hes : ∀ e ∈ es, e.IsProcessEvent) :
    ∃ k', exec kernelStep k es = some k' ∧ k'.processes.ProcessTree ∧
      (∀ stack regs,
        (k'.pitHandler stack regs).activeTid = (k'.activeTid + 1) % terminalTotalNum) ∧
      ∀ p k'', k'.createProcess = some (p, k'') →
        ∀ t < terminalTotalNum, ¬ k'.processes.OnChain t p := by
  obtain ⟨k', hrun, hsettled⟩ := (hboot.settled hshell).run hboot.callable hes
  obtain ⟨top, procs, htree⟩ := hsettled.tree
  refine ⟨k', hrun, htree.processTree, fun stack regs => ?_, fun p k'' hcreate t ht =>
    hsettled.createProcess_fresh hcreate ht⟩
  exact congrArg ProcessState.activeTid (Kernel.processes_pitHandler hsettled.boot stack regs)

/-- An image with a shell and nothing else. -/
def shellImage : Image where
  bytes a :=
    if a = 0 ∨ a = 4 ∨ a = 8 then 1
    else if 64 ≤ a ∧ a < 96 then shellName.byte (a - 64)
    else if a = 96 then 2
    else if a = 4096 then 4
    else if 8192 ≤ a ∧ a < 8196 then elfMagic.byte (a - 8192)
    else 0

theorem readDentryByName_shellImage :
    shellImage.readDentryByName (some shellName) = some (shellImage.dentry 0) := by
  have hfind : ((List.range shellImage.numDentry.toNat).find? fun i =>
      strncmp shellName.byte (shellImage.dentry i).filename maximumFilenameLength = 0) =
      some 0 := by
    decide +kernel
  have hshort : ¬ shellName.strlen > maximumFilenameLength := by decide
  simp only [Image.readDentryByName, if_neg hshort, hfind, Option.map_some]

theorem goodInode_shellImage : shellImage.GoodInode (shellImage.dentry 0).numInode :=
  ⟨by decide +kernel, by decide +kernel, by decide +kernel⟩

theorem holdsShell_shellImage : shellImage.HoldsShell := by
  have hcontents : shellImage.contents (shellImage.dentry 0).numInode = elfMagic.chars := by
    rw [Image.contents_eq]
    decide +kernel
  exact ⟨_, readDentryByName_shellImage, goodInode_shellImage, hcontents ▸ List.prefix_rfl⟩

/-- The kernel after the ticks that start the boot shells. -/
def bootedKernel : Kernel :=
  (fun k => k.pitHandler (fun _ => 0) ⟨0, 0⟩)^[6] (Kernel.powerOn shellImage)

theorem booted_bootedKernel : bootedKernel.Booted where
  boot := by decide +kernel
  shells := by decide +kernel
  free := by decide +kernel
  pages := by decide +kernel
  display := by decide +kernel
  active := by decide +kernel
  running := by decide +kernel
  parent := by decide +kernel
  stack := by decide +kernel
  frame := by decide +kernel
  vidPage := by decide +kernel
  callable := by
    unfold Kernel.Callable Pcb.Callable
    decide +kernel

/-- The names `.` and `bad`, and two long ones. -/
def dotName : CString := ⟨[46], by decide⟩
def badName : CString := ⟨[98, 97, 100], by decide⟩
def longName31 : CString := ⟨List.replicate 31 97, by decide⟩
def longName32 : CString := ⟨List.replicate 32 98, by decide⟩

/-- The entries of `sampleImage`: names, types and inodes. -/
def sampleEntries : List (CString × UInt8 × UInt8) :=
  [(dotName, 1, 0), (shellName, 2, 0), (badName, 2, 1), (longName31, 2, 0), (longName32, 2, 0)]

/-- An image with a directory `.`, a file `bad` whose block number is out of range, the shell, and
    two programs with long names. -/
def sampleImage : Image where
  bytes a :=
    if a = 0 then 5
    else if a = 4 then 2
    else if a = 8 then 1
    else if 64 ≤ a ∧ a < 384 then
      let (name, filetype, inode) := sampleEntries.getD (a / 64 - 1) (dotName, 0, 0)
      if a % 64 < 32 then name.byte (a % 64)
      else if a % 64 = 32 then filetype
      else if a % 64 = 36 then inode
      else 0
    -- inode 0 has 28 bytes in block 0, inode 1 ten bytes in block 7
    else if a = 4096 then 28
    else if a = 8192 then 10
    else if a = 8196 then 7
    else if 12288 ≤ a ∧ a < 12292 then elfMagic.byte (a - 12288)
    else 0

/-- The kernel after the ticks that start its shells. -/
def sampleKernel : Kernel :=
  (fun k => k.pitHandler (fun _ => 0) ⟨0, 0⟩)^[6] (Kernel.powerOn sampleImage)

/-- A shell in the shell, a round of the scheduler, and both shells halt. -/
def nestedShell : List KernelEvent :=
  let tick := KernelEvent.tick (fun _ => 0) ⟨0, 0⟩
  let halt := KernelEvent.halt 0 (fun _ => 0) ⟨0, 0⟩
  [.switch 1, .execute (some shellName) (fun _ => 0) ⟨0, 0⟩, tick, tick, tick, halt, halt]

theorem process_tree_of_run_nested_shell :
    ∃ k', exec kernelStep bootedKernel nestedShell = some k' ∧ k'.processes.ProcessTree ∧
      (∀ stack regs,
        (k'.pitHandler stack regs).activeTid = (k'.activeTid + 1) % terminalTotalNum) ∧
      ∀ p k'', k'.createProcess = some (p, k'') →
        ∀ t < terminalTotalNum, ¬ k'.processes.OnChain t p :=
  process_tree_of_run booted_bootedKernel holdsShell_shellImage (by
    simp [nestedShell, KernelEvent.IsProcessEvent])

end LinuxLikeOs
