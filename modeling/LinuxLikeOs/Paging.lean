import LinuxLikeOs.Library.PageTables
import LinuxLikeOs.Processes

/-!
# Page tables

`paging_init` and `terminal_mapping` set up the tables, `map_process` and `vid_remapping` change two
entries of the directory and one of the user video table.

- `pagingInit`, `Paging.terminalMapping`: the tables at start-up (`terminalMapping_pageTable`)
- `Kernel.entry`: the kernel when `entry` enables the interrupts
- `Kernel.Remaps`: which entries an event can change (`kernelStep_remaps`)
-/

namespace LinuxLikeOs

open Library

/-! ## `paging_init` and `terminal_mapping` -/

/-- `READ` and `PRESENT`. -/
def readAttr : Nat := 0x02
def presentAttr : Nat := 0x01

/-- Where the loader puts `page_table` and `vid_page_table`: two pages. -/
structure TableAddresses where
  pageTable : Nat
  vidPageTable : Nat
  pageTable_aligned : 2 ^ 12 ∣ pageTable
  vidPageTable_aligned : 2 ^ 12 ∣ vidPageTable
  distinct : pageTable ≠ vidPageTable

/-- The tables of `paging.c`. -/
structure Paging where
  pageDirectory : Nat → Nat
  pageTable : Nat → Nat
  vidPageTable : Nat → Nat

/-- `paging_init`. -/
def pagingInit (a : TableAddresses) : Paging :=
  let page := video.toNat >>> 12
  { pageDirectory :=
      Function.update (Function.update (fun _ => readAttr) 0 (a.pageTable ||| readP))
        1 (fourMB ||| msize ||| readP)
    pageTable := Function.update (fun index => index <<< 12 ||| readAttr) page
      (video.toNat ||| readAttr ||| presentAttr)
    vidPageTable := fun index => index <<< 12 ||| readAttr }

/-- One line of `terminal_mapping`. -/
def Paging.mapBuffer (p : Paging) (buffer : Nat) : Paging :=
  { p with pageTable := Function.update p.pageTable (buffer >>> 12) (buffer ||| readP) }

/-- `terminal_mapping`. -/
def Paging.terminalMapping (p : Paging) : Paging :=
  ((p.mapBuffer terminal0Buffer.toNat).mapBuffer terminal1Buffer.toNat).mapBuffer
    terminal2Buffer.toNat

/-- The pages of text memory. -/
def textBases : List Nat :=
  [video, terminal0Buffer, terminal1Buffer, terminal2Buffer].map Int.toNat

/-- The entries of `page_table` after start-up: the four text pages, and no other. -/
theorem terminalMapping_pageTable (a : TableAddresses) (i : Nat) :
    (pagingInit a).terminalMapping.pageTable i =
      i * 2 ^ 12 ||| if i * 2 ^ 12 ∈ textBases then readP else readAttr := by
  have hmem : i * 2 ^ 12 ∈ textBases ↔ i = 0xB8 ∨ i = 0xD0 ∨ i = 0xD1 ∨ i = 0xD2 := by
    simp only [textBases, List.map_cons, List.map_nil, List.mem_cons, List.not_mem_nil, or_false,
      video, terminal0Buffer, terminal1Buffer, terminal2Buffer, Int.reduceToNat]
    omega
  by_cases hi : i * 2 ^ 12 ∈ textBases
  · rw [if_pos hi]
    obtain rfl | rfl | rfl | rfl := hmem.mp hi <;> rfl
  · rw [if_neg hi]
    obtain ⟨hvideo, h0, h1, h2⟩ : i ≠ 0xB8 ∧ i ≠ 0xD0 ∧ i ≠ 0xD1 ∧ i ≠ 0xD2 := by
      have hnone := mt hmem.mpr hi
      omega
    -- none of the four lines of the source has overwritten the entry of the loop
    show Function.update (Function.update (Function.update (Function.update
      (fun index => index <<< 12 ||| readAttr) 0xB8 _) 0xD0 _) 0xD1 _) 0xD2 _ i = _
    rw [Function.update_of_ne h2, Function.update_of_ne h1, Function.update_of_ne h0,
      Function.update_of_ne hvideo, Nat.shiftLeft_eq]

/-- `Enabling Interrupts` -/
def enablingInterruptsText : List UInt8 :=
  [69, 110, 97, 98, 108, 105, 110, 103, 32, 73, 110, 116, 101, 114, 114, 117, 112, 116, 115, 10]

namespace Kernel

/-- The kernel when `entry` enables the interrupts: `paging_init`, `init_terminal` with
    `terminal_mapping`, and the message in front of `sti`. -/
def entry (a : TableAddresses) (img : Image) : Kernel :=
  let p := (pagingInit a).terminalMapping
  let k :=
    { powerOn img with
      pageDirectory := p.pageDirectory
      vidPageTable := p.vidPageTable
      vidPageTableAddr := a.vidPageTable }
  k.printf enablingInterruptsText

/-- `launch_tests`, which `entry` calls behind `sti`: all its tests are comments, and it loops when
    it has cleared the screen. -/
def launchTests (k : Kernel) : Kernel :=
  { k with tty := { k.tty with screen := clearScreen k.tty.screen } }

/-- The tables that the processor walks.  Nothing after start-up stores to `page_table`. -/
def pageTables (a : TableAddresses) (k : Kernel) : PageTables where
  directory := k.pageDirectory
  table addr :=
    if addr = a.vidPageTable then k.vidPageTable
    else if addr = a.pageTable then (pagingInit a).terminalMapping.pageTable
    else fun _ => 0

/-! ## Which entries change -/

/-- From `k` to `k'` only the entries of the program and of the user video page have changed, and
    the latter leads to `vid_page_table`. -/
structure Remaps (k k' : Kernel) : Prop where
  addr : k'.vidPageTableAddr = k.vidPageTableAddr
  directory : ∀ i, i ≠ programImage / fourMB → i ≠ vidDirectoryIndex →
    k'.pageDirectory i = k.pageDirectory i
  vidEntry : k'.pageDirectory vidDirectoryIndex = k.pageDirectory vidDirectoryIndex ∨
    k'.pageDirectory vidDirectoryIndex = k.vidPageTableAddr ||| readP ||| user
  table : ∀ i, i ≠ 0 → k'.vidPageTable i = k.vidPageTable i

/-- The tables are the same. -/
structure KeepsTables (k k' : Kernel) : Prop where
  addr : k'.vidPageTableAddr = k.vidPageTableAddr
  directory : k'.pageDirectory = k.pageDirectory
  table : k'.vidPageTable = k.vidPageTable

theorem KeepsTables.remaps {k k' : Kernel} (h : k.KeepsTables k') : k.Remaps k' where
  addr := h.addr
  directory i _ _ := congrFun h.directory i
  vidEntry := .inl (congrFun h.directory _)
  table i _ := congrFun h.table i

/-- The program entry and the entry of the user video page are two. -/
theorem vidDirectoryIndex_ne : vidDirectoryIndex ≠ programImage / fourMB := by decide

namespace Remaps

variable {k k₁ k' : Kernel}

theorem refl (k : Kernel) : k.Remaps k := KeepsTables.remaps ⟨rfl, rfl, rfl⟩

theorem trans (h : k.Remaps k₁) (h' : k₁.Remaps k') : k.Remaps k' where
  addr := h'.addr.trans h.addr
  directory i hp hv := (h'.directory i hp hv).trans (h.directory i hp hv)
  vidEntry := by
    rcases h'.vidEntry with hsame | hset
    · rw [hsame]
      exact h.vidEntry
    · rw [hset, h.addr]
      exact .inr rfl
  table i hi := (h'.table i hi).trans (h.table i hi)

theorem mapProcess (k : Kernel) (physicalMem : Nat) :
    k.Remaps (k.mapProcess programImage physicalMem) where
  addr := rfl
  directory _ hp _ := Function.update_of_ne hp _ k.pageDirectory
  vidEntry := .inl (by simp [Kernel.mapProcess, vidDirectoryIndex_ne])
  table _ _ := rfl

theorem vidRemapping (k : Kernel) (physicalMem : Int) : k.Remaps (k.vidRemapping physicalMem) where
  addr := rfl
  directory _ _ hv := Function.update_of_ne hv _ k.pageDirectory
  vidEntry := .inr (Function.update_self vidDirectoryIndex _ k.pageDirectory)
  table _ hi := Function.update_of_ne hi _ k.vidPageTable

theorem mapVideo (k : Kernel) : k.Remaps k.mapVideo := by
  unfold Kernel.mapVideo
  split_ifs
  · exact vidRemapping ..
  · exact vidRemapping ..

theorem modifyPcb (k : Kernel) (p : Nat) (f : Pcb → Pcb) : k.Remaps (k.modifyPcb p f) :=
  KeepsTables.remaps ⟨rfl, rfl, rfl⟩

theorem startProgram (k : Kernel) (args : CString) (regs : Context) :
    k.Remaps (k.startProgram args regs) := by
  let bound := k.bindNewPcb k.currPid k.currParentPid
  let saved := bound.modifyPcb k.currPid fun pcb => { pcb with saved := regs }
  let mapped := (saved.mapProcess programImage (processFrame k.currPid)).mapVideo
  have hsaved : k.Remaps saved := (modifyPcb k k.currPid _).trans (modifyPcb bound k.currPid _)
  have hmapped : saved.Remaps mapped := (mapProcess saved _).trans (mapVideo _)
  -- the descriptors and the TSS come last
  let filled := mapped.modifyPcb k.currPid fun pcb =>
    { pcb with
      fdArray := fun i => if i < maximumOpenFiles then freeDescriptor else pcb.fdArray i
      argsBuf := strncpy pcb.argsBuf args.byte maximumCommandLength }
  have hfilled : mapped.Remaps filled := modifyPcb mapped k.currPid _
  have hstdin : filled.Remaps filled.openStdin := KeepsTables.remaps ⟨rfl, rfl, rfl⟩
  have hstdout : filled.openStdin.Remaps filled.openStdin.openStdout :=
    KeepsTables.remaps ⟨rfl, rfl, rfl⟩
  have htss : filled.openStdin.openStdout.Remaps (k.startProgram args regs) :=
    KeepsTables.remaps ⟨rfl, rfl, rfl⟩
  exact (((hsaved.trans hmapped).trans hfilled).trans (hstdin.trans hstdout)).trans htss

theorem enterChild (k : Kernel) (p : Nat) : k.Remaps (k.enterChild p) := by
  unfold Kernel.enterChild
  dsimp only
  split_ifs
  · exact KeepsTables.remaps ⟨rfl, rfl, rfl⟩
  · exact KeepsTables.remaps ⟨rfl, rfl, rfl⟩

theorem execute (k : Kernel) (command : Option CString) (stack : Buffer) (regs : Context) :
    k.Remaps (k.execute command stack regs).2 := by
  rcases k.execute_cases command stack regs with ⟨-, heq⟩ | ⟨p, args, -, -, -, heq⟩
  · rw [heq]
    exact refl k
  · rw [heq]
    exact (enterChild k p).trans (startProgram ..)

theorem resumeParent (k : Kernel) (saved : Context) : k.Remaps (k.resumeParent saved) where
  addr := rfl
  -- the parent's frame is mapped, its video page is not
  directory _ hp _ := Function.update_of_ne hp _ k.pageDirectory
  vidEntry := .inl (Function.update_of_ne vidDirectoryIndex_ne
    (processFrame k.currParentPid ||| readP ||| msize ||| user) k.pageDirectory)
  table _ _ := rfl

theorem halt {exitCode : UInt8} {stack : Buffer} {regs : Context} {r : Outcome × Kernel}
    (h : k.halt exitCode stack regs = some r) : k.Remaps r.2 := by
  obtain ⟨k₁, hclose, hcases⟩ := halt_cases h
  have hclosed : k.Remaps k₁ := by
    obtain ⟨fds, rfl⟩ := closePcb_eq hclose
    exact KeepsTables.remaps ⟨rfl, rfl, rfl⟩
  rcases hcases with ⟨-, -, args, rfl⟩ | ⟨-, rfl⟩
  · have hshell : k₁.Remaps (k₁.enterShell k.currPid) := KeepsTables.remaps ⟨rfl, rfl, rfl⟩
    exact (hclosed.trans hshell).trans (startProgram ..)
  · exact hclosed.trans (resumeParent ..)

theorem runNext (k : Kernel) (t : Nat) : k.Remaps (k.runNext t) := by
  let chosen : Kernel := { k with nextSchedTid := t }
  let viewed := if k.tty.curDisplayTid = t then chosen.vidMapping
    else chosen.vidRemapping (k.tty.terminals t).vidBuf
  have hchosen : k.Remaps chosen := KeepsTables.remaps ⟨rfl, rfl, rfl⟩
  have hviewed : chosen.Remaps viewed := by
    simp only [viewed]
    split_ifs
    · exact vidRemapping chosen video
    · exact vidRemapping chosen (k.tty.terminals t).vidBuf
  let next := (k.tty.terminals t).curPid.toNat
  have hmapped := mapProcess viewed (processFrame next)
  have hentered : (viewed.mapProcess programImage (processFrame next)).Remaps (k.runNext t) :=
    KeepsTables.remaps ⟨rfl, rfl, rfl⟩
  exact ((hchosen.trans hviewed).trans hmapped).trans hentered

theorem pitHandler (k : Kernel) (stack : Buffer) (regs : Context) :
    k.Remaps (k.pitHandler stack regs) := by
  by_cases hboot : k.shellTid ≤ 2
  · have hchosen : k.Remaps k.chooseShell := KeepsTables.remaps ⟨rfl, rfl, rfl⟩
    rw [pitHandler_boot hboot]
    split_ifs
    · exact hchosen.trans (execute ..)
    · exact (hchosen.trans (modifyPcb ..)).trans (execute ..)
    · exact KeepsTables.remaps ⟨rfl, rfl, rfl⟩
  · have hrun := runNext k ((k.activeTid + 1) % terminalTotalNum)
    rw [pitHandler_eq (Nat.lt_of_not_le hboot)]
    exact hrun.trans (KeepsTables.remaps ⟨rfl, rfl, rfl⟩)

theorem terminalSwitch (k : Kernel) (n : Int) : k.Remaps (k.terminalSwitch n).2 := by
  unfold Kernel.terminalSwitch
  split_ifs
  · exact refl k
  · exact refl k
  · let shown : Kernel := { k with tty := switchDisplay k.tty n.toNat }
    have hshown : k.Remaps shown := KeepsTables.remaps ⟨rfl, rfl, rfl⟩
    dsimp only
    split_ifs
    · exact hshown.trans (vidRemapping ..)
    · exact hshown.trans (vidRemapping ..)

theorem keyboardHandler (k : Kernel) (code : UInt8) : k.Remaps (k.keyboardHandler code) := by
  let pressed : Kernel :=
    { k with tty := { k.tty with keyboard := releaseFlags k.tty.keyboard code.toNat } }
  have hpressed : k.Remaps pressed := KeepsTables.remaps ⟨rfl, rfl, rfl⟩
  unfold Kernel.keyboardHandler
  dsimp only
  cases switchKey (releaseFlags k.tty.keyboard code.toNat) code.toNat with
  | some t => exact hpressed.trans (terminalSwitch pressed t)
  | none => exact KeepsTables.remaps ⟨rfl, rfl, rfl⟩

/-- The operations on open files do not touch the tables. -/
theorem readEntry (ops : FileOperation) (k : Kernel) (fd : Nat) (buf : Option Buffer)
    (nbytes : Int) : (ops.read k fd buf nbytes).Keeps k.Remaps := by
  -- no driver's `read` touches the page tables
  cases ops with
  | rtc =>
    simp only [FileOperation.read, rtcRead]
    split_ifs
    · exact SysResult.keeps_blocked
    · exact SysResult.keeps_ret.mpr (modifyPcb ..)
  | file => exact SysResult.keeps_ret.mpr (modifyPcb ..)
  | dir =>
    simp only [FileOperation.read, dirRead]
    split
    · exact SysResult.keeps_ret.mpr (refl k)
    · split_ifs
      · exact SysResult.keeps_ret.mpr (refl k)
      · split
        · exact SysResult.keeps_ret.mpr (refl k)
        · exact SysResult.keeps_ret.mpr (KeepsTables.remaps ⟨rfl, rfl, rfl⟩)
  | stdinOp =>
    simp only [FileOperation.read]
    cases terminalRead k.tty k.currPcb.terminalNumber buf nbytes with
    | none => exact SysResult.keeps_blocked
    | some r => exact SysResult.keeps_ret.mpr (KeepsTables.remaps ⟨rfl, rfl, rfl⟩)
  | stdoutOp => exact SysResult.keeps_ret.mpr (refl k)

theorem writeEntry (ops : FileOperation) (k : Kernel) (buf : Option Buffer) (nbytes : Int) :
    (ops.write k buf nbytes).Keeps k.Remaps := by
  cases ops with
  | rtc =>
    refine SysResult.keeps_ret.mpr ?_
    cases buf with
    | none => exact refl k
    | some buf =>
      simp only
      split_ifs
      · exact refl k
      · exact refl k
      · exact KeepsTables.remaps ⟨rfl, rfl, rfl⟩
  | file | dir | stdinOp => exact SysResult.keeps_ret.mpr (refl k)
  | stdoutOp => exact SysResult.keeps_ret.mpr (KeepsTables.remaps ⟨rfl, rfl, rfl⟩)

theorem openEntry (ops : FileOperation) (k : Kernel) (filename : Option CString) :
    k.Remaps (ops.open k filename).2 := by
  cases ops with
  | rtc => exact KeepsTables.remaps ⟨rfl, rfl, rfl⟩
  | file =>
    simp only [FileOperation.open, fileOpen]
    split
    · exact refl k
    · exact KeepsTables.remaps ⟨rfl, rfl, rfl⟩
  | dir => exact KeepsTables.remaps ⟨rfl, rfl, rfl⟩
  | stdinOp | stdoutOp => exact refl k

theorem closeEntry (ops : FileOperation) (k : Kernel) (fd : Nat) :
    k.Remaps (ops.close k fd).2 := by
  cases ops with
  | rtc => exact KeepsTables.remaps ⟨rfl, rfl, rfl⟩
  | file | dir | stdinOp | stdoutOp => exact refl k

theorem openCall (k : Kernel) (filename : Option CString) :
    (k.open filename).Keeps k.Remaps := by
  intro k' h
  rcases open_cases h with ⟨-, rfl | ⟨text, rfl⟩⟩ | ⟨name, -, ⟨-, rfl⟩ | ⟨-, rfl⟩⟩ |
    ⟨name, dentry, fd, ops, f, -, -, -, -, -, -, rfl⟩
  · exact refl k'
  · exact KeepsTables.remaps ⟨rfl, rfl, rfl⟩
  · exact KeepsTables.remaps ⟨rfl, rfl, rfl⟩
  · exact KeepsTables.remaps ⟨rfl, rfl, rfl⟩
  · have hbound : k.Remaps (k.modifyFd k.currPid fd (bindDentry dentry)) := modifyPcb ..
    exact (hbound.trans (openEntry ops _ filename)).trans (modifyPcb ..)

theorem closeCall (k : Kernel) (fd : Int) : (k.close fd).Keeps k.Remaps := by
  refine SysResult.keeps_guard (refl k) fun ops => ?_
  have hclosed := closeEntry ops k fd.toNat
  dsimp only
  split_ifs
  · exact SysResult.keeps_ret.mpr (hclosed.trans (modifyPcb ..))
  · exact SysResult.keeps_ret.mpr hclosed

theorem vidmap (k : Kernel) (screenStart : UInt32) : k.Remaps (k.vidmap screenStart).2 := by
  unfold Kernel.vidmap
  split_ifs
  · exact refl k
  · exact refl k
  · exact vidRemapping ..

end Remaps

end Kernel

/-- **Every event** changes at most these entries. -/
theorem kernelStep_remaps {k k' : Kernel} {e : KernelEvent} (h : kernelStep k e = some k') :
    k.Remaps k' := by
  -- starts, ends, switches and `vidmap` write the entries for the program and for `vidmap` only
  cases e with
  | tick stack regs =>
    obtain rfl := Option.some.inj h
    exact Kernel.Remaps.pitHandler ..
  | key code =>
    obtain rfl := Option.some.inj h
    exact Kernel.Remaps.keyboardHandler ..
  | rtcInterrupt =>
    obtain rfl := Option.some.inj h
    exact Kernel.KeepsTables.remaps ⟨rfl, rfl, rfl⟩
  | switch n =>
    obtain rfl := Option.some.inj h
    exact Kernel.Remaps.terminalSwitch ..
  | execute command stack regs =>
    obtain rfl := Option.some.inj h
    exact Kernel.Remaps.execute ..
  | halt exitCode stack regs =>
    obtain ⟨r, hr, rfl⟩ := Option.map_eq_some_iff.mp h
    exact Kernel.Remaps.halt hr
  | read fd buf nbytes =>
    exact SysResult.keeps_guard (.refl k) (fun ops => Kernel.Remaps.readEntry ops k _ _ _) k' h
  | write fd buf nbytes =>
    exact SysResult.keeps_guard (.refl k) (fun ops => Kernel.Remaps.writeEntry ops k _ _) k' h
  | «open» filename => exact Kernel.Remaps.openCall k filename k' h
  | close fd => exact Kernel.Remaps.closeCall k fd k' h
  | getargs buf nbytes =>
    obtain rfl := Option.some.inj h
    exact .refl k
  | vidmap screenStart =>
    obtain rfl := Option.some.inj h
    exact Kernel.Remaps.vidmap ..

end LinuxLikeOs
