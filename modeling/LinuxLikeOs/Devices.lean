import LinuxLikeOs.DescriptorTable

/-!
# Devices

What the devices keep outside the descriptors: the index of the next directory entry, which is a
global of `filesystem.c`, and the rate and the counter of the virtual RTC in every PCB.

- `DeviceState.apply`: one update for each thing that can happen to them
- `Kernel.deviceAction`: what an event does to them
- `kernelStep_devices`: the kernel refines this machine, in every state
-/

namespace LinuxLikeOs

open Library

/-! ## State and actions -/

/-- The directory index, and the RTC fields of each process. -/
@[ext]
structure DeviceState where
  dirReadnum : Nat
  rtcfreq : Nat → Int
  rtcCounter : Nat → Int

/-- What can happen to the devices.  `resetRtc` is `rtc_close` and the end of a process. -/
inductive DeviceAction where
  | interrupt (processArray : Nat → Int)
  | openRtc (p : Nat)
  | readRtc (p : Nat)
  | writeRtc (p : Nat) (freq : Int)
  | resetRtc (p : Nat)
  | openDir
  | readDir (numDentry : Nat)
  | other

/-- The effect of an action. -/
def DeviceState.apply (s : DeviceState) : DeviceAction → DeviceState
  | .interrupt processArray =>
    { s with
      rtcCounter := fun p =>
        if p < maxProcessNum ∧ processArray p ≠ 0 ∧ s.rtcfreq p ≠ 0 then
          Kernel.toInt32 (s.rtcCounter p + 1)
        else s.rtcCounter p }
  | .openRtc p =>
    { s with rtcfreq := Function.update s.rtcfreq p (Kernel.maxFreq / Kernel.defaultFreq) }
  | .readRtc p => { s with rtcCounter := Function.update s.rtcCounter p 0 }
  | .writeRtc p freq => { s with rtcfreq := Function.update s.rtcfreq p (Kernel.maxFreq / freq) }
  | .resetRtc p =>
    { s with
      rtcfreq := Function.update s.rtcfreq p 0
      rtcCounter := Function.update s.rtcCounter p 0 }
  | .openDir => { s with dirReadnum := 0 }
  | .readDir numDentry =>
    { s with dirReadnum := if s.dirReadnum ≥ numDentry then s.dirReadnum else s.dirReadnum + 1 }
  | .other => s

namespace Kernel

/-- The devices of a kernel state. -/
def devices (k : Kernel) : DeviceState where
  dirReadnum := k.dirReadnum
  rtcfreq p := (k.pcbArray p).rtcfreq
  rtcCounter p := (k.pcbArray p).rtcCounter

/-! ## The calls and their tables -/

/-- The table behind a pointer. -/
def table? : FuncPointer → Option FileOperation
  | .table ops => some ops
  | .null | .address _ => none

/-- The table that `read`, `write` or `close` goes through, if its guard lets the call pass. -/
def calledTable (k : Kernel) (fd : Int) (noBuffer : Bool) : Option FileOperation :=
  if ¬ fdPasses fd ∨ noBuffer = true ∨ (k.currPcb.slot fd.toNat).flags = notUse then none
  else table? (k.currPcb.slot fd.toNat).funcPointer

/-- The table whose `open` entry `open` goes through. -/
def openedTable (k : Kernel) (filename : Option CString) : Option FileOperation :=
  filename.bind fun name =>
    if strncmp name.byte stdinName.byte 5 = 0 ∨ strncmp name.byte stdoutName.byte 6 = 0 then none
    else
      (k.image.readDentryByName filename).bind fun dentry =>
        k.lowestFree.bind fun fd => table? (bindDentry dentry (k.currPcb.fdArray fd)).funcPointer

/-- What `rtc_write` does. -/
def rtcWriteAction (p : Nat) (buf : Option Buffer) (nbytes : Int) : DeviceAction :=
  match buf with
  | none => .other
  | some buf =>
    if nbytes ≠ 4 ∨ freqToRate (asInt32 (littleEndian buf 0)) = -1 then .other
    else .writeRtc p (asInt32 (littleEndian buf 0))

/-- What an event does to the devices. -/
def deviceAction (k : Kernel) : KernelEvent → DeviceAction
  | .rtcInterrupt => .interrupt k.processArray
  | .halt .. => .resetRtc k.currPid
  | .read fd buf _ =>
    match k.calledTable fd buf.isNone with
    | some .rtc => .readRtc k.currPid
    | some .dir => .readDir k.image.numDentry.toNat
    | _ => .other
  | .write fd buf nbytes =>
    match k.calledTable fd buf.isNone with
    | some .rtc => rtcWriteAction k.currPid buf nbytes
    | _ => .other
  | .open filename =>
    match k.openedTable filename with
    | some .rtc => .openRtc k.currPid
    | some .dir => .openDir
    | _ => .other
  | .close fd =>
    match k.calledTable fd false with
    | some .rtc => .resetRtc k.currPid
    | _ => .other
  | .tick .. | .key _ | .switch _ | .execute .. | .getargs .. | .vidmap _ => .other

/-- A guarded call that returns has been refused, or the entry of the table has returned. -/
theorem kernel?_guarded {k k' : Kernel} {fd : Int} {noBuffer : Bool} {buf : Option Buffer}
    {entry : FileOperation → SysResult}
    (h : (if ¬ fdPasses fd ∨ noBuffer = true ∨ (k.currPcb.slot fd.toNat).flags = notUse then
      SysResult.ret (-1) buf k
    else (k.currPcb.slot fd.toNat).funcPointer.call entry).kernel? = some k') :
    k.calledTable fd noBuffer = none ∧ k' = k ∨
      ∃ ops, k.calledTable fd noBuffer = some ops ∧ (entry ops).kernel? = some k' := by
  unfold calledTable
  -- the guard, then the jump through the pointer of the entry
  split_ifs at h ⊢ with hguard
  · exact .inl ⟨rfl, (Option.some.inj h).symm⟩
  · cases hptr : (k.currPcb.slot fd.toNat).funcPointer with
    | table ops =>
      rw [hptr] at h
      exact .inr ⟨ops, rfl, h⟩
    | null | address =>
      rw [hptr] at h
      cases h

/-- A call gets through the guard to the table of a descriptor in use. -/
theorem calledTable_eq_some {k : Kernel} {fd : Int} {noBuffer : Bool} {ops : FileOperation}
    (h : k.calledTable fd noBuffer = some ops) :
    (fdPasses fd ∧ noBuffer = false ∧ fd.toNat < maximumOpenFiles) ∧
      (k.files.table fd.toNat).flags ≠ notUse ∧
      (k.files.table fd.toNat).funcPointer = .table ops := by
  unfold calledTable at h
  split_ifs at h with hguard
  -- past the guard: the number passes, there is a buffer, the entry is in use
  obtain ⟨hpass, hbuffer, huse⟩ := not_or.mp hguard |>.imp_right not_or.mp
  have htable : (k.currPcb.slot fd.toNat).funcPointer = .table ops := by
    cases hptr : (k.currPcb.slot fd.toNat).funcPointer with
    | null | address =>
      rw [hptr] at h
      cases h
    | table ops' =>
      rw [hptr] at h
      exact congrArg FuncPointer.table (Option.some.inj h)
  by_cases hin : fd.toNat < maximumOpenFiles
  · rw [slot_eq k hin] at huse htable
    exact ⟨⟨not_not.mp hpass, eq_false_of_ne_true hbuffer, hin⟩, huse, htable⟩
  · -- behind the table the pointer is a stack register
    rw [Pcb.slot, if_neg hin] at htable
    dsimp only at htable
    split_ifs at htable

/-- Such a call is the one of the table. -/
theorem call_of_calledTable {k : Kernel} {fd : Int} {noBuffer : Bool} {ops : FileOperation}
    (h : k.calledTable fd noBuffer = some ops) (buf : Option Buffer)
    (entry : FileOperation → SysResult) :
    (if ¬ fdPasses fd ∨ noBuffer = true ∨ (k.currPcb.slot fd.toNat).flags = notUse then
      SysResult.ret (-1) buf k
    else (k.currPcb.slot fd.toNat).funcPointer.call entry) = entry ops := by
  obtain ⟨⟨hpass, hbuffer, hin⟩, huse, htable⟩ := calledTable_eq_some h
  have hguard : ¬ (¬ fdPasses fd ∨ noBuffer = true ∨
      (k.currPcb.slot fd.toNat).flags = notUse) := by
    rw [slot_eq k hin, hbuffer]
    exact fun hrefused => hrefused.elim (fun h => h hpass) fun h =>
      h.elim Bool.noConfusion huse
  rw [if_neg hguard, slot_eq k hin, htable]
  rfl

/-- A `close` that returns has been refused, or the entry of the table has returned. -/
theorem close_guarded {k k' : Kernel} {fd : Int} (h : (k.close fd).kernel? = some k') :
    k.calledTable fd false = none ∧ k' = k ∨
      ∃ ops, k.calledTable fd false = some ops ∧
        k' = if (ops.close k fd.toNat).1 = 0 then
          (ops.close k fd.toNat).2.modifyFd (ops.close k fd.toNat).2.currPid fd.toNat
            fun _ => freeDescriptor
        else (ops.close k fd.toNat).2 := by
  -- `close` has the same guard, and clears the entry when the driver says 0
  have hclose : (if ¬ fdPasses fd ∨ false = true ∨ (k.currPcb.slot fd.toNat).flags = notUse then
      SysResult.ret (-1) none k
    else (k.currPcb.slot fd.toNat).funcPointer.call fun ops =>
      if (ops.close k fd.toNat).1 = 0 then
        .ret 0 none ((ops.close k fd.toNat).2.modifyFd (ops.close k fd.toNat).2.currPid fd.toNat
          fun _ => freeDescriptor)
      else .ret (-1) none (ops.close k fd.toNat).2).kernel? = some k' := by
    simp only [Bool.false_eq_true, false_or]
    exact h
  rcases kernel?_guarded hclose with hrefused | ⟨ops, hops, hentry⟩
  · exact .inl hrefused
  · refine .inr ⟨ops, hops, ?_⟩
    split_ifs at hentry ⊢ <;> exact (Option.some.inj hentry).symm

/-- An `open` that reaches a table. -/
theorem openedTable_eq_some {k : Kernel} {filename : Option CString} {ops : FileOperation}
    (h : k.openedTable filename = some ops) :
    ∃ name entry fd, filename = some name ∧ ¬ strncmp name.byte stdinName.byte 5 = 0 ∧
      ¬ strncmp name.byte stdoutName.byte 6 = 0 ∧
      k.image.readDentryByName (some name) = some entry ∧ k.lowestFree = some fd ∧
      (bindDentry entry (k.files.table fd)).funcPointer = .table ops := by
  obtain ⟨name, rfl, hname⟩ := Option.bind_eq_some_iff.mp h
  -- the two standard names have their own branches
  split_ifs at hname with hstd
  obtain ⟨hin, hout⟩ := not_or.mp hstd
  obtain ⟨entry, hentry, hrest⟩ := Option.bind_eq_some_iff.mp hname
  obtain ⟨fd, hfree, hptr⟩ := Option.bind_eq_some_iff.mp hrest
  refine ⟨name, entry, fd, rfl, hin, hout, hentry, hfree, ?_⟩
  -- the pointer is read back from the entry just bound
  cases hbound : (bindDentry entry (k.currPcb.fdArray fd)).funcPointer with
  | null | address =>
    rw [hbound] at hptr
    cases hptr
  | table ops' =>
    rw [hbound] at hptr
    exact hbound.trans (congrArg FuncPointer.table (Option.some.inj hptr))

/-- It stores the table in a descriptor that was free. -/
theorem open_of_openedTable {k k' : Kernel} {filename : Option CString} {ops : FileOperation}
    (hops : k.openedTable filename = some ops) (h : (k.open filename).kernel? = some k') :
    ∃ fd d, k'.files = k.files.setFd fd d ∧ (2 ≤ fd ∧ fd < maximumOpenFiles) ∧
      (k.files.table fd).flags = notUse ∧ d.flags = inUse ∧ d.funcPointer = .table ops := by
  obtain ⟨name, entry, fd, rfl, hin, hout, hentry, hfree, htable⟩ := openedTable_eq_some hops
  obtain ⟨k₁, hopens, hfiles⟩ := open_eq hin hout hentry hfree htable
  rw [hopens] at h
  obtain rfl := Option.some.inj h
  obtain ⟨hlow, hlt, hflags, -⟩ := lowestFree_eq_some_iff.mp hfree
  exact ⟨fd, _, hfiles, ⟨hlow, hlt⟩, hflags, rfl, htable⟩

/-- An `open` that returns has found no table, or the entry of the table has returned. -/
theorem open_guarded {k k' : Kernel} {filename : Option CString}
    (h : (k.open filename).kernel? = some k') :
    k.openedTable filename = none ∧
        ((k' = k ∨ ∃ text, k' = k.printf text) ∨ k' = k.openStdin ∨ k' = k.openStdout) ∨
      ∃ ops fd bind f, k.openedTable filename = some ops ∧
        k' = (ops.open (k.modifyFd k.currPid fd bind) filename).2.modifyFd
          (ops.open (k.modifyFd k.currPid fd bind) filename).2.currPid fd f := by
  rcases open_cases h with ⟨hmissing, hk'⟩ | ⟨name, rfl, hk'⟩ |
    ⟨name, dentry, fd, ops, f, rfl, hin, hout, hentry, hfree, hptr, hk'⟩
  · -- nothing found, or no descriptor free
    refine .inl ⟨?_, .inl hk'⟩
    cases filename with
    | none => rfl
    | some name =>
      simp only [openedTable, Option.bind_some]
      rcases hmissing with hnone | hnone
      · rw [hnone]
        exact ite_self none
      · rw [hnone]
        simp only [Option.bind_none, Option.bind_fun_none, ite_self]
  · -- the first two descriptors have their tables from the start
    refine .inl ⟨?_, .inr (hk'.imp And.right And.right)⟩
    simp only [openedTable, Option.bind_some]
    exact if_pos (hk'.imp And.left And.left)
  · -- found, with a descriptor free: the table is the one for the type of the file
    refine .inr ⟨ops, fd, _, f, ?_, hk'⟩
    simp only [openedTable, Option.bind_some]
    rw [if_neg (not_or.mpr ⟨hin, hout⟩), hentry, hfree]
    exact congrArg table? hptr

/-- An `open` that finds no table changes no descriptor from 2 on. -/
theorem open_of_openedTable_none {k k' : Kernel} {filename : Option CString}
    (hnone : k.openedTable filename = none) (h : (k.open filename).kernel? = some k') :
    ∃ i d, k'.files = k.files.setFd i d ∧ i < 2 ∧
      (d = k.files.table i ∨ d.funcPointer = .table .stdinOp ∨
        d.funcPointer = .table .stdoutOp) := by
  have hsame : k.files = k.files.setFd 0 (k.files.table 0) := (k.files.setFd_self 0).symm
  rcases open_guarded h with ⟨-, (rfl | ⟨text, rfl⟩) | rfl | rfl⟩ | ⟨ops, fd, bind, f, hops, -⟩
  · exact ⟨0, _, hsame, by decide, .inl rfl⟩
  · exact ⟨0, _, hsame, by decide, .inl rfl⟩
  · exact ⟨_, _, files_modifyFd .., by decide, .inr (.inl rfl)⟩
  · exact ⟨_, _, files_modifyFd .., by decide, .inr (.inr rfl)⟩
  · rw [hnone] at hops
    cases hops

/-! ## Setters -/

theorem devices_modifyPcb (k : Kernel) (p : Nat) (f : Pcb → Pcb) :
    (k.modifyPcb p f).devices =
      { k.devices with
        rtcfreq := Function.update k.devices.rtcfreq p (f (k.pcbArray p)).rtcfreq
        rtcCounter := Function.update k.devices.rtcCounter p (f (k.pcbArray p)).rtcCounter } :=
  DeviceState.ext rfl (Function.comp_update Pcb.rtcfreq k.pcbArray p (f (k.pcbArray p)))
    (Function.comp_update Pcb.rtcCounter k.pcbArray p (f (k.pcbArray p)))

/-- A change of the other fields of a PCB does not show. -/
theorem devices_modifyPcb_same (k : Kernel) (p : Nat) (f : Pcb → Pcb)
    (h : ∀ pcb, (f pcb).rtcfreq = pcb.rtcfreq ∧ (f pcb).rtcCounter = pcb.rtcCounter) :
    (k.modifyPcb p f).devices = k.devices := by
  obtain ⟨hfreq, hcounter⟩ := h (k.pcbArray p)
  rw [devices_modifyPcb, hfreq, hcounter]
  exact DeviceState.ext rfl (Function.update_eq_self ..) (Function.update_eq_self ..)

theorem devices_modifyFd (k : Kernel) (p i : Nat) (f : FileDescriptor → FileDescriptor) :
    (k.modifyFd p i f).devices = k.devices :=
  devices_modifyPcb_same k p _ fun _ => ⟨rfl, rfl⟩

theorem devices_mapVideo (k : Kernel) : k.mapVideo.devices = k.devices := by
  unfold mapVideo
  split_ifs <;> rfl

/-! ## Processes -/

/-- A program that starts finds the RTC fields of its PCB as they are. -/
theorem devices_startProgram (k : Kernel) (args : CString) (regs : Context) :
    (k.startProgram args regs).devices = k.devices := by
  let bound := (k.bindNewPcb k.currPid k.currParentPid).modifyPcb k.currPid
    fun pcb => { pcb with saved := regs }
  -- each part of `startProgram` leaves both arrays and the counters alone
  have hbind : (k.bindNewPcb k.currPid k.currParentPid).devices = k.devices := by
    unfold bindNewPcb
    exact devices_modifyPcb_same _ _ _ fun _ => ⟨rfl, rfl⟩
  have hbound : bound.devices = (k.bindNewPcb k.currPid k.currParentPid).devices :=
    devices_modifyPcb_same _ _ _ fun _ => ⟨rfl, rfl⟩
  let mapped := (bound.mapProcess programImage (processFrame k.currPid)).mapVideo
  have hmapped : mapped.devices = bound.devices := devices_mapVideo _
  let filled := mapped.modifyPcb k.currPid fun pcb =>
    -- `strncpy` and the fresh descriptors are other fields of the PCB
    { pcb with
      fdArray := fun i => if i < maximumOpenFiles then freeDescriptor else pcb.fdArray i
      argsBuf := strncpy pcb.argsBuf args.byte maximumCommandLength }
  have hfilled : filled.openStdin.openStdout.devices = mapped.devices :=
    ((devices_modifyFd ..).trans (devices_modifyFd ..)).trans
      (devices_modifyPcb_same _ _ _ fun _ => ⟨rfl, rfl⟩)
  exact hfilled.trans (hmapped.trans (hbound.trans hbind))

theorem devices_enterChild (k : Kernel) (p : Nat) : (k.enterChild p).devices = k.devices := by
  unfold enterChild
  dsimp only
  split_ifs
  · exact devices_modifyPcb_same _ _ _ fun _ => ⟨rfl, rfl⟩
  · exact devices_modifyPcb_same _ _ _ fun _ => ⟨rfl, rfl⟩

theorem devices_enterShell (k : Kernel) (pid : Nat) : (k.enterShell pid).devices = k.devices :=
  devices_modifyPcb_same _ _ _ fun _ => ⟨rfl, rfl⟩

theorem devices_execute (k : Kernel) (command : Option CString) (stack : Buffer)
    (regs : Context) : (k.execute command stack regs).2.devices = k.devices := by
  rcases k.execute_cases command stack regs with ⟨-, heq⟩ | ⟨p, args, -, -, -, heq⟩
  · rw [heq]
  · rw [heq]
    exact (devices_startProgram ..).trans (devices_enterChild k p)

/-- The end of a process resets its RTC. -/
theorem devices_closePcb {k k' : Kernel} (h : k.closePcb k.currPid = some k') :
    k'.devices = k.devices.apply (.resetRtc k.currPid) := by
  obtain ⟨fds, rfl⟩ := closePcb_eq h
  exact devices_modifyPcb ..

theorem devices_halt {k : Kernel} {exitCode : UInt8} {stack : Buffer} {regs : Context}
    {r : Outcome × Kernel} (h : k.halt exitCode stack regs = some r) :
    r.2.devices = k.devices.apply (.resetRtc k.currPid) := by
  obtain ⟨k₁, hclose, ⟨-, -, args, rfl⟩ | ⟨-, rfl⟩⟩ := halt_cases h
  · exact (devices_startProgram ..).trans
      ((devices_enterShell ..).trans (devices_closePcb hclose))
  · have hresume : (k₁.resumeParent k.currPcb.saved).devices = k₁.devices := rfl
    exact hresume.trans (devices_closePcb hclose)

theorem devices_pitHandler (k : Kernel) (stack : Buffer) (regs : Context) :
    (k.pitHandler stack regs).devices = k.devices := by
  by_cases hboot : k.shellTid ≤ 2
  · rw [pitHandler_boot hboot]
    split_ifs
    · exact devices_execute ..
    · exact (devices_execute ..).trans (devices_modifyPcb_same _ _ _ fun _ => ⟨rfl, rfl⟩)
    · rfl
  · have hlate : 2 < k.shellTid := Nat.lt_of_not_le hboot
    -- the switch to the next process writes no field of a PCB but the saved registers
    have hdir : (k.runNext ((k.activeTid + 1) % terminalTotalNum)).devices = k.devices := by
      refine DeviceState.ext ?_ ?_ ?_
      · simp only [devices, runNext]
        split_ifs <;> rfl
      · simp only [devices, pcbArray_runNext]
      · simp only [devices, pcbArray_runNext]
    have hleft : ((k.runNext ((k.activeTid + 1) % terminalTotalNum)).modifyPcb k.currPid
        fun pcb => { pcb with own := regs }).devices =
          (k.runNext ((k.activeTid + 1) % terminalTotalNum)).devices :=
      devices_modifyPcb_same _ _ _ fun _ => ⟨rfl, rfl⟩
    rw [pitHandler_eq hlate]
    exact hleft.trans hdir

/-! ## Calls -/

theorem devices_terminalSwitch (k : Kernel) (n : Int) :
    (k.terminalSwitch n).2.devices = k.devices := by
  unfold Kernel.terminalSwitch
  split_ifs
  · rfl
  · rfl
  · dsimp only
    split_ifs <;> rfl

theorem devices_keyboardHandler (k : Kernel) (code : UInt8) :
    (k.keyboardHandler code).devices = k.devices := by
  unfold keyboardHandler
  dsimp only
  split
  · exact devices_terminalSwitch _ _
  · rfl

theorem devices_vidmap (k : Kernel) (screenStart : UInt32) :
    (k.vidmap screenStart).2.devices = k.devices := by
  unfold vidmap
  split_ifs <;> rfl

/-- Reading with a buffer through a table. -/
theorem devices_readEntry {ops : FileOperation} {k k' : Kernel} {fd : Nat} {buf : Buffer}
    {nbytes : Int} (h : (ops.read k fd (some buf) nbytes).kernel? = some k') :
    k'.devices = k.devices.apply (match ops with
      | .rtc => .readRtc k.currPid
      | .dir => .readDir k.image.numDentry.toNat
      | _ => .other) := by
  cases ops with
  | rtc =>
    simp only [FileOperation.read, rtcRead] at h
    split_ifs at h
    · cases h
    · obtain rfl := Option.some.inj h
      rw [devices_modifyPcb]
      exact DeviceState.ext rfl (Function.update_eq_self ..) rfl
  | file =>
    obtain rfl := Option.some.inj h
    exact devices_modifyFd ..
  | dir =>
    simp only [FileOperation.read, dirRead] at h
    -- behind the last entry the index stays
    by_cases hend : k.dirReadnum ≥ k.image.numDentry.toNat
    · rw [if_pos hend] at h
      obtain rfl := Option.some.inj h
      exact DeviceState.ext (if_pos hend).symm rfl rfl
    · rw [if_neg hend] at h
      simp only [Image.readDentryByIndex, if_neg hend] at h
      obtain rfl := Option.some.inj h
      exact DeviceState.ext (if_neg hend).symm rfl rfl
  | stdinOp =>
    simp only [FileOperation.read] at h
    split at h
    · cases h
    · obtain rfl := Option.some.inj h
      rfl
  | stdoutOp =>
    obtain rfl := Option.some.inj h
    rfl

theorem devices_writeEntry {ops : FileOperation} {k k' : Kernel} {buf : Option Buffer}
    {nbytes : Int} (h : (ops.write k buf nbytes).kernel? = some k') :
    k'.devices = k.devices.apply (match ops with
      | .rtc => rtcWriteAction k.currPid buf nbytes
      | _ => .other) := by
  cases ops with
  | rtc =>
    obtain rfl := Option.some.inj h
    -- `rtc_write` tests the pointer, the size and the rate, in this order
    cases buf with
    | none => rfl
    | some buf =>
      simp only [rtcWriteAction]
      by_cases hbytes : nbytes ≠ 4
      · rw [if_pos hbytes, if_pos (.inl hbytes)]
        rfl
      by_cases hrate : freqToRate (asInt32 (littleEndian buf 0)) = -1
      · rw [if_neg hbytes, if_pos hrate, if_pos (.inr hrate)]
        rfl
      · rw [if_neg hbytes, if_neg hrate, if_neg (not_or.mpr ⟨hbytes, hrate⟩), devices_modifyPcb]
        exact DeviceState.ext rfl rfl (Function.update_eq_self ..)
  | file | dir | stdinOp =>
    obtain rfl := Option.some.inj h
    rfl
  | stdoutOp =>
    obtain rfl := Option.some.inj h
    rfl

theorem devices_closeEntry (ops : FileOperation) (k : Kernel) (fd : Nat) :
    (ops.close k fd).2.devices = k.devices.apply (match ops with
      | .rtc => .resetRtc k.currPid
      | _ => .other) := by
  cases ops with
  | rtc => exact devices_modifyPcb ..
  | file | dir | stdinOp | stdoutOp => rfl

theorem devices_openEntry (ops : FileOperation) (k : Kernel) (filename : Option CString) :
    (ops.open k filename).2.devices = k.devices.apply (match ops with
      | .rtc => .openRtc k.currPid
      | .dir => .openDir
      | _ => .other) := by
  cases ops with
  | rtc =>
    simp only [FileOperation.open, rtcOpen]
    rw [devices_modifyPcb]
    exact DeviceState.ext rfl rfl (Function.update_eq_self ..)
  | file =>
    simp only [FileOperation.open, fileOpen]
    split <;> rfl
  | dir | stdinOp | stdoutOp => rfl

/-- `read` does to the devices what the entry of the table does. -/
theorem devices_read {k k' : Kernel} {fd : Int} {buf : Option Buffer} {nbytes : Int}
    (h : (k.read fd buf nbytes).kernel? = some k') :
    k'.devices = k.devices.apply (k.deviceAction (.read fd buf nbytes)) := by
  simp only [deviceAction]
  rcases kernel?_guarded h with ⟨hnone, rfl⟩ | ⟨ops, hops, hentry⟩
  · rw [hnone]
    rfl
  · rw [hops]
    cases buf with
    | none =>
      -- without a buffer the guard refuses
      rw [calledTable, if_pos (.inr (.inl rfl))] at hops
      cases hops
    | some buf =>
      rw [devices_readEntry hentry]
      cases ops <;> rfl

/-- The same of `write`. -/
theorem devices_write {k k' : Kernel} {fd : Int} {buf : Option Buffer} {nbytes : Int}
    (h : (k.write fd buf nbytes).kernel? = some k') :
    k'.devices = k.devices.apply (k.deviceAction (.write fd buf nbytes)) := by
  simp only [deviceAction]
  rcases kernel?_guarded h with ⟨hnone, rfl⟩ | ⟨ops, hops, hentry⟩
  · rw [hnone]
    rfl
  · rw [hops, devices_writeEntry hentry]
    cases ops <;> rfl

/-- The same of `close`. -/
theorem devices_close {k k' : Kernel} {fd : Int} (h : (k.close fd).kernel? = some k') :
    k'.devices = k.devices.apply (k.deviceAction (.close fd)) := by
  simp only [deviceAction]
  rcases close_guarded h with ⟨hnone, rfl⟩ | ⟨ops, hops, hclosed⟩
  · rw [hnone]
    rfl
  · have haction : k'.devices = (ops.close k fd.toNat).2.devices := by
      rw [hclosed]
      split_ifs
      · exact devices_modifyFd ..
      · rfl
    rw [hops, haction, devices_closeEntry]
    cases ops <;> rfl

/-- The same of `open`. -/
theorem devices_open {k k' : Kernel} {filename : Option CString}
    (h : (k.open filename).kernel? = some k') :
    k'.devices = k.devices.apply (k.deviceAction (.open filename)) := by
  simp only [deviceAction]
  rcases open_guarded h with ⟨hnone, hk'⟩ | ⟨ops, fd, bind, f, hops, rfl⟩
  · rw [hnone]
    rcases hk' with (rfl | ⟨text, rfl⟩) | rfl | rfl
    · rfl
    · rfl
    · exact devices_modifyFd ..
    · exact devices_modifyFd ..
  · rw [hops, devices_modifyFd, devices_openEntry, devices_modifyFd]
    cases ops <;> rfl

end Kernel

/-- **Refinement**: every event acts on the devices as its action says. -/
theorem kernelStep_devices {k k' : Kernel} {e : KernelEvent} (h : kernelStep k e = some k') :
    k'.devices = k.devices.apply (k.deviceAction e) := by
  cases e with
  | tick stack regs =>
    obtain rfl := Option.some.inj h
    exact k.devices_pitHandler stack regs
  | key code =>
    obtain rfl := Option.some.inj h
    exact k.devices_keyboardHandler code
  | rtcInterrupt =>
    obtain rfl := Option.some.inj h
    -- the handler counts in the PCBs of the processes in use that have a rate
    refine DeviceState.ext rfl (funext fun p => ?_) (funext fun p => ?_)
    · exact (apply_ite Pcb.rtcfreq ..).trans (ite_self _)
    · exact apply_ite Pcb.rtcCounter ..
  | switch n =>
    obtain rfl := Option.some.inj h
    exact k.devices_terminalSwitch n
  | execute command stack regs =>
    obtain rfl := Option.some.inj h
    exact k.devices_execute command stack regs
  | halt exitCode stack regs =>
    obtain ⟨r, hr, rfl⟩ := Option.map_eq_some_iff.mp h
    exact Kernel.devices_halt hr
  | read fd buf nbytes => exact Kernel.devices_read h
  | write fd buf nbytes => exact Kernel.devices_write h
  | «open» filename => exact Kernel.devices_open h
  | close fd => exact Kernel.devices_close h
  | getargs buf nbytes =>
    obtain rfl := Option.some.inj h
    rfl
  | vidmap screenStart =>
    obtain rfl := Option.some.inj h
    exact k.devices_vidmap screenStart

end LinuxLikeOs
