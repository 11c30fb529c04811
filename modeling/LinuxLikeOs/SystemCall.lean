import LinuxLikeOs.Kernel

/-!
# System calls

The functions of `system_call.c`, with the device functions of `filesystem.c` that its
operation tables name.

A call through a `func_pointer` that is no operation table has no meaning in the model
(`SysResult.wild`); a `terminal_read` or `rtc_read` that has to wait is `SysResult.blocked`.
The stack bytes of a local buffer that is read before it is filled are a parameter.
-/

namespace LinuxLikeOs

open Library

/-! ## Texts -/

/-- `File doesn't exist!` -/
def fileMissingText : List UInt8 :=
  [70, 105, 108, 101, 32, 100, 111, 101, 115, 110, 39, 116, 32, 101, 120, 105, 115, 116, 33, 10]

/-- `Filenme check failed!` -/
def filenameCheckText : List UInt8 :=
  [70, 105, 108, 101, 110, 109, 101, 32, 99, 104, 101, 99, 107, 32, 102, 97, 105, 108, 101, 100,
    33, 10]

def stdinName : CString := ⟨[115, 116, 100, 105, 110], by decide⟩
def stdoutName : CString := ⟨[115, 116, 100, 111, 117, 116], by decide⟩
def shellName : CString := ⟨[115, 104, 101, 108, 108], by decide⟩

/-- The first bytes of an executable, `\177ELF`. -/
def elfMagic : CString := ⟨[0x7f, 0x45, 0x4c, 0x46], by decide⟩

/-! ## Results -/

/-- The outcome of `read`, `write`, `open` and `close`: a return value with the caller's
    buffer, a call that still waits, or a call through a pointer that is no table. -/
inductive SysResult where
  | ret (value : Int) (buf : Option Buffer) (k : Kernel)
  | blocked
  | wild

/-- The state after a call that returned. -/
def SysResult.kernel? : SysResult → Option Kernel
  | .ret _ _ k => some k
  | .blocked | .wild => none

/-- The outcome of `execute` and `halt`: a return value, or the start of a program in user
    mode. -/
inductive Outcome where
  | ret (value : Int)
  | user
  deriving DecidableEq

/-- Conversion of an `int32_t` to `uint32_t`. -/
def ofInt32 (i : Int) : UInt32 := UInt32.ofNat (i % 2 ^ 32).toNat

/-- The descriptor at `fd_array[i]`.  Behind the table the PCB goes on with `saved_esp`,
    `saved_ebp` and `args_buf`. -/
def Pcb.slot (pcb : Pcb) (i : Nat) : FileDescriptor :=
  if i < maximumOpenFiles then pcb.fdArray i
  else
    { funcPointer := if pcb.saved.esp = 0 then .null else .address pcb.saved.esp
      inodeNum := pcb.saved.ebp
      filePosition := littleEndian pcb.argsBuf 0
      flags := littleEndian pcb.argsBuf 4 }

/-- A call through a `func_pointer`. -/
def FuncPointer.call (f : FuncPointer) (entry : FileOperation → SysResult) : SysResult :=
  match f with
  | .table ops => entry ops
  | .null | .address _ => .wild

/-- Behind the table the pointer is a stack register, and no operation table. -/
theorem Pcb.call_slot_outside (pcb : Pcb) {i : Nat} (hi : ¬ i < maximumOpenFiles)
    (entry : FileOperation → SysResult) : (pcb.slot i).funcPointer.call entry = .wild := by
  rw [Pcb.slot, if_neg hi]
  by_cases hesp : pcb.saved.esp = 0
  · rw [if_pos hesp]
    rfl
  · rw [if_neg hesp]
    rfl

namespace Kernel

/-! ## Device functions of `filesystem.c` -/

/-- `file_open`; the entry found goes to `current_dentry`. -/
def fileOpen (k : Kernel) (filename : Option CString) : Int × Kernel :=
  match k.image.readDentryByName filename with
  | none => (-1, k)
  | some dentry => (0, { k with currentDentry := dentry })

/-- `file_read`. -/
def fileRead (k : Kernel) (fd : Nat) (buf : Option Buffer) (nbytes : Int) : SysResult :=
  let d := k.currPcb.slot fd
  let (length, buf) := k.image.readData d.inodeNum d.filePosition buf (ofInt32 nbytes)
  .ret length buf
    (k.modifyFd k.currPid fd fun d => { d with filePosition := d.filePosition + ofInt32 length })

/-- `file_write` and `dir_write`. -/
def fileWrite : Int := -1
def dirWrite : Int := -1

/-- `dir_open`. -/
def dirOpen (k : Kernel) (filename : Option CString) : Int × Kernel :=
  (if (k.image.readDentryByName filename).isSome then 0 else -1, { k with dirReadnum := 0 })

/-- `strlen` of the name in an entry.  A name of 32 characters runs on into the fields
    behind it; a zero is taken to stand behind the entry. -/
def nameLength (d : Dentry) : Nat := ((List.range 64).find? fun i => d.bytes i = 0).getD 64

/-- `dir_read`. -/
def dirRead (k : Kernel) (buf : Option Buffer) (nbytes : Int) : SysResult :=
  match buf with
  | none => .ret (-1) none k
  | some buf =>
    if k.dirReadnum ≥ k.image.numDentry.toNat then .ret 0 (some buf) k
    else
      match k.image.readDentryByIndex k.dirReadnum with
      | none => .ret (-1) (some buf) k
      | some fetch =>
        let len := nameLength fetch
        .ret (if nbytes ≤ len then nbytes else len)
          (some (strncpy buf fetch.filename (ofInt32 nbytes).toNat))
          { k with dirReadnum := k.dirReadnum + 1 }

end Kernel

/-! ## Operation tables -/

/-- `error_read` and `error_write`. -/
def errorRead : Int := -1
def errorWrite : Int := -1

namespace FileOperation

/-- The `read` entry of a table. -/
def read (ops : FileOperation) (k : Kernel) (fd : Nat) (buf : Option Buffer) (nbytes : Int) :
    SysResult :=
  match ops with
  | .rtc =>
    match k.rtcRead with
    | none => .blocked
    | some (value, k) => .ret value buf k
  | .file => k.fileRead fd buf nbytes
  | .dir => k.dirRead buf nbytes
  | .stdinOp =>
    match terminalRead k.tty k.currPcb.terminalNumber buf nbytes with
    | none => .blocked
    | some (value, buf, tty) => .ret value buf { k with tty := tty }
  | .stdoutOp => .ret errorRead buf k

/-- The `write` entry of a table. -/
def write (ops : FileOperation) (k : Kernel) (buf : Option Buffer) (nbytes : Int) : SysResult :=
  match ops with
  | .rtc =>
    let (value, k) := k.rtcWrite buf nbytes
    .ret value buf k
  | .file => .ret Kernel.fileWrite buf k
  | .dir => .ret Kernel.dirWrite buf k
  | .stdinOp => .ret errorWrite buf k
  | .stdoutOp =>
    let (value, tty) := terminalWrite k.tty k.currPcb.terminalNumber buf nbytes
    .ret value buf { k with tty := tty }

/-- The `open` entry of a table. -/
def «open» (ops : FileOperation) (k : Kernel) (filename : Option CString) : Int × Kernel :=
  match ops with
  | .rtc => k.rtcOpen
  | .file => k.fileOpen filename
  | .dir => k.dirOpen filename
  | .stdinOp | .stdoutOp => (terminalOpen, k)

end FileOperation

namespace Kernel

/-! ## `read`, `write`, `close` and `open` -/

/-- The guard that `read`, `write` and `close` have in common: `fd` passes the two
    comparisons. -/
def fdPasses (fd : Int) : Prop := ¬ (fd < minimumOpenFiles ∨ fd > maximumOpenFiles)

instance (fd : Int) : Decidable (fdPasses fd) := inferInstanceAs (Decidable (¬ (_ ∨ _)))

/-- `read`. -/
def read (k : Kernel) (fd : Int) (buf : Option Buffer) (nbytes : Int) : SysResult :=
  if ¬ fdPasses fd ∨ buf.isNone = true ∨ (k.currPcb.slot fd.toNat).flags = notUse then
    .ret (-1) buf k
  else
    (k.currPcb.slot fd.toNat).funcPointer.call fun ops => ops.read k fd.toNat buf nbytes

/-- `write`. -/
def write (k : Kernel) (fd : Int) (buf : Option Buffer) (nbytes : Int) : SysResult :=
  if ¬ fdPasses fd ∨ buf.isNone = true ∨ (k.currPcb.slot fd.toNat).flags = notUse then
    .ret (-1) buf k
  else (k.currPcb.slot fd.toNat).funcPointer.call fun ops => ops.write k buf nbytes

/-- `close`. -/
def close (k : Kernel) (fd : Int) : SysResult :=
  if ¬ fdPasses fd ∨ (k.currPcb.slot fd.toNat).flags = notUse then .ret (-1) none k
  else
    (k.currPcb.slot fd.toNat).funcPointer.call fun ops =>
      let (value, k) := ops.close k fd.toNat
      if value = 0 then .ret 0 none (k.modifyFd k.currPid fd.toNat fun _ => freeDescriptor)
      else .ret (-1) none k

/-- `open("stdin")`. -/
def openStdin (k : Kernel) : Kernel :=
  k.modifyFd k.currPid stdinFd fun d => { d with flags := inUse, funcPointer := .table .stdinOp }

/-- `open("stdout")`. -/
def openStdout (k : Kernel) : Kernel :=
  k.modifyFd k.currPid stdoutFd fun d => { d with flags := inUse, funcPointer := .table .stdoutOp }

/-- The first descriptor from 2 on whose flags are 0. -/
def lowestFree (k : Kernel) : Option Nat :=
  (List.range maximumOpenFiles).find? fun fd => 2 ≤ fd ∧ (k.currPcb.fdArray fd).flags = notUse

/-- The table and the inode number that `open` stores for an entry; a type that is none of
    the three leaves the descriptor as it is. -/
def bindDentry (dentry : Dentry) (d : FileDescriptor) : FileDescriptor :=
  if dentry.filetype = rtcFiletype then
    { d with inodeNum := 0xFFFFFFFF, funcPointer := .table .rtc }
  else if dentry.filetype = directoryFiletype then
    { d with inodeNum := 0xFFFFFFFF, funcPointer := .table .dir }
  else if dentry.filetype = regularFiletype then
    { d with inodeNum := dentry.numInode, funcPointer := .table .file }
  else d

/-- `open`. -/
def «open» (k : Kernel) (filename : Option CString) : SysResult :=
  match filename with
  | none => .ret (-1) none (k.printf filenameCheckText)
  | some name =>
    -- a name that only begins with these characters is taken for the device, too
    if strncmp name.byte stdinName.byte 5 = 0 then .ret stdinFd none k.openStdin
    else if strncmp name.byte stdoutName.byte 6 = 0 then .ret stdoutFd none k.openStdout
    else
      match k.image.readDentryByName filename with
      | none => .ret (-1) none (k.printf fileMissingText)
      | some dentry =>
        match k.lowestFree with
        | none => .ret (-1) none k
        | some fd =>
          let k := k.modifyFd k.currPid fd (bindDentry dentry)
          -- the flags are set only when the device agrees
          (k.currPcb.fdArray fd).funcPointer.call fun ops =>
            let (value, k) := ops.open k filename
            if value = -1 then
              .ret (-1) none (k.modifyFd k.currPid fd fun d =>
                { d with inodeNum := 0xFFFFFFFF, funcPointer := .null })
            else
              .ret fd none (k.modifyFd k.currPid fd fun d =>
                { d with filePosition := 0, flags := inUse })

/-! ## `getargs` and `vidmap` -/

/-- `getargs`.  A negative count is a huge `uint32_t`: where this gives a result, the `strncpy` of
    the source pads on until it leaves the memory of the program and faults. -/
def getargs (k : Kernel) (buf : Option Buffer) (nbytes : Int) : Int × Option Buffer :=
  match buf with
  | none => (-1, none)
  | some buf =>
    if k.currPcb.argsBuf 0 = 0 then (-1, some buf)
    else (0, some (strncpy buf k.currPcb.argsBuf (ofInt32 nbytes).toNat))

/-- `vidmap`, for the pointer `screenStart`; the caller's variable at that address gets
    160 MB. -/
def vidmap (k : Kernel) (screenStart : UInt32) : Int × Kernel :=
  if screenStart.toNat = 0 then (-1, k)
  else if screenStart.toNat < programImage ∨ screenStart.toNat ≥ oneThirtyTwoMB then (-1, k)
  else (0, k.vidMapping)

/-! ## `execute` and `halt` -/

/-- A word of the command line is a part of it and has no terminator inside. -/
def word (command : CString) (chars : List UInt8) (h : chars ⊆ command.chars) : CString :=
  ⟨chars, fun h0 => command.noNul (h h0)⟩

/-- The command line behind its leading spaces. -/
def skipSpaces (chars : List UInt8) : List UInt8 := chars.dropWhile (· = blank)

/-- The characters up to the next space. -/
def firstWord (chars : List UInt8) : List UInt8 := chars.takeWhile (· ≠ blank)

/-- What follows the first word. -/
def afterFirstWord (chars : List UInt8) : List UInt8 := chars.dropWhile (· ≠ blank)

/-- `parse_command`: the file name and the argument, cut to their buffers. -/
def parseCommand (command : CString) : CString × CString :=
  let start := skipSpaces command.chars
  let rest := skipSpaces (afterFirstWord start)
  (word command ((firstWord start).take (maximumFilenameLength - 1)) fun _ hc =>
      List.dropWhile_subset _ (List.takeWhile_subset _ (List.take_subset _ _ hc)),
    word command ((firstWord rest).take (maximumCommandLength - 1)) fun _ hc =>
      List.dropWhile_subset _ (List.dropWhile_subset _ (List.dropWhile_subset _
        (List.takeWhile_subset _ (List.take_subset _ _ hc)))))

/-- The checks that `execute` and `restart_shell` make before they change anything: the file
    exists and starts with the ELF magic.  `stack` is what `buf` holds before `read_data`. -/
def checkExecutable (k : Kernel) (fileName : CString) (stack : Buffer) : Bool :=
  match k.image.readDentryByName (some fileName) with
  | none => false
  | some dentry =>
    let buf := (k.image.readData dentry.numInode 0 (some stack) (UInt32.ofNat checkValid)).2
    strncmp (buf.getD stack) elfMagic.byte checkValid = 0

/-- Map the user video page of the running process: video memory when its terminal is
    displayed, the buffer of that terminal otherwise. -/
def mapVideo (k : Kernel) : Kernel :=
  if k.currPcb.terminalNumber = k.tty.curDisplayTid then k.vidRemapping video
  else k.vidRemapping k.currTerminal.vidBuf

/-- The second half of `execute` and `restart_shell`, from `bind_new_pcb` on: set up the PCB
    and the mappings of the new current process, and leave for user mode. -/
def startProgram (k : Kernel) (args : CString) (regs : Context) : Kernel :=
  let pid := k.currPid
  let k := k.bindNewPcb pid k.currParentPid
  let k := k.modifyPcb pid fun pcb => { pcb with saved := regs }
  let k := k.mapProcess programImage (processFrame pid)
  let k := k.mapVideo
  let k := k.modifyPcb pid fun pcb =>
    { pcb with
      fdArray := fun i => if i < maximumOpenFiles then freeDescriptor else pcb.fdArray i
      argsBuf := strncpy pcb.argsBuf args.byte maximumCommandLength }
  let k := k.openStdin.openStdout
  { k with tssEsp0 := kernelStack pid }

/-- `execute`.  `stack` is the content of its local buffer and `regs` the stack registers
    that it saves.  The memory of the programs is not part of this state: the copy of the file,
    which faults when the file is longer than the page of the program, is `Image.loadProgram`. -/
def execute (k : Kernel) (command : Option CString) (stack : Buffer) (regs : Context) :
    Outcome × Kernel :=
  match command with
  | none => (.ret (-1), k)
  | some command =>
    let (fileName, requestCommand) := parseCommand command
    if k.checkExecutable fileName stack = false then (.ret (-1), k)
    else
      match k.createProcess with
      | none => (.ret (-1), k)
      | some (newPid, k) =>
        let k := { k with currParentPid := k.currPid, currPid := newPid }
        let k :=
          if k.shellTid > 2 then
            -- the new process takes the place of its parent on the terminal
            let t := (k.pcbArray k.currParentPid).terminalNumber
            (k.setCurPid t k.currPid).modifyPcb k.currPid fun pcb =>
              { pcb with terminalNumber := t }
          else
            -- the boot shells are their own parents
            ({ k.setCurPid k.shellTid k.currPid with currParentPid := k.currPid }).modifyPcb
              k.currPid fun pcb => { pcb with terminalNumber := k.shellTid }
        (.user, k.startProgram requestCommand regs)

/-- `restart_shell`. -/
def restartShell (k : Kernel) (pid : Nat) (stack : Buffer) (regs : Context) :
    Outcome × Kernel :=
  if k.checkExecutable shellName stack = false then (.ret (-1), k)
  else
    let k := { k with processArray := Function.update k.processArray pid 1 }
    let k := { k with currParentPid := pid, currPid := pid }
    let k := (k.setCurPid pid pid).modifyPcb pid fun pcb => { pcb with terminalNumber := pid }
    (.user, k.startProgram ⟨[], List.not_mem_nil⟩ regs)

/-- The second half of `halt`: go back to the parent. -/
def resumeParent (k : Kernel) (saved : Context) : Kernel :=
  let k := { k with currPid := k.currParentPid }
  -- the grandparent, from the PCB of the parent
  let k := { k with currParentPid := k.currPcb.parentPid }
  let k := k.setCurPid k.currPcb.terminalNumber k.currPid
  let k := k.mapProcess programImage (processFrame k.currPid)
  { k with tssEsp0 := kernelStack k.currPid, context := saved }

/-- `halt`; `none` when `close_pcb` calls through a pointer that is no table.  With a parent,
    the exit code is what the parent's `execute` returns. -/
def halt (k : Kernel) (exitCode : UInt8) (stack : Buffer) (regs : Context) :
    Option (Outcome × Kernel) :=
  let saved := k.currPcb.saved
  (k.closePcb k.currPid).map fun k =>
    if k.currPid = k.currParentPid then
      -- a root shell is its own parent: start it again
      match k.restartShell k.currPid stack regs with
      | (.user, k) => (.user, k)
      -- `restart_shell` only returns when it fails
      | (.ret _, k) => (.ret exitCode.toNat, k.resumeParent saved)
    else (.ret exitCode.toNat, k.resumeParent saved)

end Kernel

end LinuxLikeOs
