import LinuxLikeOs.Filesystem

/-!
# Kernel state

Processes, descriptors, page tables and the RTC counters: the state that the system calls
and the scheduler share, with the functions of `pcb.c`, `paging.c` and `rtc.c` that change
it.

Registers that a function saves or loads by inline assembly are opaque pairs (`Context`).
User memory is not part of the state: a system call gets the caller's buffer as an
argument and gives it back.
-/

namespace LinuxLikeOs

/-! ## Constants of `system_call.h`, `pcb.h` and `paging.h` -/

/-- `Process` and `MAX_PROCESS_NUM`. -/
def maxProcessNum : Nat := 6

/-- `Maximum_open_files` and `MAX_FD_NUM`, the size of the descriptor table. -/
def maximumOpenFiles : Nat := 8
def minimumOpenFiles : Nat := 0

def maximumCommandLength : Nat := 128
def checkValid : Nat := 4

def stdinFd : Nat := 0
def stdoutFd : Nat := 1

def notUse : UInt32 := 0
def inUse : UInt32 := 1

def rtcFiletype : UInt32 := 0
def directoryFiletype : UInt32 := 1
def regularFiletype : UInt32 := 2

def eightKB : Nat := 0x2000
def fourMB : Nat := 0x400000
def eightMB : Nat := 0x800000
def programImage : Nat := 0x8000000
def oneThirtyTwoMB : Nat := 0x8400000

/-- Page attributes: present and writable, user, 4 MB page. -/
def readP : Nat := 0x03
def user : Nat := 0x04
def msize : Nat := 0x80

/-- `_160MB_idx`, the page directory index of the user video page. -/
def vidDirectoryIndex : Nat := 40

/-- `tss.esp0` of a process. -/
def kernelStack (pid : Nat) : Int := (eightMB : Int) - eightKB * pid - 4

/-- The physical frame of a process. -/
def processFrame (pid : Nat) : Nat := eightMB + pid * fourMB

/-! ## State -/

/-- The operation tables of `system_call.c`. -/
inductive FileOperation where
  | rtc
  | file
  | dir
  | stdinOp
  | stdoutOp
  deriving DecidableEq

/-- What a `func_pointer` can hold: `NULL`, one of the tables, or any other address. -/
inductive FuncPointer where
  | null
  | table (ops : FileOperation)
  | address (a : UInt32)
  deriving DecidableEq

/-- `file_descriptor_t`. -/
structure FileDescriptor where
  funcPointer : FuncPointer
  inodeNum : UInt32
  filePosition : UInt32
  flags : UInt32
  deriving DecidableEq

/-- The descriptor that the loop in `execute` writes and `close` leaves. -/
def freeDescriptor : FileDescriptor := ⟨.null, 0xFFFFFFFF, 0, notUse⟩

/-- A pair of stack registers. -/
structure Context where
  esp : UInt32
  ebp : UInt32
  deriving DecidableEq

/-- `pcb_t`. -/
structure Pcb where
  pid : Nat
  parentPid : Nat
  fdArray : Nat → FileDescriptor
  saved : Context
  argsBuf : Buffer
  terminalNumber : Nat
  own : Context
  rtcfreq : Int
  rtcCounter : Int

/-- The globals of the kernel. -/
structure Kernel where
  tty : Tty
  processArray : Nat → Int
  pcbArray : Nat → Pcb
  currPid : Nat
  currParentPid : Nat
  activeTid : Nat
  nextSchedTid : Nat
  shellTid : Nat
  pageDirectory : Nat → Nat
  vidPageTable : Nat → Nat
  vidPageTableAddr : Nat
  tssEsp0 : Int
  context : Context
  image : Image
  dirReadnum : Nat
  currentDentry : Dentry

namespace Kernel

/-- Change one PCB. -/
def modifyPcb (k : Kernel) (p : Nat) (f : Pcb → Pcb) : Kernel :=
  { k with pcbArray := Function.update k.pcbArray p (f (k.pcbArray p)) }

@[simp] theorem pcbArray_modifyPcb_self (k : Kernel) (p : Nat) (f : Pcb → Pcb) :
    (k.modifyPcb p f).pcbArray p = f (k.pcbArray p) := Function.update_self ..

theorem pcbArray_modifyPcb_of_ne (k : Kernel) {p q : Nat} (h : q ≠ p) (f : Pcb → Pcb) :
    (k.modifyPcb p f).pcbArray q = k.pcbArray q := Function.update_of_ne h ..

/-- A change that keeps the descriptors. -/
theorem fdArray_modifyPcb (k : Kernel) (p : Nat) {f : Pcb → Pcb}
    (hf : ∀ pcb, (f pcb).fdArray = pcb.fdArray) (q : Nat) :
    ((k.modifyPcb p f).pcbArray q).fdArray = (k.pcbArray q).fdArray := by
  by_cases hq : q = p
  · subst hq
    rw [pcbArray_modifyPcb_self, hf]
  · rw [pcbArray_modifyPcb_of_ne k hq]

/-- Store `pid` in `terminals[t].cur_pid`. -/
def setCurPid (k : Kernel) (t pid : Nat) : Kernel :=
  { k with tty := k.tty.setTerminal t { k.tty.terminals t with curPid := pid } }

/-- The PCB of the running process. -/
def currPcb (k : Kernel) : Pcb := k.pcbArray k.currPid

/-- The terminal of the running process. -/
def currTerminal (k : Kernel) : Terminal := k.tty.terminals k.currPcb.terminalNumber

/-- `printf` of a plain text. -/
def printf (k : Kernel) (text : List UInt8) : Kernel :=
  { k with tty := { k.tty with screen := LinuxLikeOs.printf k.tty.screen text } }

/-! ## `paging.c` -/

/-- `map_process`. -/
def mapProcess (k : Kernel) (virtualMem physicalMem : Nat) : Kernel :=
  { k with
    pageDirectory := Function.update k.pageDirectory (virtualMem / fourMB)
      (physicalMem ||| readP ||| msize ||| user) }

/-- `vid_remapping`. -/
def vidRemapping (k : Kernel) (physicalMem : Int) : Kernel :=
  { k with
    pageDirectory := Function.update k.pageDirectory vidDirectoryIndex
      (k.vidPageTableAddr ||| readP ||| user)
    vidPageTable := Function.update k.vidPageTable 0 (physicalMem.toNat ||| readP ||| user) }

/-- `vid_mapping`. -/
def vidMapping (k : Kernel) : Kernel := k.vidRemapping video

/-! ## `rtc.c` -/

/-- `MAX_FREQ` and `DEFAULT_FREQ`. -/
def maxFreq : Int := 1024
def defaultFreq : Int := 2

/-- `freq_to_rate`. -/
def freqToRate (freq : Int) : Int :=
  if freq = 2 then 15
  else if freq = 4 then 14
  else if freq = 8 then 13
  else if freq = 16 then 12
  else if freq = 32 then 11
  else if freq = 64 then 10
  else if freq = 128 then 9
  else if freq = 256 then 8
  else if freq = 512 then 7
  else if freq = 1024 then 6
  else -1

/-- Conversion to `int32_t`, as in `rtc_counter++`. -/
def toInt32 (i : Int) : Int := (i + 2 ^ 31) % 2 ^ 32 - 2 ^ 31

/-- `rtc_handler`: count the interrupt for every process that has opened the RTC. -/
def rtcHandler (k : Kernel) : Kernel :=
  { k with
    pcbArray := fun p =>
      if p < maxProcessNum ∧ k.processArray p ≠ 0 ∧ (k.pcbArray p).rtcfreq ≠ 0 then
        { k.pcbArray p with rtcCounter := toInt32 ((k.pcbArray p).rtcCounter + 1) }
      else k.pcbArray p }

/-- `rtc_open`. -/
def rtcOpen (k : Kernel) : Int × Kernel :=
  (0, k.modifyPcb k.currPid fun pcb => { pcb with rtcfreq := maxFreq / defaultFreq })

/-- `rtc_close`. -/
def rtcClose (k : Kernel) : Int × Kernel :=
  (0, k.modifyPcb k.currPid fun pcb => { pcb with rtcfreq := 0, rtcCounter := 0 })

/-- `rtc_read`; `none` while it waits for interrupts. -/
def rtcRead (k : Kernel) : Option (Int × Kernel) :=
  -- the counter has to reach the number of interrupts that make up one tick
  if k.currPcb.rtcfreq > k.currPcb.rtcCounter then none
  else some (0, k.modifyPcb k.currPid fun pcb => { pcb with rtcCounter := 0 })

/-- `rtc_write`. -/
def rtcWrite (k : Kernel) (buf : Option Buffer) (nbytes : Int) : Int × Kernel :=
  match buf with
  | none => (-1, k)
  | some buf =>
    if nbytes ≠ 4 then (-1, k)
    else
      let freq := asInt32 (littleEndian buf 0)
      if freqToRate freq = -1 then (-1, k)
      else (0, k.modifyPcb k.currPid fun pcb => { pcb with rtcfreq := maxFreq / freq })

/-! ## `pcb.c` -/

/-- `create_process`, with `none` for the return value -1. -/
def createProcess (k : Kernel) : Option (Nat × Kernel) :=
  ((List.range maxProcessNum).find? fun i => k.processArray i = 0).map fun i =>
    (i, { k with processArray := Function.update k.processArray i 1 })

/-- `bind_new_pcb`; the pointer it returns is `pcb_array[pid]`. -/
def bindNewPcb (k : Kernel) (pid parentPid : Nat) : Kernel :=
  k.modifyPcb pid fun pcb =>
    -- process 0 is the first shell and has no parent
    { pcb with pid := pid, parentPid := if pid = 0 then pid else parentPid }

end Kernel

/-- `file_close`. -/
def fileClose (fd : Nat) : Int := if fd = 0 ∨ fd = 1 then -1 else 0

/-- `dir_close`. -/
def dirClose : Int := 0

/-- The `close` entry of an operation table. -/
def FileOperation.close (ops : FileOperation) (k : Kernel) (fd : Nat) : Int × Kernel :=
  match ops with
  | .rtc => k.rtcClose
  | .file => (fileClose fd, k)
  | .dir => (dirClose, k)
  | .stdinOp | .stdoutOp => (terminalClose, k)

namespace Kernel

/-- Change one descriptor of a process. -/
def modifyFd (k : Kernel) (p i : Nat) (f : FileDescriptor → FileDescriptor) : Kernel :=
  k.modifyPcb p fun pcb => { pcb with fdArray := Function.update pcb.fdArray i (f (pcb.fdArray i)) }

theorem fdArray_modifyFd (k : Kernel) (p i : Nat) (f : FileDescriptor → FileDescriptor) :
    ((k.modifyFd p i f).pcbArray p).fdArray =
      Function.update (k.pcbArray p).fdArray i (f ((k.pcbArray p).fdArray i)) :=
  congrArg Pcb.fdArray (pcbArray_modifyPcb_self ..)

theorem pcbArray_modifyFd_of_ne (k : Kernel) {p q : Nat} (h : q ≠ p) (i : Nat)
    (f : FileDescriptor → FileDescriptor) : (k.modifyFd p i f).pcbArray q = k.pcbArray q :=
  pcbArray_modifyPcb_of_ne k h _

/-- The body of the loop in `close_pcb`; `none` when it calls through a pointer that is no
    table. -/
def closePcbFd (pid : Nat) (k : Kernel) (i : Nat) : Option Kernel :=
  let fd := (k.pcbArray pid).fdArray i
  if fd.flags = inUse then
    match fd.funcPointer with
    | .table ops =>
      -- the inode number and the position stay behind
      some ((ops.close k i).2.modifyFd pid i fun fd =>
        { fd with funcPointer := .null, flags := notUse })
    | .null | .address _ => none
  else some (k.modifyFd pid i fun fd => { fd with flags := notUse })

/-- `close_pcb`. -/
def closePcb (k : Kernel) (pid : Nat) : Option Kernel :=
  let k := { k with processArray := Function.update k.processArray pid 0 }
  let k := k.modifyPcb pid fun pcb =>
    -- -1 as a `uint8_t`
    { pcb with pid := 0, parentPid := 0, terminalNumber := 255, rtcfreq := 0, rtcCounter := 0 }
  (List.range maximumOpenFiles).foldlM (closePcbFd pid) k

/-! ## Start-up -/

/-- `init_pcb`, `init_terminal` and `filesystem_init` on zeroed memory. -/
def powerOn (image : Image) : Kernel where
  tty := initTerminal zeroTty
  processArray _ := 0
  pcbArray i :=
    let top := UInt32.ofNat (eightMB - eightKB * i + 1)
    { pid := 0, parentPid := 0
      -- `init_pcb` leaves the first two descriptors zero
      fdArray := fun j => if j < 2 then ⟨.null, 0, 0, 0⟩ else freeDescriptor
      saved := ⟨top, top⟩
      argsBuf := fun _ => 0
      terminalNumber := 0
      own := ⟨0, 0⟩
      rtcfreq := 0, rtcCounter := 0 }
  currPid := 0
  currParentPid := 0
  activeTid := 0
  nextSchedTid := 0
  shellTid := 0
  pageDirectory _ := 0
  vidPageTable i := i * 4096 ||| 2
  vidPageTableAddr := 0
  tssEsp0 := 0
  context := ⟨0, 0⟩
  image := image
  dirReadnum := 0
  currentDentry := ⟨fun _ => 0⟩

end Kernel

end LinuxLikeOs
