import LinuxLikeOs.ProcessRuns

/-!
# Descriptor tables

What the system calls of the running process, and all other events, do to the descriptor
tables.

- `Kernel.files`: the image, the live processes, the running process and the tables
- `files_read` … `files_open`: the four calls change one descriptor of the running process
- `kernelStep_keepsTable`: nothing else touches the table of a live process
- `kernelStep_keepsDescriptor`: a descriptor in use stays bound until it is closed
-/

namespace LinuxLikeOs

open Library

/-! ## The tables -/

/-- The part of the kernel that the calls on files work on. -/
@[ext]
structure FileState where
  image : Image
  processArray : Nat → Int
  currPid : Nat
  tables : Nat → Nat → FileDescriptor

namespace FileState

/-- The table of the running process. -/
def table (s : FileState) : Nat → FileDescriptor := s.tables s.currPid

/-- Store a descriptor of the running process. -/
def setFd (s : FileState) (i : Nat) (d : FileDescriptor) : FileState :=
  { s with tables := Function.update s.tables s.currPid (Function.update s.table i d) }

@[simp] theorem table_setFd (s : FileState) (i : Nat) (d : FileDescriptor) :
    (s.setFd i d).table = Function.update s.table i d := Function.update_self ..

theorem setFd_self (s : FileState) (i : Nat) : s.setFd i (s.table i) = s :=
  FileState.ext rfl rfl rfl (by simp [setFd, table])

theorem setFd_setFd (s : FileState) (i : Nat) (d d' : FileDescriptor) :
    (s.setFd i d).setFd i d' = s.setFd i d' :=
  FileState.ext rfl rfl rfl (by simp [setFd, table])

/-- The tables of the other processes. -/
theorem tables_setFd_of_ne (s : FileState) {p : Nat} (hp : p ≠ s.currPid) (i : Nat)
    (d : FileDescriptor) : (s.setFd i d).tables p = s.tables p := Function.update_of_ne hp ..

end FileState

namespace Kernel

/-- The image, the live processes, the running process and the descriptor tables. -/
def files (k : Kernel) : FileState where
  image := k.image
  processArray := k.processArray
  currPid := k.currPid
  tables p := (k.pcbArray p).fdArray

theorem files_modifyPcb (k : Kernel) (p : Nat) {f : Pcb → Pcb}
    (hf : ∀ pcb, (f pcb).fdArray = pcb.fdArray) : (k.modifyPcb p f).files = k.files :=
  FileState.ext rfl rfl rfl (funext (fdArray_modifyPcb k p hf))

theorem files_modifyFd (k : Kernel) (i : Nat) (f : FileDescriptor → FileDescriptor) :
    (k.modifyFd k.currPid i f).files = k.files.setFd i (f (k.files.table i)) := by
  refine FileState.ext rfl rfl rfl (funext fun p => ?_)
  by_cases hp : p = k.currPid
  · subst hp
    exact (fdArray_modifyFd k k.currPid i f).trans (k.files.table_setFd i _).symm
  · rw [FileState.tables_setFd_of_ne _ hp]
    exact congrArg Pcb.fdArray (pcbArray_modifyFd_of_ne k hp i f)

/-- The table after a call that stores one descriptor. -/
theorem tables_of_setFd {k k' : Kernel} {i : Nat} {d : FileDescriptor}
    (h : k'.files = k.files.setFd i d) :
    k'.files.tables k.currPid = Function.update k.files.table i d :=
  (congrFun (congrArg FileState.tables h) k.currPid).trans (k.files.table_setFd i d)

/-- In the table a slot is a descriptor. -/
theorem slot_eq (k : Kernel) {i : Nat} (hi : i < maximumOpenFiles) :
    k.currPcb.slot i = k.files.table i := if_pos hi

/-- A read with a buffer from a descriptor in use is the one of its table. -/
theorem read_of_table {k : Kernel} {fd : Nat} (hfd : fd < maximumOpenFiles) {ops : FileOperation}
    (huse : (k.files.table fd).flags = inUse) (hops : (k.files.table fd).funcPointer = .table ops)
    (buf : Buffer) (nbytes : Int) :
    k.read fd (some buf) nbytes = ops.read k fd (some buf) nbytes := by
  have hslot := slot_eq k hfd
  -- an entry in use passes all three tests of `read`
  have hguard : ¬ (¬ fdPasses fd ∨ (some buf).isNone = true ∨
      (k.currPcb.slot fd).flags = notUse) := by
    have hpass : fdPasses fd := by
      simp only [fdPasses, minimumOpenFiles, maximumOpenFiles] at *
      omega
    have hne : inUse ≠ notUse := by decide
    rw [hslot, huse]
    exact fun h => h.elim (fun h => h hpass) fun h => h.elim Bool.noConfusion hne
  rw [Kernel.read, Int.toNat_natCast, if_neg hguard, hslot, hops]
  rfl

/-! ## The operation tables -/

/-- Reading moves at most the position of the descriptor. -/
theorem files_readEntry (ops : FileOperation) (k : Kernel) (fd : Nat) (buf : Option Buffer)
    (nbytes : Int) :
    (ops.read k fd buf nbytes).Keeps fun k' => ∃ pos,
      k'.files = k.files.setFd fd { k.files.table fd with filePosition := pos } := by
  have hsame : ∃ pos, k.files = k.files.setFd fd { k.files.table fd with filePosition := pos } :=
    ⟨(k.files.table fd).filePosition, (k.files.setFd_self fd).symm⟩
  -- only `file_read` writes the entry, and of it the position only
  cases ops with
  | rtc =>
    simp only [FileOperation.read, rtcRead]
    split_ifs
    · exact SysResult.keeps_blocked
    · refine SysResult.keeps_ret.mpr ?_
      rw [files_modifyPcb k k.currPid (by intros; rfl)]
      exact hsame
  | file => exact SysResult.keeps_ret.mpr ⟨_, files_modifyFd ..⟩
  | dir =>
    simp only [FileOperation.read, dirRead]
    split
    · exact SysResult.keeps_ret.mpr hsame
    · split_ifs
      · exact SysResult.keeps_ret.mpr hsame
      · split <;> exact SysResult.keeps_ret.mpr hsame
  | stdoutOp => exact SysResult.keeps_ret.mpr hsame
  | stdinOp =>
    simp only [FileOperation.read]
    split
    · exact SysResult.keeps_blocked
    · exact SysResult.keeps_ret.mpr hsame

theorem files_writeEntry (ops : FileOperation) (k : Kernel) (buf : Option Buffer)
    (nbytes : Int) : (ops.write k buf nbytes).Keeps fun k' => k'.files = k.files := by
  cases ops with
  | rtc =>
    refine SysResult.keeps_ret.mpr ?_
    cases buf with
    | none => rfl
    | some buf =>
      simp only
      split_ifs
      · rfl
      · rfl
      · exact files_modifyPcb k k.currPid (by intros; rfl)
  | file | dir | stdinOp | stdoutOp => exact SysResult.keeps_ret.mpr rfl

theorem files_openEntry (ops : FileOperation) (k : Kernel) (filename : Option CString) :
    (ops.open k filename).2.files = k.files := by
  cases ops with
  | rtc => exact files_modifyPcb k k.currPid (by intros; rfl)
  | file =>
    simp only [FileOperation.open, fileOpen]
    split <;> rfl
  | dir | stdinOp | stdoutOp => rfl

theorem files_closeEntry (ops : FileOperation) (k : Kernel) (fd : Nat) :
    (ops.close k fd).2.files = k.files := by
  cases ops with
  | rtc => exact files_modifyPcb k k.currPid (by intros; rfl)
  | file | dir | stdinOp | stdoutOp => rfl

/-! ## The calls -/

/-- A number that passes the guard is in the table, or the call goes wild. -/
private theorem keeps_guarded {P : Kernel → Prop} {k : Kernel} {fd : Int} {b : Bool}
    {buf : Option Buffer} {entry : FileOperation → SysResult} (hk : P k)
    (h : fd.toNat < maximumOpenFiles → (k.files.table fd.toNat).flags ≠ notUse →
      ∀ ops, (entry ops).Keeps P) :
    (if ¬ fdPasses fd ∨ b = true ∨ (k.currPcb.slot fd.toNat).flags = notUse then
      SysResult.ret (-1) buf k
    else (k.currPcb.slot fd.toNat).funcPointer.call entry).Keeps P := by
  split_ifs with hguard
  · exact SysResult.keeps_ret.mpr hk
  · obtain ⟨hpass, -, huse⟩ := not_or.mp hguard |>.imp_right not_or.mp
    -- `fd` 8 passes the test too, but what it reads as a table is no descriptor
    by_cases hin : fd.toNat < maximumOpenFiles
    · rw [slot_eq k hin] at huse
      exact SysResult.keeps_call (h hin huse)
    · rw [Pcb.call_slot_outside _ hin]
      exact SysResult.keeps_wild

/-- Reading moves at most the position of a descriptor in use. -/
theorem files_read (k : Kernel) (fd : Int) (buf : Option Buffer) (nbytes : Int) :
    (k.read fd buf nbytes).Keeps fun k' => k'.files = k.files ∨
      fd.toNat < maximumOpenFiles ∧ (k.files.table fd.toNat).flags ≠ notUse ∧ ∃ pos, k'.files =
        k.files.setFd fd.toNat { k.files.table fd.toNat with filePosition := pos } := by
  refine keeps_guarded (.inl rfl) fun hin huse ops => ?_
  intro k' hk'
  exact .inr ⟨hin, huse, files_readEntry ops k _ _ _ k' hk'⟩

/-- Writing moves nothing. -/
theorem files_write (k : Kernel) (fd : Int) (buf : Option Buffer) (nbytes : Int) :
    (k.write fd buf nbytes).Keeps fun k' => k'.files = k.files :=
  SysResult.keeps_guard rfl fun ops => files_writeEntry ops k _ _

/-- Closing frees at most the descriptor. -/
theorem files_close (k : Kernel) (fd : Int) :
    (k.close fd).Keeps fun k' =>
      k'.files = k.files ∨ k'.files = k.files.setFd fd.toNat freeDescriptor := by
  refine SysResult.keeps_guard (.inl rfl) fun ops => ?_
  have hentry := files_closeEntry ops k fd.toNat
  dsimp only
  split_ifs
  · refine SysResult.keeps_ret.mpr (.inr ?_)
    rw [files_modifyFd, hentry]
  · exact SysResult.keeps_ret.mpr (.inl hentry)

/-- The descriptor that `open` stores for an entry. -/
def openedDescriptor (dentry : Dentry) (d : FileDescriptor) : FileDescriptor :=
  { bindDentry dentry d with filePosition := 0, flags := inUse }

/-- A table that `open` finds for an entry opens it. -/
theorem openEntry_eq_zero {k : Kernel} {filename : Option CString} {dentry : Dentry}
    (hname : k.image.readDentryByName filename = some dentry) (ops : FileOperation) :
    (ops.open k filename).1 = 0 := by
  cases ops with
  | file => simp only [FileOperation.open, fileOpen, hname]
  | dir => simp only [FileOperation.open, dirOpen, hname, Option.isSome_some, if_true]
  | rtc | stdinOp | stdoutOp => rfl

/-- Opening an entry on a free descriptor, if its type names a table: the descriptor is bound, the
    table opens it, and it is in use. -/
theorem open_eq_entry {k : Kernel} {name : CString} {dentry : Dentry} {fd : Nat}
    {ops : FileOperation} (hin : ¬ strncmp name.byte stdinName.byte 5 = 0)
    (hout : ¬ strncmp name.byte stdoutName.byte 6 = 0)
    (hname : k.image.readDentryByName (some name) = some dentry) (hfree : k.lowestFree = some fd)
    (hops : (bindDentry dentry (k.files.table fd)).funcPointer = .table ops) :
    k.open (some name) = .ret fd none
      ((ops.open (k.modifyFd k.currPid fd (bindDentry dentry)) (some name)).2.modifyFd k.currPid fd
        fun d => { d with filePosition := 0, flags := inUse }) := by
  let bound := k.modifyFd k.currPid fd (bindDentry dentry)
  have hptr : (bound.currPcb.fdArray fd).funcPointer = .table ops := by
    have htable : bound.currPcb.fdArray = bound.files.table := rfl
    rw [htable, files_modifyFd, FileState.table_setFd, Function.update_self]
    exact hops
  -- the driver's `open` finds the name again, so it does not fail
  have hzero : (ops.open bound (some name)).1 = 0 :=
    openEntry_eq_zero (k := bound) hname ops
  -- and it does not change the process
  have hcurr : (ops.open bound (some name)).2.currPid = k.currPid :=
    congrArg FileState.currPid (files_openEntry ops bound (some name))
  simp only [Kernel.open, if_neg hin, if_neg hout, hname, hfree]
  rw [show (k.modifyFd k.currPid fd (bindDentry dentry)) = bound from rfl, hptr]
  simp only [FuncPointer.call, hzero, hcurr]
  rfl

/-- The table after such an `open`. -/
theorem open_eq {k : Kernel} {name : CString} {dentry : Dentry} {fd : Nat} {ops : FileOperation}
    (hin : ¬ strncmp name.byte stdinName.byte 5 = 0)
    (hout : ¬ strncmp name.byte stdoutName.byte 6 = 0)
    (hname : k.image.readDentryByName (some name) = some dentry) (hfree : k.lowestFree = some fd)
    (hops : (bindDentry dentry (k.files.table fd)).funcPointer = .table ops) :
    ∃ k', k.open (some name) = .ret fd none k' ∧
      k'.files = k.files.setFd fd (openedDescriptor dentry (k.files.table fd)) := by
  refine ⟨_, open_eq_entry hin hout hname hfree hops, ?_⟩
  let bound := k.modifyFd k.currPid fd (bindDentry dentry)
  have hbound : bound.files = k.files.setFd fd (bindDentry dentry (k.files.table fd)) :=
    files_modifyFd ..
  -- the driver writes no descriptor, so the entry is the bound one, opened
  have hentry := files_openEntry ops bound (some name)
  have hcurr : (ops.open bound (some name)).2.currPid = k.currPid :=
    congrArg FileState.currPid hentry
  have hstore := files_modifyFd (ops.open bound (some name)).2 fd fun d =>
    { d with filePosition := 0, flags := inUse }
  rw [hcurr, hentry, hbound, FileState.setFd_setFd, FileState.table_setFd,
    Function.update_self] at hstore
  exact hstore

/-- Such an `open` returns the descriptor. -/
theorem open_eq_ret {k : Kernel} {name : CString} {dentry : Dentry} {fd : Nat}
    {ops : FileOperation} (hin : ¬ strncmp name.byte stdinName.byte 5 = 0)
    (hout : ¬ strncmp name.byte stdoutName.byte 6 = 0)
    (hname : k.image.readDentryByName (some name) = some dentry) (hfree : k.lowestFree = some fd)
    (hops : (bindDentry dentry (k.files.table fd)).funcPointer = .table ops) :
    k.open (some name) = .ret fd none ((k.open (some name)).kernel?.getD k) := by
  obtain ⟨k', hopens, -⟩ := open_eq hin hout hname hfree hops
  rw [hopens]
  rfl

/-- The descriptor that `open` takes is the first from 2 on that is not in use. -/
theorem lowestFree_eq_some_iff {k : Kernel} {i : Nat} :
    k.lowestFree = some i ↔ 2 ≤ i ∧ i < maximumOpenFiles ∧ (k.files.table i).flags = notUse ∧
      ∀ j, 2 ≤ j → j < i → (k.files.table j).flags ≠ notUse := by
  rw [lowestFree, List.find?_range_eq_some, decide_eq_true_iff, List.mem_range]
  -- below the lowest free entry every entry is taken; 0 and 1 are never tried
  constructor
  · rintro ⟨⟨hlow, hflags⟩, hin, hbelow⟩
    refine ⟨hlow, hin, hflags, fun j hj hji hfree => ?_⟩
    have hnot := hbelow j hji
    rw [decide_eq_true (show 2 ≤ j ∧ (k.currPcb.fdArray j).flags = notUse from ⟨hj, hfree⟩)] at hnot
    cases hnot
  · rintro ⟨hlow, hin, hflags, hbelow⟩
    refine ⟨⟨hlow, hflags⟩, hin, fun j hji => ?_⟩
    have hnot : ¬ (2 ≤ j ∧ (k.currPcb.fdArray j).flags = notUse) := fun hboth =>
      hbelow j hboth.1 hji hboth.2
    simp only [hnot, decide_false, Bool.not_false]

/-- Whatever `open` does, it stores at most one descriptor of the running process: one of the
    first two, or one that was free. -/
theorem files_open (k : Kernel) (filename : Option CString) :
    (k.open filename).Keeps fun k' => ∃ i d, k'.files = k.files.setFd i d ∧
      (i < 2 ∨ (k.files.table i).flags = notUse) := by
  intro k' h
  have hsame : ∃ i d, k.files = k.files.setFd i d ∧
      (i < 2 ∨ (k.files.table i).flags = notUse) :=
    ⟨0, _, (k.files.setFd_self 0).symm, .inl (by decide)⟩
  -- nothing opened, `stdin` or `stdout` by its name, or a free descriptor bound to the file
  rcases open_cases h with ⟨-, rfl | ⟨text, rfl⟩⟩ | ⟨name, -, ⟨-, rfl⟩ | ⟨-, rfl⟩⟩ |
    ⟨name, dentry, fd, ops, f, -, -, -, -, hfree, -, rfl⟩
  · exact hsame
  · exact hsame
  · exact ⟨_, _, files_modifyFd .., .inl (by decide)⟩
  · exact ⟨_, _, files_modifyFd .., .inl (by decide)⟩
  · -- the descriptor is written twice: bound first, then opened or given up
    have hentry := files_openEntry ops (k.modifyFd k.currPid fd (bindDentry dentry)) filename
    have hflags := (lowestFree_eq_some_iff.mp hfree).2.2.1
    rw [files_modifyFd] at hentry
    rw [files_modifyFd, hentry, FileState.setFd_setFd]
    exact ⟨_, _, rfl, .inr hflags⟩

/-! ## Everything else -/

/-- The image, the life and the table of process `p` stay the same. -/
structure KeepsTable (p : Nat) (k k' : Kernel) : Prop where
  image : k'.image = k.image
  live : k'.processArray p = k.processArray p
  table : (k'.pcbArray p).fdArray = (k.pcbArray p).fdArray

namespace KeepsTable

variable {p : Nat} {k k₁ k' : Kernel}

theorem trans (h : KeepsTable p k k₁) (h' : KeepsTable p k₁ k') : KeepsTable p k k' :=
  ⟨h'.image.trans h.image, h'.live.trans h.live, h'.table.trans h.table⟩

theorem of_files (h : k'.files = k.files) : KeepsTable p k k' :=
  ⟨congrArg FileState.image h, congrFun (congrArg FileState.processArray h) p,
    congrFun (congrArg FileState.tables h) p⟩

/-- A call of another process on one of its descriptors. -/
theorem of_setFd (hp : p ≠ k.currPid) {i : Nat} {d : FileDescriptor}
    (h : k'.files = k.files.setFd i d) : KeepsTable p k k' := by
  refine ⟨congrArg FileState.image h, congrFun (congrArg FileState.processArray h) p, ?_⟩
  exact (congrFun (congrArg FileState.tables h) p).trans (k.files.tables_setFd_of_ne hp i d)

/-- Another process starts. -/
theorem startProgram (hp : p ≠ k.currPid) (args : CString) (regs : Context) :
    KeepsTable p k (k.startProgram args regs) := by
  have hprocesses := processes_startProgram k args regs
  refine ⟨congrArg ProcessState.image hprocesses,
    congrFun (congrArg ProcessState.processArray hprocesses) p, ?_⟩
  exact congrArg Pcb.fdArray ((pcbArray_startProgram k args regs).2 p hp)

/-- `execute` takes a process that is not in use. -/
theorem execute (hlive : k.processArray p ≠ 0) (command : Option CString) (stack : Buffer)
    (regs : Context) : KeepsTable p k (k.execute command stack regs).2 := by
  rcases k.execute_cases command stack regs with ⟨-, heq⟩ | ⟨q, args, -, -, hfree, heq⟩
  · rw [heq]
    exact of_files rfl
  · obtain ⟨himage, hcurr, harray, htables⟩ := k.enterChild_frame q
    -- the new process takes a free number and `p` is live
    have hpq : p ≠ q := by
      rintro rfl
      exact hlive hfree
    have hentered : KeepsTable p k (k.enterChild q) := by
      refine ⟨himage, ?_, htables p⟩
      rw [harray]
      exact Function.update_of_ne hpq ..
    rw [heq]
    exact hentered.trans (startProgram (hcurr.symm ▸ hpq) args regs)

/-- `close_pcb` empties the table of its own process. -/
theorem closePcb {q : Nat} (hp : p ≠ q) (h : k.closePcb q = some k') : KeepsTable p k k' := by
  -- on the descriptors closed: each step writes entry `i` of process `q` only
  have hloop : ∀ (is : List Nat) {k k' : Kernel}, is.foldlM (closePcbFd q) k = some k' →
      KeepsTable p k k' := by
    intro is
    induction is with
    | nil =>
      intro k k' h
      obtain rfl := Option.some.inj h
      exact of_files rfl
    | cons i is ih =>
      intro k k' h
      rw [List.foldlM_cons] at h
      obtain ⟨k₁, hstep, hrest⟩ := Option.bind_eq_some_iff.mp h
      refine trans ?_ (ih hrest)
      have hmodify : ∀ (k : Kernel) f, KeepsTable p k (k.modifyFd q i f) := fun k f =>
        ⟨rfl, rfl, congrArg Pcb.fdArray (pcbArray_modifyFd_of_ne k hp i f)⟩
      unfold closePcbFd at hstep
      dsimp only at hstep
      split_ifs at hstep
      · cases hptr : ((k.pcbArray q).fdArray i).funcPointer with
        | null | address => simp [hptr] at hstep
        | table ops =>
          simp only [hptr, Option.some.injEq] at hstep
          exact hstep ▸ trans (of_files (files_closeEntry ops k i)) (hmodify _ _)
      · exact Option.some.inj hstep ▸ hmodify _ _
  unfold Kernel.closePcb at h
  dsimp only at h
  refine trans ?_ (hloop _ h)
  exact ⟨rfl, Function.update_of_ne hp .., fdArray_modifyPcb _ _ (by intros; rfl) p⟩

/-- `halt` of another process. -/
theorem halt (hp : p ≠ k.currPid) {exitCode : UInt8} {stack : Buffer} {regs : Context}
    {r : Outcome × Kernel} (h : k.halt exitCode stack regs = some r) : KeepsTable p k r.2 := by
  obtain ⟨k₁, hclose, ⟨-, -, args, rfl⟩ | ⟨-, rfl⟩⟩ := halt_cases h
  · obtain ⟨himage, hcurr, harray, htables⟩ := k₁.enterShell_frame k.currPid
    have hentered : KeepsTable p k₁ (k₁.enterShell k.currPid) := by
      refine ⟨himage, ?_, htables p⟩
      rw [harray]
      exact Function.update_of_ne hp ..
    exact (closePcb hp hclose).trans (hentered.trans (startProgram (hcurr.symm ▸ hp) args regs))
  · exact (closePcb hp hclose).trans ⟨rfl, rfl, rfl⟩

/-- A tick, also while the shells are started. -/
theorem pitHandler (hlive : k.processArray p ≠ 0) (stack : Buffer) (regs : Context) :
    KeepsTable p k (k.pitHandler stack regs) := by
  -- while booting a tick runs `execute`, after that it only changes the process
  by_cases hboot : k.shellTid ≤ 2
  · have hchosen : KeepsTable p k k.chooseShell := ⟨rfl, rfl, rfl⟩
    rw [pitHandler_boot hboot]
    split_ifs
    · exact trans hchosen (execute (k := k.chooseShell) hlive _ _ _)
    · refine trans hchosen (trans ?_ (execute (k := k.chooseShell.modifyPcb _ _) hlive _ _ _))
      exact of_files (files_modifyPcb _ _ (by intros; rfl))
    · exact ⟨rfl, rfl, rfl⟩
  · have hlate : 2 < k.shellTid := Nat.lt_of_not_le hboot
    have hprocesses := processes_pitHandler hlate stack regs
    refine ⟨congrArg ProcessState.image hprocesses,
      congrFun (congrArg ProcessState.processArray hprocesses) p, ?_⟩
    rw [pcbArray_pitHandler hlate]
    exact fdArray_modifyPcb _ _ (by intros; rfl) p

end KeepsTable

theorem files_terminalSwitch (k : Kernel) (n : Int) : (k.terminalSwitch n).2.files = k.files := by
  unfold Kernel.terminalSwitch
  split_ifs
  · rfl
  · rfl
  · dsimp only
    split_ifs <;> rfl

theorem files_keyboardHandler (k : Kernel) (code : UInt8) :
    (k.keyboardHandler code).files = k.files := by
  unfold keyboardHandler
  dsimp only
  split
  · exact files_terminalSwitch _ _
  · rfl

theorem files_rtcHandler (k : Kernel) : k.rtcHandler.files = k.files := by
  refine FileState.ext rfl rfl rfl (funext fun p => ?_)
  simp only [files, rtcHandler]
  split_ifs <;> rfl

theorem files_vidmap (k : Kernel) (screenStart : UInt32) :
    (k.vidmap screenStart).2.files = k.files := by
  unfold vidmap
  split_ifs <;> rfl

end Kernel

/-! ## All events -/

/-- The calls on files. -/
def KernelEvent.IsFileCall : KernelEvent → Prop
  | .read .. | .write .. | .open _ | .close _ => True
  | .tick .. | .key _ | .rtcInterrupt | .switch _ | .execute .. | .halt .. | .getargs .. |
    .vidmap _ => False

def KernelEvent.IsHalt : KernelEvent → Prop
  | .halt .. => True
  | .tick .. | .key _ | .rtcInterrupt | .switch _ | .execute .. | .read .. | .write .. | .open _ |
    .close _ | .getargs .. | .vidmap _ => False

/-- A call on files stores at most one descriptor of the running process. -/
theorem kernelStep_fileCall {k k' : Kernel} {e : KernelEvent} (he : e.IsFileCall)
    (hstep : kernelStep k e = some k') : ∃ i d, k'.files = k.files.setFd i d := by
  -- an event that writes no descriptor writes descriptor 0 with what it holds
  have hsame : k'.files = k.files → ∃ i d, k'.files = k.files.setFd i d := fun h =>
    ⟨0, _, h.trans (k.files.setFd_self 0).symm⟩
  cases e with
  | read fd buf nbytes =>
    rcases k.files_read fd buf nbytes k' hstep with hfiles | ⟨-, -, pos, hfiles⟩
    · exact hsame hfiles
    · exact ⟨_, _, hfiles⟩
  | write fd buf nbytes => exact hsame (k.files_write fd buf nbytes k' hstep)
  | «open» filename =>
    obtain ⟨i, d, hfiles, -⟩ := k.files_open filename k' hstep
    exact ⟨i, d, hfiles⟩
  | close fd =>
    rcases k.files_close fd k' hstep with hfiles | hfiles
    · exact hsame hfiles
    · exact ⟨_, _, hfiles⟩
  | tick | key | rtcInterrupt | switch | execute | halt | getargs | vidmap => exact he.elim

/-- **Frame**: only its own calls on files, and its end, change the table of a live process. -/
theorem kernelStep_keepsTable {k k' : Kernel} {e : KernelEvent} {p : Nat}
    (hlive : k.processArray p ≠ 0) (hother : p = k.currPid → ¬ e.IsFileCall ∧ ¬ e.IsHalt)
    (hstep : kernelStep k e = some k') : Kernel.KeepsTable p k k' := by
  -- the calls on files write one descriptor of the running process
  have hcall (he : e.IsFileCall) : Kernel.KeepsTable p k k' := by
    obtain ⟨i, d, hfiles⟩ := kernelStep_fileCall he hstep
    exact .of_setFd (fun hp => (hother hp).1 he) hfiles
  cases e with
  | tick stack regs =>
    obtain rfl := Option.some.inj hstep
    exact .pitHandler hlive stack regs
  | key code =>
    obtain rfl := Option.some.inj hstep
    exact .of_files (k.files_keyboardHandler code)
  | rtcInterrupt =>
    obtain rfl := Option.some.inj hstep
    exact .of_files k.files_rtcHandler
  | switch n =>
    obtain rfl := Option.some.inj hstep
    exact .of_files (k.files_terminalSwitch n)
  | execute command stack regs =>
    obtain rfl := Option.some.inj hstep
    exact .execute hlive command stack regs
  | halt exitCode stack regs =>
    obtain ⟨r, hr, rfl⟩ := Option.map_eq_some_iff.mp hstep
    exact .halt (fun hp => (hother hp).2 trivial) hr
  | read | write | «open» | close => exact hcall trivial
  | getargs buf nbytes =>
    obtain rfl := Option.some.inj hstep
    exact .of_files rfl
  | vidmap screenStart =>
    obtain rfl := Option.some.inj hstep
    exact .of_files (k.files_vidmap screenStart)

/-- A process that does not halt stays in use. -/
theorem Kernel.live_of_step {k k' : Kernel} {e : KernelEvent} {p : Nat}
    (hlive : k.processArray p ≠ 0) (hgoes : ¬ (e.IsHalt ∧ p = k.currPid))
    (hstep : kernelStep k e = some k') : k'.processArray p ≠ 0 := by
  by_cases he : e.IsFileCall
  · obtain ⟨i, d, hfiles⟩ := kernelStep_fileCall he hstep
    exact (congrFun (congrArg FileState.processArray hfiles) p).trans_ne hlive
  · have hkeeps := kernelStep_keepsTable hlive
      (fun hp => ⟨he, fun hhalt => hgoes ⟨hhalt, hp⟩⟩) hstep
    exact hkeeps.live.trans_ne hlive

/-- **A descriptor in use** stays what it is until the process ends, closes it or reads from it. -/
theorem kernelStep_keepsUnread {k k' : Kernel} {e : KernelEvent} {p fd : Nat}
    (hlive : k.processArray p ≠ 0) (hlow : 2 ≤ fd) (huse : (k.files.tables p fd).flags ≠ notUse)
    (hgoes : p = k.currPid → ¬ e.IsHalt)
    (hother : p = k.currPid → ∀ fd' : Int, fd' = fd → e ≠ .close fd' ∧ ∀ buf nbytes,
      e ≠ .read fd' buf nbytes)
    (hstep : kernelStep k e = some k') :
    k'.image = k.image ∧ k'.processArray p = k.processArray p ∧
      k'.files.tables p fd = k.files.tables p fd := by
  have hsame (h : Kernel.KeepsTable p k k') : k'.image = k.image ∧
      k'.processArray p = k.processArray p ∧ k'.files.tables p fd = k.files.tables p fd :=
    ⟨h.image, h.live, congrFun h.table fd⟩
  by_cases hcall : p = k.currPid ∧ e.IsFileCall
  · obtain ⟨rfl, he⟩ := hcall
    -- a call on another descriptor of the process
    have hset {i : Nat} {d : FileDescriptor} (hi : i ≠ fd) (hfiles : k'.files = k.files.setFd i d) :
        k'.image = k.image ∧ k'.processArray k.currPid = k.processArray k.currPid ∧
          k'.files.tables k.currPid fd = k.files.tables k.currPid fd :=
      ⟨congrArg FileState.image hfiles, congrFun (congrArg FileState.processArray hfiles) _,
        (congrFun (Kernel.tables_of_setFd hfiles) fd).trans (Function.update_of_ne hi.symm ..)⟩
    cases e with
    | read fd' buf nbytes =>
      have hne : fd' ≠ fd := fun heq => (hother rfl fd' heq).2 buf nbytes rfl
      rcases k.files_read fd' buf nbytes k' hstep with hfiles | ⟨-, -, pos, hfiles⟩
      · exact hsame (.of_files hfiles)
      · exact hset (by omega) hfiles
    | write fd' buf nbytes => exact hsame (.of_files (k.files_write fd' buf nbytes k' hstep))
    | close fd' =>
      have hne : fd' ≠ fd := fun heq => (hother rfl fd' heq).1 rfl
      rcases k.files_close fd' k' hstep with hfiles | hfiles
      · exact hsame (.of_files hfiles)
      · exact hset (by omega) hfiles
    | «open» filename =>
      obtain ⟨i, d, hfiles, hfree⟩ := k.files_open filename k' hstep
      refine hset ?_ hfiles
      -- the descriptor is in use, so `open` takes another one
      rintro rfl
      exact hfree.elim (fun hi => by omega) huse
    | tick | key | rtcInterrupt | switch | execute | halt | getargs | vidmap => exact he.elim
  · exact hsame (kernelStep_keepsTable hlive
      (fun hp => ⟨fun he => hcall ⟨hp, he⟩, hgoes hp⟩) hstep)

/-- Reading from it moves its position only. -/
theorem kernelStep_keepsDescriptor {k k' : Kernel} {e : KernelEvent} {p fd : Nat}
    (hlive : k.processArray p ≠ 0) (hlow : 2 ≤ fd) (huse : (k.files.tables p fd).flags ≠ notUse)
    (hkeeps : p = k.currPid → ¬ e.IsHalt ∧ ∀ fd' : Int, e = .close fd' → fd' ≠ fd)
    (hstep : kernelStep k e = some k') :
    k'.image = k.image ∧ k'.processArray p = k.processArray p ∧
      ∃ pos, k'.files.tables p fd = { k.files.tables p fd with filePosition := pos } := by
  -- a read through `fd` by its owner moves the position; nothing else touches the entry
  by_cases hread : p = k.currPid ∧ ∃ buf nbytes, e = .read fd buf nbytes
  · obtain ⟨rfl, buf, nbytes, rfl⟩ := hread
    rcases k.files_read fd buf nbytes k' hstep with hfiles | ⟨-, -, pos, hfiles⟩
    · have hkept := Kernel.KeepsTable.of_files (p := k.currPid) hfiles
      exact ⟨hkept.image, hkept.live, _, congrFun hkept.table fd⟩
    · exact ⟨congrArg FileState.image hfiles,
        congrFun (congrArg FileState.processArray hfiles) _, pos,
        (congrFun (Kernel.tables_of_setFd hfiles) fd).trans (Function.update_self ..)⟩
  · obtain ⟨himage, hlive', htable⟩ := kernelStep_keepsUnread hlive hlow huse
      (fun hp => (hkeeps hp).1)
      (fun hp fd' heq => ⟨fun he => (hkeeps hp).2 fd' he heq, fun buf nbytes he =>
        hread ⟨hp, buf, nbytes, heq ▸ he⟩⟩) hstep
    exact ⟨himage, hlive', _, htable⟩

/-! ## The table of a new process -/

namespace Kernel

/-- If process `p` is in use, it has just been started: its table is the one of a program that
    starts. -/
def FreshTable (p : Nat) (k : Kernel) : Prop :=
  k.processArray p ≠ 0 → ∀ i < maximumOpenFiles, k.files.tables p i = startDescriptor i

namespace FreshTable

variable {p : Nat} {k k' : Kernel}

/-- A process that is still free. -/
theorem of_free (hfree : k.processArray p = 0) (h : k'.processArray = k.processArray) :
    FreshTable p k' := fun hlive =>
  absurd ((congrFun h p).trans hfree) hlive

theorem startProgram (k : Kernel) (args : CString) (regs : Context) :
    FreshTable k.currPid (k.startProgram args regs) := fun _ =>
  (pcbArray_startProgram k args regs).1

theorem execute (hfree : k.processArray p = 0) (command : Option CString) (stack : Buffer)
    (regs : Context) : FreshTable p (k.execute command stack regs).2 := by
  rcases k.execute_cases command stack regs with ⟨-, heq⟩ | ⟨q, args, -, -, -, heq⟩
  · rw [heq]
    exact of_free hfree rfl
  · obtain ⟨-, hcurr, harray, -⟩ := k.enterChild_frame q
    rw [heq]
    by_cases hpq : p = q
    · subst hpq
      have hstarted := startProgram (k.enterChild p) args regs
      rwa [hcurr] at hstarted
    · intro hlive
      -- another process was started
      have hsame : ((k.enterChild q).startProgram args regs).processArray p = k.processArray p := by
        have hprocesses := processes_startProgram (k.enterChild q) args regs
        refine (congrFun (congrArg ProcessState.processArray hprocesses) p).trans ?_
        exact (congrFun harray p).trans (Function.update_of_ne hpq ..)
      exact absurd (hsame.trans hfree) hlive

/-- A process that halts is free afterwards, or a root shell that has been started again. -/
theorem halt {exitCode : UInt8} {stack : Buffer} {regs : Context} {r : Outcome × Kernel}
    (h : k.halt exitCode stack regs = some r) : FreshTable k.currPid r.2 := by
  obtain ⟨k₁, hclose, ⟨-, -, args, rfl⟩ | ⟨-, rfl⟩⟩ := halt_cases h
  · obtain ⟨-, hcurr, -⟩ := k₁.enterShell_frame k.currPid
    have hstarted := startProgram (k₁.enterShell k.currPid) args regs
    rwa [hcurr] at hstarted
  · obtain ⟨fds, rfl⟩ := closePcb_eq hclose
    exact fun hlive => absurd (Function.update_self ..) hlive

theorem pitHandler (hfree : k.processArray p = 0) (stack : Buffer) (regs : Context) :
    FreshTable p (k.pitHandler stack regs) := by
  by_cases hboot : k.shellTid ≤ 2
  · rw [pitHandler_boot hboot]
    split_ifs
    · exact execute (k := k.chooseShell) hfree _ _ _
    · exact execute (k := k.chooseShell.modifyPcb _ _) hfree _ _ _
    · exact of_free hfree rfl
  · have hprocesses := processes_pitHandler (Nat.lt_of_not_le hboot) stack regs
    exact of_free hfree (congrArg ProcessState.processArray hprocesses)

end FreshTable

end Kernel

/-- **A process that was free, or that has halted**, is free after the event, or has the table of
    a program that starts. -/
theorem kernelStep_freshTable {k k' : Kernel} {e : KernelEvent} {p : Nat}
    (h : k.processArray p = 0 ∨ e.IsHalt ∧ p = k.currPid) (hstep : kernelStep k e = some k') :
    Kernel.FreshTable p k' := by
  by_cases hend : e.IsHalt ∧ p = k.currPid
  · obtain ⟨he, rfl⟩ := hend
    cases e with
    | halt exitCode stack regs =>
      obtain ⟨r, hr, rfl⟩ := Option.map_eq_some_iff.mp hstep
      exact .halt hr
    | tick | key | rtcInterrupt | switch | execute | read | write | «open» | close | getargs
    | vidmap => exact he.elim
  · have hfree : k.processArray p = 0 := h.resolve_right hend
    have hfiles : k'.files = k.files → Kernel.FreshTable p k' := fun h =>
      .of_free hfree (congrArg FileState.processArray h)
    have hcall (he : e.IsFileCall) : Kernel.FreshTable p k' := by
      obtain ⟨i, d, hset⟩ := kernelStep_fileCall he hstep
      exact .of_free hfree (congrArg FileState.processArray hset)
    cases e with
    | tick stack regs =>
      obtain rfl := Option.some.inj hstep
      exact .pitHandler hfree stack regs
    | key code =>
      obtain rfl := Option.some.inj hstep
      exact hfiles (k.files_keyboardHandler code)
    | rtcInterrupt =>
      obtain rfl := Option.some.inj hstep
      exact hfiles k.files_rtcHandler
    | switch n =>
      obtain rfl := Option.some.inj hstep
      exact hfiles (k.files_terminalSwitch n)
    | execute command stack regs =>
      obtain rfl := Option.some.inj hstep
      exact .execute hfree command stack regs
    | halt exitCode stack regs =>
      -- another process ends
      obtain ⟨r, hr, rfl⟩ := Option.map_eq_some_iff.mp hstep
      have hother : p ≠ k.currPid := fun hp => hend ⟨trivial, hp⟩
      exact fun hlive => absurd ((Kernel.KeepsTable.halt hother hr).live.trans hfree) hlive
    | read | write | «open» | close => exact hcall trivial
    | getargs buf nbytes =>
      obtain rfl := Option.some.inj hstep
      exact hfiles rfl
    | vidmap screenStart =>
      obtain rfl := Option.some.inj hstep
      exact hfiles (k.files_vidmap screenStart)

end LinuxLikeOs
