import LinuxLikeOs.DescriptorTable

/-!
# The calls of a process on its descriptors

From the start of a program on, its descriptors are standard input and output, free, or bound
to the directory entry that they were opened on.

- `TableOk`: the table and, for each descriptor, the entry that it was opened on
- `Kernel.CallLaws`: what `open`, `read`, `write` and `close` do on such a table
- `descriptor_table_of_run`: both hold in every state until the process ends
-/

namespace LinuxLikeOs

open Library

/-! ## The table and what it was opened on -/

/-- The operation table for a type of directory entries. -/
def operationsOf (filetype : UInt32) : Option FileOperation :=
  if filetype = rtcFiletype then some .rtc
  else if filetype = directoryFiletype then some .dir
  else if filetype = regularFiletype then some .file
  else none

/-- All directory entries have one of the three types. -/
def Image.TypesOk (img : Image) : Prop :=
  ∀ i < img.numDentry.toNat, (operationsOf (img.dentry i).filetype).isSome = true

/-- A descriptor in use for an entry: it names the operations for its type and, if the entry is
    a regular file, its inode. -/
structure BoundTo (d : FileDescriptor) (entry : Dentry) : Prop where
  flags : d.flags = inUse
  operations : ∃ ops, operationsOf entry.filetype = some ops ∧ d.funcPointer = .table ops
  inode : entry.filetype = regularFiletype → d.inodeNum = entry.numInode

/-- The first two descriptors are standard input and output; each other one is free, or bound to
    the entry that it was opened on. -/
structure TableOk (table : Nat → FileDescriptor) (opened : Nat → Option Dentry) : Prop where
  stdin : (table stdinFd).flags = inUse ∧ (table stdinFd).funcPointer = .table .stdinOp
  stdout : (table stdoutFd).flags = inUse ∧ (table stdoutFd).funcPointer = .table .stdoutOp
  free : ∀ i, 2 ≤ i → i < maximumOpenFiles → opened i = none → table i = freeDescriptor
  bound : ∀ i, 2 ≤ i → i < maximumOpenFiles → ∀ entry, opened i = some entry →
    BoundTo (table i) entry

/-- The entries that a look-up finds have one of the three types. -/
theorem operationsOf_readDentryByName {img : Image} (h : img.TypesOk) {filename : Option CString}
    {entry : Dentry} (hname : img.readDentryByName filename = some entry) :
    ∃ ops, operationsOf entry.filetype = some ops := by
  cases filename with
  | none => cases hname
  | some name =>
    simp only [Image.readDentryByName] at hname
    split_ifs at hname
    obtain ⟨i, hi, rfl⟩ := Option.map_eq_some_iff.mp hname
    have hlt := List.mem_range.mp (List.mem_of_find?_eq_some hi)
    exact Option.isSome_iff_exists.mp (h i hlt)

namespace Kernel

/-- `bindDentry` stores the operations for the type of the entry. -/
theorem bindDentry_funcPointer {entry : Dentry} {ops : FileOperation}
    (h : operationsOf entry.filetype = some ops) (d : FileDescriptor) :
    (bindDentry entry d).funcPointer = .table ops := by
  unfold operationsOf at h
  unfold bindDentry
  split_ifs at h ⊢ <;> exact congrArg FuncPointer.table (Option.some.inj h)

/-- What `open` stores is bound to the entry. -/
theorem boundTo_openedDescriptor {entry : Dentry} {ops : FileOperation}
    (h : operationsOf entry.filetype = some ops) (d : FileDescriptor) :
    BoundTo (openedDescriptor entry d) entry := by
  refine ⟨rfl, ⟨ops, h, bindDentry_funcPointer h d⟩, fun hregular => ?_⟩
  have hrtc : regularFiletype ≠ rtcFiletype := by decide
  have hdir : regularFiletype ≠ directoryFiletype := by decide
  simp only [openedDescriptor, bindDentry, hregular, if_neg hrtc, if_neg hdir, if_true]

/-! ## The laws of the calls -/

/-- A name that `open` takes for standard input or output, by its first characters. -/
def StdioName (filename : Option CString) : Prop :=
  ∃ name, filename = some name ∧ (strncmp name.byte stdinName.byte 5 = 0 ∨
    strncmp name.byte stdoutName.byte 6 = 0)

/-- The two comparisons that `open` makes with a name that is neither. -/
theorem not_stdioName {name : CString} (h : ¬ StdioName (some name)) :
    ¬ strncmp name.byte stdinName.byte 5 = 0 ∧ ¬ strncmp name.byte stdoutName.byte 6 = 0 :=
  ⟨fun hin => h ⟨name, rfl, .inl hin⟩, fun hout => h ⟨name, rfl, .inr hout⟩⟩

/-- **An `open` that returns a descriptor** has stored the entry in the lowest free one. -/
theorem files_of_open {k k' : Kernel} {filename : Option CString} {entry : Dentry}
    {ops : FileOperation} {fd : Nat} (hname : ¬ StdioName filename)
    (hentry : k.image.readDentryByName filename = some entry)
    (hops : operationsOf entry.filetype = some ops) (hopen : k.open filename = .ret fd none k') :
    (2 ≤ fd ∧ fd < maximumOpenFiles) ∧ k.lowestFree = some fd ∧
      k'.files = k.files.setFd fd (openedDescriptor entry (k.files.table fd)) := by
  cases filename with
  | none => cases hentry
  | some name =>
    obtain ⟨hin, hout⟩ := not_stdioName hname
    cases hfree : k.lowestFree with
    | none =>
      -- without a free descriptor it returns -1
      have hfails : k.open (some name) = .ret (-1) none k := by
        simp only [Kernel.open, if_neg hin, if_neg hout, hentry, hfree]
      rw [hfails] at hopen
      injection hopen with hvalue
      omega
    | some i =>
      obtain ⟨k₁, hopens, hfiles⟩ :=
        open_eq hin hout hentry hfree (bindDentry_funcPointer hops (k.files.table i))
      rw [hopens] at hopen
      injection hopen with hvalue _ hk
      obtain rfl : i = fd := Int.ofNat.inj hvalue
      obtain rfl : k₁ = k' := hk
      obtain ⟨hlow, hlt, -⟩ := lowestFree_eq_some_iff.mp hfree
      exact ⟨⟨hlow, hlt⟩, rfl, hfiles⟩

/-- All descriptors from 2 on are in use. -/
def NoneFree (k : Kernel) : Prop :=
  ∀ i, 2 ≤ i → i < maximumOpenFiles → (k.files.table i).flags ≠ notUse

/-- `i` is the lowest free descriptor from 2 on. -/
def IsLowestFree (k : Kernel) (i : Nat) : Prop :=
  2 ≤ i ∧ i < maximumOpenFiles ∧ k.files.table i = freeDescriptor ∧
    ∀ j, 2 ≤ j → j < i → (k.files.table j).flags ≠ notUse

/-- What the four calls of the running process do. -/
structure CallLaws (k : Kernel) : Prop where
  /-- No call on a number in the table goes through a pointer that is no operation table. -/
  dispatches : ∀ (fd : Int) buf nbytes, 0 ≤ fd → fd < maximumOpenFiles →
    k.read fd buf nbytes ≠ .wild ∧ k.write fd buf nbytes ≠ .wild ∧ k.close fd ≠ .wild
  /-- Standard input and output stay open. -/
  closeStdio : ∀ fd : Int, fd = stdinFd ∨ fd = stdoutFd →
    ∃ k', k.close fd = .ret (-1) none k' ∧ k'.files = k.files
  /-- A descriptor in use becomes free. -/
  closeBound : ∀ fd : Nat, 2 ≤ fd → fd < maximumOpenFiles → (k.files.table fd).flags ≠ notUse →
    ∃ k', k.close fd = .ret 0 none k' ∧ k'.files = k.files.setFd fd freeDescriptor
  /-- A free one is refused. -/
  closeFree : ∀ fd : Nat, fd < maximumOpenFiles → (k.files.table fd).flags = notUse →
    k.close fd = .ret (-1) none k
  /-- Reading and writing leave the other descriptors alone. -/
  readOthers : ∀ (fd : Int) buf nbytes k', (k.read fd buf nbytes).kernel? = some k' →
    ∀ j, j ≠ fd.toNat → k'.files.table j = k.files.table j
  writeOthers : ∀ (fd : Int) buf nbytes k', (k.write fd buf nbytes).kernel? = some k' →
    k'.files = k.files
  /-- Standard input and output are open already. -/
  openStdio : ∀ filename, StdioName filename → ∃ (fd : Nat) (k' : Kernel), fd < 2 ∧
    k.open filename = .ret fd none k' ∧ k'.files = k.files
  /-- Another name is opened on the lowest free descriptor. -/
  openEntry : ∀ filename, ¬ StdioName filename → ∀ entry,
    k.image.readDentryByName filename = some entry → ∀ i, k.IsLowestFree i →
      ∃ k', k.open filename = .ret i none k' ∧
        k'.files = k.files.setFd i (openedDescriptor entry freeDescriptor)
  /-- It fails if it is unknown or no descriptor is free. -/
  openFails : ∀ filename, ¬ StdioName filename →
    k.image.readDentryByName filename = none ∨ k.NoneFree →
      ∃ k', k.open filename = .ret (-1) none k' ∧ k'.files = k.files

/-! ## The laws hold -/

variable {k : Kernel} {opened : Nat → Option Dentry}

/-- A number in the table passes the guard if its descriptor is in use. -/
private theorem not_refused {fd : Nat} (hin : fd < maximumOpenFiles)
    (huse : (k.files.table fd).flags ≠ notUse) :
    ¬ (¬ fdPasses fd ∨ (k.currPcb.slot fd).flags = notUse) := by
  have hpass : fdPasses fd := by
    simp only [fdPasses, minimumOpenFiles, maximumOpenFiles] at *
    omega
  rw [slot_eq k hin]
  exact not_or.mpr ⟨not_not.mpr hpass, huse⟩

/-- A descriptor in use names an operation table, and only those from 2 on can be closed. -/
theorem operations_of_inUse (h : TableOk k.files.table opened) {i : Nat}
    (hi : i < maximumOpenFiles) (huse : (k.files.table i).flags ≠ notUse) :
    ∃ ops, (k.files.table i).funcPointer = .table ops ∧
      (ops.close k i).1 = if 2 ≤ i then 0 else -1 := by
  -- an entry in use is bound to a file, or it is one of the first two
  by_cases hlow : 2 ≤ i
  · cases hopened : opened i with
    | none =>
      rw [h.free i hlow hi hopened] at huse
      exact absurd rfl huse
    | some entry =>
      obtain ⟨ops, hops, hptr⟩ := (h.bound i hlow hi entry hopened).operations
      refine ⟨ops, hptr, ?_⟩
      have hstd : ¬ (i = 0 ∨ i = 1) := by omega
      -- the type of the file has a table, and its `close` says 0
      unfold operationsOf at hops
      rw [if_pos hlow]
      split_ifs at hops <;> obtain rfl := Option.some.inj hops
      · rfl
      · rfl
      · exact if_neg hstd
  · -- the drivers of the terminal refuse to close
    have hcase : i = stdinFd ∨ i = stdoutFd := by
      simp only [stdinFd, stdoutFd]
      omega
    rw [if_neg hlow]
    rcases hcase with rfl | rfl
    · exact ⟨_, h.stdin.2, rfl⟩
    · exact ⟨_, h.stdout.2, rfl⟩

/-- No entry of an operation table goes wild. -/
private theorem entries_ne_wild (ops : FileOperation) (k : Kernel) (fd : Nat)
    (buf : Option Buffer) (nbytes : Int) :
    ops.read k fd buf nbytes ≠ .wild ∧ ops.write k buf nbytes ≠ .wild := by
  -- every driver returns or waits
  constructor
  · cases ops with
    | rtc | stdinOp =>
      simp only [FileOperation.read]
      split <;> exact SysResult.noConfusion
    | dir =>
      simp only [FileOperation.read, dirRead]
      split
      · exact SysResult.noConfusion
      · split_ifs
        · exact SysResult.noConfusion
        · split <;> exact SysResult.noConfusion
    | file | stdoutOp => exact SysResult.noConfusion
  · cases ops <;> exact SysResult.noConfusion

/-- `close` of a descriptor in use. -/
private theorem close_of_inUse {fd : Nat} (hin : fd < maximumOpenFiles)
    (huse : (k.files.table fd).flags ≠ notUse) {ops : FileOperation}
    (hops : (k.files.table fd).funcPointer = .table ops) :
    k.close fd =
      if (ops.close k fd).1 = 0 then
        .ret 0 none ((ops.close k fd).2.modifyFd (ops.close k fd).2.currPid fd fun _ =>
          freeDescriptor)
      else .ret (-1) none (ops.close k fd).2 := by
  have hslot : (k.currPcb.slot fd).funcPointer = .table ops :=
    (congrArg FileDescriptor.funcPointer (slot_eq k hin)).trans hops
  rw [Kernel.close, Int.toNat_natCast, if_neg (not_refused hin huse), hslot]
  rfl

/-- `close` of a free descriptor. -/
private theorem close_of_free {fd : Nat} (hin : fd < maximumOpenFiles)
    (hflags : (k.files.table fd).flags = notUse) : k.close fd = .ret (-1) none k := by
  refine if_pos (.inr ?_)
  rw [Int.toNat_natCast, slot_eq k hin]
  exact hflags

/-- The lowest free descriptor is the one that `open` takes. -/
private theorem lowestFree_eq_some {i : Nat} (h : k.IsLowestFree i) : k.lowestFree = some i :=
  lowestFree_eq_some_iff.mpr
    ⟨h.1, h.2.1, congrArg FileDescriptor.flags h.2.2.1, h.2.2.2⟩

private theorem lowestFree_eq_none (h : k.NoneFree) : k.lowestFree = none := by
  rw [lowestFree, List.find?_eq_none]
  intro i hi hfree
  obtain ⟨hlow, hflags⟩ := of_decide_eq_true hfree
  exact h i hlow (List.mem_range.mp hi) hflags

/-- A call that passes the guard goes through an operation table. -/
private theorem slot_operations (h : TableOk k.files.table opened) {i : Nat}
    (hi : i < maximumOpenFiles) (huse : ¬ (k.currPcb.slot i).flags = notUse) :
    ∃ ops, (k.currPcb.slot i).funcPointer = .table ops := by
  rw [slot_eq k hi] at huse ⊢
  obtain ⟨ops, hops, -⟩ := operations_of_inUse h hi huse
  exact ⟨ops, hops⟩

/-- No call on a number in the table goes wild. -/
private theorem ne_wild (h : TableOk k.files.table opened) {fd : Nat} (hin : fd < maximumOpenFiles)
    (buf : Option Buffer) (nbytes : Int) :
    k.read fd buf nbytes ≠ .wild ∧ k.write fd buf nbytes ≠ .wild ∧ k.close fd ≠ .wild := by
  refine ⟨?_, ?_, ?_⟩
  · unfold Kernel.read
    -- past the guard the entry is in use and has a table
    rw [Int.toNat_natCast]
    split_ifs with hguard
    · exact SysResult.noConfusion
    · obtain ⟨ops, hops⟩ := slot_operations h hin (not_or.mp (not_or.mp hguard).2).2
      rw [hops]
      exact (entries_ne_wild ops k fd buf nbytes).1
  · -- `write` has the same guard
    unfold Kernel.write
    rw [Int.toNat_natCast]
    split_ifs with hguard
    · exact SysResult.noConfusion
    · obtain ⟨ops, hops⟩ := slot_operations h hin (not_or.mp (not_or.mp hguard).2).2
      rw [hops]
      exact (entries_ne_wild ops k fd buf nbytes).2
  · -- `close` refuses a free descriptor, and the others have tables
    by_cases huse : (k.files.table fd).flags = notUse
    · rw [close_of_free hin huse]
      exact SysResult.noConfusion
    · obtain ⟨ops, hops, -⟩ := operations_of_inUse h hin huse
      rw [close_of_inUse hin huse hops]
      split_ifs <;> exact SysResult.noConfusion

/-- Opening standard input or output stores what the table has. -/
private theorem open_stdio (h : TableOk k.files.table opened) {filename : Option CString}
    (hname : StdioName filename) : ∃ (fd : Nat) (k' : Kernel), fd < 2 ∧
      k.open filename = .ret fd none k' ∧ k'.files = k.files := by
  -- `open` writes what the first two entries hold already
  have hkeeps : ∀ i ops, (k.files.table i).flags = inUse →
      (k.files.table i).funcPointer = .table ops →
      (k.modifyFd k.currPid i fun d =>
        { d with flags := inUse, funcPointer := .table ops }).files = k.files := by
    intro i ops hflags hptr
    rw [files_modifyFd, ← hflags, ← hptr]
    exact k.files.setFd_self i
  obtain ⟨name, rfl, hstd⟩ := hname
  -- `stdin` is looked for first
  by_cases hin : strncmp name.byte stdinName.byte 5 = 0
  · refine ⟨stdinFd, k.openStdin, by decide, ?_, hkeeps _ _ h.stdin.1 h.stdin.2⟩
    simp only [Kernel.open, if_pos hin]
  · have hout := hstd.resolve_left hin
    refine ⟨stdoutFd, k.openStdout, by decide, ?_, hkeeps _ _ h.stdout.1 h.stdout.2⟩
    simp only [Kernel.open, if_neg hin, if_pos hout]

/-- The two reasons for `open` to fail. -/
private theorem open_fails {filename : Option CString} (hname : ¬ StdioName filename)
    (hfails : k.image.readDentryByName filename = none ∨ k.NoneFree) :
    ∃ k', k.open filename = .ret (-1) none k' ∧ k'.files = k.files := by
  cases filename with
  | none => exact ⟨_, rfl, rfl⟩
  | some name =>
    obtain ⟨hin, hout⟩ := not_stdioName hname
    simp only [Kernel.open, if_neg hin, if_neg hout]
    cases hentry : k.image.readDentryByName (some name) with
    | none => exact ⟨_, rfl, rfl⟩
    | some entry =>
      -- the name is found, so the table must be full
      have hnone : k.NoneFree := hfails.resolve_left fun hunknown => by
        rw [hentry] at hunknown
        cases hunknown
      rw [lowestFree_eq_none hnone]
      exact ⟨_, rfl, rfl⟩

/-- Opening an entry. -/
private theorem open_entry (htypes : k.image.TypesOk) {filename : Option CString}
    (hname : ¬ StdioName filename) {entry : Dentry}
    (hentry : k.image.readDentryByName filename = some entry) {i : Nat} (hi : k.IsLowestFree i) :
    ∃ k', k.open filename = .ret i none k' ∧
      k'.files = k.files.setFd i (openedDescriptor entry freeDescriptor) := by
  cases filename with
  | none => cases hentry
  | some name =>
    obtain ⟨ops, hops⟩ := operationsOf_readDentryByName htypes hentry
    obtain ⟨hin, hout⟩ := not_stdioName hname
    have hopens := open_eq hin hout hentry (lowestFree_eq_some hi) (bindDentry_funcPointer hops _)
    rwa [hi.2.2.1] at hopens

/-- **The laws** hold whenever the table is in order. -/
theorem callLaws (h : TableOk k.files.table opened) (htypes : k.image.TypesOk) : k.CallLaws := by
  constructor
  case dispatches =>
    intro fd buf nbytes h0 h8
    obtain ⟨n, rfl⟩ := Int.eq_ofNat_of_zero_le h0
    exact ne_wild h (Int.ofNat_lt.mp h8) buf nbytes
  case closeStdio =>
    intro fd hfd
    obtain ⟨n, rfl, hn⟩ : ∃ n : Nat, fd = n ∧ n < 2 := by
      rcases hfd with rfl | rfl
      · exact ⟨stdinFd, rfl, by decide⟩
      · exact ⟨stdoutFd, rfl, by decide⟩
    have hin : n < maximumOpenFiles := Nat.lt_trans hn (by decide)
    have huse : (k.files.table n).flags ≠ notUse := by
      have hcase : n = stdinFd ∨ n = stdoutFd := by
        simp only [stdinFd, stdoutFd]
        omega
      rcases hcase with rfl | rfl
      · rw [h.stdin.1]
        decide
      · rw [h.stdout.1]
        decide
    obtain ⟨ops, hops, hvalue⟩ := operations_of_inUse h hin huse
    -- the close of the terminal fails, so the flag is not cleared
    have hfails : ¬ (ops.close k n).1 = 0 := by
      rw [hvalue, if_neg (by omega)]
      decide
    rw [close_of_inUse hin huse hops, if_neg hfails]
    exact ⟨_, rfl, files_closeEntry ops k n⟩
  case closeBound =>
    intro fd hlow hin huse
    obtain ⟨ops, hops, hvalue⟩ := operations_of_inUse h hin huse
    have hentry := files_closeEntry ops k fd
    rw [close_of_inUse hin huse hops, if_pos (hvalue.trans (if_pos hlow))]
    refine ⟨_, rfl, ?_⟩
    rw [files_modifyFd, hentry]
  case closeFree => exact fun fd hin hflags => close_of_free hin hflags
  case readOthers =>
    intro fd buf nbytes k' hk' j hj
    rcases k.files_read fd buf nbytes k' hk' with hsame | ⟨-, -, pos, hmoved⟩
    · rw [hsame]
    · rw [hmoved, FileState.table_setFd, Function.update_of_ne hj]
  case writeOthers => exact fun fd buf nbytes k' hk' => k.files_write fd buf nbytes k' hk'
  case openStdio => exact fun filename hname => open_stdio h hname
  case openEntry =>
    exact fun filename hname entry hentry i hi => open_entry htypes hname hentry hi
  case openFails => exact fun filename hname hfails => open_fails hname hfails

end Kernel

/-! ## Runs -/

/-- The value that a call returned. -/
def SysResult.value? : SysResult → Option Int
  | .ret value _ _ => some value
  | .blocked | .wild => none

/-- A call with a return value has returned. -/
theorem SysResult.eq_ret_of_value? {r : SysResult} {value : Int} (h : r.value? = some value) :
    ∃ buf k, r = .ret value buf k := by
  cases r with
  | ret value' buf k =>
    obtain rfl := Option.some.inj h
    exact ⟨buf, k, rfl⟩
  | blocked | wild => cases h

/-- A kernel and, for each descriptor of one process, the entry that it was opened on. -/
structure OpenFiles where
  kernel : Kernel
  opened : Nat → Option Dentry

/-- What a call of the running process changes in the record of its open files. -/
def recordCall (k : Kernel) (opened : Nat → Option Dentry) : KernelEvent → Nat → Option Dentry
  | .open filename =>
    match (k.open filename).value? with
    | some value =>
      if 2 ≤ value then
        Function.update opened value.toNat (k.image.readDentryByName filename)
      else opened
    | none => opened
  | .close fd =>
    if (k.close fd).value? = some 0 then Function.update opened fd.toNat none else opened
  | _ => opened

/-- One event of the kernel, with the open files of process `p`. -/
def openFilesStep (p : Nat) (s : OpenFiles) (e : KernelEvent) : Option OpenFiles :=
  (kernelStep s.kernel e).map fun k' =>
    { kernel := k'
      opened :=
        if p = s.kernel.currPid then recordCall s.kernel s.opened e else s.opened }

namespace Kernel

/-- Moving the position of a descriptor in use. -/
private theorem tableOk_seek {table : Nat → FileDescriptor} {opened : Nat → Option Dentry}
    (h : TableOk table opened) {i : Nat} (huse : (table i).flags ≠ notUse) (pos : UInt32) :
    TableOk (Function.update table i { table i with filePosition := pos }) opened := by
  have hfield : ∀ j, (Function.update table i { table i with filePosition := pos } j).flags =
      (table j).flags ∧
      (Function.update table i { table i with filePosition := pos } j).funcPointer =
        (table j).funcPointer ∧
      (Function.update table i { table i with filePosition := pos } j).inodeNum =
        (table j).inodeNum := by
    intro j
    by_cases hj : j = i
    · subst hj
      rw [Function.update_self]
      exact ⟨rfl, rfl, rfl⟩
    · rw [Function.update_of_ne hj]
      exact ⟨rfl, rfl, rfl⟩
  constructor
  case stdin => rw [(hfield stdinFd).1, (hfield stdinFd).2.1]; exact h.stdin
  case stdout => rw [(hfield stdoutFd).1, (hfield stdoutFd).2.1]; exact h.stdout
  case free =>
    intro j hlow hin hnone
    -- a descriptor in use is not one of the free ones
    have hfree := h.free j hlow hin hnone
    have hj : j ≠ i := by
      rintro rfl
      exact huse (congrArg FileDescriptor.flags hfree)
    rw [Function.update_of_ne hj]
    exact hfree
  case bound =>
    intro j hlow hin entry hentry
    have hbound := h.bound j hlow hin entry hentry
    refine ⟨(hfield j).1.trans hbound.flags, ?_, fun hregular =>
      (hfield j).2.2.trans (hbound.inode hregular)⟩
    rw [(hfield j).2.1]
    exact hbound.operations

/-- Storing a descriptor from 2 on together with its entry. -/
private theorem tableOk_store {table : Nat → FileDescriptor} {opened : Nat → Option Dentry}
    (h : TableOk table opened) {i : Nat} (hi : 2 ≤ i) {d : FileDescriptor} {entry : Option Dentry}
    (hfree : entry = none → d = freeDescriptor) (hbound : ∀ e, entry = some e → BoundTo d e) :
    TableOk (Function.update table i d) (Function.update opened i entry) := by
  -- the entry written is not one of the first two
  have hstdin : stdinFd ≠ i := Nat.ne_of_lt (Nat.lt_of_lt_of_le (by decide) hi)
  have hstdout : stdoutFd ≠ i := Nat.ne_of_lt (Nat.lt_of_lt_of_le (by decide) hi)
  constructor
  case stdin => rw [Function.update_of_ne hstdin]; exact h.stdin
  case stdout => rw [Function.update_of_ne hstdout]; exact h.stdout
  case free =>
    intro j hlow hin
    -- entry `i` is the new one, the others are as they were
    by_cases hj : j = i
    · subst hj
      rw [Function.update_self, Function.update_self]
      exact hfree
    · rw [Function.update_of_ne hj, Function.update_of_ne hj]
      exact h.free j hlow hin
  case bound =>
    intro j hlow hin
    by_cases hj : j = i
    · subst hj
      rw [Function.update_self, Function.update_self]
      exact hbound
    · rw [Function.update_of_ne hj, Function.update_of_ne hj]
      exact h.bound j hlow hin

/-- The descriptor that `open` finds is the lowest free one. -/
private theorem isLowestFree_of_lowestFree {k : Kernel} {opened : Nat → Option Dentry}
    (h : TableOk k.files.table opened) {i : Nat} (hi : k.lowestFree = some i) :
    k.IsLowestFree i := by
  obtain ⟨hlow, hin, hflags, hbelow⟩ := lowestFree_eq_some_iff.mp hi
  refine ⟨hlow, hin, ?_, hbelow⟩
  cases hopened : opened i with
  | none => exact h.free i hlow hin hopened
  | some entry =>
    have huse := (h.bound i hlow hin entry hopened).flags
    rw [hflags] at huse
    exact absurd huse (by decide)

private theorem noneFree_of_lowestFree {k : Kernel} (h : k.lowestFree = none) : k.NoneFree := by
  rw [lowestFree, List.find?_eq_none] at h
  exact fun i hlow hin hflags => h i (List.mem_range.mpr hin) (decide_eq_true ⟨hlow, hflags⟩)

/-- Outside the table a `close` that returns has changed nothing. -/
private theorem close_outside {k : Kernel} {fd : Int} (h : ¬ (0 ≤ fd ∧ fd < maximumOpenFiles)) :
    k.close fd = .ret (-1) none k ∨ k.close fd = .wild := by
  unfold Kernel.close
  split_ifs with hguard
  · exact .inl rfl
  · have hout : ¬ fd.toNat < maximumOpenFiles := by
      have hpass := not_not.mp (not_or.mp hguard).1
      simp only [fdPasses, minimumOpenFiles, maximumOpenFiles] at *
      omega
    exact .inr (Pcb.call_slot_outside _ hout _)

/-- The end of a call that returned. -/
private theorem kernel_eq {r : SysResult} {value : Int} {buf : Option Buffer} {k k' : Kernel}
    (hr : r = .ret value buf k) (hstep : r.kernel? = some k') : k' = k := by
  rw [hr] at hstep
  exact (Option.some.inj hstep).symm

/-- A `close` keeps the table in step with the record. -/
private theorem tableOk_close {k k' : Kernel} {opened : Nat → Option Dentry}
    (h : TableOk k.files.table opened) (htypes : k.image.TypesOk) {fd : Int}
    (hstep : kernelStep k (.close fd) = some k') :
    TableOk k'.files.table (recordCall k opened (.close fd)) := by
  have hlaws := callLaws h htypes
  -- a `close` that fails leaves the table and the record alone
  have hrefused : (∃ k₁, k.close fd = .ret (-1) none k₁ ∧ k₁.files = k.files) →
      TableOk k'.files.table (recordCall k opened (.close fd)) := by
    rintro ⟨k₁, hclose, hfiles⟩
    obtain rfl := kernel_eq hclose hstep
    simp only [recordCall, hclose, SysResult.value?]
    exact hfiles ▸ h
  by_cases hin : 0 ≤ fd ∧ fd < maximumOpenFiles
  · obtain ⟨n, rfl⟩ := Int.eq_ofNat_of_zero_le hin.1
    have hn : n < maximumOpenFiles := Int.ofNat_lt.mp hin.2
    by_cases huse : (k.files.table n).flags = notUse
    · exact hrefused ⟨k, hlaws.closeFree n hn huse, rfl⟩
    by_cases hlow : 2 ≤ n
    · obtain ⟨k₁, hclose, hfiles⟩ := hlaws.closeBound n hlow hn huse
      obtain rfl := kernel_eq hclose hstep
      simp only [recordCall, hclose, SysResult.value?, if_true, Int.toNat_natCast]
      rw [hfiles, FileState.table_setFd]
      exact tableOk_store h hlow (fun _ => rfl) fun _ hnone =>
        absurd hnone (Option.some_ne_none _).symm
    · -- descriptors 0 and 1
      refine hrefused (hlaws.closeStdio n ?_)
      simp only [stdinFd, stdoutFd]
      omega
  · -- outside the table the guard refuses, or the call goes to a pointer behind it
    rcases close_outside (k := k) hin with hclose | hwild
    · exact hrefused ⟨k, hclose, rfl⟩
    · rw [kernelStep, hwild] at hstep
      cases hstep

/-- So does an `open`. -/
private theorem tableOk_open {k k' : Kernel} {opened : Nat → Option Dentry}
    (h : TableOk k.files.table opened) (htypes : k.image.TypesOk) {filename : Option CString}
    (hstep : kernelStep k (.open filename) = some k') :
    TableOk k'.files.table (recordCall k opened (.open filename)) := by
  have hlaws := callLaws h htypes
  by_cases hstd : StdioName filename
  · obtain ⟨fd, k₁, hfd, hopens, hfiles⟩ := hlaws.openStdio filename hstd
    obtain rfl := kernel_eq hopens hstep
    have hlow : ¬ (2 : Int) ≤ fd := by omega
    simp only [recordCall, hopens, SysResult.value?, if_neg hlow]
    exact hfiles ▸ h
  -- an `open` that fails returns -1, which is not recorded
  have hfailed : k.image.readDentryByName filename = none ∨ k.NoneFree →
      TableOk k'.files.table (recordCall k opened (.open filename)) := by
    intro hfails
    obtain ⟨k₁, hopens, hfiles⟩ := hlaws.openFails filename hstd hfails
    obtain rfl := kernel_eq hopens hstep
    have hlow : ¬ (2 : Int) ≤ -1 := by decide
    simp only [recordCall, hopens, SysResult.value?, if_neg hlow]
    exact hfiles ▸ h
  cases hentry : k.image.readDentryByName filename with
  | none => exact hfailed (.inl hentry)
  | some entry =>
    cases hfree : k.lowestFree with
    | none => exact hfailed (.inr (noneFree_of_lowestFree hfree))
    | some i =>
      have hlowest := isLowestFree_of_lowestFree h hfree
      obtain ⟨k₁, hopens, hfiles⟩ := hlaws.openEntry filename hstd entry hentry i hlowest
      obtain rfl := kernel_eq hopens hstep
      have hlow : (2 : Int) ≤ i := Int.ofNat_le.mpr hlowest.1
      obtain ⟨ops, hops⟩ := operationsOf_readDentryByName htypes hentry
      simp only [recordCall, hopens, SysResult.value?, if_pos hlow, Int.toNat_natCast, hentry]
      rw [hfiles, FileState.table_setFd]
      refine tableOk_store h hlowest.1
        (fun hnone => absurd hnone (Option.some_ne_none _)) fun e he => ?_
      obtain rfl := Option.some.inj he
      exact boundTo_openedDescriptor hops _

/-- **A call keeps the table in order.** -/
theorem tableOk_call {k k' : Kernel} {opened : Nat → Option Dentry}
    (h : TableOk k.files.table opened) (htypes : k.image.TypesOk) {e : KernelEvent}
    (he : e.IsFileCall) (hstep : kernelStep k e = some k') :
    TableOk k'.files.table (recordCall k opened e) := by
  cases e with
  | read fd buf nbytes =>
    rcases k.files_read fd buf nbytes k' hstep with hsame | ⟨-, huse, pos, hmoved⟩
    · exact hsame ▸ h
    · rw [hmoved, FileState.table_setFd]
      exact tableOk_seek h huse pos
  | write fd buf nbytes => exact k.files_write fd buf nbytes k' hstep ▸ h
  | close fd => exact tableOk_close h htypes hstep
  | «open» filename => exact tableOk_open h htypes hstep
  | tick | key | rtcInterrupt | switch | execute | halt | getargs | vidmap => exact he.elim

/-! ## From the start of a program on -/

/-- The running process has just been started by `execute` or by `restart_shell`. -/
def JustStarted (k : Kernel) : Prop :=
  (∃ (k₀ : Kernel) (command : Option CString) (stack : Buffer) (regs : Context),
    k₀.execute command stack regs = (.user, k)) ∨
  ∃ (k₀ : Kernel) (pid : Nat) (stack : Buffer) (regs : Context),
    k₀.restartShell pid stack regs = (.user, k)

/-- The second half of both leaves a live process with an empty table. -/
private theorem startProgram_started {k : Kernel} (hlive : k.processArray k.currPid = 1)
    (args : CString) (regs : Context) :
    (k.startProgram args regs).processArray (k.startProgram args regs).currPid ≠ 0 ∧
      TableOk (k.startProgram args regs).files.table fun _ => none := by
  have hprocesses := processes_startProgram k args regs
  have hcurr : (k.startProgram args regs).currPid = k.currPid :=
    congrArg ProcessState.currPid hprocesses
  have harray : (k.startProgram args regs).processArray = k.processArray :=
    congrArg ProcessState.processArray hprocesses
  -- the table is filled with free descriptors, then the first two are opened
  have htable : ∀ i < maximumOpenFiles,
      (k.startProgram args regs).files.table i = startDescriptor i := by
    intro i hi
    have hstarted := (pcbArray_startProgram k args regs).1 i hi
    rw [← hcurr] at hstarted
    exact hstarted
  constructor
  · rw [hcurr, harray, hlive]
    decide
  · constructor
    case stdin => rw [htable stdinFd (by decide)]; exact ⟨rfl, rfl⟩
    case stdout => rw [htable stdoutFd (by decide)]; exact ⟨rfl, rfl⟩
    case free =>
      intro i hlow hin _
      have hstd : i ≠ stdinFd ∧ i ≠ stdoutFd := by
        simp only [stdinFd, stdoutFd]
        omega
      rw [htable i hin, startDescriptor, if_neg hstd.1, if_neg hstd.2]
    case bound => exact fun i _ _ entry hnone => nomatch hnone

/-- A process that has just started is live and has an empty table. -/
theorem JustStarted.started {k : Kernel} (h : k.JustStarted) :
    k.processArray k.currPid ≠ 0 ∧ TableOk k.files.table fun _ => none := by
  -- a process starts in `execute`, or as a base shell in `halt`
  rcases h with ⟨k₀, command, stack, regs, hexec⟩ | ⟨k₀, pid, stack, regs, hrestart⟩
  · rcases k₀.execute_cases command stack regs with ⟨-, heq⟩ | ⟨p, args, -, -, -, heq⟩
    · rw [heq] at hexec
      cases hexec
    · rw [heq] at hexec
      obtain rfl := (Prod.mk.inj hexec).2
      obtain ⟨-, hcurr, harray, -⟩ := k₀.enterChild_frame p
      refine startProgram_started ?_ args regs
      rw [hcurr, harray]
      exact Function.update_self ..
  · rcases k₀.restartShell_cases pid stack regs with ⟨-, heq⟩ | ⟨-, args, heq⟩
    · rw [heq] at hrestart
      cases hrestart
    · rw [heq] at hrestart
      obtain rfl := (Prod.mk.inj hrestart).2
      obtain ⟨-, hcurr, harray, -⟩ := k₀.enterShell_frame pid
      refine startProgram_started ?_ args regs
      rw [hcurr, harray]
      exact Function.update_self ..

end Kernel

/-- Process `p` is live and its table in order. -/
structure OpenFiles.Ok (p : Nat) (s : OpenFiles) : Prop where
  live : s.kernel.processArray p ≠ 0
  types : s.kernel.image.TypesOk
  table : TableOk (s.kernel.files.tables p) s.opened

/-- Every event keeps that, until the process ends. -/
theorem OpenFiles.Ok.step {p : Nat} {s s' : OpenFiles} {e : KernelEvent} (h : s.Ok p)
    (hend : p = s.kernel.currPid → ¬ e.IsHalt) (hstep : openFilesStep p s e = some s') :
    s'.Ok p := by
  obtain ⟨hlive, htypes, htable⟩ := h
  obtain ⟨k', hk', rfl⟩ := Option.map_eq_some_iff.mp hstep
  by_cases hcall : p = s.kernel.currPid ∧ e.IsFileCall
  · -- a call of `p` on files writes one entry, which the record follows
    obtain ⟨rfl, he⟩ := hcall
    obtain ⟨i, d, hfiles⟩ := kernelStep_fileCall he hk'
    have hcurr : k'.currPid = s.kernel.currPid := congrArg FileState.currPid hfiles
    have harray : k'.processArray = s.kernel.processArray :=
      congrArg FileState.processArray hfiles
    have himage : k'.image = s.kernel.image := congrArg FileState.image hfiles
    -- the table law of the four calls
    have hok := Kernel.tableOk_call htable htypes he hk'
    rw [FileState.table, show k'.files.currPid = s.kernel.currPid from hcurr] at hok
    refine ⟨?_, ?_, ?_⟩
    · rwa [harray]
    · rwa [himage]
    · rwa [if_pos rfl]
  · -- any other event leaves the table of the process as it is
    have hkeeps := kernelStep_keepsTable hlive
      (fun hp => ⟨fun he => hcall ⟨hp, he⟩, hend hp⟩) hk'
    have hrecord : (if p = s.kernel.currPid then recordCall s.kernel s.opened e else s.opened) =
        s.opened := by
      split_ifs with hp
      · have hother : ¬ e.IsFileCall := fun he => hcall ⟨hp, he⟩
        cases e with
        | «open» | close => exact absurd trivial hother
        | _ => rfl
      · rfl
    refine ⟨?_, ?_, ?_⟩
    · rwa [hkeeps.live]
    · rwa [hkeeps.image]
    · rwa [hrecord, show k'.files.tables p = s.kernel.files.tables p from hkeeps.table]

/-- **The descriptor table of a process** from its start until its end, whatever it and the
    other processes do: every descriptor is in order, and its calls follow the laws. -/
theorem descriptor_table_of_run {k : Kernel} (hstart : k.JustStarted) (htypes : k.image.TypesOk)
    {es : List KernelEvent} {s : OpenFiles}
    (hend : EachStep (openFilesStep k.currPid)
      (fun s e => k.currPid = s.kernel.currPid → ¬ e.IsHalt) ⟨k, fun _ => none⟩ es)
    (hrun : exec (openFilesStep k.currPid) ⟨k, fun _ => none⟩ es = some s) :
    TableOk (s.kernel.files.tables k.currPid) s.opened ∧
      (s.kernel.currPid = k.currPid → s.kernel.CallLaws) := by
  obtain ⟨hlive, htable⟩ := hstart.started
  have hs : OpenFiles.Ok k.currPid ⟨k, fun _ => none⟩ := ⟨hlive, htypes, htable⟩
  -- the invariant holds at the start and each event keeps it
  have hok : s.Ok k.currPid := exec_invariant_of_eachStep
    (fun _ _ _ h hc hstep => OpenFiles.Ok.step h hc hstep) hs hend hrun
  refine ⟨hok.table, fun hcurr => ?_⟩
  have htable' := hok.table
  rw [← hcurr] at htable'
  exact Kernel.callLaws htable' hok.types

/-- A shell that has just been started. -/
def startedShell : Kernel := (bootedKernel.execute (some shellName) (fun _ => 0) ⟨0, 0⟩).2

/-- It opens its own file twice, reads, closes the first descriptor and opens it again. -/
def shellFileCalls : List KernelEvent :=
  [.open (some shellName), .open (some shellName), .read 2 (some fun _ => 0) 3, .close 2,
    .open (some shellName), .close 0]

theorem descriptor_table_of_run_shell :
    ∃ s, exec (openFilesStep startedShell.currPid) ⟨startedShell, fun _ => none⟩ shellFileCalls =
        some s ∧
      TableOk (s.kernel.files.tables startedShell.currPid) s.opened ∧
      (s.kernel.currPid = startedShell.currPid → s.kernel.CallLaws) := by
  have hstart : startedShell.JustStarted := by
    refine .inl ⟨bootedKernel, some shellName, fun _ => 0, ⟨0, 0⟩, Prod.ext ?_ rfl⟩
    decide +kernel
  have htypes : startedShell.image.TypesOk := by
    unfold Image.TypesOk
    decide +kernel
  have hend : EachStep (openFilesStep startedShell.currPid)
      (fun s e => startedShell.currPid = s.kernel.currPid → ¬ e.IsHalt)
      ⟨startedShell, fun _ => none⟩ shellFileCalls := by
    simp [shellFileCalls, EachStep, KernelEvent.IsHalt]
  obtain ⟨s, hrun⟩ := Option.isSome_iff_exists.mp (show (exec
    (openFilesStep startedShell.currPid) ⟨startedShell, fun _ => none⟩ shellFileCalls).isSome =
      true by decide +kernel)
  exact ⟨s, hrun, descriptor_table_of_run hstart htypes hend hrun⟩

end LinuxLikeOs
