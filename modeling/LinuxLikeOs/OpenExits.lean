import LinuxLikeOs.DescriptorCalls
import LinuxLikeOs.Devices
import LinuxLikeOs.DirectoryNames

/-!
# The exits of `open`

`open` compares the name with those of the two standard devices, looks it up in the directory,
takes a free descriptor, binds it by the type of the entry and calls the `open` of the table.

- `Kernel.openExit`: every call takes one of seven exits
- `Kernel.openNameLaw_iff`: which names are resolved exactly
- `Kernel.openFailLaw_iff`: when a failing `open` changes nothing
-/

namespace LinuxLikeOs

open Library

/-! ## Comparing with a device name -/

/-- The comparison of the first characters tells whether `s` begins with `t`. -/
theorem strncmp_prefix_iff {s t : CString} :
    strncmp s.byte t.byte t.strlen = 0 ↔ t.chars <+: s.chars := by
  rw [strncmp_eq_zero_iff, List.prefix_iff_getElem?]
  constructor
  · intro h i
    induction i using Nat.strong_induction_on with
    | _ i ih =>
      intro hi
      -- up to here the characters of `s` are those of `t`, so none is a terminator
      have hbyte : s.byte i = t.byte i := h i hi fun j hj hzero => by
        have hsame := ih j hj (Nat.lt_trans hj hi)
        rw [CString.byte, List.getD_eq_getElem?_getD, hsame, Option.getD_some] at hzero
        exact t.noNul (hzero ▸ List.getElem_mem _)
      have hlt : i < s.chars.length := by
        refine Nat.lt_of_not_le fun hle => t.byte_ne_zero hi ?_
        rw [← hbyte, s.byte_of_le hle]
      rw [s.byte_of_lt hlt, t.byte_of_lt hi] at hbyte
      rw [List.getElem?_eq_getElem hlt, hbyte]
  · intro h i hi _
    have hsame := h i hi
    rw [CString.byte, List.getD_eq_getElem?_getD, hsame, Option.getD_some, t.byte_of_lt hi]

namespace Kernel

/-- The names that `open` takes for standard input and for standard output. -/
def BeginsWithStdin (name : CString) : Prop := stdinName.chars <+: name.chars
def BeginsWithStdout (name : CString) : Prop := stdoutName.chars <+: name.chars

instance (name : CString) : Decidable (BeginsWithStdin name) :=
  inferInstanceAs (Decidable (_ <+: _))

instance (name : CString) : Decidable (BeginsWithStdout name) :=
  inferInstanceAs (Decidable (_ <+: _))

theorem strncmp_stdin_iff {name : CString} :
    strncmp name.byte stdinName.byte 5 = 0 ↔ BeginsWithStdin name :=
  strncmp_prefix_iff (t := stdinName)

theorem strncmp_stdout_iff {name : CString} :
    strncmp name.byte stdoutName.byte 6 = 0 ↔ BeginsWithStdout name :=
  strncmp_prefix_iff (t := stdoutName)

/-! ## The exits -/

/-- The exits of `open`, with the outcome at each. -/
inductive OpenExit (k : Kernel) : Option CString → SysResult → Prop where
  | noName : OpenExit k none (.ret (-1) none (k.printf filenameCheckText))
  | stdin (name : CString) (hin : BeginsWithStdin name) :
    OpenExit k (some name) (.ret stdinFd none k.openStdin)
  | stdout (name : CString) (hin : ¬ BeginsWithStdin name) (hout : BeginsWithStdout name) :
    OpenExit k (some name) (.ret stdoutFd none k.openStdout)
  | missing (name : CString) (hin : ¬ BeginsWithStdin name) (hout : ¬ BeginsWithStdout name)
    (hentry : k.image.readDentryByName (some name) = none) :
    OpenExit k (some name) (.ret (-1) none (k.printf fileMissingText))
  | full (name : CString) (entry : Dentry) (hin : ¬ BeginsWithStdin name)
    (hout : ¬ BeginsWithStdout name)
    (hentry : k.image.readDentryByName (some name) = some entry) (hfree : k.lowestFree = none) :
    OpenExit k (some name) (.ret (-1) none k)
  | opened (name : CString) (entry : Dentry) (fd : Nat) (ops : FileOperation) (k' : Kernel)
    (hin : ¬ BeginsWithStdin name) (hout : ¬ BeginsWithStdout name)
    (hentry : k.image.readDentryByName (some name) = some entry) (hfree : k.lowestFree = some fd)
    (hops : (bindDentry entry (k.files.table fd)).funcPointer = .table ops)
    (hfiles : k'.files = k.files.setFd fd (openedDescriptor entry (k.files.table fd))) :
    OpenExit k (some name) (.ret fd none k')
  | wild (name : CString) (entry : Dentry) (fd : Nat) (hin : ¬ BeginsWithStdin name)
    (hout : ¬ BeginsWithStdout name)
    (hentry : k.image.readDentryByName (some name) = some entry) (hfree : k.lowestFree = some fd)
    (hptr : ∀ ops, (bindDentry entry (k.files.table fd)).funcPointer ≠ .table ops) :
    OpenExit k (some name) .wild

/-- A call through the descriptor just bound, if its pointer is no table. -/
private theorem open_eq_wild {k : Kernel} {name : CString} {entry : Dentry} {fd : Nat}
    (hin : ¬ strncmp name.byte stdinName.byte 5 = 0)
    (hout : ¬ strncmp name.byte stdoutName.byte 6 = 0)
    (hentry : k.image.readDentryByName (some name) = some entry) (hfree : k.lowestFree = some fd)
    (hptr : ∀ ops, (bindDentry entry (k.files.table fd)).funcPointer ≠ .table ops) :
    k.open (some name) = .wild := by
  -- the pointer `open` calls is the one just bound
  have hbound : ((k.modifyFd k.currPid fd (bindDentry entry)).currPcb.fdArray fd).funcPointer =
      (bindDentry entry (k.files.table fd)).funcPointer := by
    have htable : (k.modifyFd k.currPid fd (bindDentry entry)).files.table fd =
        bindDentry entry (k.files.table fd) := by
      rw [files_modifyFd, FileState.table_setFd, Function.update_self]
    exact congrArg FileDescriptor.funcPointer htable
  simp only [Kernel.open, if_neg hin, if_neg hout, hentry, hfree, hbound]
  cases hfunc : (bindDentry entry (k.files.table fd)).funcPointer with
  | null => rfl
  | address a => rfl
  | table ops => exact absurd hfunc (hptr ops)

theorem open_stdin {k : Kernel} {name : CString} (h : BeginsWithStdin name) :
    k.open (some name) = .ret stdinFd none k.openStdin := by
  simp only [Kernel.open, if_pos (strncmp_stdin_iff.mpr h)]

/-- **Every call of `open`** takes one of the exits. -/
theorem openExit (k : Kernel) (filename : Option CString) :
    OpenExit k filename (k.open filename) := by
  -- the exits in the order of the source
  cases filename with
  | none => exact .noName
  | some name =>
    by_cases hin' : BeginsWithStdin name
    · rw [open_stdin hin']
      exact .stdin name hin'
    have hin := mt strncmp_stdin_iff.mp hin'
    by_cases hout : strncmp name.byte stdoutName.byte 6 = 0
    · have hopen : k.open (some name) = .ret stdoutFd none k.openStdout := by
        simp only [Kernel.open, if_neg hin, if_pos hout]
      rw [hopen]
      exact .stdout name hin' (strncmp_stdout_iff.mp hout)
    have hout' := mt strncmp_stdout_iff.mpr hout
    cases hentry : k.image.readDentryByName (some name) with
    | none =>
      have hopen : k.open (some name) = .ret (-1) none (k.printf fileMissingText) := by
        simp only [Kernel.open, if_neg hin, if_neg hout, hentry]
      rw [hopen]
      exact .missing name hin' hout' hentry
    | some entry =>
      cases hfree : k.lowestFree with
      | none =>
        have hopen : k.open (some name) = .ret (-1) none k := by
          simp only [Kernel.open, if_neg hin, if_neg hout, hentry, hfree]
        rw [hopen]
        exact .full name entry hin' hout' hentry hfree
      | some fd =>
        -- the type of the file has a table of operations, or the pointer is what it was before
        by_cases hptr : ∃ ops, (bindDentry entry (k.files.table fd)).funcPointer = .table ops
        · obtain ⟨ops, hops⟩ := hptr
          obtain ⟨k', hopen, hfiles⟩ := open_eq hin hout hentry hfree hops
          rw [hopen]
          exact .opened name entry fd ops k' hin' hout' hentry hfree hops hfiles
        · have hnone := not_exists.mp hptr
          rw [open_eq_wild hin hout hentry hfree hnone]
          exact .wild name entry fd hin' hout' hentry hfree hnone

/-! ## Names resolved exactly -/

/-- The call returns descriptor `fd` or changes it. -/
def OpenUses (k : Kernel) (name : CString) (fd : Nat) : Prop :=
  (∃ k', k.open (some name) = .ret fd none k') ∨
    ∃ k', (k.open (some name)).kernel? = some k' ∧ k'.files.table fd ≠ k.files.table fd

/-- A descriptor from 2 on is free. -/
def HasFree (k : Kernel) : Prop :=
  ∃ fd, 2 ≤ fd ∧ fd < maximumOpenFiles ∧ (k.files.table fd).flags = notUse

/-- The law of `open` for a name. -/
structure OpenNameLaw (k : Kernel) (name : CString) : Prop where
  stdin : k.OpenUses name stdinFd → name.chars = stdinName.chars
  stdout : k.OpenUses name stdoutFd → name.chars = stdoutName.chars
  /-- Any other name in the directory is opened as its own entry, on a descriptor from 2 on. -/
  present : name.chars ≠ stdinName.chars → name.chars ≠ stdoutName.chars →
    ∀ i < k.image.numDentry.toNat, (k.image.dentry i).name = name.chars →
      ∃ (fd : Nat) (k' : Kernel), (2 ≤ fd ∧ fd < maximumOpenFiles) ∧
        k.open (some name) = .ret fd none k' ∧ BoundTo (k'.files.table fd) (k.image.dentry i) ∧
        ∀ j, j ≠ fd → k'.files.table j = k.files.table j
  absent : name.chars ≠ stdinName.chars → name.chars ≠ stdoutName.chars →
    (∀ i < k.image.numDentry.toNat, (k.image.dentry i).name ≠ name.chars) →
      ∃ k', k.open (some name) = .ret (-1) none k' ∧ k'.files = k.files

theorem not_openUses {k k' : Kernel} {name : CString} {value : Int} {fd : Nat}
    (hopen : k.open (some name) = .ret value none k') (hvalue : value ≠ fd)
    (htable : k'.files.table fd = k.files.table fd) : ¬ k.OpenUses name fd := by
  rintro (⟨k₁, hret⟩ | ⟨k₁, hkernel, hchanged⟩)
  · rw [hopen] at hret
    injection hret with heq
    exact hvalue heq
  · rw [hopen] at hkernel
    obtain rfl : k' = k₁ := Option.some.inj hkernel
    exact hchanged htable

/-- The descriptors that an `open` of the files does not store. -/
theorem table_of_setFd_ne {k k' : Kernel} {i j : Nat} {d : FileDescriptor}
    (h : k'.files = k.files.setFd i d) (hj : j ≠ i) : k'.files.table j = k.files.table j := by
  rw [h, FileState.table_setFd, Function.update_of_ne hj]

theorem hasFree_iff {k : Kernel} : k.HasFree ↔ ∃ fd, k.lowestFree = some fd := by
  constructor
  · rintro ⟨fd, hlow, hlt, hflags⟩
    cases hfree : k.lowestFree with
    | some fd' => exact ⟨fd', rfl⟩
    | none =>
      rw [lowestFree, List.find?_eq_none] at hfree
      exact absurd (decide_eq_true ⟨hlow, hflags⟩) (hfree fd (List.mem_range.mpr hlt))
  · rintro ⟨fd, hfree⟩
    obtain ⟨hlow, hlt, hflags, -⟩ := lowestFree_eq_some_iff.mp hfree
    exact ⟨fd, hlow, hlt, hflags⟩

/-- A name resolved exactly. -/
private theorem openNameLaw_of_exact {k : Kernel} {name : CString}
    (hdistinct : k.image.DistinctNames) (htypes : k.image.TypesOk) (hfree : k.HasFree)
    (hin : BeginsWithStdin name → name.chars = stdinName.chars)
    (hout : BeginsWithStdout name → name.chars = stdoutName.chars) : k.OpenNameLaw name := by
  have hexit := k.openExit (some name)
  generalize hopen : k.open (some name) = r at hexit
  cases hexit with
  | stdin _ hbegins =>
    have hname := hin hbegins
    have hother : ¬ k.OpenUses name stdoutFd :=
      not_openUses hopen (by decide) (table_of_setFd_ne (files_modifyFd ..) (by decide))
    exact ⟨fun _ => hname, fun h => absurd h hother, fun h => absurd hname h,
      fun h => absurd hname h⟩
  | stdout _ _ hbegins =>
    have hname := hout hbegins
    have hother : ¬ k.OpenUses name stdinFd :=
      not_openUses hopen (by decide) (table_of_setFd_ne (files_modifyFd ..) (by decide))
    exact ⟨fun h => absurd h hother, fun _ => hname, fun _ h => absurd hname h,
      fun _ h => absurd hname h⟩
  | missing _ _ _ hentry =>
    have hother : ∀ fd : Nat, ¬ k.OpenUses name fd := fun fd =>
      not_openUses hopen (by omega) rfl
    refine ⟨fun h => absurd h (hother _), fun h => absurd h (hother _), fun _ _ i hi hname => ?_,
      fun _ _ _ => ⟨_, hopen, rfl⟩⟩
    -- a name in the directory is found
    rw [Image.readDentryByName_firstNamed (hname ▸ hdistinct.firstNamed hi)] at hentry
    cases hentry
  | full _ _ _ _ _ hnone =>
    obtain ⟨fd, hsome⟩ := hasFree_iff.mp hfree
    rw [hnone] at hsome
    cases hsome
  | opened _ entry fd ops k' _ _ hentry hfd _ hfiles =>
    obtain ⟨hlow, hlt, -⟩ := lowestFree_eq_some_iff.mp hfd
    have hother : ∀ i : Nat, i < 2 → ¬ k.OpenUses name i := fun i hi =>
      not_openUses hopen (by omega) (table_of_setFd_ne hfiles (by omega))
    refine ⟨fun h => absurd h (hother _ (by decide)), fun h => absurd h (hother _ (by decide)),
      fun _ _ i hi hname => ?_, fun _ _ habsent => ?_⟩
    · have hfirst := Image.readDentryByName_firstNamed (hname ▸ hdistinct.firstNamed hi)
      rw [hentry] at hfirst
      obtain rfl := Option.some.inj hfirst
      obtain ⟨ops, hops⟩ := operationsOf_readDentryByName htypes hentry
      refine ⟨fd, k', ⟨hlow, hlt⟩, hopen, ?_, fun j hj => table_of_setFd_ne hfiles hj⟩
      rw [hfiles, FileState.table_setFd, Function.update_self]
      exact boundTo_openedDescriptor hops _
    · rw [Image.readDentryByName_absent habsent] at hentry
      cases hentry
  | wild _ entry fd _ _ hentry _ hptr =>
    obtain ⟨ops, hops⟩ := operationsOf_readDentryByName htypes hentry
    exact absurd (bindDentry_funcPointer hops _) (hptr ops)

/-- **Names of `open`**: with a free descriptor, a name is resolved exactly unless it is longer
    than the name of a standard device and begins with it. -/
theorem openNameLaw_iff {k : Kernel} (hdistinct : k.image.DistinctNames)
    (htypes : k.image.TypesOk) (hfree : k.HasFree) (name : CString) :
    k.OpenNameLaw name ↔
      (BeginsWithStdin name → name.chars = stdinName.chars) ∧
      (BeginsWithStdout name → name.chars = stdoutName.chars) := by
  constructor
  · intro hlaw
    have hexit := k.openExit (some name)
    generalize hopen : k.open (some name) = r at hexit
    have hin : BeginsWithStdin name → name.chars = stdinName.chars := by
      intro hbegins
      cases hexit with
      | stdin => exact hlaw.stdin (.inl ⟨_, hopen⟩)
      | stdout | missing | full | opened | wild => contradiction
    refine ⟨hin, fun hbegins => ?_⟩
    cases hexit with
    | stdin _ hstdin =>
      -- no name begins with both
      rw [BeginsWithStdout, hin hstdin] at hbegins
      exact absurd hbegins (by decide)
    | stdout => exact hlaw.stdout (.inl ⟨_, hopen⟩)
    | missing | full | opened | wild => contradiction
  · rintro ⟨hin, hout⟩
    exact openNameLaw_of_exact hdistinct htypes hfree hin hout

end Kernel

/-- `stdinput`. -/
def stdinputName : CString := ⟨[115, 116, 100, 105, 110, 112, 117, 116], by decide⟩

theorem distinctNames_sampleImage : sampleKernel.image.DistinctNames := by
  unfold Image.DistinctNames
  decide +kernel

theorem typesOk_sampleImage : sampleKernel.image.TypesOk := by
  unfold Image.TypesOk
  decide +kernel

theorem hasFree_sampleKernel : sampleKernel.HasFree :=
  ⟨2, by decide, by decide, by decide +kernel⟩

/-- The shell's name is resolved exactly. -/
theorem openNameLaw_iff_shell :
    sampleKernel.OpenNameLaw shellName ↔
      (Kernel.BeginsWithStdin shellName → shellName.chars = stdinName.chars) ∧
      (Kernel.BeginsWithStdout shellName → shellName.chars = stdoutName.chars) :=
  Kernel.openNameLaw_iff distinctNames_sampleImage typesOk_sampleImage hasFree_sampleKernel _

/-- A name that no entry has is opened as standard input. -/
theorem stdinput_opens_stdin :
    sampleKernel.image.DistinctNames ∧ sampleKernel.image.TypesOk ∧
      sampleKernel.HasFree ∧ ¬ sampleKernel.OpenNameLaw stdinputName := by
  refine ⟨distinctNames_sampleImage, typesOk_sampleImage, hasFree_sampleKernel, fun hlaw => ?_⟩
  have hbegins : Kernel.BeginsWithStdin stdinputName := by decide
  exact absurd (hlaw.stdin (.inl ⟨_, Kernel.open_stdin hbegins⟩)) (by decide)

namespace Kernel

/-! ## Calls that fail -/

/-- The call returns -1 and changes no descriptor and nothing of the devices. -/
def OpenRefuses (k : Kernel) (filename : Option CString) : Prop :=
  ∃ k', k.open filename = .ret (-1) none k' ∧ k'.files = k.files ∧ k'.devices = k.devices

/-- The name is found in the directory, and the type of its entry is none of the three. -/
def NamesUnknownType (k : Kernel) (filename : Option CString) : Prop :=
  ∃ name entry, filename = some name ∧ ¬ BeginsWithStdin name ∧ ¬ BeginsWithStdout name ∧
    k.image.readDentryByName filename = some entry ∧ operationsOf entry.filetype = none

/-- The law of a call that may fail. -/
structure OpenFailLaw (k : Kernel) (filename : Option CString) : Prop where
  returns :
    (∃ (fd : Nat) (k' : Kernel), fd < maximumOpenFiles ∧ k.open filename = .ret fd none k') ∨
    k.OpenRefuses filename
  unknownType : k.NamesUnknownType filename → k.OpenRefuses filename

/-- A type that is none of the three leaves the descriptor as it was. -/
theorem bindDentry_unknown {entry : Dentry} (h : operationsOf entry.filetype = none)
    (d : FileDescriptor) : bindDentry entry d = d := by
  unfold operationsOf at h
  unfold bindDentry
  split_ifs at h ⊢
  rfl

/-- A call that finds such an entry and a free descriptor never returns -1: it goes wild, or
    through the table of an earlier use. -/
theorem not_openRefuses {k : Kernel} {filename : Option CString}
    (hunknown : k.NamesUnknownType filename) (hfree : k.HasFree) : ¬ k.OpenRefuses filename := by
  rintro ⟨k₁, hrefused, -⟩
  obtain ⟨fd, hsome⟩ := hasFree_iff.mp hfree
  obtain ⟨name, entry, rfl, hin, hout, hentry, -⟩ := hunknown
  have hexit := k.openExit (some name)
  rw [hrefused] at hexit
  cases hexit with
  | missing _ _ _ hmissing =>
    rw [hmissing] at hentry
    cases hentry
  | full _ _ _ _ _ hnone =>
    rw [hnone] at hsome
    cases hsome

/-- **Failing calls**: a failing `open` changes nothing, unless it has found an entry of an unknown
    type and a free descriptor. -/
theorem openFailLaw_iff (k : Kernel) (filename : Option CString) :
    k.OpenFailLaw filename ↔ ¬ (k.NamesUnknownType filename ∧ k.HasFree) := by
  have hexit := k.openExit filename
  generalize hopen : k.open filename = r at hexit
  constructor
  · rintro hlaw ⟨hunknown, hfree⟩
    exact not_openRefuses hunknown hfree (hlaw.unknownType hunknown)
  · intro hknown
    cases hexit with
    | noName =>
      refine ⟨.inr ⟨_, hopen, rfl, rfl⟩, ?_⟩
      rintro ⟨name, entry, hname, -⟩
      cases hname
    | stdin name hbegins =>
      refine ⟨.inl ⟨_, _, by decide, hopen⟩, ?_⟩
      rintro ⟨_, entry, hname, hin, -⟩
      obtain rfl := Option.some.inj hname
      exact absurd hbegins hin
    | stdout name _ hbegins =>
      refine ⟨.inl ⟨_, _, by decide, hopen⟩, ?_⟩
      rintro ⟨_, entry, hname, -, hout, -⟩
      obtain rfl := Option.some.inj hname
      exact absurd hbegins hout
    | missing => exact ⟨.inr ⟨_, hopen, rfl, rfl⟩, fun _ => ⟨_, hopen, rfl, rfl⟩⟩
    | full => exact ⟨.inr ⟨_, hopen, rfl, rfl⟩, fun _ => ⟨_, hopen, rfl, rfl⟩⟩
    | opened name entry fd ops k' _ _ _ hfree =>
      obtain ⟨-, hlt, -⟩ := lowestFree_eq_some_iff.mp hfree
      exact ⟨.inl ⟨fd, k', hlt, hopen⟩,
        fun hunknown => absurd ⟨hunknown, hasFree_iff.mpr ⟨fd, hfree⟩⟩ hknown⟩
    | wild name entry fd hin hout hentry hfree hptr =>
      -- a known type would have bound a table
      cases htype : operationsOf entry.filetype with
      | none =>
        exact absurd ⟨⟨name, entry, rfl, hin, hout, hentry, htype⟩, hasFree_iff.mpr ⟨fd, hfree⟩⟩
          hknown
      | some ops => exact absurd (bindDentry_funcPointer htype _) (hptr ops)

end Kernel

/-- The sample image with an entry of type 3 in place of the file `bad`, and its kernel. -/
def unknownTypeImage : Image where
  bytes a := if a = 224 then 3 else sampleImage.bytes a

def unknownTypeKernel : Kernel :=
  (fun k => k.pitHandler (fun _ => 0) ⟨0, 0⟩)^[6] (Kernel.powerOn unknownTypeImage)

/-- The shell opens the entry and calls through `NULL`. -/
theorem open_unknownType_goes_wild :
    unknownTypeKernel.open (some badName) = .wild ∧
      ¬ unknownTypeKernel.OpenFailLaw (some badName) := by
  -- the file has type 3, for which `open` sets no table
  have htype : (unknownTypeKernel.image.readDentryByName (some badName)).map Dentry.filetype =
      some 3 := by decide +kernel
  obtain ⟨entry, hentry, hthree⟩ := Option.map_eq_some_iff.mp htype
  have hunknown : operationsOf entry.filetype = none := by
    rw [hthree]
    decide
  have hfree : unknownTypeKernel.lowestFree = some 2 := by decide +kernel
  have hnull : (unknownTypeKernel.files.table 2).funcPointer = .null := by decide +kernel
  have hopen : unknownTypeKernel.open (some badName) = .wild := by
    refine Kernel.open_eq_wild (by decide) (by decide) hentry hfree fun ops => ?_
    rw [Kernel.bindDentry_unknown hunknown, hnull]
    exact FuncPointer.noConfusion
  refine ⟨hopen, fun hlaw => ?_⟩
  rcases hlaw.returns with ⟨fd, k', -, hret⟩ | ⟨k', hret, -⟩
  · rw [hopen] at hret
    cases hret
  · rw [hopen] at hret
    cases hret

end LinuxLikeOs
