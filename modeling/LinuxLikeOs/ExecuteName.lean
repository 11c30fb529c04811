import LinuxLikeOs.Executables

/-!
# The program that `execute` runs

`parse_command` copies at most 31 characters of the first word to `file_name`, which
`read_dentry_by_name` then looks up.

- `Image.loadProgram`: what `execute` loads of an entry, with `loads_iff`
- `execute_name_iff`: when `execute` runs the file that the word names, and no other
-/

namespace LinuxLikeOs

open Library

/-! ## Loading -/

/-- `first_entry` and `Maximum_file_length`. -/
def firstEntry : UInt32 := 24
def maximumFileLength : UInt32 := 0x08000000

/-- `virtual_target`. -/
def virtualTarget : Nat := 0x08048000

/-- A program in memory: the address at which it is entered, and the bytes from `virtual_target`
    on. -/
structure Program where
  top : UInt32
  memory : Buffer

namespace Image

/-- The bytes from there to the end of the program's page, behind which nothing is mapped. -/
def programRoom : Nat := oneThirtyTwoMB - virtualTarget

/-- The reads by which `execute` and `restart_shell` load the program of an entry; `none` when the
    copy runs into the end of the page, a page fault whose handler never returns. -/
def loadProgram (img : Image) (dentry : Dentry) (stack memory : Buffer) : Option Program :=
  let checked :=
    (img.readData dentry.numInode 0 (some stack) (UInt32.ofNat checkValid)).2.getD stack
  let buf :=
    (img.readData dentry.numInode firstEntry (some checked) (UInt32.ofNat checkValid)).2.getD
      checked
  let (count, loaded) := img.readData dentry.numInode 0 (some memory) maximumFileLength
  if count.toNat > programRoom then none
  else some { top := littleEndian buf 0, memory := loaded.getD memory }

/-- The program is the file: it is entered at the address in its bytes 24 to 27, and its bytes
    are in memory. -/
structure IsFile (img : Image) (inode : UInt32) (program : Program) : Prop where
  top : program.top = littleEndian (img.fileByte inode) firstEntry.toNat
  memory : ∀ i < (img.inodeLength inode).toNat, program.memory i = img.fileByte inode i

/-- The program of an entry is loaded, whatever was in memory before. -/
def Loads (img : Image) (entry : Dentry) (stack : Buffer) : Prop :=
  ∀ memory, ∃ program, img.loadProgram entry stack memory = some program ∧
    img.IsFile entry.numInode program

/-- A word depends on its four bytes. -/
private theorem littleEndian_congr {byte byte' : Nat → UInt8} {a a' : Nat}
    (h : ∀ j < 4, byte (a + j) = byte' (a' + j)) : littleEndian byte a = littleEndian byte' a' := by
  have h0 := h 0 (by decide)
  have h1 := h 1 (by decide)
  have h2 := h 2 (by decide)
  have h3 := h 3 (by decide)
  rw [Nat.add_zero, Nat.add_zero] at h0
  rw [littleEndian, littleEndian, h0, h1, h2, h3]

/-- The number of bytes that the copy to memory stores. -/
theorem readData_maximum {img : Image} {inode : UInt32} (h : img.Readable inode)
    (memory : Buffer) :
    (img.readData inode 0 (some memory) maximumFileLength).1 =
      (min maximumFileLength.toNat (img.inodeLength inode).toNat : Nat) := by
  have hall : readCount (img.inodeLength inode).toNat (0 : UInt32).toNat maximumFileLength.toNat =
      min maximumFileLength.toNat (img.inodeLength inode).toNat :=
    if_pos (Nat.zero_le _)
  have hmax : maximumFileLength.toNat < 2 ^ 31 := by decide
  rw [readData_fst h (Nat.zero_le _) memory (by decide) (by rw [hall]; omega), hall]

/-- An executable is loaded in full. -/
theorem loads_of_readable {img : Image} {entry : Dentry} (h : img.IsExecutable entry)
    (hreadable : img.Readable entry.numInode)
    (hfits : (img.inodeLength entry.numInode).toNat ≤ programRoom) (stack : Buffer) :
    img.Loads entry stack := by
  intro memory
  have hlength := h.length
  have hroom : programRoom ≤ maximumFileLength.toNat := by decide
  have hfirst : firstEntry.toNat = 24 := rfl
  have hfour : (UInt32.ofNat checkValid).toNat = 4 := rfl
  have hzero : (0 : UInt32).toNat = 0 := rfl
  -- `read_data` returns the whole length, which fits the program's page
  have hcount := readData_maximum hreadable memory
  have hin : ¬ (img.readData entry.numInode 0 (some memory) maximumFileLength).1.toNat >
      programRoom := by
    rw [hcount, Int.toNat_natCast]
    omega
  refine ⟨_, if_neg hin, ?_⟩
  constructor
  case top =>
    -- the entry point is read from the file itself, bytes 24 to 27
    have hbytes : readCount (img.inodeLength entry.numInode).toNat firstEntry.toNat
        (UInt32.ofNat checkValid).toNat = 4 := by
      simp only [readCount, hfirst, hfour]
      rw [if_pos (by omega)]
      omega
    have hstart : firstEntry.toNat ≤ (img.inodeLength entry.numInode).toNat := by omega
    have hwrap : firstEntry.toNat + (UInt32.ofNat checkValid).toNat < 2 ^ 32 := by decide
    simp only [fun checked => readData_snd hreadable hstart checked hwrap, Option.getD_some, hbytes]
    refine littleEndian_congr fun j hj => ?_
    rw [copyRange, if_pos (by omega), Nat.zero_add, Nat.sub_zero]
  case memory =>
    -- and the program area holds the file from its first byte on
    intro i hi
    show ((img.readData entry.numInode 0 (some memory) maximumFileLength).2.getD memory) i = _
    rw [readData_snd hreadable (Nat.zero_le _) _ (by decide), Option.getD_some, copyRange,
      readCount, hzero, if_pos (Nat.zero_le _), if_pos (by omega), Nat.zero_add, Nat.sub_zero]

/-- **What is loaded** of an executable is the file exactly if it can be read and fits in the page
    of the program. -/
theorem loads_iff {img : Image} {entry : Dentry} (h : img.IsExecutable entry) (stack : Buffer) :
    img.Loads entry stack ↔ img.Readable entry.numInode ∧
      (img.inodeLength entry.numInode).toNat ≤ programRoom := by
  have hlength := h.length
  constructor
  case mp =>
    intro hloads
    have hreadable : img.Readable entry.numInode := by
      by_contra hnot
      -- nothing is copied, so a byte that is not in the file stays where its first byte should be
      obtain ⟨program, hload, hfile⟩ := hloads fun _ => img.fileByte entry.numInode 0 + 1
      have hkept : program.memory = fun _ => img.fileByte entry.numInode 0 + 1 := by
        simp only [loadProgram, readData_of_not_readable hnot] at hload
        split_ifs at hload
        exact congrArg Program.memory (Option.some.inj hload).symm
      have hfirst := hfile.memory 0 (by omega)
      rw [hkept] at hfirst
      exact absurd hfirst (by simp)
    refine ⟨hreadable, Nat.le_of_not_lt fun hlong => ?_⟩
    obtain ⟨program, hload, -⟩ := hloads fun _ => 0
    have hroom : programRoom < maximumFileLength.toNat := by decide
    have hcount := readData_maximum hreadable fun _ => 0
    have hfault : (img.readData entry.numInode 0 (some fun _ => 0) maximumFileLength).1.toNat >
        programRoom := by
      rw [hcount, Int.toNat_natCast]
      omega
    rw [show img.loadProgram entry stack (fun _ => 0) = none from if_pos hfault] at hload
    cases hload
  case mpr => exact fun ⟨hreadable, hfits⟩ => loads_of_readable h hreadable hfits stack

end Image

namespace Kernel

/-! ## The law of the names -/

/-- The directory entry whose file `execute` runs, if it starts a process. -/
def executedEntry (k : Kernel) (command : CString) (stack : Buffer) : Option Dentry :=
  if (k.spawned (some command) stack).isSome = true then k.foundEntry (some command) else none

variable {k : Kernel} {command : CString} {stack : Buffer}

/-- With a free process number, the entry that the cut word names is executed if it passes the
    check. -/
theorem executedEntry_eq_some_iff (hnames : k.image.NamesOk) (hslot : k.SlotFree)
    {entry : Dentry} :
    k.executedEntry command stack = some entry ↔
      (∃ i < k.image.numDentry.toNat, k.image.dentry i = entry ∧
        entry.name = (commandWord command).take 31) ∧
      k.image.HeadIsMagic entry.numInode stack := by
  -- the name that is looked up is the command word cut to 31 letters
  have hlookup : k.foundEntry (some command) = some entry ↔
      ∃ i < k.image.numDentry.toNat, k.image.dentry i = entry ∧
        entry.name = (commandWord command).take 31 :=
    Image.readDentryByName_eq_some_iff hnames (strlen_fileName_le command)
  have hspawned := k.spawned_isSome_iff (some command) stack
  rw [← hlookup, executedEntry]
  constructor
  · intro h
    split_ifs at h with hsome
    obtain ⟨⟨entry', hentry', hhead⟩, -⟩ := hspawned.mp hsome
    obtain rfl := Option.some.inj (h.symm.trans hentry')
    exact ⟨h, hhead⟩
  · rintro ⟨hentry, hhead⟩
    rw [if_pos (hspawned.mpr ⟨⟨entry, hentry, hhead⟩, hslot⟩), hentry]

/-- `execute` starts a process that runs the file of `entry`. -/
structure RunsFile (k : Kernel) (command : CString) (stack : Buffer) (regs : Context)
    (entry : Dentry) : Prop where
  starts : (k.execute (some command) stack regs).1 = .user
  executed : k.executedEntry command stack = some entry
  program : k.image.Loads entry stack

/-- The executable that the first word names is run; what is run has the name that the word is;
    and a word that is no name is refused. -/
structure NameLaw (k : Kernel) (command : CString) (stack : Buffer) (regs : Context) : Prop where
  named : ∀ i < k.image.numDentry.toNat, (k.image.dentry i).name = commandWord command →
    k.image.IsExecutable (k.image.dentry i) → k.RunsFile command stack regs (k.image.dentry i)
  only : ∀ entry, k.executedEntry command stack = some entry → entry.name = commandWord command
  unknown : (∀ i < k.image.numDentry.toNat, (k.image.dentry i).name ≠ commandWord command) →
    k.execute (some command) stack regs = (.ret (-1), k)

/-- If only files are run that the word names, a word that is no name is refused. -/
private theorem refuses_unknown (hnames : k.image.NamesOk) (hslot : k.SlotFree)
    (honly : ∀ entry, k.executedEntry command stack = some entry →
      entry.name = commandWord command)
    (hunknown : ∀ i < k.image.numDentry.toNat, (k.image.dentry i).name ≠ commandWord command)
    (regs : Context) : k.execute (some command) stack regs = (.ret (-1), k) := by
  refine execute_of_isNone (fun hsome => ?_) regs
  obtain ⟨⟨entry, hentry, -⟩, -⟩ := (k.spawned_isSome_iff (some command) stack).mp hsome
  have hexecuted : k.executedEntry command stack = some entry := by
    rw [executedEntry, if_pos hsome, hentry]
  obtain ⟨⟨i, hi, rfl, -⟩, -⟩ := (executedEntry_eq_some_iff hnames hslot).mp hexecuted
  exact hunknown i hi (honly _ hexecuted)

/-- An executable that a short word names is run, if it is loaded. -/
private theorem runsFile_of_short (hnames : k.image.NamesOk) (hslot : k.SlotFree)
    (hshort : (commandWord command).length ≤ 31) {i : Nat} (hi : i < k.image.numDentry.toNat)
    (hname : (k.image.dentry i).name = commandWord command)
    (hexec : k.image.IsExecutable (k.image.dentry i))
    (hreadable : k.image.Readable (k.image.dentry i).numInode)
    (hfits : (k.image.inodeLength (k.image.dentry i).numInode).toNat ≤ Image.programRoom)
    (regs : Context) : k.RunsFile command stack regs (k.image.dentry i) := by
  have hhead : k.image.HeadIsMagic (k.image.dentry i).numInode stack :=
    (Image.headIsMagic_iff_of_readable hreadable hexec.length).mpr hexec.magic
  have hwhole : (commandWord command).take 31 = commandWord command :=
    List.take_of_length_le hshort
  have hexecuted : k.executedEntry command stack = some (k.image.dentry i) :=
    (executedEntry_eq_some_iff hnames hslot).mpr ⟨⟨i, hi, rfl, hname.trans hwhole.symm⟩, hhead⟩
  -- and a process is free, so `execute` goes on
  have hsome : (k.spawned (some command) stack).isSome = true := by
    by_contra hnot
    rw [executedEntry, if_neg hnot] at hexecuted
    cases hexecuted
  exact ⟨(execute_of_isSome hsome regs).1, hexecuted,
    Image.loads_of_readable hexec hreadable hfits stack⟩

/-- **The law** holds exactly if the word has at most 31 characters and the executable that it
    names, if any, can be read and fits in the page of a program, or if the word names no executable
    and its first 31 characters name no file that passes the check. -/
theorem execute_name_iff (hnames : k.image.NamesOk) (hslot : k.SlotFree) (regs : Context) :
    k.NameLaw command stack regs ↔
      (commandWord command).length ≤ 31 ∧
        (∀ i < k.image.numDentry.toNat, (k.image.dentry i).name = commandWord command →
          k.image.IsExecutable (k.image.dentry i) →
            k.image.Readable (k.image.dentry i).numInode ∧
              (k.image.inodeLength (k.image.dentry i).numInode).toNat ≤ Image.programRoom) ∨
      (∀ i < k.image.numDentry.toNat, (k.image.dentry i).name = commandWord command →
          ¬ k.image.IsExecutable (k.image.dentry i)) ∧
        ∀ i < k.image.numDentry.toNat,
          (k.image.dentry i).name = (commandWord command).take 31 →
            ¬ k.image.HeadIsMagic (k.image.dentry i).numInode stack := by
  constructor
  case mp =>
    intro h
    by_cases hshort : (commandWord command).length ≤ 31
    · exact .inl ⟨hshort, fun i hi hname hexec =>
        (Image.loads_iff hexec stack).mp (h.named i hi hname hexec).program⟩
    -- a word that is cut is not the name that is looked up
    have hcut : (commandWord command).take 31 ≠ commandWord command := by
      intro heq
      have hlength := congrArg List.length heq
      rw [List.length_take] at hlength
      omega
    refine .inr ⟨fun i hi hname hexec => ?_, fun i hi hname hhead => ?_⟩
    · obtain ⟨⟨-, -, -, hfound⟩, -⟩ :=
        (executedEntry_eq_some_iff hnames hslot).mp (h.named i hi hname hexec).executed
      exact hcut (hfound.symm.trans hname)
    · have hexecuted : k.executedEntry command stack = some (k.image.dentry i) :=
        (executedEntry_eq_some_iff hnames hslot).mpr ⟨⟨i, hi, rfl, hname⟩, hhead⟩
      exact hcut (hname.symm.trans (h.only _ hexecuted))
  case mpr =>
    -- a short word is looked up as it is; a longer one is an executable under neither name
    rintro (⟨hshort, hloads⟩ | ⟨hnone, hcut⟩)
    · have hwhole : (commandWord command).take 31 = commandWord command :=
        List.take_of_length_le hshort
      have honly : ∀ entry, k.executedEntry command stack = some entry →
          entry.name = commandWord command := by
        intro entry hentry
        obtain ⟨⟨-, -, -, hname⟩, -⟩ := (executedEntry_eq_some_iff hnames hslot).mp hentry
        exact hname.trans hwhole
      refine ⟨fun i hi hname hexec => ?_, honly, fun hunknown =>
        refuses_unknown hnames hslot honly hunknown regs⟩
      obtain ⟨hreadable, hfits⟩ := hloads i hi hname hexec
      exact runsFile_of_short hnames hslot hshort hi hname hexec hreadable hfits regs
    · have honly : ∀ entry, k.executedEntry command stack = some entry →
          entry.name = commandWord command := by
        intro entry hentry
        obtain ⟨⟨i, hi, rfl, hname⟩, hhead⟩ :=
          (executedEntry_eq_some_iff hnames hslot).mp hentry
        exact absurd hhead (hcut i hi hname)
      exact ⟨fun i hi hname hexec => absurd hexec (hnone i hi hname), honly, fun hunknown =>
        refuses_unknown hnames hslot honly hunknown regs⟩

end Kernel

theorem namesOk_sampleImage : sampleImage.NamesOk := ⟨by decide +kernel, by decide +kernel⟩

theorem execute_name_iff_shell :
    sampleKernel.NameLaw shellName (fun _ => 0) ⟨0, 0⟩ ↔
      (Kernel.commandWord shellName).length ≤ 31 ∧
        (∀ i < sampleImage.numDentry.toNat,
          (sampleImage.dentry i).name = Kernel.commandWord shellName →
            sampleImage.IsExecutable (sampleImage.dentry i) →
              sampleImage.Readable (sampleImage.dentry i).numInode ∧
                (sampleImage.inodeLength (sampleImage.dentry i).numInode).toNat ≤
                  Image.programRoom) ∨
      (∀ i < sampleImage.numDentry.toNat,
          (sampleImage.dentry i).name = Kernel.commandWord shellName →
            ¬ sampleImage.IsExecutable (sampleImage.dentry i)) ∧
        ∀ i < sampleImage.numDentry.toNat,
          (sampleImage.dentry i).name = (Kernel.commandWord shellName).take 31 →
            ¬ sampleImage.HeadIsMagic (sampleImage.dentry i).numInode fun _ => 0 :=
  Kernel.execute_name_iff (k := sampleKernel) namesOk_sampleImage slotFree_sampleKernel ⟨0, 0⟩

/-- A word of 32 characters names a program that is not run; another one names nothing and runs
    the program whose name it starts with. -/
theorem execute_cuts_long_word :
    sampleImage.NamesOk ∧ sampleKernel.SlotFree ∧
      ¬ sampleKernel.NameLaw longName32 (fun _ => 0) ⟨0, 0⟩ ∧
      ¬ sampleKernel.NameLaw ⟨List.replicate 32 97, by decide⟩ (fun _ => 0) ⟨0, 0⟩ := by
  -- a program with a name of 32 letters, and a command of 32 letters that cuts to another name
  refine ⟨namesOk_sampleImage, slotFree_sampleKernel, fun h => ?_, fun h => ?_⟩
  · have hrefused : (sampleKernel.execute (some longName32) (fun _ => 0) ⟨0, 0⟩).1 = .ret (-1) := by
      decide +kernel
    have hstarts :=
      (h.named 4 (by decide +kernel) (by decide +kernel) isExecutable_longName32).starts
    rw [hstarts] at hrefused
    cases hrefused
  · have hstarts : (sampleKernel.execute (some ⟨List.replicate 32 97, by decide⟩) (fun _ => 0)
        ⟨0, 0⟩).1 = .user := by
      decide +kernel
    have hrefuses := h.unknown (by decide +kernel)
    rw [hrefuses] at hstarts
    cases hstarts

end LinuxLikeOs
