import LinuxLikeOs.DirectoryNames
import LinuxLikeOs.ProcessRuns

/-!
# What `execute` accepts

`execute` compares the first four bytes of its local buffer with the ELF magic, after two calls
of `read_data` whose results it ignores.

- `Image.headByte`: the bytes that are compared, by the file and the old content of the buffer
- `checkExecutable_iff`, `spawned_isSome_iff`: when a process is created
- `execute_law_iff`: when that is right for an executable and for anything else
-/

namespace LinuxLikeOs

open Library

/-! ## The head of a file -/

namespace Image

/-- Byte `i` of the buffer behind `read_data`: a byte of the file, if it has one and can be read,
    and otherwise what the stack held there before. -/
def headByte (img : Image) (inode : UInt32) (stack : Buffer) (i : Nat) : UInt8 :=
  if img.Readable inode ∧ i < (img.inodeLength inode).toNat then img.fileByte inode i
  else stack i

/-- An inode that is not read leaves the buffer as it is. -/
theorem readData_of_not_readable {img : Image} {inode : UInt32} (h : ¬ img.Readable inode)
    (offset : UInt32) (buf : Buffer) (length : UInt32) :
    (img.readData inode offset (some buf) length).2 = some buf := by
  by_cases hinode : inode ≥ img.numInode
  · simp only [readData, if_pos hinode]
  by_cases hoffset : offset > img.inodeLength inode
  · simp only [readData, if_neg hinode, if_pos hoffset]
  have hbad : ((List.range (blockNum (img.inodeLength inode).toNat)).any fun i =>
      decide (img.inodeBlock inode i ≥ img.numDataBlock)) = true := by
    by_contra hgood
    refine h ⟨UInt32.not_le.mp hinode, fun i hi => UInt32.not_le.mp fun hge => hgood ?_⟩
    exact List.any_eq_true.mpr ⟨i, List.mem_range.mpr hi, decide_eq_true hge⟩
  simp only [readData, if_neg hinode, if_neg hoffset, if_pos hbad]

/-- **The buffer** that `execute` compares. -/
theorem readData_head (img : Image) (inode : UInt32) (stack : Buffer) {i : Nat}
    (hi : i < checkValid) :
    ((img.readData inode 0 (some stack) (UInt32.ofNat checkValid)).2.getD stack) i =
      img.headByte inode stack i := by
  have hzero : (0 : UInt32).toNat = 0 := rfl
  have hfour : (UInt32.ofNat checkValid).toNat = checkValid := rfl
  unfold headByte
  by_cases hreadable : img.Readable inode
  · rw [readData_snd hreadable (Nat.zero_le _) stack (by decide), Option.getD_some, copyRange,
      readCount, hzero, hfour, if_pos (Nat.zero_le _), Nat.sub_zero]
    simp only [Nat.zero_add, Nat.sub_zero]
    by_cases hlength : i < (img.inodeLength inode).toNat
    · rw [if_pos ⟨Nat.zero_le _, Nat.lt_min.mpr ⟨hi, hlength⟩⟩, if_pos ⟨hreadable, hlength⟩]
    · rw [if_neg fun h => hlength (Nat.lt_min.mp h.2).2, if_neg fun h => hlength h.2]
  · rw [readData_of_not_readable hreadable, Option.getD_some, if_neg fun h => hreadable h.1]

/-- The four bytes that are compared are the ELF magic. -/
def HeadIsMagic (img : Image) (inode : UInt32) (stack : Buffer) : Prop :=
  ∀ i < checkValid, img.headByte inode stack i = elfMagic.byte i

instance (img : Image) (inode : UInt32) (stack : Buffer) :
    Decidable (img.HeadIsMagic inode stack) :=
  inferInstanceAs (Decidable (∀ i < checkValid, _))

/-- The first four bytes of the local buffer are the ELF magic. -/
def HoldsMagic (stack : Buffer) : Prop := ∀ i < checkValid, stack i = elfMagic.byte i

/-- An executable: a regular file with room for the header up to the entry point, that starts with
    the ELF magic. -/
structure IsExecutable (img : Image) (entry : Dentry) : Prop where
  regular : entry.filetype = regularFiletype
  length : 28 ≤ (img.inodeLength entry.numInode).toNat
  magic : elfMagic.chars <+: img.contents entry.numInode

/-- A file that can be read and is long enough is compared by its own bytes. -/
theorem headIsMagic_iff_of_readable {img : Image} {inode : UInt32} (hreadable : img.Readable inode)
    (hlength : 28 ≤ (img.inodeLength inode).toNat) {stack : Buffer} :
    img.HeadIsMagic inode stack ↔ elfMagic.chars <+: img.contents inode := by
  -- the four bytes compared lie inside the file
  have hfour : elfMagic.chars.length = checkValid := rfl
  have hin : ∀ i < checkValid, i < (img.inodeLength inode).toNat := by
    intro i hi
    simp only [checkValid] at hi
    omega
  -- so each byte read is the byte of the contents
  have hbyte : ∀ i (hi : i < elfMagic.chars.length), img.headByte inode stack i = elfMagic.byte i ↔
      (img.contents inode)[i]? = some elfMagic.chars[i] := by
    intro i hi
    rw [headByte, if_pos ⟨hreadable, hin i hi⟩, contents_getElem? img inode (hin i hi),
      Option.some.injEq, CString.byte_of_lt]
  rw [List.prefix_iff_getElem?]
  constructor
  · exact fun h i hi => (hbyte i hi).mp (h i (hfour ▸ hi))
  · exact fun h i hi => (hbyte i (hfour ▸ hi)).mpr (h i (hfour ▸ hi))

/-- A file that cannot be read is compared by the old content of the buffer. -/
theorem headIsMagic_iff_of_not_readable {img : Image} {inode : UInt32}
    (h : ¬ img.Readable inode) {stack : Buffer} :
    img.HeadIsMagic inode stack ↔ HoldsMagic stack := by
  have hbyte : ∀ i, img.headByte inode stack i = stack i := fun i => if_neg fun hin => h hin.1
  simp only [HeadIsMagic, HoldsMagic, hbyte]

/-- The first entry with a name. -/
def named (img : Image) (word : List UInt8) : Option Dentry :=
  ((List.range img.numDentry.toNat).find? fun i => (img.dentry i).name = word).map img.dentry

/-- `execute` is right about the entry that it compares: if its head is taken for the magic, it is
    that of a regular file with at least 28 bytes, which can be read or starts with the magic all
    the same; and if it is that of an executable, that can be read, or the buffer held the magic. -/
structure JudgedRight (img : Image) (entry : Dentry) (stack : Buffer) : Prop where
  accepted : img.HeadIsMagic entry.numInode stack → entry.filetype = regularFiletype ∧
    28 ≤ (img.inodeLength entry.numInode).toNat ∧
      (img.Readable entry.numInode ∨ elfMagic.chars <+: img.contents entry.numInode)
  refused : img.IsExecutable entry → img.Readable entry.numInode ∨ HoldsMagic stack

/-- The head of an entry about which `execute` is right passes exactly if it is an executable. -/
theorem judgedRight_iff {img : Image} {entry : Dentry} {stack : Buffer} :
    img.JudgedRight entry stack ↔
      (img.HeadIsMagic entry.numInode stack ↔ img.IsExecutable entry) := by
  constructor
  case mp =>
    -- accepted files are executable: readable ones by the bytes, the others by the law
    intro h
    constructor
    · intro hhead
      obtain ⟨hregular, hlength, hreadable | hmagic⟩ := h.accepted hhead
      · exact ⟨hregular, hlength, (headIsMagic_iff_of_readable hreadable hlength).mp hhead⟩
      · exact ⟨hregular, hlength, hmagic⟩
    · -- and executables are accepted: an unreadable one only through what the stack held
      intro hexec
      by_cases hreadable : img.Readable entry.numInode
      · exact (headIsMagic_iff_of_readable hreadable hexec.length).mpr hexec.magic
      · have hstale := (h.refused hexec).resolve_left hreadable
        exact (headIsMagic_iff_of_not_readable hreadable).mpr hstale
  case mpr =>
    intro h
    constructor
    · intro hhead
      have hexec := h.mp hhead
      exact ⟨hexec.regular, hexec.length, .inr hexec.magic⟩
    · intro hexec
      by_cases hreadable : img.Readable entry.numInode
      · exact .inl hreadable
      · exact .inr ((headIsMagic_iff_of_not_readable hreadable).mp (h.mpr hexec))

end Image

/-! ## When a process is created -/

namespace Kernel

/-- The checks of `execute` and `restart_shell` look for the file and compare its head. -/
theorem checkExecutable_iff (k : Kernel) (fileName : CString) (stack : Buffer) :
    k.checkExecutable fileName stack = true ↔
      ∃ entry, k.image.readDentryByName (some fileName) = some entry ∧
        k.image.HeadIsMagic entry.numInode stack := by
  have hchars : ∀ i < checkValid, elfMagic.byte i ≠ 0 := by decide
  unfold checkExecutable
  cases hentry : k.image.readDentryByName (some fileName) with
  | none => exact iff_of_false Bool.noConfusion (by rintro ⟨entry, h, -⟩; cases h)
  | some entry =>
    rw [decide_eq_true_iff, strncmp_eq_zero_iff]
    constructor
    · intro h
      refine ⟨entry, rfl, fun i => ?_⟩
      -- the magic has no terminator, so all four bytes are compared
      induction i using Nat.strongRecOn with
      | ind i ih =>
        intro hi
        rw [← Image.readData_head k.image entry.numInode stack hi]
        refine h i hi fun j hj => ?_
        have hj' : j < checkValid := Nat.lt_trans hj hi
        rw [Image.readData_head k.image entry.numInode stack hj', ih j hj hj']
        exact hchars j hj'
    · -- a head that is the magic passes at every byte
      rintro ⟨entry', heq, h⟩ i hi -
      obtain rfl := Option.some.inj heq
      rw [Image.readData_head k.image entry.numInode stack hi]
      exact h i hi

/-- A process number is free. -/
def SlotFree (k : Kernel) : Prop := ∃ p < maxProcessNum, k.processArray p = 0

/-- The first word of a command line. -/
def commandWord (command : CString) : List UInt8 := firstWord (skipSpaces command.chars)

/-- The directory entry that a command names with its first word. -/
def namedEntry (k : Kernel) (command : Option CString) : Option Dentry :=
  command.bind fun c => k.image.named (commandWord c)

/-- The directory entry that `execute` finds for its command. -/
def foundEntry (k : Kernel) (command : Option CString) : Option Dentry :=
  command.bind fun c => k.image.readDentryByName (some (parseCommand c).1)

theorem chars_fileName (command : CString) :
    (parseCommand command).1.chars = (commandWord command).take 31 := rfl

theorem strlen_fileName_le (command : CString) :
    (parseCommand command).1.strlen ≤ maximumFilenameLength := by
  rw [CString.strlen, chars_fileName, List.length_take]
  exact Nat.le_trans (Nat.min_le_left ..) (by decide)

/-- `execute` looks for the first 31 characters of the word. -/
theorem foundEntry_some (k : Kernel) (command : CString) :
    k.foundEntry (some command) = k.image.named ((commandWord command).take 31) :=
  Image.readDentryByName_some (strlen_fileName_le command)

/-- A word that is not cut is looked up as it is. -/
theorem foundEntry_of_short (k : Kernel) {command : CString}
    (hshort : (commandWord command).length ≤ 31) :
    k.foundEntry (some command) = k.namedEntry (some command) := by
  rw [foundEntry_some, List.take_of_length_le hshort]
  rfl

theorem createProcess_isSome_iff (k : Kernel) : k.createProcess.isSome = true ↔ k.SlotFree := by
  simp [createProcess, SlotFree, List.find?_isSome]

/-- **A process is created** exactly if the entry exists, its head is the magic and a process
    number is free. -/
theorem spawned_isSome_iff (k : Kernel) (command : Option CString) (stack : Buffer) :
    (k.spawned command stack).isSome = true ↔
      (∃ entry, k.foundEntry command = some entry ∧
        k.image.HeadIsMagic entry.numInode stack) ∧ k.SlotFree := by
  cases command with
  | none => exact iff_of_false Bool.noConfusion (by rintro ⟨⟨entry, h, -⟩, -⟩; cases h)
  | some command =>
    have hcheck := k.checkExecutable_iff (parseCommand command).1 stack
    simp only [spawned, foundEntry, Option.bind_some]
    rw [← hcheck, ← createProcess_isSome_iff]
    cases k.checkExecutable (parseCommand command).1 stack with
    | false => simp
    | true => simp

/-! ## The law of `execute` -/

/-- A process is created for an executable that the command names, in a free process number; in
    every other case `execute` returns -1 and changes nothing at all. -/
structure ExecuteLaw (k : Kernel) (command : Option CString) (stack : Buffer)
    (regs : Context) : Prop where
  starts : (∃ entry, k.namedEntry command = some entry ∧ k.image.IsExecutable entry) →
    k.SlotFree → ∃ p < maxProcessNum, k.processArray p = 0 ∧
      (k.execute command stack regs).2.currPid = p ∧
      (k.execute command stack regs).2.processArray = Function.update k.processArray p 1
  refuses : ¬ ((∃ entry, k.namedEntry command = some entry ∧ k.image.IsExecutable entry) ∧
    k.SlotFree) → k.execute command stack regs = (.ret (-1), k)

/-- A process that is created takes a free number and runs. -/
theorem execute_of_isSome {k : Kernel} {command : Option CString} {stack : Buffer}
    (h : (k.spawned command stack).isSome = true) (regs : Context) :
    (k.execute command stack regs).1 = .user ∧ ∃ p < maxProcessNum, k.processArray p = 0 ∧
      (k.execute command stack regs).2.currPid = p ∧
      (k.execute command stack regs).2.processArray = Function.update k.processArray p 1 := by
  rcases k.execute_cases command stack regs with ⟨hnone, -⟩ | ⟨p, args, -, hp, hfree, heq⟩
  · rw [hnone] at h
    cases h
  · obtain ⟨-, hcurr, harray, -⟩ := k.enterChild_frame p
    have hprocesses := processes_startProgram (k.enterChild p) args regs
    rw [heq]
    refine ⟨rfl, p, hp, hfree, ?_, ?_⟩
    · exact (congrArg ProcessState.currPid hprocesses).trans hcurr
    · exact (congrArg ProcessState.processArray hprocesses).trans harray

theorem execute_of_isNone {k : Kernel} {command : Option CString} {stack : Buffer}
    (h : ¬ (k.spawned command stack).isSome = true) (regs : Context) :
    k.execute command stack regs = (.ret (-1), k) := by
  rcases k.execute_cases command stack regs with ⟨-, heq⟩ | ⟨p, args, hsome, -⟩
  · exact heq
  · rw [hsome] at h
    exact absurd rfl h

/-- The law, by the entry that is named and the one that is found. -/
theorem executeLaw_iff_entries (k : Kernel) (command : Option CString) (stack : Buffer)
    (regs : Context) :
    k.ExecuteLaw command stack regs ↔ (k.SlotFree →
      ((∃ entry, k.namedEntry command = some entry ∧ k.image.IsExecutable entry) ↔
        ∃ entry, k.foundEntry command = some entry ∧
          k.image.HeadIsMagic entry.numInode stack)) := by
  have hspawned := k.spawned_isSome_iff command stack
  constructor
  case mp =>
    intro h hslot
    constructor
    · intro hnamed
      by_contra hnone
      obtain ⟨p, hp, hfree, -, harray⟩ := h.starts hnamed hslot
      rw [execute_of_isNone (fun hsome => hnone (hspawned.mp hsome).1) regs] at harray
      -- the number that was free would have to be in use
      have hused := congrFun harray p
      rw [Function.update_self, hfree] at hused
      exact absurd hused (by decide)
    · intro hfound
      by_contra hnone
      have huser := (execute_of_isSome (hspawned.mpr ⟨hfound, hslot⟩) regs).1
      rw [h.refuses fun hboth => hnone hboth.1] at huser
      cases huser
  case mpr =>
    intro h
    constructor
    case starts =>
      exact fun hnamed hslot =>
        (execute_of_isSome (hspawned.mpr ⟨(h hslot).mp hnamed, hslot⟩) regs).2
    case refuses =>
      intro hnot
      refine execute_of_isNone (fun hsome => hnot ?_) regs
      obtain ⟨hfound, hslot⟩ := hspawned.mp hsome
      exact ⟨(h hslot).mpr hfound, hslot⟩

/-- **The law** holds exactly if no process number is free, or `execute` is right about the entry
    that a word of at most 31 characters names; a longer word has to name an executable exactly if
    its first 31 characters name an entry whose head is taken for the magic. -/
theorem execute_law_iff (k : Kernel) (command : Option CString) (stack : Buffer)
    (regs : Context) :
    k.ExecuteLaw command stack regs ↔ (k.SlotFree → ∀ c, command = some c →
      ((commandWord c).length ≤ 31 →
        ∀ entry, k.image.named (commandWord c) = some entry → k.image.JudgedRight entry stack) ∧
      (31 < (commandWord c).length →
        ((∃ entry, k.image.named (commandWord c) = some entry ∧ k.image.IsExecutable entry) ↔
          ∃ entry, k.image.named ((commandWord c).take 31) = some entry ∧
            k.image.HeadIsMagic entry.numInode stack))) := by
  rw [executeLaw_iff_entries]
  refine imp_congr_right fun _ => ?_
  cases command with
  | none =>
    refine iff_of_true (iff_of_false ?_ ?_) fun c hc => by cases hc
    · rintro ⟨entry, hentry, -⟩
      cases hentry
    · rintro ⟨entry, hentry, -⟩
      cases hentry
  | some c =>
    simp only [Option.some.injEq, forall_eq']
    by_cases hshort : (commandWord c).length ≤ 31
    · rw [foundEntry_of_short k hshort]
      simp only [Image.judgedRight_iff, hshort, true_imp_iff, Nat.not_lt_of_le hshort,
        false_imp_iff, and_true]
      show _ ↔ ∀ entry, k.namedEntry (some c) = some entry → _
      -- there is one such entry at most
      cases k.namedEntry (some c) with
      | none => simp
      | some entry =>
        simp only [Option.some.injEq, exists_eq_left', forall_eq']
        exact Iff.comm
    · simp only [hshort, false_imp_iff, true_and, Nat.lt_of_not_le hshort, true_imp_iff,
        foundEntry_some]
      rfl

end Kernel

theorem slotFree_sampleKernel : sampleKernel.SlotFree := by
  unfold Kernel.SlotFree
  decide +kernel

theorem named_longName32 :
    sampleKernel.namedEntry (some longName32) = some (sampleImage.dentry 4) := by
  have hfind : ((List.range sampleImage.numDentry.toNat).find? fun i =>
      (sampleImage.dentry i).name = Kernel.commandWord longName32) = some 4 := by
    decide +kernel
  exact congrArg (Option.map sampleImage.dentry) hfind

theorem isExecutable_longName32 : sampleImage.IsExecutable (sampleImage.dentry 4) := by
  have hcontents : sampleImage.contents (sampleImage.dentry 4).numInode =
      elfMagic.chars ++ List.replicate 24 0 := by
    rw [Image.contents_eq]
    decide +kernel
  exact ⟨by decide +kernel, by decide +kernel, hcontents ▸ List.prefix_append ..⟩

/-- Three commands of which the law is wrong: the directory `.`, whose entry has the inode number of
    the shell, and a file that cannot be read, when the buffer happens to hold the magic already,
    start a process; a word of 32 characters that names an executable does not. -/
theorem execute_starts_directory :
    ¬ sampleKernel.ExecuteLaw (some dotName) (fun _ => 0) ⟨0, 0⟩ ∧
      ¬ sampleKernel.ExecuteLaw (some badName) elfMagic.byte ⟨0, 0⟩ ∧
      ¬ sampleKernel.ExecuteLaw (some longName32) (fun _ => 0) ⟨0, 0⟩ := by
  refine ⟨fun h => ?_, fun h => ?_, fun h => ?_⟩
  · have htype : (sampleKernel.namedEntry (some dotName)).map Dentry.filetype =
        some directoryFiletype := by decide +kernel
    have hstarts : (sampleKernel.execute (some dotName) (fun _ => 0) ⟨0, 0⟩).1 = .user := by
      decide +kernel
    have hrefuses := h.refuses fun hboth => by
      obtain ⟨⟨entry, hentry, hexec⟩, -⟩ := hboth
      rw [hentry, Option.map_some, hexec.regular] at htype
      exact absurd (Option.some.inj htype) (by decide)
    rw [hrefuses] at hstarts
    cases hstarts
  · -- the file has ten bytes
    have hshort : (sampleKernel.namedEntry (some badName)).map (fun entry =>
        (sampleKernel.image.inodeLength entry.numInode).toNat) = some 10 := by decide +kernel
    have hstarts : (sampleKernel.execute (some badName) elfMagic.byte ⟨0, 0⟩).1 = .user := by
      decide +kernel
    have hrefuses := h.refuses fun hboth => by
      obtain ⟨⟨entry, hentry, hexec⟩, -⟩ := hboth
      rw [hentry, Option.map_some, Option.some.injEq] at hshort
      exact absurd hexec.length (by omega)
    rw [hrefuses] at hstarts
    cases hstarts
  · obtain ⟨p, -, hfree, hcurr, -⟩ := h.starts
      ⟨_, named_longName32, isExecutable_longName32⟩ slotFree_sampleKernel
    -- the process that was running still runs, and its number is in use
    have hrunning : sampleKernel.processArray
        (sampleKernel.execute (some longName32) (fun _ => 0) ⟨0, 0⟩).2.currPid = 1 := by
      decide +kernel
    rw [hcurr, hfree] at hrunning
    exact absurd hrunning (by decide)

end LinuxLikeOs
