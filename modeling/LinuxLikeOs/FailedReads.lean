import LinuxLikeOs.DescriptorCalls

/-!
# Failed reads of a file

`file_read` adds what `read_data` returns to the position of its descriptor, also when that is
the error code -1.

- `Image.ReadFails`: when `read_data` returns -1
- `readIntact_iff`: one read leaves the descriptor intact exactly when it does not fail so
- `failed_reads_iff`: all reads of a sequence do
-/

namespace LinuxLikeOs

open Library

/-! ## When `read_data` fails -/

namespace Image

/-- A block number of the file that the image does not have. -/
def NamesBadBlock (img : Image) (inode : UInt32) : Prop :=
  ∃ i < blockNum (img.inodeLength inode).toNat, img.inodeBlock inode i ≥ img.numDataBlock

/-- `read_data` gets as far as the block numbers, and one of them is out of range; or they are
    fine, and a length of -1 passes the comparison with the file length. -/
def ReadFails (img : Image) (inode offset length : UInt32) : Prop :=
  inode < img.numInode ∧ offset ≤ img.inodeLength inode ∧
    (img.NamesBadBlock inode ∨
      length = 0xFFFFFFFF ∧ (offset ≠ 0 ∨ img.inodeLength inode = 0xFFFFFFFF))

end Image

/-- The word that stands for -1. -/
theorem asInt32_eq_neg_one_iff (x : UInt32) : asInt32 x = -1 ↔ x = 0xFFFFFFFF := by
  have hlt := x.toNat_lt
  rw [← UInt32.toNat_inj, asInt32]
  have htop : (0xFFFFFFFF : UInt32).toNat = 4294967295 := rfl
  rw [htop]
  by_cases hsmall : x.toNat < 2 ^ 31
  · rw [if_pos hsmall]
    constructor <;> intro h <;> omega
  · rw [if_neg hsmall]
    omega

/-- The length that is left behind the comparison with the file length is -1 only if it was -1
    and the sum wraps, or the file is as long as that. -/
private theorem clipped_eq_top_iff {fileLength offset length : UInt32}
    (hoffset : offset ≤ fileLength) :
    (if length + offset > fileLength then fileLength - offset else length) = 0xFFFFFFFF ↔
      length = 0xFFFFFFFF ∧ (offset ≠ 0 ∨ fileLength = 0xFFFFFFFF) := by
  -- differences and sums in 32 bits as numbers
  have hsub : (fileLength - offset).toNat = fileLength.toNat - offset.toNat :=
    UInt32.toNat_sub_of_le _ _ hoffset
  have hsum := UInt32.toNat_add length offset
  have htop : (0xFFFFFFFF : UInt32).toNat = 4294967295 := rfl
  have hzero : (0 : UInt32).toNat = 0 := rfl
  have hlength := length.toNat_lt
  have hfile := fileLength.toNat_lt
  rw [UInt32.le_iff_toNat_le] at hoffset
  simp only [gt_iff_lt, UInt32.lt_iff_toNat_lt, ne_eq, ← UInt32.toNat_inj, hsum, htop, hzero]
  -- past the end the whole rest is read, else what was asked for
  split_ifs with hclip
  · rw [hsub]
    omega
  · omega

namespace Image

/-- **`read_data` returns -1** exactly then. -/
theorem readData_eq_neg_one_iff (img : Image) (inode offset : UInt32) (buf : Buffer)
    (length : UInt32) :
    (img.readData inode offset (some buf) length).1 = -1 ↔ img.ReadFails inode offset length := by
  unfold ReadFails
  -- the two early returns of `read_data` give 0
  by_cases hinode : inode ≥ img.numInode
  · have hout : ¬ inode < img.numInode := UInt32.not_lt.mpr hinode
    simp only [readData, if_pos hinode]
    exact iff_of_false (by decide) fun h => hout h.1
  by_cases hoffset : offset > img.inodeLength inode
  · have hbehind : ¬ offset ≤ img.inodeLength inode := UInt32.not_le.mpr hoffset
    simp only [readData, if_neg hinode, if_pos hoffset]
    exact iff_of_false (by decide) fun h => hbehind h.2.1
  have hin : inode < img.numInode := UInt32.not_le.mp hinode
  have hle : offset ≤ img.inodeLength inode := UInt32.not_lt.mp hoffset
  have hblocks : ((List.range (blockNum (img.inodeLength inode).toNat)).any fun i =>
      decide (img.inodeBlock inode i ≥ img.numDataBlock)) = true ↔ img.NamesBadBlock inode := by
    simp [NamesBadBlock]
  -- then -1 is the return of the first loop, or the length that the last line returns
  by_cases hbad : img.NamesBadBlock inode
  · simp only [readData, if_neg hinode, if_neg hoffset, if_pos (hblocks.mpr hbad)]
    exact iff_of_true trivial ⟨hin, hle, .inl hbad⟩
  · simp only [readData, if_neg hinode, if_neg hoffset, if_neg fun h => hbad (hblocks.mp h)]
    rw [asInt32_eq_neg_one_iff, clipped_eq_top_iff hle]
    exact ⟨fun h => ⟨hin, hle, .inr h⟩, fun h => h.2.2.resolve_left hbad⟩

end Image

/-! ## One read -/

namespace Kernel

/-- Descriptor `fd` of the running process is open on a regular file. -/
structure OpenFile (k : Kernel) (fd : Nat) : Prop where
  index : fd < maximumOpenFiles
  flags : (k.files.table fd).flags = inUse
  operations : (k.files.table fd).funcPointer = .table .file

/-- A read that returns -1 leaves the position where it is, so the same read returns -1 again. -/
def ReadIntact (k : Kernel) : KernelEvent → Prop
  | .read fd buf nbytes => ∀ out k', k.read fd buf nbytes = .ret (-1) out k' →
    (k'.files.table fd.toNat).filePosition = (k.files.table fd.toNat).filePosition ∧
      ∃ out' k'', k'.read fd buf nbytes = .ret (-1) out' k''
  | _ => True

/-- A read with a buffer does not make `read_data` fail. -/
def ReadDataSucceeds (k : Kernel) : KernelEvent → Prop
  | .read fd (some _) nbytes =>
    ¬ k.image.ReadFails (k.files.table fd.toNat).inodeNum (k.files.table fd.toNat).filePosition
      (ofInt32 nbytes)
  | _ => True

variable {k : Kernel} {fd : Nat}

/-- A read with a buffer from an open file is `file_read`. -/
theorem OpenFile.read_eq (h : k.OpenFile fd) (buf : Buffer) (nbytes : Int) :
    k.read fd (some buf) nbytes = k.fileRead fd (some buf) nbytes :=
  Kernel.read_of_table h.index h.flags h.operations buf nbytes

/-- Without a buffer the guard refuses. -/
theorem read_none (k : Kernel) (fd nbytes : Int) : k.read fd none nbytes = .ret (-1) none k :=
  if_pos (.inr (.inl rfl))

/-- A read keeps the descriptor open. -/
theorem OpenFile.read (h : k.OpenFile fd) {buf : Option Buffer} {nbytes : Int} {k' : Kernel}
    (hstep : kernelStep k (.read fd buf nbytes) = some k') : k'.OpenFile fd := by
  rcases k.files_read fd buf nbytes k' hstep with hfiles | ⟨-, -, pos, hfiles⟩
  · exact ⟨h.index, hfiles ▸ h.flags, hfiles ▸ h.operations⟩
  · have htable : k'.files.table fd = { k.files.table fd with filePosition := pos } := by
      rw [hfiles, Int.toNat_natCast, FileState.table_setFd, Function.update_self]
    exact ⟨h.index, by rw [htable]; exact h.flags, by rw [htable]; exact h.operations⟩

/-- **One read** leaves the descriptor intact exactly if `read_data` does not fail: otherwise the
    position goes back by one, from 0 to the largest word. -/
theorem OpenFile.readIntact_iff (h : k.OpenFile fd) (buf : Option Buffer) (nbytes : Int) :
    k.ReadIntact (.read fd buf nbytes) ↔ k.ReadDataSucceeds (.read fd buf nbytes) := by
  cases buf with
  | none =>
    -- without a buffer the call does not get to `read_data`
    refine iff_of_true ?_ trivial
    intro out k' hread
    have hnone := k.read_none fd nbytes
    rw [hnone] at hread
    injection hread with _ _ hk
    subst hk
    exact ⟨rfl, none, k, hnone⟩
  | some buf =>
    have hfails := k.image.readData_eq_neg_one_iff (k.files.table fd).inodeNum
      (k.files.table fd).filePosition buf (ofInt32 nbytes)
    have hread := h.read_eq buf nbytes
    rw [fileRead, slot_eq k h.index] at hread
    simp only [ReadIntact, ReadDataSucceeds, Int.toNat_natCast, hread]
    rw [← hfails]
    constructor
    · intro hintact hvalue
      obtain ⟨hpos, -⟩ := hintact _ _ (by rw [hvalue])
      simp only [files_modifyFd] at hpos
      rw [FileState.table_setFd, Function.update_self] at hpos
      -- adding -1 moves every position
      have hmoved : (k.files.table fd).filePosition + ofInt32 (-1) ≠
          (k.files.table fd).filePosition := by
        have hword : (ofInt32 (-1)).toNat = 4294967295 := by decide
        have hlt := (k.files.table fd).filePosition.toNat_lt
        rw [ne_eq, ← UInt32.toNat_inj, UInt32.toNat_add, hword]
        omega
      exact hmoved hpos
    · intro hvalue out k' hret
      injection hret with hneg
      exact absurd hneg hvalue

end Kernel

/-! ## Sequences of reads -/

/-- **Failed reads**: in a sequence of reads of an open file, every one that returns -1 leaves
    the position where it is, and can be repeated with the same result, exactly if none of them
    makes `read_data` fail. -/
theorem failed_reads_iff {k : Kernel} {fd : Nat} (h : k.OpenFile fd) {es : List KernelEvent}
    (hes : ∀ e ∈ es, ∃ buf nbytes, e = .read fd buf nbytes) :
    EachStep kernelStep Kernel.ReadIntact k es ↔
      EachStep kernelStep Kernel.ReadDataSucceeds k es := by
  refine eachStep_iff_eachStep (E := fun e => ∃ buf nbytes, e = .read fd buf nbytes)
    (J := fun k => k.OpenFile fd) ?_ ?_ h hes
  · rintro s e s' hs ⟨buf, nbytes, rfl⟩ - hstep
    exact hs.read hstep
  · rintro s e s' hs ⟨buf, nbytes, rfl⟩ -
    exact hs.readIntact_iff buf nbytes

/-- The last root shell, after it has opened the file with the bad block number. -/
def openedBad : Kernel := (sampleKernel.open (some badName)).kernel?.getD sampleKernel

theorem openFile_openedBad : openedBad.OpenFile 2 :=
  ⟨by decide, by decide +kernel, by decide +kernel⟩

theorem failed_reads_iff_bad :
    EachStep kernelStep Kernel.ReadIntact openedBad
        [.read (2 : Nat) none 4, .read (2 : Nat) (some fun _ => 0) 4] ↔
      EachStep kernelStep Kernel.ReadDataSucceeds openedBad
        [.read (2 : Nat) none 4, .read (2 : Nat) (some fun _ => 0) 4] :=
  failed_reads_iff openFile_openedBad (by simp)

/-- Two reads of four bytes: the first returns -1 and moves the position, the second reports the
    end of the file. -/
theorem failed_read_moves_position :
    openedBad.OpenFile 2 ∧
      ¬ EachStep kernelStep Kernel.ReadIntact openedBad [.read (2 : Nat) (some fun _ => 0) 4] ∧
      ∃ out k', openedBad.read (2 : Nat) (some fun _ => 0) 4 = .ret (-1) out k' ∧
        (k'.read (2 : Nat) (some fun _ => 0) 4).value? = some 0 := by
  obtain ⟨out, k', hread⟩ := SysResult.eq_ret_of_value?
    (show (openedBad.read (2 : Nat) (some fun _ => 0) 4).value? = some (-1) by decide +kernel)
  -- the failed read has moved the position by -1, so the next one finds the end
  have hmoved : ((openedBad.read (2 : Nat) (some fun _ => 0) 4).kernel?.map fun k =>
      (k.files.table 2).filePosition) = some 0xFFFFFFFF := by decide +kernel
  have hend : ((openedBad.read (2 : Nat) (some fun _ => 0) 4).kernel?.bind fun k =>
      (k.read (2 : Nat) (some fun _ => 0) 4).value?) = some 0 := by decide +kernel
  have hstart : (openedBad.files.table 2).filePosition = 0 := by decide +kernel
  rw [hread] at hmoved hend
  refine ⟨openFile_openedBad, fun hintact => ?_, out, k', hread, hend⟩
  have hstep : kernelStep openedBad (.read (2 : Nat) (some fun _ => 0) 4) = some k' := by
    rw [kernelStep, hread]
    rfl
  have hpos : (k'.files.table 2).filePosition = (openedBad.files.table 2).filePosition :=
    ((hintact k' hstep).1 out k' hread).1
  have hlast : (k'.files.table 2).filePosition = 0xFFFFFFFF := Option.some.inj hmoved
  rw [hlast, hstart] at hpos
  exact absurd hpos (by decide)

end LinuxLikeOs
