import Mathlib.Tactic.SplitIfs
import LinuxLikeOs.Filesystem

/-!
# File contents

The contents of a file is the concatenation of its data blocks cut to its length.  This
file proves what `read_data` delivers of it.

- `GoodInode`: the inodes that an image may well contain
- `copyLoop_eq`: the loop over the blocks copies a range of the contents
- `readData_law`: `read_data` delivers the requested slice exactly when the end of the
  request, computed with 32 bits, does not wrap
-/

namespace LinuxLikeOs

open Library

namespace Image

/-! ## The contents of a file -/

/-- The bytes of data block `b`. -/
def blockBytes (img : Image) (b : UInt32) : List UInt8 :=
  (List.range blockSize).map fun j => img.byte (img.blockAddr b + j)

/-- The contents of a file: its data blocks one behind the other, cut to its length. -/
def contents (img : Image) (inode : UInt32) : List UInt8 :=
  ((List.range (blockNum (img.inodeLength inode).toNat)).flatMap fun i =>
    img.blockBytes (img.inodeBlock inode i)).take (img.inodeLength inode).toNat

/-- Byte `k` of a file, found through its inode. -/
def fileByte (img : Image) (inode : UInt32) (k : Nat) : UInt8 :=
  img.byte (img.blockAddr (img.inodeBlock inode (k / blockSize)) + k % blockSize)

/-- An inode of the image whose length fits into its block numbers, all of them valid. -/
structure GoodInode (img : Image) (inode : UInt32) : Prop where
  index : inode < img.numInode
  length : (img.inodeLength inode).toNat ≤ 1023 * blockSize
  blocks : ∀ i < blockNum (img.inodeLength inode).toNat,
    img.inodeBlock inode i < img.numDataBlock

/-- An inode that `read_data` reads: it is one of the image, and no block number of its file is
    out of range. -/
def Readable (img : Image) (inode : UInt32) : Prop :=
  inode < img.numInode ∧ ∀ i < blockNum (img.inodeLength inode).toNat,
    img.inodeBlock inode i < img.numDataBlock

instance (img : Image) (inode : UInt32) : Decidable (img.Readable inode) :=
  inferInstanceAs (Decidable (_ ∧ _))

theorem GoodInode.readable {img : Image} {inode : UInt32} (h : img.GoodInode inode) :
    img.Readable inode := ⟨h.index, h.blocks⟩

theorem lt_blockNum {k length : Nat} (h : k < length) : k / blockSize < blockNum length := by
  unfold blockNum blockSize
  split_ifs <;> omega

theorem le_blockNum_mul (length : Nat) : length ≤ blockNum length * blockSize := by
  unfold blockNum blockSize
  split_ifs <;> omega

theorem contents_getElem? (img : Image) (inode : UInt32) {k : Nat}
    (h : k < (img.inodeLength inode).toNat) :
    (img.contents inode)[k]? = some (img.fileByte inode k) := by
  have hsize : 0 < blockSize := by decide
  rw [contents, List.getElem?_take_of_lt h,
    getElem?_flatMap_blocks hsize _ (fun i _ => by simp [blockBytes]),
    List.getElem?_range (lt_blockNum h)]
  simp [blockBytes, fileByte, Nat.mod_lt k hsize]

theorem length_contents (img : Image) (inode : UInt32) :
    (img.contents inode).length = (img.inodeLength inode).toNat := by
  have hblocks : ∀ n, ((List.range n).flatMap fun i =>
      img.blockBytes (img.inodeBlock inode i)).length = n * blockSize := by
    intro n
    induction n with
    | zero => simp
    | succ n ih => simp [List.range_succ, blockBytes, Nat.succ_mul]
  rw [contents, List.length_take, hblocks]
  exact Nat.min_eq_left (le_blockNum_mul _)

/-- The contents are the bytes that the inode leads to. -/
theorem contents_eq (img : Image) (inode : UInt32) :
    img.contents inode = (List.range (img.inodeLength inode).toNat).map (img.fileByte inode) := by
  refine List.ext_getElem? fun k => ?_
  by_cases hk : k < (img.inodeLength inode).toNat
  · rw [contents_getElem? img inode hk]
    simp [hk]
  · rw [List.getElem?_eq_none (by rw [length_contents]; exact Nat.le_of_not_lt hk),
      List.getElem?_eq_none (by simpa using Nat.le_of_not_lt hk)]

/-! ## What `read_data` delivers -/

/-- The choice of `n` in the copy loop is the rest of the block or of the request, whichever
    is shorter. -/
private theorem chunk_eq_min {blockOffset remainLength : Nat} (h : blockOffset < blockSize) :
    (if remainLength ≥ blockSize ∨
        (remainLength < blockSize ∧ blockOffset + remainLength > blockSize) then
      blockSize - blockOffset
    else remainLength) = min remainLength (blockSize - blockOffset) := by
  split_ifs <;> omega

/-- The byte at a position of a block of the file. -/
theorem fileByte_of_block (img : Image) (inode : UInt32) (i : Nat) {pos : Nat}
    (hpos : pos < blockSize) :
    img.fileByte inode (i * blockSize + pos) =
      img.byte (img.blockAddr (img.inodeBlock inode i) + pos) := by
  rw [fileByte, Nat.mul_comm, Nat.mul_add_div (by decide), Nat.mul_add_mod,
    Nat.div_eq_of_lt hpos, Nat.mod_eq_of_lt hpos, Nat.add_zero]

/-- **The copy loop** copies the bytes of the file from the current position on. -/
theorem copyLoop_eq (img : Image) (inode : UInt32) (start offset : Nat)
    (hoffset : offset < blockSize) (fuel i remain dest : Nat) (buf : Buffer) (hi : start ≤ i)
    (hfuel : i * blockSize + (if i = start then offset else 0) + remain ≤
      (i + fuel) * blockSize) :
    img.copyLoop inode start offset fuel i remain dest buf =
      copyRange buf dest remain fun k =>
        img.fileByte inode (i * blockSize + (if i = start then offset else 0) + k) := by
  induction fuel generalizing i remain dest buf with
  | zero =>
    obtain rfl : remain = 0 := by
      rw [Nat.add_zero] at hfuel
      omega
    simp [copyLoop]
  | succ fuel ih =>
    unfold copyLoop
    by_cases hzero : remain = 0
    · simp [hzero]
    rw [if_neg hzero]
    have hboff : (if i = start then offset else 0) < blockSize := by
      split_ifs
      · exact hoffset
      · decide
    -- `n` bytes come from block `i`, the others from the blocks behind it
    generalize (if i = start then offset else 0) = boff at hfuel hboff ⊢
    simp only [chunk_eq_min hboff]
    obtain ⟨n, hn⟩ : ∃ n, n = min remain (blockSize - boff) := ⟨_, rfl⟩
    have hchunk : n ≤ remain ∧ n ≤ blockSize - boff ∧ (n = remain ∨ n = blockSize - boff) := by
      rcases Nat.le_total remain (blockSize - boff) with hle | hle
      · rw [hn, Nat.min_eq_left hle]
        exact ⟨Nat.le_refl _, hle, .inl rfl⟩
      · rw [hn, Nat.min_eq_right hle]
        exact ⟨hle, Nat.le_refl _, .inr rfl⟩
    rw [← hn]
    obtain ⟨hle, hblock, hlast⟩ := hchunk
    have hnext : i + 1 ≠ start := by omega
    have hmul : (i + 1) * blockSize = i * blockSize + blockSize := Nat.succ_mul ..
    have hend : (i + 1 + fuel) * blockSize = (i + (fuel + 1)) * blockSize := by
      rw [Nat.add_assoc, Nat.add_comm 1 fuel]
    have hfit : (i + 1) * blockSize ≤ (i + 1 + fuel) * blockSize :=
      Nat.mul_le_mul_right _ (Nat.le_add_right ..)
    rw [ih (i + 1) _ _ _ (by omega) (by rw [if_neg hnext]; omega)]
    simp only [if_neg hnext]
    have hhead : ∀ k < n, img.byte (img.blockAddr (img.inodeBlock inode i) + boff + k) =
        img.fileByte inode (i * blockSize + boff + k) := by
      intro k hk
      rw [Nat.add_assoc, Nat.add_assoc]
      exact (img.fileByte_of_block inode i (by omega)).symm
    -- unless the request is done, the block was copied to its end
    have htail : ∀ k < remain - n, img.fileByte inode ((i + 1) * blockSize + 0 + k) =
        img.fileByte inode (i * blockSize + boff + (n + k)) := by
      intro k hk
      have hpos : (i + 1) * blockSize + 0 + k = i * blockSize + boff + (n + k) := by omega
      rw [hpos]
    rw [copyRange_congr hhead, copyRange_congr htail,
      copyRange_copyRange buf (fun k => img.fileByte inode (i * blockSize + boff + k)),
      Nat.add_sub_cancel' hle]

/-- The number of bytes of a file of length `fileLength` in a request. -/
def readCount (fileLength offset length : Nat) : Nat :=
  if offset ≤ fileLength then min length (fileLength - offset) else 0

/-- `read_data` returns the number of bytes of the file in the request and stores these
    bytes at the start of the buffer and nothing else. -/
def ReadsFile (img : Image) (inode offset : UInt32) (buf : Buffer) (length : UInt32) : Prop :=
  let count := readCount (img.inodeLength inode).toNat offset.toNat length.toNat
  ∃ out, img.readData inode offset (some buf) length = ((count : Int), some out) ∧
    (List.range count).map out = ((img.contents inode).drop offset.toNat).take count ∧
    ∀ j, count ≤ j → out j = buf j

/-- The bytes of a request, as a slice of the contents. -/
theorem slice_eq (img : Image) (inode : UInt32) {offset count : Nat}
    (h : offset + count ≤ (img.inodeLength inode).toNat) :
    ((img.contents inode).drop offset).take count =
      (List.range count).map fun k => img.fileByte inode (offset + k) := by
  refine List.ext_getElem? fun k => ?_
  by_cases hk : k < count
  · rw [List.getElem?_take_of_lt hk, List.getElem?_drop, contents_getElem? img inode (by omega)]
    simp [hk]
  · rw [List.getElem?_eq_none (by simp; omega), List.getElem?_eq_none (by simp; omega)]

/-- The length that `read_data` works with. -/
private def clippedLength (fileLength offset length : UInt32) : UInt32 :=
  if length + offset > fileLength then fileLength - offset else length

/-- Clipping to the file end, when the sum does not wrap. -/
private theorem toNat_clippedLength {fileLength offset length : UInt32}
    (hoffset : offset.toNat ≤ fileLength.toNat)
    (hwrap : offset.toNat + length.toNat < 2 ^ 32) :
    (clippedLength fileLength offset length).toNat =
      readCount fileLength.toNat offset.toNat length.toNat := by
  -- the sum does not wrap, so the test of the code is the test on numbers
  have hsum : (length + offset).toNat = length.toNat + offset.toNat := by
    rw [UInt32.toNat_add]
    omega
  have hsub : (fileLength - offset).toNat = fileLength.toNat - offset.toNat :=
    UInt32.toNat_sub_of_le _ _ (UInt32.le_iff_toNat_le.mpr hoffset)
  unfold clippedLength readCount
  rw [if_pos hoffset]
  -- the request goes past the end of the file, or not
  split_ifs with hclip
  · rw [gt_iff_lt, UInt32.lt_iff_toNat_lt, hsum] at hclip
    rw [hsub]
    exact (Nat.min_eq_right (by omega)).symm
  · rw [gt_iff_lt, UInt32.lt_iff_toNat_lt, hsum] at hclip
    exact (Nat.min_eq_left (by omega)).symm

/-- When the sum wraps it passes the test, so the length stays as it is. -/
private theorem clippedLength_of_wrap {fileLength offset length : UInt32}
    (hoffset : offset.toNat ≤ fileLength.toNat)
    (hwrap : 2 ^ 32 ≤ offset.toNat + length.toNat) :
    clippedLength fileLength offset length = length := by
  have hsum : (length + offset).toNat = length.toNat + offset.toNat - 2 ^ 32 := by
    have := length.toNat_lt
    have := offset.toNat_lt
    rw [UInt32.toNat_add]
    omega
  have hlt := length.toNat_lt
  refine if_neg ?_
  rw [gt_iff_lt, UInt32.lt_iff_toNat_lt, hsum]
  omega

/-- The run on an inode that is read, for an offset inside the file. -/
private theorem readData_inside {img : Image} {inode : UInt32} (h : img.Readable inode)
    {offset : UInt32} (hoffset : offset.toNat ≤ (img.inodeLength inode).toNat) (buf : Buffer)
    (length : UInt32) :
    img.readData inode offset (some buf) length =
      (asInt32 (clippedLength (img.inodeLength inode) offset length),
        some (img.copyLoop inode (offset.toNat / blockSize) (offset.toNat % blockSize)
          (blockNum (img.inodeLength inode).toNat - offset.toNat / blockSize)
          (offset.toNat / blockSize)
          (clippedLength (img.inodeLength inode) offset length).toNat 0 buf)) := by
  -- none of the three refusals is made
  have hindex : ¬ inode ≥ img.numInode := UInt32.not_le.mpr h.1
  have hin : ¬ offset > img.inodeLength inode :=
    UInt32.not_lt.mpr (UInt32.le_iff_toNat_le.mpr hoffset)
  have hvalid : ¬ ((List.range (blockNum (img.inodeLength inode).toNat)).any fun i =>
      decide (img.inodeBlock inode i ≥ img.numDataBlock)) = true := by
    rw [List.any_eq_true]
    rintro ⟨i, hi, hge⟩
    exact UInt32.not_le.mpr (h.2 i (List.mem_range.mp hi)) (of_decide_eq_true hge)
  simp only [readData, if_neg hindex, if_neg hin, if_neg hvalid]
  rfl

/-- The bytes that are stored, for an offset inside the file and a sum that does not wrap. -/
theorem readData_snd {img : Image} {inode : UInt32} (h : img.Readable inode) {offset : UInt32}
    (hoffset : offset.toNat ≤ (img.inodeLength inode).toNat) (buf : Buffer) {length : UInt32}
    (hwrap : offset.toNat + length.toNat < 2 ^ 32) :
    (img.readData inode offset (some buf) length).2 =
      some (copyRange buf 0 (readCount (img.inodeLength inode).toNat offset.toNat length.toNat)
        fun k => img.fileByte inode (offset.toNat + k)) := by
  have hle : readCount (img.inodeLength inode).toNat offset.toNat length.toNat ≤
      (img.inodeLength inode).toNat - offset.toNat := by
    unfold readCount
    rw [if_pos hoffset]
    exact Nat.min_le_right ..
  have hblocks := le_blockNum_mul (img.inodeLength inode).toNat
  have hpos := Nat.div_add_mod offset.toNat blockSize
  have hmod := Nat.mod_lt offset.toNat (show 0 < blockSize by decide)
  have hstart : offset.toNat / blockSize * blockSize + offset.toNat % blockSize =
      offset.toNat := by rw [Nat.mul_comm]; exact hpos
  -- the loop starts in a block of the file, and the blocks from there on hold the request
  have hblock : offset.toNat / blockSize ≤ blockNum (img.inodeLength inode).toNat :=
    Nat.le_trans (Nat.div_le_div_right hoffset) (Nat.le_add_right ..)
  rw [readData_inside h hoffset, toNat_clippedLength hoffset hwrap,
    copyLoop_eq img inode _ _ hmod _ _ _ _ _ (Nat.le_refl _)
      (by rw [if_pos rfl, hstart, Nat.add_sub_cancel' hblock]; omega)]
  simp only [if_pos, hstart]

/-- The number of bytes that are stored, if it is one of 31 bits. -/
theorem readData_fst {img : Image} {inode : UInt32} (h : img.Readable inode) {offset : UInt32}
    (hoffset : offset.toNat ≤ (img.inodeLength inode).toNat) (buf : Buffer) {length : UInt32}
    (hwrap : offset.toNat + length.toNat < 2 ^ 32)
    (hsmall : readCount (img.inodeLength inode).toNat offset.toNat length.toNat < 2 ^ 31) :
    (img.readData inode offset (some buf) length).1 =
      readCount (img.inodeLength inode).toNat offset.toNat length.toNat := by
  have hcount := toNat_clippedLength hoffset hwrap
  rw [readData_inside h hoffset, asInt32, hcount, if_pos hsmall]

/-- The result on a good inode, for an offset inside the file and a sum that does not wrap. -/
theorem readData_eq {img : Image} {inode : UInt32} (h : img.GoodInode inode) {offset : UInt32}
    (hoffset : offset.toNat ≤ (img.inodeLength inode).toNat) (buf : Buffer) {length : UInt32}
    (hwrap : offset.toNat + length.toNat < 2 ^ 32) :
    img.readData inode offset (some buf) length =
      ((readCount (img.inodeLength inode).toNat offset.toNat length.toNat : Int),
        some (copyRange buf 0 (readCount (img.inodeLength inode).toNat offset.toNat length.toNat)
          fun k => img.fileByte inode (offset.toNat + k))) := by
  have hfile := h.length
  have hsmall : readCount (img.inodeLength inode).toNat offset.toNat length.toNat < 2 ^ 31 := by
    simp only [readCount, if_pos hoffset]
    simp only [blockSize] at hfile
    omega
  exact Prod.ext (readData_fst h.readable hoffset buf hwrap hsmall)
    (readData_snd h.readable hoffset buf hwrap)

/-- Behind the end of the file nothing is read. -/
theorem readData_behind {img : Image} {inode offset : UInt32} (h : img.GoodInode inode)
    (hoffset : (img.inodeLength inode).toNat < offset.toNat) (buf : Buffer) (length : UInt32) :
    img.readData inode offset (some buf) length = (0, some buf) := by
  have hindex : ¬ inode ≥ img.numInode := UInt32.not_le.mpr h.index
  have hbehind : offset > img.inodeLength inode := UInt32.lt_iff_toNat_lt.mpr hoffset
  simp only [readData, if_neg hindex, if_pos hbehind]

/-- **`read_data` follows the file law** on a good inode exactly when the offset lies behind
    the file or the end of the request does not wrap. -/
theorem readData_law {img : Image} {inode : UInt32} (h : img.GoodInode inode) (buf : Buffer)
    (offset length : UInt32) :
    img.ReadsFile inode offset buf length ↔
      (img.inodeLength inode).toNat < offset.toNat ∨ offset.toNat + length.toNat < 2 ^ 32 := by
  by_cases hoffset : offset.toNat ≤ (img.inodeLength inode).toNat
  · constructor
    · rintro ⟨out, hread, -⟩
      by_contra hwrap
      -- the length is not clipped, and as an `int32_t` it is negative
      have hsum : 2 ^ 32 ≤ offset.toNat + length.toNat := by omega
      rw [readData_inside h.readable hoffset, clippedLength_of_wrap hoffset hsum] at hread
      have hvalue := congrArg Prod.fst hread
      have hfile := h.length
      have hlarge : ¬ length.toNat < 2 ^ 31 := by
        simp only [blockSize] at hfile
        omega
      have hlt := length.toNat_lt
      simp only [asInt32, if_neg hlarge] at hvalue
      omega
    · intro hcase
      have hwrap : offset.toNat + length.toNat < 2 ^ 32 := by omega
      refine ⟨_, readData_eq h hoffset buf hwrap, ?_, fun j hj => if_neg (by omega)⟩
      rw [map_copyRange, slice_eq]
      simp only [readCount, if_pos hoffset]
      omega
  · -- behind the end the law asks for nothing, and nothing is read
    have hbehind : (img.inodeLength inode).toNat < offset.toNat := Nat.lt_of_not_le hoffset
    have hcount : readCount (img.inodeLength inode).toNat offset.toNat length.toNat = 0 :=
      if_neg hoffset
    refine iff_of_true ⟨buf, ?_, ?_, fun j _ => rfl⟩ (.inl hbehind)
    · rw [hcount]
      exact readData_behind h hbehind buf length
    · rw [hcount]
      rfl

/-- An image with one file of ten bytes. -/
def tenBytes : Image where
  bytes a :=
    if a = 4 ∨ a = 8 then 1
    else if a = 4096 then 10
    else if 8192 ≤ a ∧ a < 8202 then 97
    else 0

theorem goodInode_tenBytes : tenBytes.GoodInode 0 := ⟨by decide, by decide, by decide⟩

/-- Four bytes from offset 8 on are cut to two. -/
theorem readData_law_ten_bytes :
    tenBytes.ReadsFile 0 8 (fun _ => 0) 4 ↔
      (tenBytes.inodeLength 0).toNat < (8 : UInt32).toNat ∨
        (8 : UInt32).toNat + (4 : UInt32).toNat < 2 ^ 32 :=
  readData_law goodInode_tenBytes (fun _ => 0) 8 4

/-- A read of -1 bytes from offset 1 on: the length passes the test, `read_data` returns -1
    and has overwritten cells far behind the nine bytes that are left. -/
theorem readData_minus_one_bytes :
    ¬ tenBytes.ReadsFile 0 1 (fun _ => 1) 0xFFFFFFFF ∧
      (tenBytes.readData 0 1 (some fun _ => 1) 0xFFFFFFFF).1 = -1 ∧
      (tenBytes.readData 0 1 (some fun _ => 1) 0xFFFFFFFF).2.map (· 4000) = some 0 := by
  have hvalue : (tenBytes.readData 0 1 (some fun _ => 1) 0xFFFFFFFF).1 = -1 := by decide +kernel
  refine ⟨?_, hvalue, by decide +kernel⟩
  rintro ⟨out, hread, -⟩
  have hcount := hvalue.symm.trans (congrArg Prod.fst hread)
  exact absurd hcount (by dsimp only; omega)

end Image

end LinuxLikeOs
