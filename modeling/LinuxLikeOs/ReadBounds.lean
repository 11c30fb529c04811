import LinuxLikeOs.FileContents

/-!
# What `read_data` touches

The two loops of `read_data` with a record of the entries of the block table that they look at
and of the bytes that they copy.

- `checkedEntries`, `copies`: the record of each loop, with `copyLoop_eq_foldl` and
  `readData_eq_foldl`: what `read_data` stores is what the recorded copies store
- `readData_congr`: what it does depends on the recorded entries and bytes only
- `copies_in_blocks`: every copy lies in a data block of the image
- `read_data_inside_iff`: when no entry behind the table of the inode is looked at
-/

namespace LinuxLikeOs

open Library

namespace Image

/-! ## The record of the two loops -/

/-- `TOTAL_BLOCK_NUM - 1`, the number of entries in `num_data_block`. -/
def tableSize : Nat := 1023

/-- The entries that the first loop examines, from `i` on with `n` left: it returns at the first
    one that is out of range. -/
def checkedEntries (img : Image) (inode : UInt32) : Nat → Nat → List Nat
  | 0, _ => []
  | n + 1, i =>
    i :: if img.inodeBlock inode i ≥ img.numDataBlock then []
      else img.checkedEntries inode n (i + 1)

/-- A `memcpy` of the second loop: `count` bytes of the block in entry `entry`, from byte `offset`
    of that block on. -/
structure Copy where
  entry : Nat
  offset : Nat
  dest : Nat
  count : Nat

/-- What it does to the buffer. -/
def Copy.run (img : Image) (inode : UInt32) (buf : Buffer) (c : Copy) : Buffer :=
  copyRange buf c.dest c.count fun k =>
    img.byte (img.blockAddr (img.inodeBlock inode c.entry) + c.offset + k)

/-- The copies of the second loop, by the recursion of `copyLoop`. -/
def copies (startBlockId startBlockOffset : Nat) : Nat → Nat → Nat → Nat → List Copy
  | 0, _, _, _ => []
  | fuel + 1, i, remainLength, dest =>
    if remainLength = 0 then []
    else
      let blockOffset := if i = startBlockId then startBlockOffset else 0
      let n :=
        if remainLength ≥ blockSize ∨
            (remainLength < blockSize ∧ blockOffset + remainLength > blockSize) then
          blockSize - blockOffset
        else remainLength
      ⟨i, blockOffset, dest, n⟩ ::
        copies startBlockId startBlockOffset fuel (i + 1) (remainLength - n) (dest + n)

/-- The entries that a call examines and the copies that it makes. -/
structure Access where
  entries : List Nat
  copies : List Copy

/-- What a call of `read_data` touches. -/
def access (img : Image) (inode offset : UInt32) (buf : Option Buffer) (length : UInt32) :
    Access :=
  match buf with
  | none => ⟨[], []⟩
  | some _ =>
    if inode ≥ img.numInode then ⟨[], []⟩
    else
      let fileLength := img.inodeLength inode
      if offset > fileLength then ⟨[], []⟩
      else
        let length := if length + offset > fileLength then fileLength - offset else length
        let blocks := blockNum fileLength.toNat
        let entries := img.checkedEntries inode blocks 0
        if (List.range blocks).any fun i => img.inodeBlock inode i ≥ img.numDataBlock then
          ⟨entries, []⟩
        else
          let startBlockId := offset.toNat / blockSize
          let startBlockOffset := offset.toNat % blockSize
          ⟨entries, copies startBlockId startBlockOffset (blocks - startBlockId) startBlockId
            length.toNat 0⟩

/-- The second loop makes the recorded copies. -/
theorem copyLoop_eq_foldl (img : Image) (inode : UInt32) (start offset fuel i remain dest : Nat)
    (buf : Buffer) :
    img.copyLoop inode start offset fuel i remain dest buf =
      (copies start offset fuel i remain dest).foldl (Copy.run img inode) buf := by
  -- on the fuel, which both loops spend alike
  induction fuel generalizing i remain dest buf with
  | zero => rfl
  | succ fuel ih =>
    unfold copyLoop copies
    by_cases hzero : remain = 0
    · rw [if_pos hzero, if_pos hzero]
      rfl
    · rw [if_neg hzero, if_neg hzero]
      dsimp only
      rw [ih, List.foldl_cons]
      rfl

/-- **The record** is that of `read_data`: the buffer it leaves is the one that the recorded
    copies leave. -/
theorem readData_eq_foldl (img : Image) (inode offset : UInt32) (buf : Option Buffer)
    (length : UInt32) :
    (img.readData inode offset buf length).2 =
      buf.map fun b =>
        (img.access inode offset buf length).copies.foldl (Copy.run img inode) b := by
  cases buf with
  | none => rfl
  | some buf =>
    -- each test of `read_data` ends without a copy, except the last
    by_cases hinode : inode ≥ img.numInode
    · simp only [readData, access, if_pos hinode, Option.map_some, List.foldl_nil]
    by_cases hoffset : offset > img.inodeLength inode
    · simp only [readData, access, if_neg hinode, if_pos hoffset, Option.map_some, List.foldl_nil]
    by_cases hbad : ((List.range (blockNum (img.inodeLength inode).toNat)).any fun i =>
        decide (img.inodeBlock inode i ≥ img.numDataBlock)) = true
    · simp only [readData, access, if_neg hinode, if_neg hoffset, if_pos hbad, Option.map_some,
        List.foldl_nil]
    · simp only [readData, access, if_neg hinode, if_neg hoffset, if_neg hbad, Option.map_some,
        copyLoop_eq_foldl]

/-! ## Bounds -/

/-- An entry is examined if all entries before it are in range. -/
theorem mem_checkedEntries {img : Image} {inode : UInt32} {n i m : Nat} :
    m ∈ img.checkedEntries inode n i ↔
      i ≤ m ∧ m < i + n ∧ ∀ j, i ≤ j → j < m → img.inodeBlock inode j < img.numDataBlock := by
  induction n generalizing i with
  | zero =>
    -- no entry is left
    refine iff_of_false List.not_mem_nil ?_
    omega
  | succ n ih =>
    rw [checkedEntries, List.mem_cons]
    by_cases hbad : img.inodeBlock inode i ≥ img.numDataBlock
    · -- the loop ends at entry `i`
      rw [if_pos hbad]
      constructor
      · rintro (rfl | hnil)
        · exact ⟨Nat.le_refl _, by omega, fun j hj hlt => absurd hlt (Nat.not_lt.mpr hj)⟩
        · cases hnil
      · rintro ⟨hle, -, hgood⟩
        refine .inl (Nat.le_antisymm (Nat.le_of_not_lt fun hlt => ?_) hle)
        exact UInt32.not_le.mpr (hgood i (Nat.le_refl _) hlt) hbad
    · -- entry `i` is in range, so the loop goes on with the next one
      rw [if_neg hbad, ih]
      have hi : img.inodeBlock inode i < img.numDataBlock := UInt32.not_le.mp hbad
      constructor
      · rintro (rfl | ⟨hle, hlt, hgood⟩)
        · exact ⟨Nat.le_refl _, by omega, fun j hj hlt => absurd hlt (Nat.not_lt.mpr hj)⟩
        · refine ⟨by omega, by omega, fun j hj hjm => ?_⟩
          obtain rfl | hnext := Nat.eq_or_lt_of_le hj
          · exact hi
          · exact hgood j hnext hjm
      · rintro ⟨hle, hlt, hgood⟩
        obtain rfl | hnext := Nat.eq_or_lt_of_le hle
        · exact .inl rfl
        · exact .inr ⟨hnext, by omega, fun j hj hjm => hgood j (by omega) hjm⟩

/-! ## Nothing else matters -/

/-- An image with the same numbers in the examined entries is examined in the same way. -/
theorem checkedEntries_congr {img img' : Image} {inode : UInt32}
    (hblocks : img'.numDataBlock = img.numDataBlock) {n i : Nat}
    (h : ∀ m ∈ img.checkedEntries inode n i, img'.inodeBlock inode m = img.inodeBlock inode m) :
    img'.checkedEntries inode n i = img.checkedEntries inode n i := by
  induction n generalizing i with
  | zero => rfl
  | succ n ih =>
    have hi := h i (List.mem_cons_self ..)
    unfold checkedEntries at h ⊢
    rw [hi, hblocks]
    split_ifs at h ⊢
    · rfl
    · rw [ih fun m hm => h m (List.mem_cons_of_mem _ hm)]

/-- The check of the first loop is one of the examined entries. -/
theorem any_bad_iff (img : Image) (inode : UInt32) (n : Nat) :
    ((List.range n).any fun i => decide (img.inodeBlock inode i ≥ img.numDataBlock)) = true ↔
      ∃ i ∈ img.checkedEntries inode n 0, img.inodeBlock inode i ≥ img.numDataBlock := by
  rw [List.any_eq_true]
  constructor
  · rintro ⟨m, hm, hbad⟩
    -- the first bad entry is examined, and there is one up to `m`
    induction m using Nat.strongRecOn with
    | ind m ih =>
      have hlt := List.mem_range.mp hm
      by_cases hfirst : ∀ j < m, img.inodeBlock inode j < img.numDataBlock
      · have hexamined : m ∈ img.checkedEntries inode n 0 :=
          mem_checkedEntries.mpr ⟨Nat.zero_le m, by omega, fun j _ hj => hfirst j hj⟩
        exact ⟨m, hexamined, of_decide_eq_true hbad⟩
      · -- an entry before `m` is out of range already
        simp only [not_forall] at hfirst
        obtain ⟨j, hj, hnot⟩ := hfirst
        exact ih j hj (List.mem_range.mpr (by omega)) (decide_eq_true (UInt32.not_lt.mp hnot))
  · rintro ⟨m, hm, hbad⟩
    obtain ⟨-, hlt, -⟩ := mem_checkedEntries.mp hm
    exact ⟨m, List.mem_range.mpr (by omega), decide_eq_true hbad⟩

/-- **The record is complete**: what `read_data` returns and stores depends, beside the header of
    the image and the length of the file, on the recorded entries and the recorded bytes only. -/
theorem readData_congr {img img' : Image} {inode offset length : UInt32} {buf : Option Buffer}
    (hinodes : img'.numInode = img.numInode) (hblocks : img'.numDataBlock = img.numDataBlock)
    (hlength : img'.inodeLength inode = img.inodeLength inode)
    (hentries : ∀ i ∈ (img.access inode offset buf length).entries,
      img'.inodeBlock inode i = img.inodeBlock inode i)
    (hcopies : ∀ c ∈ (img.access inode offset buf length).copies, ∀ k < c.count,
      img'.byte (img'.blockAddr (img'.inodeBlock inode c.entry) + c.offset + k) =
        img.byte (img.blockAddr (img.inodeBlock inode c.entry) + c.offset + k)) :
    img'.readData inode offset buf length = img.readData inode offset buf length := by
  cases buf with
  | none => rfl
  | some buf =>
    by_cases hinode : inode ≥ img.numInode
    · simp only [readData, hinodes, if_pos hinode]
    by_cases hoffset : offset > img.inodeLength inode
    · simp only [readData, hinodes, hlength, if_neg hinode, if_pos hoffset]
    let blocks := blockNum (img.inodeLength inode).toNat
    have hexamined : ∀ i ∈ img.checkedEntries inode blocks 0,
        img'.inodeBlock inode i = img.inodeBlock inode i := by
      intro i hi
      refine hentries i ?_
      simp only [access, if_neg hinode, if_neg hoffset]
      split_ifs <;> exact hi
    have hbad : ((List.range blocks).any fun i =>
          decide (img'.inodeBlock inode i ≥ img'.numDataBlock)) =
        (List.range blocks).any fun i => decide (img.inodeBlock inode i ≥ img.numDataBlock) := by
      rw [Bool.eq_iff_iff, any_bad_iff, any_bad_iff, checkedEntries_congr hblocks hexamined]
      rw [hblocks]
      refine exists_congr fun i => and_congr_right fun hi => ?_
      rw [hexamined i hi]
    simp only [readData, hinodes, hlength, if_neg hinode, if_neg hoffset]
    rw [hbad]
    by_cases hany : ((List.range blocks).any fun i =>
        decide (img.inodeBlock inode i ≥ img.numDataBlock)) = true
    · rw [if_pos hany, if_pos hany]
    · simp only [access, if_neg hinode, if_neg hoffset] at hcopies
      rw [if_neg hany] at hcopies ⊢
      rw [if_neg hany, copyLoop_eq_foldl, copyLoop_eq_foldl]
      -- each copy moves the same bytes
      rw [List.foldl_ext (Copy.run img' inode) (Copy.run img inode) buf
        fun b c hc => copyRange_congr (hcopies c hc)]

/-- The copies use the entries in their order and stay in their blocks. -/
theorem mem_copies {start offset : Nat} (hoffset : offset < blockSize) {fuel i remain dest : Nat}
    {c : Copy} (hc : c ∈ copies start offset fuel i remain dest) :
    i ≤ c.entry ∧ c.entry < i + fuel ∧ c.offset + c.count ≤ blockSize := by
  induction fuel generalizing i remain dest with
  | zero => cases hc
  | succ fuel ih =>
    unfold copies at hc
    by_cases hzero : remain = 0
    · rw [if_pos hzero] at hc
      cases hc
    · rw [if_neg hzero] at hc
      -- the first block is left at its end, the others are copied from their start
      obtain rfl | hrest := List.mem_cons.mp hc
      · refine ⟨Nat.le_refl _, by dsimp only; omega, ?_⟩
        dsimp only
        split_ifs <;> omega
      · obtain ⟨hle, hlt, hblock⟩ := ih hrest
        exact ⟨by omega, by omega, hblock⟩

/-- The three ways of a call: it returns before the loops, the first loop finds an entry out of
    range, or the second loop runs. -/
theorem access_cases (img : Image) (inode offset : UInt32) (buf : Option Buffer)
    (length : UInt32) :
    img.access inode offset buf length = ⟨[], []⟩ ∨
      (∃ i < blockNum (img.inodeLength inode).toNat, img.inodeBlock inode i ≥ img.numDataBlock) ∧
        img.access inode offset buf length =
          ⟨img.checkedEntries inode (blockNum (img.inodeLength inode).toNat) 0, []⟩ ∨
      (∀ i < blockNum (img.inodeLength inode).toNat, img.inodeBlock inode i < img.numDataBlock) ∧
        ∃ start off n, off < blockSize ∧ img.access inode offset buf length =
          ⟨img.checkedEntries inode (blockNum (img.inodeLength inode).toNat) 0,
            copies start off (blockNum (img.inodeLength inode).toNat - start) start n 0⟩ := by
  cases buf with
  | none => exact .inl rfl
  | some buf =>
    -- nothing is looked at, the check fails, or the copy runs
    by_cases hinode : inode ≥ img.numInode
    · exact .inl (by simp only [access, if_pos hinode])
    by_cases hoffset : offset > img.inodeLength inode
    · exact .inl (by simp only [access, if_neg hinode, if_pos hoffset])
    by_cases hbad : ((List.range (blockNum (img.inodeLength inode).toNat)).any fun i =>
        decide (img.inodeBlock inode i ≥ img.numDataBlock)) = true
    · -- some entry is bad, and the check stops at the first one
      refine .inr (.inl ⟨?_, by
        simp only [access, if_neg hinode, if_neg hoffset, if_pos hbad]⟩)
      obtain ⟨i, hi, hge⟩ := List.any_eq_true.mp hbad
      exact ⟨i, List.mem_range.mp hi, of_decide_eq_true hge⟩
    · refine .inr (.inr ⟨fun i hi => UInt32.not_le.mp fun hge => hbad ?_, ?_⟩)
      · exact List.any_eq_true.mpr ⟨i, List.mem_range.mpr hi, decide_eq_true hge⟩
      · have hoff : offset.toNat % blockSize < blockSize := Nat.mod_lt _ (by decide)
        simp only [access, if_neg hinode, if_neg hoffset, if_neg hbad]
        exact ⟨_, _, _, hoff, rfl⟩

/-- A call examines the entries of the file, if any. -/
theorem mem_entries_access {img : Image} {inode offset length : UInt32} {buf : Option Buffer}
    {m : Nat} (hm : m ∈ (img.access inode offset buf length).entries) :
    m ∈ img.checkedEntries inode (blockNum (img.inodeLength inode).toNat) 0 := by
  rcases img.access_cases inode offset buf length with heq | ⟨-, heq⟩ | ⟨-, _, _, _, -, heq⟩
  · rw [heq] at hm
    cases hm
  · rwa [heq] at hm
  · rwa [heq] at hm

/-- The copies of a call lie in blocks of the image, and no entry of the file is out of range. -/
theorem copies_in_blocks {img : Image} {inode offset length : UInt32} {buf : Option Buffer}
    {c : Copy} (hc : c ∈ (img.access inode offset buf length).copies) :
    c.entry < blockNum (img.inodeLength inode).toNat ∧ c.offset + c.count ≤ blockSize ∧
      ∀ i < blockNum (img.inodeLength inode).toNat, img.inodeBlock inode i < img.numDataBlock := by
  rcases img.access_cases inode offset buf length with
    heq | ⟨-, heq⟩ | ⟨hgood, start, off, n, hoff, heq⟩
  · rw [heq] at hc
    cases hc
  · rw [heq] at hc
    cases hc
  · rw [heq] at hc
    obtain ⟨hle, hlt, hblock⟩ := mem_copies hoff hc
    exact ⟨by omega, hblock, hgood⟩

/-- What a call examines are entries of the inode's own table, and what it copies lies in data
    blocks of the image that these entries name. -/
structure StaysInside (img : Image) (inode : UInt32) (a : Access) : Prop where
  entries : ∀ i ∈ a.entries, i < tableSize
  copies : ∀ c ∈ a.copies, c.entry < tableSize ∧
    img.inodeBlock inode c.entry < img.numDataBlock ∧ c.offset + c.count ≤ blockSize

theorem blockNum_le {length n : Nat} (h : length ≤ n * blockSize) : blockNum length ≤ n := by
  unfold blockNum blockSize at *
  split_ifs <;> omega

/-- With a file of at most 1023 blocks, a call stays inside. -/
theorem staysInside_of_blockNum_le {img : Image} {inode : UInt32}
    (h : blockNum (img.inodeLength inode).toNat ≤ tableSize) (offset : UInt32)
    (buf : Option Buffer) (length : UInt32) :
    img.StaysInside inode (img.access inode offset buf length) := by
  constructor
  case entries =>
    intro i hi
    have hlt := (mem_checkedEntries.mp (mem_entries_access hi)).2.1
    omega
  case copies =>
    intro c hc
    obtain ⟨hentry, hfits, hgood⟩ := copies_in_blocks hc
    exact ⟨Nat.lt_of_lt_of_le hentry h, hgood _ hentry, hfits⟩

/-- A call that finds an entry of the table out of range stays inside, too. -/
theorem staysInside_of_bad {img : Image} {inode : UInt32} {i : Nat} (hi : i < tableSize)
    (hbad : img.inodeBlock inode i ≥ img.numDataBlock) (offset : UInt32) (buf : Option Buffer)
    (length : UInt32) : img.StaysInside inode (img.access inode offset buf length) := by
  by_cases hfile : i < blockNum (img.inodeLength inode).toNat
  · constructor
    case entries =>
      intro m hm
      -- the loop does not get past entry `i`
      have hgood := (mem_checkedEntries.mp (mem_entries_access hm)).2.2 i (Nat.zero_le _)
      refine Nat.lt_of_le_of_lt (Nat.le_of_not_lt fun hlt => ?_) hi
      exact UInt32.not_le.mpr (hgood hlt) hbad
    case copies =>
      intro c hc
      exact absurd hbad (UInt32.not_le.mpr ((copies_in_blocks hc).2.2 i hfile))
  · refine staysInside_of_blockNum_le ?_ offset buf length
    exact Nat.le_trans (Nat.le_of_not_lt hfile) (Nat.le_of_lt hi)

/-- A call that comes to the first loop examines entry `i` if all before it are in range. -/
theorem mem_entries_of_good {img : Image} {inode offset : UInt32} (hinode : inode < img.numInode)
    (hoffset : offset ≤ img.inodeLength inode) (buf : Buffer) (length : UInt32) {i : Nat}
    (hi : i < blockNum (img.inodeLength inode).toNat)
    (hgood : ∀ j < i, img.inodeBlock inode j < img.numDataBlock) :
    i ∈ (img.access inode offset (some buf) length).entries := by
  have hentries : (img.access inode offset (some buf) length).entries =
      img.checkedEntries inode (blockNum (img.inodeLength inode).toNat) 0 := by
    simp only [access, if_neg (UInt32.not_le.mpr hinode), if_neg (UInt32.not_lt.mpr hoffset),
      apply_ite Access.entries, ite_self]
  rw [hentries, mem_checkedEntries]
  exact ⟨Nat.zero_le _, by omega, fun j _ hj => hgood j hj⟩

/-- **`read_data` stays inside** the block table of the inode exactly if it does not come to its
    loops, or the length of the file is one that the table has room for, or one of the 1023
    entries is out of range. -/
theorem read_data_inside_iff (img : Image) {inode : UInt32} (hinode : inode < img.numInode)
    (offset : UInt32) (buf : Option Buffer) (length : UInt32) :
    img.StaysInside inode (img.access inode offset buf length) ↔
      buf.isNone = true ∨ img.inodeLength inode < offset ∨
        (img.inodeLength inode).toNat ≤ tableSize * blockSize ∨
        ∃ i < tableSize, img.inodeBlock inode i ≥ img.numDataBlock := by
  constructor
  · intro h
    by_contra hnot
    obtain ⟨hbuf, hoffset, hlength, hgood⟩ : ¬ buf.isNone = true ∧
        ¬ img.inodeLength inode < offset ∧
        ¬ (img.inodeLength inode).toNat ≤ tableSize * blockSize ∧
        ¬ ∃ i < tableSize, img.inodeBlock inode i ≥ img.numDataBlock := by
      simpa only [not_or] using hnot
    cases buf with
    | none => exact hbuf rfl
    | some buf =>
      -- the first loop comes to entry 1023
      have hblocks : tableSize < blockNum (img.inodeLength inode).toNat := by
        have hlast := lt_blockNum (Nat.lt_of_not_le hlength)
        rwa [Nat.mul_div_cancel _ (by decide)] at hlast
      have hbehind := h.entries tableSize (mem_entries_of_good hinode
        (UInt32.not_lt.mp hoffset) buf length hblocks fun j hj =>
          UInt32.not_le.mp fun hge => hgood ⟨j, hj, hge⟩)
      exact absurd hbehind (Nat.lt_irrefl _)
  · -- in the first two cases the call returns before the loops, in the last two within the table
    rintro (hnone | hbehind | hlength | ⟨i, hi, hbad⟩)
    · obtain rfl := Option.isNone_iff_eq_none.mp hnone
      exact ⟨fun _ h => absurd h List.not_mem_nil, fun _ h => absurd h List.not_mem_nil⟩
    · have hempty : img.access inode offset buf length = ⟨[], []⟩ := by
        cases buf with
        | none => rfl
        | some buf =>
          simp only [access, if_neg (UInt32.not_le.mpr hinode), if_pos (gt_iff_lt.mpr hbehind)]
      rw [hempty]
      exact ⟨fun _ h => absurd h List.not_mem_nil, fun _ h => absurd h List.not_mem_nil⟩
    · exact staysInside_of_blockNum_le (blockNum_le hlength) offset buf length
    · exact staysInside_of_bad hi hbad offset buf length

theorem read_data_inside_iff_ten_bytes :
    tenBytes.StaysInside 0 (tenBytes.access 0 8 (some fun _ => 0) 4) ↔
      (some fun _ => 0 : Option Buffer).isNone = true ∨ tenBytes.inodeLength 0 < 8 ∨
        (tenBytes.inodeLength 0).toNat ≤ tableSize * blockSize ∨
        ∃ i < tableSize, tenBytes.inodeBlock 0 i ≥ tenBytes.numDataBlock :=
  read_data_inside_iff tenBytes (by decide) 8 _ 4

/-- An image with one block and a file that claims one byte more than 1023 blocks, all of them
    that block. -/
def oversizedFile : Image where
  bytes a :=
    if a = 4 ∨ a = 8 ∨ a = 4096 then 1
    else if a = 4097 then 0xF0
    else if a = 4098 then 0x3F
    else 0

/-- The first loop looks at entry 1023, the first word of the next block. -/
theorem read_data_behind_table :
    (0 : UInt32) < oversizedFile.numInode ∧
      ¬ oversizedFile.StaysInside 0 (oversizedFile.access 0 0 (some fun _ => 0) 1) := by
  -- the length of inode 0 asks for more entries than its block has
  have hinode : (0 : UInt32) < oversizedFile.numInode := by decide
  have hblocks : tableSize < blockNum (oversizedFile.inodeLength 0).toNat := by decide +kernel
  -- behind the inode's number and length the image is zero
  have hzero : ∀ a, 4100 ≤ a → a < 2 ^ 32 → oversizedFile.byte a = 0 := by
    intro a hlow hhigh
    simp only [byte, Nat.mod_eq_of_lt hhigh, oversizedFile]
    rw [if_neg (by omega), if_neg (by omega), if_neg (by omega)]
  -- so the whole table passes the check, and the loop goes on behind it
  have hgood : ∀ j < tableSize, oversizedFile.inodeBlock 0 j < oversizedFile.numDataBlock := by
    intro j hj
    have hentry : oversizedFile.inodeBlock 0 j = 0 := by
      have haddr : inodeAddr 0 = 4096 := rfl
      simp only [tableSize] at hj
      simp only [inodeBlock, littleEndian, haddr]
      rw [hzero _ (by omega) (by omega), hzero _ (by omega) (by omega),
        hzero _ (by omega) (by omega), hzero _ (by omega) (by omega)]
      rfl
    rw [hentry]
    decide
  refine ⟨hinode, fun h => ?_⟩
  have hbehind := h.entries tableSize
    (mem_entries_of_good hinode (by decide) (fun _ => 0) 1 hblocks hgood)
  exact absurd hbehind (Nat.lt_irrefl _)

end Image

end LinuxLikeOs
