import Mathlib.Algebra.Ring.Nat
import Mathlib.Algebra.Ring.Int.Defs
import LinuxLikeOs.Library.Blocks
import LinuxLikeOs.Terminal

/-!
# File system

The read-only file system of `filesystem.c` over the bytes of its image: the boot block
with its directory entries, the inodes, the data blocks, and the functions that look up an
entry and read a file.

Addresses are relative to `boot_block` and wrap at 2^32, as all arithmetic on `uint32_t`
does.
-/

namespace LinuxLikeOs

open Library

/-! ## Strings -/

/-- A NUL-terminated string. -/
structure CString where
  chars : List UInt8
  noNul : 0 ∉ chars

namespace CString

/-- Byte `i` of the string; the terminator stands behind the characters. -/
def byte (s : CString) (i : Nat) : UInt8 := s.chars.getD i 0

/-- `strlen`. -/
def strlen (s : CString) : Nat := s.chars.length

end CString

/-- Conversion of a byte to the signed `char` that `int8_t` is. -/
def asInt8 (c : UInt8) : Int := if c.toNat < 128 then c.toNat else c.toNat - 256

/-- The loop of `strncmp` from index `i` on, with `n` characters left to compare. -/
def strncmpFrom (s1 s2 : Nat → UInt8) : Nat → Nat → Int
  | 0, _ => 0
  | n + 1, i =>
    if s1 i ≠ s2 i ∨ s1 i = 0 then asInt8 (s1 i) - asInt8 (s2 i)
    else strncmpFrom s1 s2 n (i + 1)

/-- `strncmp`. -/
def strncmp (s1 s2 : Nat → UInt8) (n : Nat) : Int := strncmpFrom s1 s2 n 0

/-- The first loop of `strncpy` stops at the terminator of `src` or at `n`; the second
    fills up with zeros. -/
def strncpy (dest src : Nat → UInt8) (n : Nat) : Nat → UInt8 := fun i =>
  if i < n then if ∀ j ≤ i, src j ≠ 0 then src i else 0 else dest i

/-! ## The image -/

/-- The little-endian word at address `a`. -/
def littleEndian (byte : Nat → UInt8) (a : Nat) : UInt32 :=
  (byte a).toUInt32 ||| (byte (a + 1)).toUInt32 <<< 8 ||| (byte (a + 2)).toUInt32 <<< 16 |||
    (byte (a + 3)).toUInt32 <<< 24

/-- Conversion of a word to `int32_t`. -/
def asInt32 (x : UInt32) : Int := if x.toNat < 2 ^ 31 then x.toNat else x.toNat - 2 ^ 32

/-- `FOUR_KB`, the size of a block. -/
def blockSize : Nat := 4096

/-- `MAXIMUM_FILENAME_LENGTH`. -/
def maximumFilenameLength : Nat := 32

/-- `dentry_t`, by its 64 bytes. -/
structure Dentry where
  bytes : Nat → UInt8

namespace Dentry

def filename (d : Dentry) : Nat → UInt8 := d.bytes
def filetype (d : Dentry) : UInt32 := littleEndian d.bytes 32
def numInode (d : Dentry) : UInt32 := littleEndian d.bytes 36

end Dentry

/-- The bytes of the file system from `boot_block` on. -/
structure Image where
  bytes : Nat → UInt8

namespace Image

/-- The byte at an address of 32 bits. -/
def byte (img : Image) (a : Nat) : UInt8 := img.bytes (a % 2 ^ 32)

def numDentry (img : Image) : UInt32 := littleEndian img.byte 0
def numInode (img : Image) : UInt32 := littleEndian img.byte 4
def numDataBlock (img : Image) : UInt32 := littleEndian img.byte 8

/-- `boot_block->dentries[i]`. -/
def dentry (img : Image) (i : Nat) : Dentry := ⟨fun j => img.byte (64 + 64 * i + j)⟩

/-- `(inode_t*)boot_block + inode + 1`. -/
def inodeAddr (inode : UInt32) : Nat := blockSize * (inode.toNat + 1)

/-- The fields of an inode: its length and its data block numbers. -/
def inodeLength (img : Image) (inode : UInt32) : UInt32 := littleEndian img.byte (inodeAddr inode)
def inodeBlock (img : Image) (inode : UInt32) (i : Nat) : UInt32 :=
  littleEndian img.byte (inodeAddr inode + 4 + 4 * i)

/-- The address of data block `b`. -/
def blockAddr (img : Image) (b : UInt32) : Nat := ((img.numInode + 1 + b) * 4096).toNat

/-! ## Directory -/

/-- `read_dentry_by_name`, with `none` for the return value -1. -/
def readDentryByName (img : Image) (fname : Option CString) : Option Dentry :=
  match fname with
  | none => none
  | some fname =>
    if fname.strlen > maximumFilenameLength then none
    else
      ((List.range img.numDentry.toNat).find? fun i =>
        strncmp fname.byte (img.dentry i).filename maximumFilenameLength = 0).map img.dentry

/-- `read_dentry_by_index`. -/
def readDentryByIndex (img : Image) (index : Nat) : Option Dentry :=
  if index ≥ img.numDentry.toNat then none else some (img.dentry index)

/-- The loop of `read_dentry_by_name` from entry `i` on, with `n` entries left; `dentry` is what
    stands behind the second argument. -/
def readDentryLoop (img : Image) (fname : CString) (dentry : Dentry) : Nat → Nat → Int × Dentry
  | 0, _ => (-1, dentry)
  | n + 1, i =>
    let dentryInfo := img.dentry i
    if strncmp fname.byte dentryInfo.filename maximumFilenameLength = 0 then (0, dentryInfo)
    else img.readDentryLoop fname dentry n (i + 1)

/-- `read_dentry_by_name` with its second argument: the return value, and what stands there
    afterwards. -/
def readDentryByNameInto (img : Image) (fname : Option CString) (dentry : Option Dentry) :
    Int × Option Dentry :=
  match fname, dentry with
  | some fname, some dentry =>
    if fname.strlen > maximumFilenameLength then (-1, some dentry)
    else
      let (result, dentry) := img.readDentryLoop fname dentry img.numDentry.toNat 0
      (result, some dentry)
  | _, dentry => (-1, dentry)

/-- `read_dentry_by_index` with its second argument. -/
def readDentryByIndexInto (img : Image) (index : Nat) (dentry : Option Dentry) :
    Int × Option Dentry :=
  if index ≥ img.numDentry.toNat ∨ dentry.isNone = true then (-1, dentry)
  else (0, some (img.dentry index))

/-! ## `read_data` -/

/-- The number of blocks of a file. -/
def blockNum (length : Nat) : Nat := length / blockSize + if length % blockSize > 0 then 1 else 0

/-- The copy loop of `read_data` from block `i` on, with `fuel` blocks left in the file. -/
def copyLoop (img : Image) (inode : UInt32) (startBlockId startBlockOffset : Nat) :
    Nat → Nat → Nat → Nat → Buffer → Buffer
  | 0, _, _, _, buf => buf
  | fuel + 1, i, remainLength, dest, buf =>
    if remainLength = 0 then buf
    else
      -- only the first block is entered in the middle
      let blockOffset := if i = startBlockId then startBlockOffset else 0
      let n :=
        if remainLength ≥ blockSize ∨
            (remainLength < blockSize ∧ blockOffset + remainLength > blockSize) then
          blockSize - blockOffset
        else remainLength
      let src := img.blockAddr (img.inodeBlock inode i) + blockOffset
      img.copyLoop inode startBlockId startBlockOffset fuel (i + 1) (remainLength - n) (dest + n)
        (copyRange buf dest n fun k => img.byte (src + k))

/-- `read_data`. -/
def readData (img : Image) (inode offset : UInt32) (buf : Option Buffer) (length : UInt32) :
    Int × Option Buffer :=
  match buf with
  | none => (0, none)
  | some buf =>
    if inode ≥ img.numInode then (0, some buf)
    else
      let fileLength := img.inodeLength inode
      if offset > fileLength then (0, some buf)
      else
        -- the sum is one of 32 bits
        let length := if length + offset > fileLength then fileLength - offset else length
        let blocks := blockNum fileLength.toNat
        -- every block number of the file is checked before any byte is copied
        if (List.range blocks).any fun i => img.inodeBlock inode i ≥ img.numDataBlock then
          (-1, some buf)
        else
          let startBlockId := offset.toNat / blockSize
          let startBlockOffset := offset.toNat % blockSize
          (asInt32 length,
            some (img.copyLoop inode startBlockId startBlockOffset (blocks - startBlockId)
              startBlockId length.toNat 0 buf))

end Image

end LinuxLikeOs
