import Mathlib.Data.Nat.Bitwise
import Mathlib.Tactic.SplitIfs

/-!
# Address translation with two levels of tables

The paging of a 32-bit x86 processor with large pages: an entry of the page directory maps 4 MB,
as one large page or through a table of 4 KB pages.  An entry is the address of its frame with
attributes in the low bits.

- `translate`: the physical address of an access; `none` for a page fault
- `translate_large`, `translate_small`: entries written as frame and attributes
- `storeByte`, `storeBytes`: stores through the tables, with what they leave alone
-/

namespace LinuxLikeOs.Library

universe u

/-! ## Entries -/

/-- Who makes an access, and whether it is a store. -/
structure Access where
  user : Bool
  store : Bool
  deriving DecidableEq

/-- The attribute bits of an entry admit the access: the page is present, a program needs a user
    page, and stores only to a writable one.  The supervisor may store to any present page. -/
def Admits (entry : Nat) (a : Access) : Prop :=
  entry.testBit 0 = true ∧
    (a.user = true → entry.testBit 2 = true ∧ (a.store = true → entry.testBit 1 = true))

instance (entry : Nat) (a : Access) : Decidable (Admits entry a) :=
  inferInstanceAs (Decidable (_ ∧ _))

/-- The page size bit of a directory entry. -/
def IsLarge (entry : Nat) : Prop := entry.testBit 7 = true

instance (entry : Nat) : Decidable (IsLarge entry) := inferInstanceAs (Decidable (_ = _))

/-- The low bits of an entry are its attributes. -/
theorem testBit_entry {w frame : Nat} (hframe : 2 ^ w ∣ frame) (attrs : Nat) {i : Nat}
    (hi : i < w) : (frame ||| attrs).testBit i = attrs.testBit i := by
  obtain ⟨n, rfl⟩ := hframe
  have hlow : (2 ^ w * n).testBit i = false := by
    rw [Nat.testBit_two_pow_mul, decide_eq_false (Nat.not_le.mpr hi), Bool.false_and]
  rw [Nat.testBit_or, hlow, Bool.false_or]

/-- The high bits of an entry are its frame. -/
theorem frame_entry {w frame attrs : Nat} (hframe : 2 ^ w ∣ frame) (hattrs : attrs < 2 ^ w) :
    (frame ||| attrs) / 2 ^ w * 2 ^ w = frame := by
  obtain ⟨n, rfl⟩ := hframe
  rw [← Nat.two_pow_add_eq_or_of_lt hattrs, Nat.mul_add_div (Nat.two_pow_pos w),
    Nat.div_eq_of_lt hattrs, Nat.add_zero, Nat.mul_comm]

theorem admits_entry {w frame : Nat} (hframe : 2 ^ w ∣ frame) (hw : 2 < w) (attrs : Nat)
    (a : Access) : Admits (frame ||| attrs) a ↔ Admits attrs a := by
  unfold Admits
  rw [testBit_entry hframe attrs (show 0 < w by omega),
    testBit_entry hframe attrs (show 1 < w by omega), testBit_entry hframe attrs hw]

theorem isLarge_entry {w frame : Nat} (hframe : 2 ^ w ∣ frame) (hw : 7 < w) (attrs : Nat) :
    IsLarge (frame ||| attrs) ↔ IsLarge attrs := by
  unfold IsLarge
  rw [testBit_entry hframe attrs hw]

/-! ## Translation -/

/-- What the processor walks: the page directory, and the page tables by their addresses. -/
structure PageTables where
  directory : Nat → Nat
  table : Nat → Nat → Nat

/-- The physical address of a virtual one; `none` when the access faults. -/
def translate (t : PageTables) (a : Access) (addr : Nat) : Option Nat :=
  let entry := t.directory (addr / 2 ^ 22)
  if Admits entry a then
    if IsLarge entry then some (entry / 2 ^ 22 * 2 ^ 22 + addr % 2 ^ 22)
    else
      let page := t.table (entry / 2 ^ 12 * 2 ^ 12) (addr / 2 ^ 12 % 2 ^ 10)
      -- both levels have to admit the access
      if Admits page a then some (page / 2 ^ 12 * 2 ^ 12 + addr % 2 ^ 12) else none
  else none

section Pages

variable {t : PageTables} {addr frame attrs : Nat}

/-- A directory entry that does not admit the access. -/
theorem translate_refused {a : Access} (h : ¬ Admits (t.directory (addr / 2 ^ 22)) a) :
    translate t a addr = none := if_neg h

/-- A large page. -/
theorem translate_large (hentry : t.directory (addr / 2 ^ 22) = frame ||| attrs)
    (hframe : 2 ^ 22 ∣ frame) (hattrs : attrs < 2 ^ 22) (hlarge : IsLarge attrs) (a : Access) :
    translate t a addr = if Admits attrs a then some (frame + addr % 2 ^ 22) else none := by
  have hsize : IsLarge (frame ||| attrs) := (isLarge_entry hframe (by decide) attrs).mpr hlarge
  unfold translate
  simp only [hentry, admits_entry hframe (by decide : 2 < 22), if_pos hsize,
    frame_entry hframe hattrs]

/-- A small page, found through the table at `frame`. -/
theorem translate_small (hentry : t.directory (addr / 2 ^ 22) = frame ||| attrs)
    (hframe : 2 ^ 12 ∣ frame) (hattrs : attrs < 2 ^ 12) (hlarge : ¬ IsLarge attrs)
    {page pattrs : Nat} (hpage : t.table frame (addr / 2 ^ 12 % 2 ^ 10) = page ||| pattrs)
    (haligned : 2 ^ 12 ∣ page) (hpattrs : pattrs < 2 ^ 12) (a : Access) :
    translate t a addr =
      if Admits attrs a ∧ Admits pattrs a then some (page + addr % 2 ^ 12) else none := by
  have hsize : ¬ IsLarge (frame ||| attrs) :=
    fun h => hlarge ((isLarge_entry hframe (by decide) attrs).mp h)
  unfold translate
  simp only [hentry, admits_entry hframe (by decide : 2 < 12), if_neg hsize,
    frame_entry hframe hattrs, hpage, admits_entry haligned (by decide : 2 < 12),
    frame_entry haligned hpattrs, ite_and]

end Pages

/-! ## Stores -/

variable {α : Type u}

/-- Store a byte at a virtual address; `none` when the store faults. -/
def storeByte (t : PageTables) (user : Bool) (mem : Int → α) (addr : Nat) (b : α) :
    Option (Int → α) :=
  (translate t ⟨user, true⟩ addr).map fun phys : Nat => Function.update mem (phys : Int) b

/-- Store `n` bytes one after the other. -/
def storeBytes (t : PageTables) (user : Bool) (mem : Int → α) (addr : Nat) (bytes : Nat → α)
    (n : Nat) : Option (Int → α) :=
  (List.range n).foldlM (fun mem i => storeByte t user mem (addr + i) (bytes i)) mem

/-- A store leaves the addresses alone that the tables do not map. -/
theorem storeByte_of_unmapped {t : PageTables} {user : Bool} {mem mem' : Int → α} {addr : Nat}
    {b : α} (h : storeByte t user mem addr b = some mem') {x : Int}
    (hx : ∀ phys : Nat, translate t ⟨user, true⟩ addr = some phys → x ≠ phys) : mem' x = mem x := by
  obtain ⟨phys, hphys, rfl⟩ := Option.map_eq_some_iff.mp h
  exact Function.update_of_ne (hx phys hphys) b mem

theorem storeBytes_of_unmapped {t : PageTables} {user : Bool} {mem mem' : Int → α} {addr n : Nat}
    {bytes : Nat → α} (h : storeBytes t user mem addr bytes n = some mem') {x : Int}
    (hx : ∀ v (phys : Nat), translate t ⟨user, true⟩ v = some phys → x ≠ phys) :
    mem' x = mem x := by
  unfold storeBytes at h
  generalize List.range n = is at h
  -- induction on the bytes that are left, from any memory
  induction is generalizing mem with
  | nil =>
    obtain rfl := Option.some.inj h
    rfl
  | cons i is ih =>
    rw [List.foldlM_cons] at h
    obtain ⟨mem₁, hfirst, hrest⟩ := Option.bind_eq_some_iff.mp h
    exact (ih hrest).trans (storeByte_of_unmapped hfirst (hx _))

end LinuxLikeOs.Library
