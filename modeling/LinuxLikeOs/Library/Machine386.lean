import Mathlib.Algebra.Ring.Nat
import Mathlib.Logic.Relation
import Mathlib.Logic.Function.Iterate
import Mathlib.Tactic.SplitIfs

/-!
# A small 386

The instructions of the string functions and of the interrupt gates, on flat memory.

- `Memory32`, `writeBytes`, `storeWord`, `loadWord`: byte-addressed memory and its words
- `Cpu`, `Instr`, `Cpu.exec`: registers, flags, and what an instruction does
- `Reaches`: a program goes from one state to another
- `Reaches.exec`, `Reaches.taken`, `Reaches.notTaken`: what it does first
- `Reaches.countdown`: loops that count down

An address is a number of 32 bits, so that a string may wrap around.  Of the arithmetic flags there
are those that the jumps look at.
-/

namespace LinuxLikeOs.Library

/-! ## Memory -/

/-- Memory by address. -/
abbrev Memory32 := BitVec 32 → UInt8

/-- Write `n` bytes from address `a` on. -/
def writeBytes (mem : Memory32) (a : BitVec 32) (n : Nat) (byte : Nat → UInt8) : Memory32 :=
  fun x => if (x - a).toNat < n then byte (x - a).toNat else mem x

/-- Byte `i` of a word. -/
def wordByte (w : BitVec 32) (i : Nat) : UInt8 := .ofBitVec (w.extractLsb' (8 * i) 8)

def storeWord (mem : Memory32) (a : BitVec 32) (w : BitVec 32) : Memory32 :=
  writeBytes mem a 4 (wordByte w)

def loadWord (mem : Memory32) (a : BitVec 32) : BitVec 32 :=
  (mem (a + 3)).toBitVec ++ (mem (a + 2)).toBitVec ++ (mem (a + 1)).toBitVec ++ (mem a).toBitVec

/-! ## The processor -/

inductive Reg where
  | eax | ebx | ecx | edx | esi | edi | ebp | esp
  deriving DecidableEq

/-- Registers, flags, the segment selectors that are copied, the instruction to do next. -/
structure Cpu where
  reg : Reg → BitVec 32
  eflags : BitVec 32
  ds : BitVec 16
  es : BitVec 16
  pc : Nat
  mem : Memory32

/-- An operand that is read. -/
inductive Operand where
  | reg (r : Reg)
  | imm (v : BitVec 32)

/-- The conditions of the jumps. -/
inductive Cond where
  | always | z | ae | l | g

/-- Instructions, in the order of operands of the AT&T syntax.  A jump names the index of an
    instruction. -/
inductive Instr where
  | mov (src : Operand) (dst : Reg)
  | add (src : Operand) (dst : Reg)
  | sub (src : Operand) (dst : Reg)
  | and (src : Operand) (dst : Reg)
  | shr (n : Nat) (dst : Reg)
  | test (src : Operand) (dst : Reg)
  | cmp (src : Operand) (dst : Reg)
  | lea (disp : BitVec 32) (base index dst : Reg)
  | loadAl (base : Reg)
  | storeAl (base : Reg)
  | dsToDx
  | dxToEs
  | cld
  | std
  | jump (c : Cond) (target : Nat)
  | repStosl
  | repMovsl
  | repMovsb
  | push (r : Reg)
  | pop (r : Reg)
  | pushfl
  | popfl
  | load (disp : BitVec 32) (base dst : Reg)

/-! ## Flags -/

/-- The bits of `eflags`: carry, zero, sign, direction, overflow. -/
def carryFlag : Nat := 0
def zeroFlag : Nat := 6
def signFlag : Nat := 7
def directionFlag : Nat := 10
def overflowFlag : Nat := 11

/-- Set one bit. -/
def setBit (e : BitVec 32) (i : Nat) (b : Bool) : BitVec 32 :=
  (e &&& ~~~(1#32 <<< i)) ||| (if b then 1#32 <<< i else 0)

/-- The flags after an operation with result `r`. -/
def setFlags (e : BitVec 32) (r : BitVec 32) (carry overflow : Bool) : BitVec 32 :=
  setBit (setBit (setBit (setBit e carryFlag carry) zeroFlag (r == 0)) signFlag r.msb)
    overflowFlag overflow

/-- The flags of the comparison of `dst` with `src`. -/
def compareFlags (e : BitVec 32) (src dst : BitVec 32) : BitVec 32 :=
  setFlags e (dst - src) (dst.ult src) (BitVec.ssubOverflow dst src)

namespace Cpu

def flag (c : Cpu) (i : Nat) : Bool := c.eflags.getLsbD i

def read (c : Cpu) : Operand → BitVec 32
  | .reg r => c.reg r
  | .imm v => v

def holds (c : Cpu) : Cond → Bool
  | .always => true
  | .z => c.flag zeroFlag
  | .ae => !c.flag carryFlag
  | .l => c.flag signFlag != c.flag overflowFlag
  | .g => !c.flag zeroFlag && c.flag signFlag == c.flag overflowFlag

/-- Write a register. -/
def set (c : Cpu) (r : Reg) (v : BitVec 32) : Cpu := { c with reg := Function.update c.reg r v }

/-- Go on with the next instruction. -/
def next (c : Cpu) : Cpu := { c with pc := c.pc + 1 }

/-- One round of a string instruction that writes `size` bytes; `edi` and, where the instruction
    reads, `esi` move on. -/
def stringRound (size : Nat) (reads : Bool) (byte : Cpu → Nat → UInt8) (c : Cpu) : Cpu :=
  let move (p : BitVec 32) : BitVec 32 :=
    if c.flag directionFlag then p - BitVec.ofNat 32 size else p + BitVec.ofNat 32 size
  { c with
    mem := writeBytes c.mem (c.reg .edi) size (byte c)
    reg := fun r =>
      match r with
      | .edi => move (c.reg .edi)
      | .esi => if reads then move (c.reg .esi) else c.reg .esi
      | .ecx => c.reg .ecx - 1
      | r => c.reg r }

/-- `rep`: as many rounds as `ecx` says. -/
def rep (round : Cpu → Cpu) (c : Cpu) : Cpu := round^[(c.reg .ecx).toNat] c

/-- The bytes that `movs` writes. -/
def movsByte (c : Cpu) (i : Nat) : UInt8 := c.mem (c.reg .esi + BitVec.ofNat 32 i)

/-- The effect of an instruction that is no jump. -/
def effect (c : Cpu) : Instr → Cpu
  | .mov src dst => c.set dst (c.read src)
  | .add src dst =>
    let r := c.reg dst + c.read src
    { c.set dst r with
      eflags := setFlags c.eflags r (BitVec.uaddOverflow (c.reg dst) (c.read src))
        (BitVec.saddOverflow (c.reg dst) (c.read src)) }
  | .sub src dst =>
    { c.set dst (c.reg dst - c.read src) with
      eflags := compareFlags c.eflags (c.read src) (c.reg dst) }
  | .and src dst =>
    let r := c.reg dst &&& c.read src
    { c.set dst r with eflags := setFlags c.eflags r false false }
  | .shr n dst =>
    let r := c.reg dst >>> n
    { c.set dst r with
      eflags := setFlags c.eflags r ((c.reg dst).getLsbD (n - 1)) (c.reg dst).msb }
  | .test src dst =>
    { c with eflags := setFlags c.eflags (c.reg dst &&& c.read src) false false }
  | .cmp src dst => { c with eflags := compareFlags c.eflags (c.read src) (c.reg dst) }
  | .lea disp base index dst => c.set dst (disp + c.reg base + c.reg index)
  | .loadAl base =>
    c.set .eax (c.reg .eax &&& 0xFFFFFF00 ||| (c.mem (c.reg base)).toBitVec.setWidth 32)
  | .storeAl base =>
    { c with mem := Function.update c.mem (c.reg base) (wordByte (c.reg .eax) 0) }
  | .dsToDx => c.set .edx (c.reg .edx &&& 0xFFFF0000 ||| c.ds.setWidth 32)
  | .dxToEs => { c with es := (c.reg .edx).setWidth 16 }
  | .cld => { c with eflags := setBit c.eflags directionFlag false }
  | .std => { c with eflags := setBit c.eflags directionFlag true }
  | .jump .. => c
  | .repStosl => c.rep (stringRound 4 false fun c => wordByte (c.reg .eax))
  | .repMovsl => c.rep (stringRound 4 true movsByte)
  | .repMovsb => c.rep (stringRound 1 true movsByte)
  | .push r =>
    { c.set .esp (c.reg .esp - 4) with mem := storeWord c.mem (c.reg .esp - 4) (c.reg r) }
  | .pop r => (c.set .esp (c.reg .esp + 4)).set r (loadWord c.mem (c.reg .esp))
  | .pushfl =>
    { c.set .esp (c.reg .esp - 4) with mem := storeWord c.mem (c.reg .esp - 4) c.eflags }
  | .popfl => { c.set .esp (c.reg .esp + 4) with eflags := loadWord c.mem (c.reg .esp) }
  | .load disp base dst => c.set dst (loadWord c.mem (c.reg base + disp))

/-- One instruction. -/
def exec (c : Cpu) : Instr → Cpu
  | .jump cond target => if c.holds cond then { c with pc := target } else c.next
  | i => (c.effect i).next

end Cpu

/-! ## Flags that the jumps read -/

theorem getLsbD_setBit (e : BitVec 32) {i j : Nat} (hj : j < 32) (b : Bool) :
    (setBit e i b).getLsbD j = if j = i then b else e.getLsbD j := by
  -- `1 << i` has bit `i` only
  have hone : (1#32 <<< i).getLsbD j = decide (j = i) := by
    rw [BitVec.getLsbD_shiftLeft, BitVec.getLsbD_one]
    by_cases hij : j = i
    · simp [hij, hij ▸ hj]
    · by_cases hlt : j < i
      · simp [hlt, hij]
      · simp [hlt, hij, Nat.sub_ne_zero_of_lt (Nat.lt_of_le_of_ne (Nat.le_of_not_lt hlt)
          (Ne.symm hij))]
  -- clear the bit, then set it again if `b` says so
  rw [setBit, BitVec.getLsbD_or, BitVec.getLsbD_and, BitVec.getLsbD_not, hone]
  by_cases hij : j = i
  · cases b <;> simp [hij, hij ▸ hj]
  · cases b with
    | false => simp [hij, hj]
    | true => rw [if_pos rfl, hone]; simp [hij, hj]

/-- Arithmetic leaves the direction flag alone. -/
theorem getLsbD_setFlags_direction (e r : BitVec 32) (carry overflow : Bool) :
    (setFlags e r carry overflow).getLsbD directionFlag = e.getLsbD directionFlag := by
  rw [setFlags, getLsbD_setBit _ (by decide), if_neg (by decide), getLsbD_setBit _ (by decide),
    if_neg (by decide), getLsbD_setBit _ (by decide), if_neg (by decide),
    getLsbD_setBit _ (by decide), if_neg (by decide)]

namespace Cpu

variable (reg : Reg → BitVec 32) (e : BitVec 32) (ds es : BitVec 16) (pc : Nat) (mem : Memory32)

/-- `jz` looks at the result. -/
theorem holds_z_setFlags (r : BitVec 32) (carry overflow : Bool) :
    (Cpu.mk reg (setFlags e r carry overflow) ds es pc mem).holds .z = (r == 0) := by
  simp only [holds, flag, setFlags]
  rw [getLsbD_setBit _ (by decide), if_neg (by decide), getLsbD_setBit _ (by decide),
    if_neg (by decide), getLsbD_setBit _ (by decide), if_pos rfl]

/-- `jz` after `test r, r`. -/
theorem holds_z_test (r : Reg) :
    ((Cpu.mk reg e ds es pc mem).exec (.test (.reg r) r)).holds .z = (reg r == 0) := by
  refine (holds_z_setFlags ..).trans ?_
  rw [read, BitVec.and_self]

/-- `jae` after a comparison is unsigned. -/
theorem holds_ae_compareFlags (src dst : BitVec 32) :
    (Cpu.mk reg (compareFlags e src dst) ds es pc mem).holds .ae = !dst.ult src := by
  simp only [holds, flag, compareFlags, setFlags]
  rw [getLsbD_setBit _ (by decide), if_neg (by decide), getLsbD_setBit _ (by decide),
    if_neg (by decide), getLsbD_setBit _ (by decide), if_neg (by decide),
    getLsbD_setBit _ (by decide), if_pos rfl]

theorem flag_sign_compareFlags (src dst : BitVec 32) :
    (Cpu.mk reg (compareFlags e src dst) ds es pc mem).flag signFlag = (dst - src).msb := by
  simp only [flag, compareFlags, setFlags]
  rw [getLsbD_setBit _ (by decide), if_neg (by decide), getLsbD_setBit _ (by decide), if_pos rfl]

theorem flag_overflow_compareFlags (src dst : BitVec 32) :
    (Cpu.mk reg (compareFlags e src dst) ds es pc mem).flag overflowFlag =
      BitVec.ssubOverflow dst src := by
  simp only [flag, compareFlags, setFlags]
  rw [getLsbD_setBit _ (by decide), if_pos rfl]

/-- `jl` after a comparison is signed. -/
theorem holds_l_compareFlags (src dst : BitVec 32) :
    (Cpu.mk reg (compareFlags e src dst) ds es pc mem).holds .l = dst.slt src := by
  have h1 := BitVec.toInt_lt (x := dst)
  have h2 := BitVec.le_toInt (x := dst)
  have h3 := BitVec.toInt_lt (x := src)
  have h4 := BitVec.le_toInt (x := src)
  rw [holds, flag_sign_compareFlags, flag_overflow_compareFlags, BitVec.ssubOverflow,
    BitVec.msb_eq_toInt, BitVec.toInt_sub, BitVec.slt_eq_decide, Int.bmod_def, Bool.eq_iff_iff,
    bne_iff_ne, ne_eq, ← Bool.decide_or, decide_eq_decide, decide_eq_true_iff]
  omega

/-- So is `jg`. -/
theorem holds_g_compareFlags (src dst : BitVec 32) :
    (Cpu.mk reg (compareFlags e src dst) ds es pc mem).holds .g = src.slt dst := by
  have hless := holds_l_compareFlags reg e ds es pc mem src dst
  have hzero := holds_z_setFlags reg e ds es pc mem (dst - src) (dst.ult src)
    (BitVec.ssubOverflow dst src)
  -- the difference is zero exactly at equal values, also when the subtraction overflows
  have hsame : dst - src = 0 ↔ dst.toInt = src.toInt := by
    rw [BitVec.toInt_inj]
    constructor
    · intro h
      bv_omega
    · rintro rfl
      exact BitVec.sub_self _
  -- greater is neither equal nor less
  have hnot : src.slt dst = (!(dst - src == 0) && !dst.slt src) := by
    rw [BitVec.slt_eq_decide, BitVec.slt_eq_decide, Bool.eq_iff_iff, Bool.and_eq_true,
      Bool.not_eq_true', Bool.not_eq_true', beq_eq_false_iff_ne, decide_eq_true_iff,
      decide_eq_false_iff_not, ne_eq, hsame]
    omega
  rw [hnot, ← hless, ← hzero]
  simp only [holds, compareFlags]
  rw [bne, Bool.not_not]

end Cpu

/-! ## Memory that is written -/

theorem writeBytes_zero (mem : Memory32) (a : BitVec 32) (byte : Nat → UInt8) :
    writeBytes mem a 0 byte = mem := by
  funext x
  rw [writeBytes, if_neg (Nat.not_lt_zero _)]

/-- Bytes behind the bytes that are written already. -/
theorem writeBytes_append {mem : Memory32} {a : BitVec 32} {n m : Nat} {byte byte' : Nat → UInt8}
    (hbyte : ∀ j < m, byte' j = byte (n + j)) (hin : n + m ≤ 2 ^ 32) :
    writeBytes (writeBytes mem a n byte) (a + BitVec.ofNat 32 n) m byte' =
      writeBytes mem a (n + m) byte := by
  funext x
  -- distances from `a` wrap at 2 ^ 32, so the second block is reached with a borrow
  have hdist : (x - (a + BitVec.ofNat 32 n)).toNat = ((x - a).toNat + (2 ^ 32 - n)) % 2 ^ 32 := by
    have hlt := (x - a).isLt
    rw [show x - (a + BitVec.ofNat 32 n) = x - a - BitVec.ofNat 32 n by
      rw [BitVec.sub_sub], BitVec.toNat_sub, BitVec.toNat_ofNat]
    omega
  have hlt := (x - a).isLt
  simp only [writeBytes, hdist]
  -- in the first block, in the second one, or after both
  by_cases hbelow : (x - a).toNat < n
  · rw [if_neg (show ¬ _ < m by omega), if_pos hbelow, if_pos (by omega)]
  · have hmod : ((x - a).toNat + (2 ^ 32 - n)) % 2 ^ 32 = (x - a).toNat - n := by omega
    rw [hmod, if_neg hbelow]
    by_cases hwithin : (x - a).toNat < n + m
    · rw [if_pos (by omega), if_pos hwithin, hbyte _ (by omega), Nat.add_sub_cancel' (by omega)]
    · rw [if_neg (by omega), if_neg hwithin]

/-- A byte in front of the bytes that are written already. -/
theorem writeBytes_prepend {mem : Memory32} {a : BitVec 32} {n : Nat} (byte : Nat → UInt8)
    {byte' : Nat → UInt8} (hbyte : byte' 0 = byte 0) (hin : n + 1 ≤ 2 ^ 32) :
    writeBytes (writeBytes mem (a + 1) n fun j => byte (j + 1)) a 1 byte' =
      writeBytes mem a (n + 1) byte := by
  funext x
  have hlt := (x - a).isLt
  -- the blocks lie the other way round: the first byte is stored last
  have hdist : (x - (a + 1)).toNat = ((x - a).toNat + (2 ^ 32 - 1)) % 2 ^ 32 := by
    rw [← BitVec.sub_sub, BitVec.toNat_sub, show (1 : BitVec 32).toNat = 1 by rfl]
    omega
  simp only [writeBytes, hdist]
  by_cases hfirst : (x - a).toNat < 1
  · rw [if_pos hfirst, if_pos (by omega), Nat.lt_one_iff.mp hfirst, hbyte]
  · have hmod : ((x - a).toNat + (2 ^ 32 - 1)) % 2 ^ 32 = (x - a).toNat - 1 := by omega
    rw [if_neg hfirst, hmod]
    by_cases hwithin : (x - a).toNat < n + 1
    · rw [if_pos (by omega), if_pos hwithin, Nat.sub_add_cancel (by omega)]
    · rw [if_neg (by omega), if_neg hwithin]

/-- One byte. -/
theorem update_eq_writeBytes (mem : Memory32) (a : BitVec 32) (b : UInt8) :
    Function.update mem a b = writeBytes mem a 1 fun _ => b := by
  funext x
  rw [writeBytes, Function.update_apply]
  by_cases hx : x = a
  · rw [if_pos hx, if_pos (by rw [hx, BitVec.sub_self]; decide)]
  · have hne : (x - a).toNat ≠ 0 := fun hzero => hx (by bv_omega)
    rw [if_neg hx, if_neg (by omega)]

/-! ## String instructions -/

/-- **`rep`**: what every round keeps, the instruction keeps. -/
theorem Cpu.rep_invariant (f : Cpu → Cpu) {J : Nat → Cpu → Prop} {n : Nat} {c : Cpu}
    (hcount : (c.reg .ecx).toNat = n) (hstart : J 0 c)
    (hround : ∀ k < n, ∀ c, J k c → J (k + 1) (f c)) : J n (c.rep f) := by
  -- by induction on the rounds already made; `n` of them is all that `ecx` asks for
  have hall : ∀ k ≤ n, J k (f^[k] c) := by
    intro k
    induction k with
    | zero => exact fun _ => hstart
    | succ k ih =>
      intro hk
      rw [Function.iterate_succ_apply']
      exact hround k hk _ (ih (Nat.le_of_succ_le hk))
  rw [Cpu.rep, hcount]
  exact hall n (Nat.le_refl n)

/-! ## Programs -/

/-- The instructions `block` stand at index `p`. -/
def Code (prog : List Instr) (p : Nat) (block : List Instr) : Prop :=
  (prog.drop p).take block.length = block

theorem Code.instr {prog block : List Instr} {p : Nat} (h : Code prog p block) (i : Nat) {a : Instr}
    (hi : block[i]? = some a) : prog[p + i]? = some a := by
  have hlt : i < block.length := (List.getElem?_eq_some_iff.mp hi).1
  rw [← hi, ← List.getElem?_drop, ← List.getElem?_take_of_lt hlt, h]

/-- One step of a program; `none` at its end. -/
def step (prog : List Instr) (c : Cpu) : Option Cpu := prog[c.pc]?.map c.exec

/-- The program goes from one state to another. -/
def Reaches (prog : List Instr) : Cpu → Cpu → Prop :=
  Relation.ReflTransGen fun c c' => step prog c = some c'

namespace Reaches

variable {prog : List Instr} {c d : Cpu}

/-- An instruction, and what the program does then. -/
theorem exec {i : Instr} (hi : prog[c.pc]? = some i) (h : Reaches prog (c.exec i) d) :
    Reaches prog c d := by
  refine Relation.ReflTransGen.head ?_ h
  rw [step, hi, Option.map_some]

/-- A jump. -/
theorem taken {cond : Cond} {target : Nat} (hi : prog[c.pc]? = some (.jump cond target))
    (hcond : c.holds cond = true) (h : Reaches prog { c with pc := target } d) :
    Reaches prog c d := by
  refine exec hi ?_
  rwa [Cpu.exec, if_pos hcond]

/-- A jump that is not taken. -/
theorem notTaken {cond : Cond} {target : Nat} (hi : prog[c.pc]? = some (.jump cond target))
    (hcond : c.holds cond = false) (h : Reaches prog c.next d) : Reaches prog c d := by
  refine exec hi ?_
  rwa [Cpu.exec, if_neg (by rw [hcond]; decide)]

/-- A loop that has `n` things to do: a round does one of them, or leaves for code that does all the
    others. -/
theorem countdown {J : Nat → Nat → Cpu → Prop} {Q : Nat → Cpu → Prop}
    (hzero : ∀ i c, J i 0 c → ∃ c', Reaches prog c c' ∧ Q i c')
    (hround : ∀ i n c, J i (n + 1) c →
      (∃ c', Reaches prog c c' ∧ J (i + 1) n c') ∨ ∃ c', Reaches prog c c' ∧ Q (i + (n + 1)) c')
    {i n : Nat} (h : J i n c) : ∃ c', Reaches prog c c' ∧ Q (i + n) c' := by
  -- on the rounds left, with the rounds made going up as they go down
  induction n generalizing i c with
  | zero => exact hzero i c h
  | succ n ih =>
    -- either the round is made and the loop goes on, or it leaves in the middle
    rcases hround i n c h with ⟨c₁, hfirst, h₁⟩ | hleft
    · obtain ⟨c', hrest, hpost⟩ := ih h₁
      rw [Nat.add_right_comm, Nat.add_assoc] at hpost
      exact ⟨c', hfirst.trans hrest, hpost⟩
    · exact hleft

end Reaches

end LinuxLikeOs.Library
