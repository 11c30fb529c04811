import LinuxLikeOs.Console
import LinuxLikeOs.Library.Machine386

/-!
# `memset`, `memcpy` and `memmove`

The assembly of the string functions of `lib.c`, which moves whole words where it can.

- `memset`, `memcpy`, `memmove`: the instructions
- `Storing`: how far the loops of `memset` and `memcpy` have come
- `memset_law`: `memset` sets exactly the bytes that it is told to
- `memcpy_law`: `memcpy` copies, unless the destination begins inside of the source
- `memmove_law`: `memmove` copies in every case, and when it leaves the direction flag set
-/

namespace LinuxLikeOs

open Library Reg Instr

/-! ## The instructions -/

/-- The assembly of `memset`, with the indices of the labels. -/
def memset : List Instr :=
  [ -- .memset_top: 0
    .test (.reg ecx) ecx,
    .jump .z 21,
    .test (.imm 0x3) edi,
    .jump .z 8,
    .storeAl edi,
    .add (.imm 1) edi,
    .sub (.imm 1) ecx,
    .jump .always 0,
    -- .memset_aligned: 8
    .dsToDx,
    .dxToEs,
    .mov (.reg ecx) edx,
    .shr 2 ecx,
    .and (.imm 0x3) edx,
    .cld,
    .repStosl,
    -- .memset_bottom: 15
    .test (.reg edx) edx,
    .jump .z 21,
    .storeAl edi,
    .add (.imm 1) edi,
    .sub (.imm 1) edx,
    .jump .always 15]
    -- .memset_done: 21

/-- The assembly of `memcpy`. -/
def memcpy : List Instr :=
  [ -- .memcpy_top: 0
    .test (.reg ecx) ecx,
    .jump .z 25,
    .test (.imm 0x3) edi,
    .jump .z 10,
    .loadAl esi,
    .storeAl edi,
    .add (.imm 1) edi,
    .add (.imm 1) esi,
    .sub (.imm 1) ecx,
    .jump .always 0,
    -- .memcpy_aligned: 10
    .dsToDx,
    .dxToEs,
    .mov (.reg ecx) edx,
    .shr 2 ecx,
    .and (.imm 0x3) edx,
    .cld,
    .repMovsl,
    -- .memcpy_bottom: 17
    .test (.reg edx) edx,
    .jump .z 25,
    .loadAl esi,
    .storeAl edi,
    .add (.imm 1) edi,
    .add (.imm 1) esi,
    .sub (.imm 1) edx,
    .jump .always 17]
    -- .memcpy_done: 25

/-- The assembly of `memmove`. -/
def memmove : List Instr :=
  [ .dsToDx,
    .dxToEs,
    .cld,
    .cmp (.reg edi) esi,
    .jump .ae 8,
    .lea (-1) esi ecx esi,
    .lea (-1) edi ecx edi,
    .std,
    -- .memmove_go: 8
    .repMovsb]

/-! ## The loops of `memset` and `memcpy` -/

/-- At instruction `p`, `i` of the `N` bytes at `s` are written, and the register `count` counts the
    `n` others.  `source i` is what the registers say about the next byte. -/
structure Storing (mem : Memory32) (s : BitVec 32) (N : Nat) (byte : Nat → UInt8)
    (source : Nat → (Reg → BitVec 32) → Prop) (count : Reg) (p i n : Nat) (c : Cpu) : Prop where
  pc : c.pc = p
  source : source i c.reg
  dest : c.reg edi = s + BitVec.ofNat 32 i
  left : c.reg count = BitVec.ofNat 32 n
  total : i + n = N
  written : c.mem = writeBytes mem s i byte

/-- At the label `done`, all bytes are written. -/
structure Stored (mem : Memory32) (s : BitVec 32) (byte : Nat → UInt8) (done n : Nat)
    (c : Cpu) : Prop where
  pc : c.pc = done
  written : c.mem = writeBytes mem s n byte

/-- Inside of `rep stosl` or `rep movsl`, after `k` rounds; `r` bytes are left for later. -/
structure StoringWords (mem : Memory32) (s : BitVec 32) (byte : Nat → UInt8)
    (source : Nat → (Reg → BitVec 32) → Prop) (p i r k : Nat) (c : Cpu) : Prop where
  forward : c.flag directionFlag = false
  pc : c.pc = p
  source : source (i + 4 * k) c.reg
  dest : c.reg edi = s + BitVec.ofNat 32 (i + 4 * k)
  rest : c.reg edx = BitVec.ofNat 32 r
  written : c.mem = writeBytes mem s (i + 4 * k) byte

theorem ofNat_succ_ne_zero {n : Nat} (h : n + 1 < 2 ^ 32) : BitVec.ofNat 32 (n + 1) ≠ 0 := by
  intro hzero
  have htoNat := congrArg BitVec.toNat hzero
  rw [BitVec.toNat_ofNat, Nat.mod_eq_of_lt h] at htoNat
  exact absurd htoNat (Nat.succ_ne_zero n)

theorem ofNat_succ_sub_one (n : Nat) : BitVec.ofNat 32 (n + 1) - 1 = BitVec.ofNat 32 n := by
  rw [BitVec.ofNat_add]
  exact BitVec.add_sub_cancel ..

theorem add_ofNat_add (p : BitVec 32) (i j : Nat) :
    p + BitVec.ofNat 32 i + BitVec.ofNat 32 j = p + BitVec.ofNat 32 (i + j) := by
  rw [BitVec.ofNat_add, BitVec.add_assoc]

theorem toNat_ofNat_shr {n : Nat} (h : n < 2 ^ 32) : (BitVec.ofNat 32 n >>> 2).toNat = n / 4 := by
  rw [BitVec.toNat_ushiftRight, BitVec.toNat_ofNat, Nat.mod_eq_of_lt h, Nat.shiftRight_eq_div_pow]

theorem ofNat_and_three (n : Nat) : BitVec.ofNat 32 n &&& 3 = BitVec.ofNat 32 (n % 4) := by
  apply BitVec.eq_of_toNat_eq
  rw [BitVec.toNat_and, show (3 : BitVec 32).toNat = 2 ^ 2 - 1 by rfl,
    Nat.and_two_pow_sub_one_eq_mod, BitVec.toNat_ofNat, BitVec.toNat_ofNat]
  omega

section Loops

variable {prog : List Instr} {mem : Memory32} {s : BitVec 32} {N : Nat} {byte : Nat → UInt8}
variable {source : Nat → (Reg → BitVec 32) → Prop} {count : Reg} {p i n : Nat} {c : Cpu}

/-- The byte that is stored next. -/
theorem Storing.store (h : Storing mem s N byte source count p i (n + 1) c) (hN : N < 2 ^ 32) :
    Function.update c.mem (c.reg edi) (byte i) = writeBytes mem s (i + 1) byte := by
  have htotal := h.total
  rw [h.written, h.dest, update_eq_writeBytes, writeBytes_append ?_ (by omega)]
  intro j hj
  rw [Nat.lt_one_iff.mp hj, Nat.add_zero]

/-- `test`, `jz`: nothing is left. -/
theorem Storing.finish {done : Nat} (h : Storing mem s N byte source count p i 0 c)
    (hcode : Code prog p [.test (.reg count) count, .jump .z done]) :
    ∃ c', Reaches prog c c' ∧ Stored mem s byte done i c' := by
  obtain ⟨hpc, -, -, hleft, -, hmem⟩ := h
  obtain ⟨reg, e, ds, es, pc, m⟩ := c
  simp only at hpc hleft hmem
  subst hpc
  refine ⟨_, .exec (hcode.instr 0 rfl) (.taken (hcode.instr 1 rfl) ?_ .refl), rfl, hmem⟩
  refine (Cpu.holds_z_test ..).trans (beq_iff_eq.mpr hleft)

/-- `test`, `jz`: there is a byte left. -/
theorem Storing.more {done : Nat} (h : Storing mem s N byte source count p i (n + 1) c)
    (hN : N < 2 ^ 32) (hcode : Code prog p [.test (.reg count) count, .jump .z done]) :
    ∃ c', Reaches prog c c' ∧ Storing mem s N byte source count (p + 2) i (n + 1) c' := by
  obtain ⟨hpc, hsource, hdest, hleft, htotal, hmem⟩ := h
  obtain ⟨reg, e, ds, es, pc, m⟩ := c
  simp only at hpc hsource hdest hleft hmem
  subst hpc
  refine ⟨_, .exec (hcode.instr 0 rfl) (.notTaken (hcode.instr 1 rfl) ?_ .refl), rfl, hsource,
    hdest, hleft, htotal, hmem⟩
  refine (Cpu.holds_z_test ..).trans (beq_eq_false_iff_ne.mpr ?_)
  rw [hleft]
  exact ofNat_succ_ne_zero (by omega)

/-- `test`, `jz`: the destination is aligned or not. -/
theorem Storing.branch {aligned : Nat} (h : Storing mem s N byte source count p i n c)
    (hcode : Code prog p [.test (.imm 0x3) edi, .jump .z aligned]) :
    (∃ c', Reaches prog c c' ∧ Storing mem s N byte source count aligned i n c') ∨
      ∃ c', Reaches prog c c' ∧ Storing mem s N byte source count (p + 2) i n c' := by
  obtain ⟨hpc, hsource, hdest, hleft, htotal, hmem⟩ := h
  obtain ⟨reg, e, ds, es, pc, m⟩ := c
  simp only at hpc hsource hdest hleft hmem
  subst hpc
  by_cases halign : reg edi &&& 0x3 = 0
  · refine .inl ⟨_, .exec (hcode.instr 0 rfl) (.taken (hcode.instr 1 rfl) ?_ .refl), rfl, hsource,
      hdest, hleft, htotal, hmem⟩
    exact (Cpu.holds_z_setFlags ..).trans (beq_iff_eq.mpr halign)
  · refine .inr ⟨_, .exec (hcode.instr 0 rfl) (.notTaken (hcode.instr 1 rfl) ?_ .refl), rfl,
      hsource, hdest, hleft, htotal, hmem⟩
    exact (Cpu.holds_z_setFlags ..).trans (beq_eq_false_iff_ne.mpr halign)

/-- One round of `rep stosl` or `rep movsl`. -/
theorem StoringWords.round {reads : Bool} {get : Cpu → Nat → UInt8} {r k : Nat}
    (h : StoringWords mem s byte source p i r k c) (hin : i + 4 * (k + 1) ≤ 2 ^ 32)
    (hget : ∀ j < 4, get c j = byte (i + 4 * k + j))
    (hsource : source (i + 4 * (k + 1)) (c.stringRound 4 reads get).reg) :
    StoringWords mem s byte source p i r (k + 1) (c.stringRound 4 reads get) where
  forward := h.forward
  pc := h.pc
  source := hsource
  dest := by
    -- the direction flag is clear, so `edi` moves up by one word
    have hmove : (c.stringRound 4 reads get).reg edi = c.reg edi + BitVec.ofNat 32 4 :=
      if_neg (by rw [h.forward]; decide)
    rw [hmove, h.dest, add_ofNat_add]
    rfl
  rest := h.rest
  written := by
    show writeBytes c.mem (c.reg edi) 4 (get c) = _
    -- the new word follows the words already stored
    rw [h.written, h.dest, writeBytes_append hget (by omega)]
    rfl

/-- The six instructions in front of `rep stosl` and `rep movsl`. -/
def alignedBlock : List Instr :=
  [.dsToDx, .dxToEs, .mov (.reg ecx) edx, .shr 2 ecx, .and (.imm 0x3) edx, .cld]

/-- The words, from the label `aligned` on. -/
theorem Storing.words {reads : Bool} {get : Cpu → Nat → UInt8} (string : Instr)
    (h : Storing mem s N byte source ecx p i n c) (hN : N < 2 ^ 32)
    (hcode : Code prog p (alignedBlock ++ [string]))
    (hstring : ∀ c, Cpu.exec c string = (c.rep (Cpu.stringRound 4 reads get)).next)
    (hkeep : ∀ i reg reg', source i reg → reg' esi = reg esi → reg' eax = reg eax → source i reg')
    (hround : ∀ k c, i + 4 * (k + 1) ≤ N → StoringWords mem s byte source (p + 6) i (n % 4) k c →
      (∀ j < 4, get c j = byte (i + 4 * k + j)) ∧
        source (i + 4 * (k + 1)) (c.stringRound 4 reads get).reg) :
    ∃ c', Reaches prog c c' ∧
      Storing mem s N byte source edx (p + 7) (i + 4 * (n / 4)) (n % 4) c' := by
  obtain ⟨hpc, hsource, hdest, hleft, htotal, hmem⟩ := h
  obtain ⟨reg, e, ds, es, pc, m⟩ := c
  simp only at hpc hsource hdest hleft hmem
  subst hpc
  -- six instructions set up the count of words, the seventh is the repeated one
  refine ⟨_, .exec (hcode.instr 0 rfl) (.exec (hcode.instr 1 rfl) (.exec (hcode.instr 2 rfl)
    (.exec (hcode.instr 3 rfl) (.exec (hcode.instr 4 rfl) (.exec (hcode.instr 5 rfl)
      (.exec (hcode.instr 6 rfl) .refl)))))), ?_⟩
  rw [hstring]
  -- `rep` makes `n / 4` rounds, each of which stores one word
  have hwords := Cpu.rep_invariant (Cpu.stringRound 4 reads get)
    (J := StoringWords mem s byte source (pc + 6) i (n % 4)) (n := n / 4)
    (c := alignedBlock.foldl Cpu.exec (Cpu.mk reg e ds es pc m))
    -- `ecx` is the number of words
    (by
      show (reg ecx >>> 2).toNat = n / 4
      rw [hleft, toNat_ofNat_shr (by omega)])
    (by
      -- before the first round: direction up, the rest of the bytes in `edx`
      constructor
      case forward => exact getLsbD_setBit _ (by decide) false
      case pc => rfl
      case source => exact hkeep i reg _ hsource rfl rfl
      case dest => exact hdest
      case rest =>
        show reg ecx &&& 3 = _
        rw [hleft, ofNat_and_three]
      case written => exact hmem)
    (fun k hk c hc => by
      obtain ⟨hget, hnext⟩ := hround k c (by omega) hc
      exact hc.round (by omega) hget hnext)
  constructor
  case pc => exact congrArg (· + 1) hwords.pc
  case source => exact hwords.source
  case dest => exact hwords.dest
  case left => exact hwords.rest
  case total => omega
  case written => exact hwords.written

/-- Bytes up to an aligned address, words, and the bytes that are left. -/
theorem Storing.run {top done : Nat} (aligned bottom : Nat)
    (h : Storing mem s N byte source ecx top i n c) (hN : N < 2 ^ 32)
    (htop : Code prog top [.test (.reg ecx) ecx, .jump .z done])
    (hbranch : Code prog (top + 2) [.test (.imm 0x3) edi, .jump .z aligned])
    (hbottom : Code prog bottom [.test (.reg edx) edx, .jump .z done])
    (hbyteTop : ∀ i n c, Storing mem s N byte source ecx (top + 4) i (n + 1) c →
      ∃ c', Reaches prog c c' ∧ Storing mem s N byte source ecx top (i + 1) n c')
    (hwords : ∀ i n c, Storing mem s N byte source ecx aligned i n c → ∃ c', Reaches prog c c' ∧
      Storing mem s N byte source edx bottom (i + 4 * (n / 4)) (n % 4) c')
    (hbyteBottom : ∀ i n c, Storing mem s N byte source edx (bottom + 2) i (n + 1) c →
      ∃ c', Reaches prog c c' ∧ Storing mem s N byte source edx bottom (i + 1) n c') :
    ∃ c', Reaches prog c c' ∧ Stored mem s byte done (i + n) c' := by
  -- the bytes behind the last word, one in each round of the second loop
  have hlast : ∀ {i n : Nat} {c : Cpu}, Storing mem s N byte source edx bottom i n c →
      ∃ c', Reaches prog c c' ∧ Stored mem s byte done (i + n) c' := by
    refine Reaches.countdown (fun i c h => h.finish hbottom) fun i n c h => .inl ?_
    obtain ⟨c₁, hfirst, h₁⟩ := h.more hN hbottom
    obtain ⟨c', hrest, h'⟩ := hbyteBottom i n c₁ h₁
    exact ⟨c', hfirst.trans hrest, h'⟩
  -- the first loop goes byte by byte until the address is a multiple of four
  refine Reaches.countdown (J := Storing mem s N byte source ecx top)
    (Q := Stored mem s byte done) (fun i c h => h.finish htop) ?_ h
  intro i n c h
  obtain ⟨c₁, hfirst, h₁⟩ := h.more hN htop
  -- aligned: words, then the rest; not aligned: one byte more
  rcases h₁.branch hbranch with ⟨c₂, hjump, h₂⟩ | ⟨c₂, hon, h₂⟩
  · obtain ⟨c₃, hrep, h₃⟩ := hwords i (n + 1) c₂ h₂
    obtain ⟨c', hrest, h'⟩ := hlast h₃
    rw [Nat.add_assoc, Nat.div_add_mod] at h'
    exact .inr ⟨c', hfirst.trans (hjump.trans (hrep.trans hrest)), h'⟩
  · obtain ⟨c', hbyte, h'⟩ := hbyteTop i n c₂ h₂
    exact .inl ⟨c', hfirst.trans (hon.trans hbyte), h'⟩

end Loops

/-- The registers with which the assembly is entered: `a` in `eax`, `dest` in `edi`, `src` in `esi`
    and `n` in `ecx`. -/
def enterAsm (c : Cpu) (a dest src n : BitVec 32) : Cpu :=
  { c with
    pc := 0
    reg := fun r =>
      match r with
      | .eax => a
      | .edi => dest
      | .esi => src
      | .ecx => n
      | r => c.reg r }

/-- A processor whose memory holds the low byte of every address, with the kernel's selectors. -/
def countingCpu : Cpu where
  reg _ := 0
  eflags := 2
  ds := 0x18
  es := 0x18
  pc := 0
  mem x := .ofBitVec (x.setWidth 8)

theorem storing_start (c : Cpu) (a dest src n : BitVec 32) (byte : Nat → UInt8)
    (source : Nat → (Reg → BitVec 32) → Prop) (h : source 0 (enterAsm c a dest src n).reg) :
    Storing c.mem dest n.toNat byte source ecx 0 0 n.toNat (enterAsm c a dest src n) := by
  constructor
  case pc => rfl
  case source => exact h
  case dest => exact (BitVec.add_zero dest).symm
  case left => exact ((BitVec.ofNat_toNat 32 n).trans (BitVec.setWidth_eq n)).symm
  case total => exact Nat.zero_add _
  case written => exact (writeBytes_zero ..).symm

/-! ## `memset` -/

/-- `c << 24 | c << 16 | c << 8 | c` after `c &= 0xFF`. -/
def fillPattern (c : BitVec 32) : BitVec 32 :=
  let c := c &&& 0xFF
  c <<< 24 ||| c <<< 16 ||| c <<< 8 ||| c

theorem getLsbD_lowByte (c : BitVec 32) (k : Nat) :
    (c &&& 0xFF).getLsbD k = (decide (k < 8) && c.getLsbD k) := by
  have hlow : c &&& 0xFF = (c.setWidth 8).setWidth 32 := by
    apply BitVec.eq_of_toNat_eq
    rw [BitVec.toNat_and, show (0xFF : BitVec 32).toNat = 2 ^ 8 - 1 by rfl,
      Nat.and_two_pow_sub_one_eq_mod, BitVec.toNat_setWidth, BitVec.toNat_setWidth]
    omega
  rw [hlow, BitVec.getLsbD_setWidth, BitVec.getLsbD_setWidth]
  by_cases hk : k < 8
  · rw [decide_eq_true hk, decide_eq_true (show k < 32 by omega), Bool.true_and]
  · rw [decide_eq_false hk, Bool.false_and, Bool.and_false]

/-- Every byte of the pattern is `c`. -/
theorem wordByte_fillPattern (c : BitVec 32) :
    ∀ j < 4, wordByte (fillPattern c) j = .ofBitVec (c.setWidth 8) := by
  intro j hj
  refine congrArg UInt8.ofBitVec (BitVec.eq_of_getLsbD_eq fun k hk => ?_)
  rw [BitVec.getLsbD_extractLsb', BitVec.getLsbD_setWidth]
  simp only [fillPattern, BitVec.getLsbD_or, BitVec.getLsbD_shiftLeft, getLsbD_lowByte]
  rcases (by omega : j = 0 ∨ j = 1 ∨ j = 2 ∨ j = 3) with rfl | rfl | rfl | rfl
  all_goals
    simp (disch := omega) only [decide_eq_true, decide_eq_false, Nat.reduceMul, Nat.zero_add,
      Nat.add_sub_cancel_left, Bool.not_true, Bool.not_false, Bool.true_and, Bool.false_and,
      Bool.and_true, Bool.and_false, Bool.false_or, Bool.or_false]

/-- `memset` reads the byte from `eax`. -/
def Filling (fill : BitVec 32) (_ : Nat) (reg : Reg → BitVec 32) : Prop := reg eax = fill

theorem memset_byte {mem : Memory32} {s fill : BitVec 32} {N p back i n : Nat} {c : Cpu}
    {count : Reg} (hcount : count = ecx ∨ count = edx)
    (h : Storing mem s N (fun _ => wordByte fill 0) (Filling fill) count p i (n + 1) c)
    (hN : N < 2 ^ 32)
    (hcode : Code memset p
      [.storeAl edi, .add (.imm 1) edi, .sub (.imm 1) count, .jump .always back]) :
    ∃ c', Reaches memset c c' ∧
      Storing mem s N (fun _ => wordByte fill 0) (Filling fill) count back (i + 1) n c' := by
  have hstore := h.store hN
  obtain ⟨hpc, hfill, hdest, hleft, htotal, -⟩ := h
  -- the registers as variables, so that the instructions compute on them
  obtain ⟨reg, e, ds, es, pc, m⟩ := c
  simp only [Filling] at hpc hfill hdest hleft hstore
  subst hpc
  -- store, advance, count down and jump back
  refine ⟨_, .exec (hcode.instr 0 rfl) (.exec (hcode.instr 1 rfl) (.exec (hcode.instr 2 rfl)
    (.taken (hcode.instr 3 rfl) rfl .refl))), ?_⟩
  -- the two byte loops differ in the register that counts
  rcases hcount with rfl | rfl
  all_goals
    constructor
    case pc => rfl
    case source => exact hfill
    case dest =>
      show reg edi + 1 = _
      rw [hdest]
      exact add_ofNat_add s i 1
    case left =>
      refine (congrArg (· - 1) hleft).trans ?_
      exact ofNat_succ_sub_one n
    case total => omega
    case written =>
      rw [← hstore, ← hfill]
      rfl

theorem memset_words {mem : Memory32} {s fill : BitVec 32} {N i n : Nat} {c : Cpu}
    (hfill : ∀ j < 4, wordByte fill j = wordByte fill 0) (hN : N < 2 ^ 32)
    (h : Storing mem s N (fun _ => wordByte fill 0) (Filling fill) ecx 8 i n c) :
    ∃ c', Reaches memset c c' ∧
      Storing mem s N (fun _ => wordByte fill 0) (Filling fill) edx 15 (i + 4 * (n / 4)) (n % 4)
        c' := by
  refine h.words .repStosl hN rfl (fun _ => rfl) ?_ ?_
  · intro _ reg reg' hreg _ heax
    exact heax.trans hreg
  · intro k c hk hc
    have heax : c.reg eax = fill := hc.source
    exact ⟨fun j hj => by rw [heax, hfill j hj], heax⟩

/-- **`memset`** comes to its end, and then exactly the `n` bytes from `s` on are `c`, however `s`
    is aligned. -/
theorem memset_law (cpu : Cpu) (s c n : BitVec 32) :
    ∃ cpu', Reaches memset (enterAsm cpu (fillPattern c) s (cpu.reg esi) n) cpu' ∧
      cpu'.pc = memset.length ∧
      ∀ x, cpu'.mem x =
        if (x - s).toNat < n.toNat then .ofBitVec (c.setWidth 8) else cpu.mem x := by
  -- the four bytes of the pattern are the byte to store
  have hbytes := wordByte_fillPattern c
  have hfill : ∀ j < 4, wordByte (fillPattern c) j = wordByte (fillPattern c) 0 :=
    fun j hj => (hbytes j hj).trans (hbytes 0 (by decide)).symm
  have hstart := storing_start cpu (fillPattern c) s (cpu.reg esi) n
    (fun _ => wordByte (fillPattern c) 0) (Filling (fillPattern c)) rfl
  have hn := n.isLt
  have hprog : Code memset 0 [.test (.reg ecx) ecx, .jump .z 21] := rfl
  -- the addresses of the code: words at 8, the second byte loop at 15
  obtain ⟨cpu', hreach, hset⟩ := hstart.run 8 15 hn hprog rfl rfl
    (fun i n c h => memset_byte (.inl rfl) h hn rfl)
    (fun i n c h => memset_words hfill hn h)
    (fun i n c h => memset_byte (.inr rfl) h hn rfl)
  refine ⟨cpu', hreach, hset.pc, fun x => ?_⟩
  rw [hset.written, Nat.zero_add, hbytes 0 (by decide), writeBytes]

/-! ## `memcpy` -/

/-- `memcpy` reads the next byte at `esi`. -/
def Copying (src : BitVec 32) (i : Nat) (reg : Reg → BitVec 32) : Prop :=
  reg esi = src + BitVec.ofNat 32 i

/-- The destination does not begin inside of the source, behind its first byte. -/
def Forward (dest src : BitVec 32) (n : Nat) : Prop := dest = src ∨ n ≤ (dest - src).toNat

instance (dest src : BitVec 32) (n : Nat) : Decidable (Forward dest src n) :=
  inferInstanceAs (Decidable (_ ∨ _))

section Copy

variable {mem : Memory32} {dest src : BitVec 32} {N : Nat}

/-- The bytes of the source, as they were at the beginning. -/
def sourceByte (mem : Memory32) (src : BitVec 32) (i : Nat) : UInt8 := mem (src + BitVec.ofNat 32 i)

/-- What has been written is not what is still to be read. -/
theorem Forward.unread (h : Forward dest src N) (hN : N < 2 ^ 32) {i j : Nat} (hij : i ≤ j)
    (hj : j < N) : writeBytes mem dest i (sourceByte mem src) (src + BitVec.ofNat 32 j) =
      sourceByte mem src j := by
  rw [writeBytes, if_neg, sourceByte]
  -- how far behind `dest` the byte lies, with a borrow
  have hdist : (src + BitVec.ofNat 32 j - dest).toNat =
      (j + (2 ^ 32 - (dest - src).toNat)) % 2 ^ 32 := by
    have hsrc := src.isLt
    have hdest := dest.isLt
    simp only [BitVec.toNat_sub, BitVec.toNat_add, BitVec.toNat_ofNat]
    omega
  have hlt := (dest - src).isLt
  rw [hdist]
  -- at `dest` itself it is not yet overwritten; far enough behind it never is
  rcases h with rfl | hfar
  · rw [BitVec.sub_self]
    simp only [BitVec.toNat_zero]
    omega
  · omega

theorem wordByte_loadAl (w : BitVec 32) (b : UInt8) :
    wordByte (w &&& 0xFFFFFF00 ||| b.toBitVec.setWidth 32) 0 = b := by
  have hmask : ∀ k < 8, (0xFFFFFF00 : BitVec 32).getLsbD k = false := by decide
  refine congrArg UInt8.ofBitVec (BitVec.eq_of_getLsbD_eq fun k hk => ?_)
  rw [BitVec.getLsbD_extractLsb', Nat.mul_zero, Nat.zero_add, BitVec.getLsbD_or, BitVec.getLsbD_and,
    hmask k hk, BitVec.getLsbD_setWidth, Bool.and_false, Bool.false_or, decide_eq_true hk,
    Bool.true_and, decide_eq_true (show k < 32 by omega), Bool.true_and]

theorem memcpy_byte {p back i n : Nat} {c : Cpu} {count : Reg}
    (hcount : count = ecx ∨ count = edx)
    (h : Storing mem dest N (sourceByte mem src) (Copying src) count p i (n + 1) c)
    (hN : N < 2 ^ 32) (hforward : Forward dest src N)
    (hcode : Code memcpy p [.loadAl esi, .storeAl edi, .add (.imm 1) edi, .add (.imm 1) esi,
      .sub (.imm 1) count, .jump .always back]) :
    ∃ c', Reaches memcpy c c' ∧
      Storing mem dest N (sourceByte mem src) (Copying src) count back (i + 1) n c' := by
  have hstore := h.store hN
  obtain ⟨hpc, hesi, hdest, hleft, htotal, hmem⟩ := h
  obtain ⟨reg, e, ds, es, pc, m⟩ := c
  simp only [Copying] at hpc hesi hdest hleft hstore hmem
  subst hpc
  -- the byte read is still the one of the source
  have hread : m (reg esi) = sourceByte mem src i := by
    rw [hmem, hesi]
    exact hforward.unread hN (Nat.le_refl i) (by omega)
  refine ⟨_, .exec (hcode.instr 0 rfl) (.exec (hcode.instr 1 rfl) (.exec (hcode.instr 2 rfl)
    (.exec (hcode.instr 3 rfl) (.exec (hcode.instr 4 rfl) (.taken (hcode.instr 5 rfl) rfl
      .refl))))), ?_⟩
  -- again the two loops differ only in the register that counts
  rcases hcount with rfl | rfl
  all_goals
    constructor
    case pc => rfl
    case source =>
      show reg esi + 1 = _
      rw [hesi]
      exact add_ofNat_add src i 1
    case dest =>
      show reg edi + 1 = _
      rw [hdest]
      exact add_ofNat_add dest i 1
    case left =>
      refine (congrArg (· - 1) hleft).trans ?_
      exact ofNat_succ_sub_one n
    case total => omega
    case written =>
      rw [← hstore, ← hread]
      exact congrArg (Function.update m (reg edi)) (wordByte_loadAl _ _)

theorem memcpy_words {i n : Nat} {c : Cpu} (hN : N < 2 ^ 32) (hforward : Forward dest src N)
    (h : Storing mem dest N (sourceByte mem src) (Copying src) ecx 10 i n c) :
    ∃ c', Reaches memcpy c c' ∧
      Storing mem dest N (sourceByte mem src) (Copying src) edx 17 (i + 4 * (n / 4)) (n % 4)
        c' := by
  refine h.words .repMovsl hN rfl (fun _ => rfl) ?_ ?_
  · -- `esi` is where the source is at
    intro _ reg reg' hreg hesi _
    exact hesi.trans hreg
  · intro k c hk hc
    -- one round reads four bytes the copy has not reached
    have hesi : c.reg esi = src + BitVec.ofNat 32 (i + 4 * k) := hc.source
    constructor
    · intro j hj
      rw [Cpu.movsByte, hesi, add_ofNat_add, hc.written]
      exact hforward.unread hN (by omega) (by omega)
    · have hmove : (c.stringRound 4 true Cpu.movsByte).reg esi = c.reg esi + BitVec.ofNat 32 4 :=
        if_neg (by rw [hc.forward]; decide)
      rw [Copying, hmove, hesi, add_ofNat_add]
      rfl

/-- `memcpy` comes to its end with a copy. -/
theorem memcpy_copies (cpu : Cpu) (dest src n : BitVec 32) (h : Forward dest src n.toNat) :
    ∃ cpu', Reaches memcpy (enterAsm cpu (cpu.reg eax) dest src n) cpu' ∧
      cpu'.pc = memcpy.length ∧
      cpu'.mem = writeBytes cpu.mem dest n.toNat (sourceByte cpu.mem src) := by
  have hstart := storing_start cpu (cpu.reg eax) dest src n (sourceByte cpu.mem src) (Copying src)
    (BitVec.add_zero src).symm
  have hn := n.isLt
  have hprog : Code memcpy 0 [.test (.reg ecx) ecx, .jump .z 25] := rfl
  obtain ⟨cpu', hreach, hset⟩ := hstart.run 10 17 hn hprog rfl rfl
    (fun i n c h' => memcpy_byte (.inl rfl) h' hn h rfl)
    (fun i n c h' => memcpy_words hn h h')
    (fun i n c h' => memcpy_byte (.inr rfl) h' hn h rfl)
  refine ⟨cpu', hreach, hset.pc, ?_⟩
  rw [hset.written, Nat.zero_add]

/-- What a copy leaves at an address. -/
theorem writeBytes_sourceByte (n : Nat) (x : BitVec 32) :
    writeBytes mem dest n (sourceByte mem src) x =
      if (x - dest).toNat < n then mem (src + (x - dest)) else mem x := by
  rw [writeBytes, sourceByte, BitVec.ofNat_toNat, BitVec.setWidth_eq]

end Copy

/-- Physical memory by its addresses, as the processor sees it. -/
def ofMemory (mem : Memory) : Memory32 := fun x => mem x.toNat

/-- The `memcpy` of a text page in `terminal_switch` is `copyPage`. -/
theorem memcpy_copyPage (cpu : Cpu) (mem : Memory) {dest src : Nat} (hmem : cpu.mem = ofMemory mem)
    (hdest : dest + 4096 ≤ 2 ^ 32) (hsrc : src + 4096 ≤ 2 ^ 32)
    (hpages : dest + 4096 ≤ src ∨ src + 4096 ≤ dest) :
    ∃ cpu', Reaches memcpy
        (enterAsm cpu (cpu.reg eax) (BitVec.ofNat 32 dest) (BitVec.ofNat 32 src) 4096) cpu' ∧
      cpu'.pc = memcpy.length ∧ cpu'.mem = ofMemory (copyPage mem dest src) := by
  -- pages that do not overlap may be copied forward
  have hforward :
      Forward (BitVec.ofNat 32 dest) (BitVec.ofNat 32 src) (4096 : BitVec 32).toNat := by
    refine .inr ?_
    rw [BitVec.toNat_sub, BitVec.toNat_ofNat, BitVec.toNat_ofNat,
      show (4096 : BitVec 32).toNat = 4096 by rfl]
    omega
  obtain ⟨cpu', hreach, hpc, hcopied⟩ := memcpy_copies cpu _ _ _ hforward
  refine ⟨cpu', hreach, hpc, ?_⟩
  rw [hcopied, hmem]
  funext x
  have hx := x.isLt
  rw [writeBytes_sourceByte, show (4096 : BitVec 32).toNat = 4096 by rfl]
  -- distances in 32 bits, where the model of a page copy has integers
  have hdist : (x - BitVec.ofNat 32 dest).toNat = (2 ^ 32 - dest + x.toNat) % 2 ^ 32 := by
    rw [BitVec.toNat_sub, BitVec.toNat_ofNat, Nat.mod_eq_of_lt (show dest < 2 ^ 32 by omega)]
  have hpage : fourKB = 4096 := rfl
  show _ = if (dest : Int) ≤ x.toNat ∧ (x.toNat : Int) < dest + fourKB
    then mem (x.toNat - dest + src) else mem x.toNat
  -- inside the page or outside of it
  by_cases hin : (dest : Int) ≤ x.toNat ∧ (x.toNat : Int) < dest + fourKB
  · rw [if_pos (by omega), if_pos hin]
    refine congrArg mem (?_ : ((BitVec.ofNat 32 src + (x - BitVec.ofNat 32 dest)).toNat : Int) = _)
    rw [BitVec.toNat_add, hdist, BitVec.toNat_ofNat]
    omega
  · rw [if_neg (by omega), if_neg hin]
    rfl

/-- **`memcpy`** comes to its end, and then exactly the `n` bytes from `dest` on are the ones that
    were at `src`, however the two are aligned, when the destination does not begin inside of the
    source. -/
theorem memcpy_law (cpu : Cpu) (dest src n : BitVec 32) (h : Forward dest src n.toNat) :
    ∃ cpu', Reaches memcpy (enterAsm cpu (cpu.reg eax) dest src n) cpu' ∧
      cpu'.pc = memcpy.length ∧
      ∀ x, cpu'.mem x =
        if (x - dest).toNat < n.toNat then cpu.mem (src + (x - dest)) else cpu.mem x := by
  obtain ⟨cpu', hreach, hpc, hmem⟩ := memcpy_copies cpu dest src n h
  refine ⟨cpu', hreach, hpc, fun x => ?_⟩
  rw [hmem, writeBytes_sourceByte]

/-- Down by three bytes. -/
theorem memcpy_law_overlapping :
    ∃ cpu', Reaches memcpy (enterAsm countingCpu 0 0x1001 0x1004 0x40) cpu' ∧
      cpu'.pc = memcpy.length ∧
      ∀ x, cpu'.mem x = if (x - 0x1001).toNat < 0x40 then countingCpu.mem (0x1004 + (x - 0x1001))
        else countingCpu.mem x :=
  memcpy_law countingCpu 0x1001 0x1004 0x40 (by decide)

/-! ## `memmove` -/

section Move

variable {mem : Memory32} {dest src : BitVec 32} {n : Nat}

/-- After `k` rounds of `rep movsb`, from the first byte on. -/
structure MovingUp (mem : Memory32) (dest src : BitVec 32) (k : Nat) (c : Cpu) : Prop where
  forward : c.flag directionFlag = false
  pc : c.pc = 8
  destAt : c.reg edi = dest + BitVec.ofNat 32 k
  sourceAt : c.reg esi = src + BitVec.ofNat 32 k
  written : c.mem = writeBytes mem dest k (sourceByte mem src)

/-- After `k` of the `n` rounds of `rep movsb`, from the last byte on. -/
structure MovingDown (mem : Memory32) (dest src : BitVec 32) (n k : Nat) (c : Cpu) : Prop where
  backward : c.flag directionFlag = true
  pc : c.pc = 8
  destAt : c.reg edi = dest + BitVec.ofNat 32 (n - k) - 1
  sourceAt : c.reg esi = src + BitVec.ofNat 32 (n - k) - 1
  written : c.mem = writeBytes mem (dest + BitVec.ofNat 32 (n - k)) k fun j =>
    sourceByte mem src (n - k + j)

theorem MovingUp.round {k : Nat} {c : Cpu} (h : MovingUp mem dest src k c)
    (hforward : Forward dest src n) (hn : n < 2 ^ 32) (hk : k < n) :
    MovingUp mem dest src (k + 1) (c.stringRound 1 true Cpu.movsByte) := by
  -- the direction flag is clear, so both pointers move up by one
  have hmove : ∀ p : BitVec 32, (if c.flag directionFlag then p - BitVec.ofNat 32 1
      else p + BitVec.ofNat 32 1) = p + BitVec.ofNat 32 1 :=
    fun _ => if_neg (by rw [h.forward]; decide)
  constructor
  case forward => exact h.forward
  case pc => exact h.pc
  case destAt =>
    refine (hmove _).trans ?_
    rw [h.destAt, add_ofNat_add]
  case sourceAt =>
    refine (hmove _).trans ?_
    rw [h.sourceAt, add_ofNat_add]
  case written =>
    show writeBytes c.mem (c.reg edi) 1 (Cpu.movsByte c) = _
    rw [h.destAt, h.written, writeBytes_append ?_ (by omega)]
    intro j hj
    rw [Cpu.movsByte, h.sourceAt, h.written, add_ofNat_add]
    exact hforward.unread hn (by omega) (by omega)

/-- Below the bytes that are written, the source is as it was. -/
theorem unread_below {i k : Nat} (hdest : dest.toNat + n ≤ 2 ^ 32) (hlt : src.toNat < dest.toNat)
    (hi : i + k < n) (byte : Nat → UInt8) :
    writeBytes mem (dest + BitVec.ofNat 32 (n - k)) k byte (src + BitVec.ofNat 32 i) =
      sourceByte mem src i := by
  rw [writeBytes, if_neg, sourceByte]
  simp only [BitVec.toNat_sub, BitVec.toNat_add, BitVec.toNat_ofNat]
  omega

theorem MovingDown.round {k : Nat} {c : Cpu} (h : MovingDown mem dest src n k c)
    (hdest : dest.toNat + n ≤ 2 ^ 32) (hlt : src.toNat < dest.toNat) (hn : n < 2 ^ 32)
    (hk : k < n) : MovingDown mem dest src n (k + 1) (c.stringRound 1 true Cpu.movsByte) := by
  have hmove : ∀ p : BitVec 32, (if c.flag directionFlag then p - BitVec.ofNat 32 1
      else p + BitVec.ofNat 32 1) = p - BitVec.ofNat 32 1 :=
    fun _ => if_pos h.backward
  -- going down, the pointers are at the byte before those already copied
  have hprev : ∀ p : BitVec 32,
      p + BitVec.ofNat 32 (n - k) - 1 = p + BitVec.ofNat 32 (n - (k + 1)) := by
    intro p
    rw [show n - k = n - (k + 1) + 1 by omega, BitVec.ofNat_add, ← BitVec.add_assoc]
    exact BitVec.add_sub_cancel ..
  constructor
  case backward => exact h.backward
  case pc => exact h.pc
  case destAt =>
    refine (hmove _).trans ?_
    rw [h.destAt, hprev]
    rfl
  case sourceAt =>
    refine (hmove _).trans ?_
    rw [h.sourceAt, hprev]
    rfl
  case written =>
    have hread : Cpu.movsByte c 0 = sourceByte mem src (n - (k + 1)) := by
      rw [Cpu.movsByte, h.sourceAt, hprev, add_ofNat_add, Nat.add_zero, h.written]
      exact unread_below hdest hlt (by omega) _
    have hfirst : dest + BitVec.ofNat 32 (n - k) = dest + BitVec.ofNat 32 (n - (k + 1)) + 1 := by
      rw [show n - k = n - (k + 1) + 1 by omega, ← add_ofNat_add]
      rfl
    have hrest : (fun j => sourceByte mem src (n - k + j)) =
        fun j => sourceByte mem src (n - (k + 1) + (j + 1)) := by
      funext j
      rw [show n - k + j = n - (k + 1) + (j + 1) by omega]
    show writeBytes c.mem (c.reg edi) 1 (Cpu.movsByte c) = _
    rw [h.destAt, hprev, h.written, hfirst, hrest]
    exact writeBytes_prepend (fun j => sourceByte mem src (n - (k + 1) + j)) hread (by omega)

/-- From low to high addresses. -/
theorem memmove_up {c : Cpu} (hn : n < 2 ^ 32) (hforward : Forward dest src n)
    (hcount : (c.reg ecx).toNat = n) (h : MovingUp mem dest src 0 c) :
    ∃ c', Reaches memmove c c' ∧ c'.pc = memmove.length ∧
      c'.mem = writeBytes mem dest n (sourceByte mem src) ∧ c'.flag directionFlag = false := by
  have hrounds := Cpu.rep_invariant (Cpu.stringRound 1 true Cpu.movsByte)
    (J := MovingUp mem dest src) hcount h fun k hk _ hc => hc.round hforward hn hk
  refine ⟨(c.rep (Cpu.stringRound 1 true Cpu.movsByte)).next, ?_, congrArg (· + 1) hrounds.pc,
    hrounds.written, hrounds.forward⟩
  refine .exec (i := .repMovsb) ?_ .refl
  rw [h.pc]
  rfl

/-- From high to low addresses. -/
theorem memmove_down {c : Cpu} (hn : n < 2 ^ 32) (hdest : dest.toNat + n ≤ 2 ^ 32)
    (hlt : src.toNat < dest.toNat) (hcount : (c.reg ecx).toNat = n)
    (h : MovingDown mem dest src n 0 c) :
    ∃ c', Reaches memmove c c' ∧ c'.pc = memmove.length ∧
      c'.mem = writeBytes mem dest n (sourceByte mem src) ∧ c'.flag directionFlag = true := by
  have hrounds := Cpu.rep_invariant (Cpu.stringRound 1 true Cpu.movsByte)
    (J := MovingDown mem dest src n) hcount h fun k hk _ hc => hc.round hdest hlt hn hk
  refine ⟨(c.rep (Cpu.stringRound 1 true Cpu.movsByte)).next, ?_, congrArg (· + 1) hrounds.pc, ?_,
    hrounds.backward⟩
  · refine .exec (i := .repMovsb) ?_ .refl
    rw [h.pc]
    rfl
  · refine hrounds.written.trans ?_
    simp only [Nat.sub_self, Nat.zero_add]
    rw [show dest + BitVec.ofNat 32 0 = dest from BitVec.add_zero dest]

end Move

/-- **`memmove`** comes to its end, and then exactly the `n` bytes from `dest` on are the ones that
    were at `src`, however the two overlap.  The direction flag is left set when it had to copy from
    the last byte on. -/
theorem memmove_law (cpu : Cpu) (dest src n : BitVec 32) (hdest : dest.toNat + n.toNat ≤ 2 ^ 32)
    (hsrc : src.toNat + n.toNat ≤ 2 ^ 32) :
    ∃ cpu', Reaches memmove (enterAsm cpu (cpu.reg eax) dest src n) cpu' ∧
      cpu'.pc = memmove.length ∧
      (∀ x, cpu'.mem x =
        if (x - dest).toNat < n.toNat then cpu.mem (src + (x - dest)) else cpu.mem x) ∧
      cpu'.flag directionFlag = decide (src.toNat < dest.toNat) := by
  have hn := n.isLt
  have hresult : ∀ {c' : Cpu},
      c'.mem = writeBytes cpu.mem dest n.toNat (sourceByte cpu.mem src) → ∀ x, c'.mem x =
        if (x - dest).toNat < n.toNat then cpu.mem (src + (x - dest)) else cpu.mem x := by
    intro c' hmem x
    rw [hmem, writeBytes_sourceByte]
  by_cases hlt : src.toNat < dest.toNat
  · -- `src` below `dest`: the pointers go to the last byte and the direction flag is set
    have hrun : ∃ c, Reaches memmove (enterAsm cpu (cpu.reg eax) dest src n) c ∧
        (c.reg ecx).toNat = n.toNat ∧ MovingDown cpu.mem dest src n.toNat 0 c := by
      refine ⟨_, .exec rfl (.exec rfl (.exec rfl (.exec rfl (.notTaken rfl ?_ (.exec rfl
        (.exec rfl (.exec rfl .refl))))))), rfl, ?_⟩
      · refine (Cpu.holds_ae_compareFlags ..).trans ?_
        show (!decide (src.toNat < dest.toNat)) = false
        rw [decide_eq_true hlt]
        rfl
      · have hlast : ∀ p : BitVec 32,
            (-1 : BitVec 32) + p + n = p + BitVec.ofNat 32 n.toNat - 1 := by
          intro p
          rw [BitVec.ofNat_toNat, BitVec.setWidth_eq]
          bv_omega
        constructor
        case backward => exact getLsbD_setBit _ (by decide) true
        case pc => rfl
        case destAt => exact hlast dest
        case sourceAt => exact hlast src
        case written => exact (writeBytes_zero ..).symm
    obtain ⟨c, hfirst, hcount, hdown⟩ := hrun
    obtain ⟨c', hrest, hpc, hmem, hflag⟩ := memmove_down hn hdest hlt hcount hdown
    exact ⟨c', hfirst.trans hrest, hpc, hresult hmem, hflag.trans (decide_eq_true hlt).symm⟩
  · -- `src` at or above `dest`: the jump to `memmove_go` is taken
    have hrun : ∃ c, Reaches memmove (enterAsm cpu (cpu.reg eax) dest src n) c ∧
        (c.reg ecx).toNat = n.toNat ∧ MovingUp cpu.mem dest src 0 c := by
      refine ⟨_, .exec rfl (.exec rfl (.exec rfl (.exec rfl (.taken rfl ?_ .refl)))), rfl, ?_⟩
      · refine (Cpu.holds_ae_compareFlags ..).trans ?_
        show (!decide (src.toNat < dest.toNat)) = true
        rw [decide_eq_false hlt]
        rfl
      · constructor
        case forward =>
          exact (getLsbD_setFlags_direction ..).trans (getLsbD_setBit _ (by decide) false)
        case pc => rfl
        case destAt => exact (BitVec.add_zero dest).symm
        case sourceAt => exact (BitVec.add_zero src).symm
        case written => exact (writeBytes_zero ..).symm
    -- going up, a byte is overwritten only after it has been read
    have hforward : Forward dest src n.toNat := by
      by_cases heq : dest = src
      · exact .inl heq
      · refine .inr ?_
        rw [BitVec.toNat_sub]
        have hne : dest.toNat ≠ src.toNat := fun h => heq (BitVec.eq_of_toNat_eq h)
        have hdestLt := dest.isLt
        omega
    obtain ⟨c, hfirst, hcount, hup⟩ := hrun
    obtain ⟨c', hrest, hpc, hmem, hflag⟩ := memmove_up hn hforward hcount hup
    exact ⟨c', hfirst.trans hrest, hpc, hresult hmem, hflag.trans (decide_eq_false hlt).symm⟩

/-- Up by three bytes. -/
theorem memmove_law_overlapping :
    ∃ cpu', Reaches memmove (enterAsm countingCpu 0 0x1004 0x1001 0x40) cpu' ∧
      cpu'.pc = memmove.length ∧
      (∀ x, cpu'.mem x = if (x - 0x1004).toNat < 0x40 then countingCpu.mem (0x1001 + (x - 0x1004))
        else countingCpu.mem x) ∧
      cpu'.flag directionFlag = true :=
  memmove_law countingCpu 0x1004 0x1001 0x40 (by decide) (by decide)

end LinuxLikeOs
