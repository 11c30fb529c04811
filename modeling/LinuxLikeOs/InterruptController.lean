import LinuxLikeOs.Library.Trace
import Mathlib.Data.BitVec
import Mathlib.Logic.Function.Basic

/-!
# The interrupt controller

`i8259.c` on two 8259 chips, the second one behind line 2 of the first.

- `Pic`: a chip, its initialisation words, its mask and the interrupts in service
- `i8259Init`, `enableIrq`, `disableIrq`, `sendEoi`: the functions of `i8259.c`
- `IrqLines`: sixteen lines with their priorities
- `irq_lines_of_run`: the chips deliver an interrupt exactly when the lines let it through
-/

namespace LinuxLikeOs

open Library

/-! ## The chips -/

/-- The words that follow the first initialisation word. -/
inductive InitWord where
  | icw2 | icw3 | icw4
  deriving DecidableEq

/-- An 8259: its mask, the interrupts in service, its first vector, the third and the fourth
    initialisation word, and those that it waits for. -/
structure Pic where
  imr : BitVec 8
  isr : BitVec 8
  vector : BitVec 8
  icw3 : BitVec 8
  icw4 : BitVec 8
  waits : List InitWord

namespace Pic

/-- A write to the command port: the first initialisation word, or a specific end of interrupt. -/
def command (p : Pic) (v : BitVec 8) : Pic :=
  if v.getLsbD 4 then
    -- the chip starts over with an empty mask, and in the modes of a zero fourth word
    { p with
      imr := 0
      isr := 0
      icw4 := 0
      waits := [.icw2] ++ (if v.getLsbD 1 then [] else [.icw3]) ++
        if v.getLsbD 0 then [.icw4] else [] }
  else if v &&& 0xF8 = 0x60 then
    { p with isr := p.isr &&& ~~~(1#8 <<< (v &&& 7).toNat) }
  else p

/-- A write to the data port: an initialisation word that the chip waits for, or the mask. -/
def data (p : Pic) (v : BitVec 8) : Pic :=
  match p.waits with
  | [] => { p with imr := v }
  | .icw2 :: rest => { p with vector := v &&& 0xF8, waits := rest }
  | .icw3 :: rest => { p with icw3 := v, waits := rest }
  | .icw4 :: rest => { p with icw4 := v, waits := rest }

/-- The chip lets a request through: its line is not masked, and no interrupt of the same or of a
    higher priority is in service. -/
def Accepts (p : Pic) (i : Nat) : Prop :=
  p.imr.getLsbD i = false ∧ ∀ j < i + 1, p.isr.getLsbD j = false

instance (p : Pic) (i : Nat) : Decidable (p.Accepts i) := inferInstanceAs (Decidable (_ ∧ _))

/-- The processor takes the interrupt.  With the automatic end of interrupt nothing stays in
    service. -/
def acknowledge (p : Pic) (i : Nat) : Pic :=
  if p.icw4.getLsbD 1 then p else { p with isr := p.isr ||| 1#8 <<< i }

/-- The vector of a line; without the 8086 mode the chip names no vector. -/
def vectorOf (p : Pic) (i : Nat) : Option (BitVec 8) :=
  if p.icw4.getLsbD 0 then some (p.vector + BitVec.ofNat 8 i) else none

end Pic

/-! ## `i8259.c` -/

/-- The two chips, and the masks that the kernel keeps. -/
structure InterruptController where
  master : Pic
  slave : Pic
  masterMask : BitVec 8
  slaveMask : BitVec 8

def irqTotal : Nat := 15
def irqHalf : Nat := 8
def irqSlaveOnMaster : Nat := 2
def maskAll : BitVec 8 := 0xFF
def mask0 : BitVec 8 := 0xFE
def icw1 : BitVec 8 := 0x11
def icw2Master : BitVec 8 := 0x20
def icw2Slave : BitVec 8 := 0x28
def icw3Master : BitVec 8 := 0x04
def icw3Slave : BitVec 8 := 0x02
def icw4 : BitVec 8 := 0x01
def eoi : BitVec 8 := 0x60

/-- The loops of `enable_irq` and `disable_irq`. -/
def enableMask (n : Nat) : BitVec 8 := (fun mask : BitVec 8 => (mask <<< 1) + 1)^[n] mask0
def disableMask (n : Nat) : BitVec 8 := (fun mask : BitVec 8 => mask <<< 1)^[n] 1

namespace InterruptController

/-- `enable_irq`. -/
def enableIrq (c : InterruptController) (irqNum : Nat) : InterruptController :=
  if irqNum > irqTotal then c
  else if irqNum < irqHalf then
    let masterMask := c.masterMask &&& enableMask irqNum
    { c with masterMask := masterMask, master := c.master.data masterMask }
  else
    let slaveMask := c.slaveMask &&& enableMask (irqNum - irqHalf)
    { c with slaveMask := slaveMask, slave := c.slave.data slaveMask }

/-- `disable_irq`. -/
def disableIrq (c : InterruptController) (irqNum : Nat) : InterruptController :=
  if irqNum > irqTotal then c
  else if irqNum < irqHalf then
    let masterMask := c.masterMask ||| disableMask irqNum
    { c with masterMask := masterMask, master := c.master.data masterMask }
  else
    let slaveMask := c.slaveMask ||| disableMask (irqNum - irqHalf)
    { c with slaveMask := slaveMask, slave := c.slave.data slaveMask }

/-- `send_eoi`. -/
def sendEoi (c : InterruptController) (irqNum : Nat) : InterruptController :=
  if irqNum < irqHalf then { c with master := c.master.command (eoi ||| BitVec.ofNat 8 irqNum) }
  else if irqNum ≤ irqTotal then
    -- an interrupt of the second chip is in service on both
    { c with
      slave := c.slave.command (eoi ||| BitVec.ofNat 8 (irqNum - irqHalf))
      master := c.master.command (eoi ||| BitVec.ofNat 8 irqSlaveOnMaster) }
  else c

/-- `i8259_init`. -/
def i8259Init (c : InterruptController) : InterruptController :=
  { c with
    master := (((c.master.command icw1).data icw2Master).data icw3Master).data icw4
    slave := (((c.slave.command icw1).data icw2Slave).data icw3Slave).data icw4 }.enableIrq
      irqSlaveOnMaster

/-- The vector of the interrupt that the processor gets for a request of a device, if the chips let
    it through. -/
def deliver (c : InterruptController) (irq : Nat) : Option (BitVec 8 × InterruptController) :=
  if irq < irqHalf then
    if c.master.Accepts irq then
      (c.master.vectorOf irq).map fun v => (v, { c with master := c.master.acknowledge irq })
    else none
  -- the second chip asks through a line of the first
  else if c.slave.Accepts (irq - irqHalf) ∧ c.master.Accepts irqSlaveOnMaster then
    if c.master.icw3.getLsbD irqSlaveOnMaster = false then
      -- the first chip takes the line for that of a device
      (c.master.vectorOf irqSlaveOnMaster).map fun v =>
        (v, { c with master := c.master.acknowledge irqSlaveOnMaster })
    else if (c.slave.icw3 &&& 7).toNat = irqSlaveOnMaster then
      (c.slave.vectorOf (irq - irqHalf)).map fun v =>
        (v, { c with
          slave := c.slave.acknowledge (irq - irqHalf)
          master := c.master.acknowledge irqSlaveOnMaster })
    -- no chip answers to this line
    else none
  else none

variable (c : InterruptController)

theorem enableIrq_master {n : Nat} (hn : n < 8) :
    c.enableIrq n =
      { c with
        masterMask := c.masterMask &&& enableMask n
        master := c.master.data (c.masterMask &&& enableMask n) } :=
  (if_neg (show ¬ n > 15 by omega)).trans (if_pos hn)

theorem enableIrq_slave {i : Nat} (hi : i < 8) :
    c.enableIrq (i + 8) =
      { c with
        slaveMask := c.slaveMask &&& enableMask i
        slave := c.slave.data (c.slaveMask &&& enableMask i) } :=
  (if_neg (show ¬ i + 8 > 15 by omega)).trans (if_neg (show ¬ i + 8 < 8 by omega))

theorem disableIrq_master {n : Nat} (hn : n < 8) :
    c.disableIrq n =
      { c with
        masterMask := c.masterMask ||| disableMask n
        master := c.master.data (c.masterMask ||| disableMask n) } :=
  (if_neg (show ¬ n > 15 by omega)).trans (if_pos hn)

theorem disableIrq_slave {i : Nat} (hi : i < 8) :
    c.disableIrq (i + 8) =
      { c with
        slaveMask := c.slaveMask ||| disableMask i
        slave := c.slave.data (c.slaveMask ||| disableMask i) } :=
  (if_neg (show ¬ i + 8 > 15 by omega)).trans (if_neg (show ¬ i + 8 < 8 by omega))

theorem sendEoi_slave {i : Nat} (hi : i < 8) :
    c.sendEoi (i + 8) =
      { c with
        slave := c.slave.command (eoi ||| BitVec.ofNat 8 i)
        master := c.master.command (eoi ||| BitVec.ofNat 8 2) } :=
  (if_neg (show ¬ i + 8 < 8 by omega)).trans (if_pos (show i + 8 ≤ 15 by omega))

theorem sendEoi_large {n : Nat} (hn : 15 < n) : c.sendEoi n = c :=
  (if_neg (show ¬ n < 8 by omega)).trans (if_neg (show ¬ n ≤ 15 by omega))

/-- The chips in the modes that `i8259_init` chooses: the second one on line 2 of the first, 8086
    mode, and no automatic end of interrupt. -/
structure Initialised (c : InterruptController) : Prop where
  masterIcw3 : c.master.icw3 = icw3Master
  slaveIcw3 : c.slave.icw3 = icw3Slave
  masterIcw4 : c.master.icw4 = icw4
  slaveIcw4 : c.slave.icw4 = icw4

variable {c}

theorem acknowledge_eq {p : Pic} (h : p.icw4 = icw4) (i : Nat) :
    p.acknowledge i = { p with isr := p.isr ||| 1#8 <<< i } :=
  if_neg (by rw [h]; decide)

theorem vectorOf_eq {p : Pic} (h : p.icw4 = icw4) (i : Nat) :
    p.vectorOf i = some (p.vector + BitVec.ofNat 8 i) :=
  if_pos (by rw [h]; decide)

theorem Initialised.deliver_master (h : c.Initialised) {irq : Nat} (hirq : irq < 8) :
    c.deliver irq = if c.master.Accepts irq then
      some (c.master.vector + BitVec.ofNat 8 irq,
        { c with master := { c.master with isr := c.master.isr ||| 1#8 <<< irq } })
    else none := by
  rw [deliver, if_pos (show irq < irqHalf from hirq), vectorOf_eq h.masterIcw4,
    acknowledge_eq h.masterIcw4]
  rfl

theorem Initialised.deliver_slave (h : c.Initialised) {i : Nat} :
    c.deliver (i + 8) = if c.slave.Accepts i ∧ c.master.Accepts 2 then
      some (c.slave.vector + BitVec.ofNat 8 i,
        { c with
          slave := { c.slave with isr := c.slave.isr ||| 1#8 <<< i }
          master := { c.master with isr := c.master.isr ||| 1#8 <<< 2 } })
    else none := by
  -- the two words that tie the chips together are as `i8259_init` left them
  have hmaster : ¬ c.master.icw3.getLsbD irqSlaveOnMaster = false := by
    rw [h.masterIcw3]
    decide
  have hslave : (c.slave.icw3 &&& 7).toNat = irqSlaveOnMaster := by
    rw [h.slaveIcw3]
    decide
  -- so the slave answers, and both chips take the line into service
  rw [deliver, if_neg (show ¬ i + 8 < irqHalf by simp only [irqHalf]; omega), if_neg hmaster,
    if_pos hslave, vectorOf_eq h.slaveIcw4, acknowledge_eq h.slaveIcw4, acknowledge_eq h.masterIcw4]
  rfl

end InterruptController

/-- A call of a function of `i8259.c`, or a request of a device that reaches the processor. -/
inductive IrqEvent where
  | enable (irqNum : Nat)
  | disable (irqNum : Nat)
  | eoi (irqNum : Nat)
  | request (irq : Nat)

def irqStep (c : InterruptController) : IrqEvent → Option InterruptController
  | .enable n => some (c.enableIrq n)
  | .disable n => some (c.disableIrq n)
  | .eoi n => some (c.sendEoi n)
  | .request irq => (c.deliver irq).map Prod.snd

/-! ## Lines -/

/-- Sixteen lines: those that are enabled and those in service, and whether a line behind the second
    chip has been enabled or disabled yet. -/
structure IrqLines where
  enabled : Nat → Bool
  serving : Nat → Bool
  slaveMasked : Bool

namespace IrqLines

/-- The priority of a line; all lines of the second chip have that of line 2. -/
def level (irq : Nat) : Nat := if irq < 8 then irq else 2

/-- A line that is not masked.  The second chip masks nothing until its mask is written. -/
def Open (a : IrqLines) (irq : Nat) : Prop :=
  a.enabled irq = true ∨ 8 ≤ irq ∧ a.slaveMasked = false

/-- A request goes through: the line is open, and everything in service has a lower priority. -/
def Passes (a : IrqLines) (irq : Nat) : Prop :=
  a.Open irq ∧ (8 ≤ irq → a.Open 2) ∧ ∀ j < 16, a.serving j = true → level irq < level j

instance (a : IrqLines) (irq : Nat) : Decidable (a.Open irq) := inferInstanceAs (Decidable (_ ∨ _))

instance (a : IrqLines) (irq : Nat) : Decidable (a.Passes irq) :=
  inferInstanceAs (Decidable (_ ∧ _ ∧ _))

/-- Behind `i8259_init`. -/
def start : IrqLines := ⟨fun irq => irq = 2, fun _ => false, false⟩

def setEnabled (a : IrqLines) (n : Nat) (b : Bool) : IrqLines :=
  if n ≤ 15 then
    { a with enabled := Function.update a.enabled n b, slaveMasked := a.slaveMasked || 8 ≤ n }
  else a

/-- Only interrupts in service are ended. -/
def step (a : IrqLines) : IrqEvent → Option IrqLines
  | .enable n => some (a.setEnabled n true)
  | .disable n => some (a.setEnabled n false)
  | .eoi n =>
    if n ≤ 15 then
      if a.serving n then some { a with serving := Function.update a.serving n false } else none
    else some a
  | .request irq =>
    if irq ≤ 15 ∧ irq ≠ 2 ∧ a.Passes irq then
      some { a with serving := Function.update a.serving irq true }
    else none

end IrqLines

/-! ## The chips implement the lines -/

theorem getLsbD_line : ∀ n < 8, ∀ i < 8, (1#8 <<< n).getLsbD i = decide (i = n) := by decide

theorem getLsbD_enableMask : ∀ n < 8, ∀ i < 8,
    (enableMask n).getLsbD i = !decide (i = n) := by decide

theorem getLsbD_disableMask : ∀ n < 8, ∀ i < 8,
    (disableMask n).getLsbD i = decide (i = n) := by decide

/-- The command that `send_eoi` writes names its line. -/
theorem eoi_command : ∀ n < 8, (eoi ||| BitVec.ofNat 8 n).getLsbD 4 = false ∧
    (eoi ||| BitVec.ofNat 8 n) &&& 0xF8 = 0x60 ∧
    ((eoi ||| BitVec.ofNat 8 n) &&& 7).toNat = n := by decide

theorem Pic.command_eoi (p : Pic) {n : Nat} (hn : n < 8) :
    p.command (eoi ||| BitVec.ofNat 8 n) = { p with isr := p.isr &&& ~~~(1#8 <<< n) } := by
  obtain ⟨hinit, heoi, hline⟩ := eoi_command n hn
  rw [Pic.command, if_neg (by rw [hinit]; decide), if_pos heoi, hline]

section Bits

variable (x : BitVec 8) {n i : Nat}

theorem getLsbD_clear (hn : n < 8) (hi : i < 8) :
    (x &&& ~~~(1#8 <<< n)).getLsbD i = if i = n then false else x.getLsbD i := by
  rw [BitVec.getLsbD_and, BitVec.getLsbD_not, getLsbD_line n hn i hi]
  by_cases hin : i = n <;> simp [hin, hi]

theorem getLsbD_set (hn : n < 8) (hi : i < 8) :
    (x ||| 1#8 <<< n).getLsbD i = if i = n then true else x.getLsbD i := by
  rw [BitVec.getLsbD_or, getLsbD_line n hn i hi]
  by_cases hin : i = n <;> simp [hin]

theorem getLsbD_enable (hn : n < 8) (hi : i < 8) :
    (x &&& enableMask n).getLsbD i = if i = n then false else x.getLsbD i := by
  rw [BitVec.getLsbD_and, getLsbD_enableMask n hn i hi]
  by_cases hin : i = n <;> simp [hin]

theorem getLsbD_disable (hn : n < 8) (hi : i < 8) :
    (x ||| disableMask n).getLsbD i = if i = n then true else x.getLsbD i := by
  rw [BitVec.getLsbD_or, getLsbD_disableMask n hn i hi]
  by_cases hin : i = n <;> simp [hin]

end Bits

theorem Pic.data_mask {p : Pic} (h : p.waits = []) (v : BitVec 8) :
    p.data v = { p with imr := v } := by
  rw [Pic.data, h]

/-- What the chips and the masks of the kernel have to do with the lines. -/
structure IrqLines.Implemented (a : IrqLines) (c : InterruptController) : Prop where
  modes : c.Initialised
  masterReady : c.master.waits = []
  slaveReady : c.slave.waits = []
  masterVector : c.master.vector = 0x20
  slaveVector : c.slave.vector = 0x28
  masterMask : ∀ i < 8, c.masterMask.getLsbD i = !a.enabled i
  slaveMask : ∀ i < 8, c.slaveMask.getLsbD i = !a.enabled (i + 8)
  masterImr : c.master.imr = c.masterMask
  slaveImr : c.slave.imr = if a.slaveMasked then c.slaveMask else 0
  masterIsr : ∀ i < 8, i ≠ 2 → c.master.isr.getLsbD i = a.serving i
  slaveIsr : ∀ i < 8, c.slave.isr.getLsbD i = a.serving (i + 8)
  cascade : c.master.isr.getLsbD 2 = true ↔ ∃ i < 8, a.serving (i + 8) = true
  noCascade : a.serving 2 = false
  single : ∀ i < 8, ∀ j < 8, a.serving (i + 8) = true → a.serving (j + 8) = true → i = j

namespace IrqLines.Implemented

variable {a : IrqLines} {c : InterruptController}

/-- Nothing from line `i` on up is in service. -/
theorem quiet_iff (h : a.Implemented c) {i : Nat} (hi : i < 8) :
    (∀ j < i + 1, c.master.isr.getLsbD j = false) ↔
      ∀ j < 16, a.serving j = true → i < level j := by
  constructor
  case mp =>
    intro hquiet j hj hserving
    by_cases hmaster : j < 8
    · have hne : j ≠ 2 := by
        rintro rfl
        rw [h.noCascade] at hserving
        cases hserving
      rw [level, if_pos hmaster]
      by_contra hle
      have hbit := hquiet j (by omega)
      rw [h.masterIsr j hmaster hne, hserving] at hbit
      cases hbit
    -- line 2 of the first chip is in service for all lines of the second
    · rw [level, if_neg hmaster]
      by_contra hle
      have hbit := hquiet 2 (by omega)
      have hset := h.cascade.mpr ⟨j - 8, by omega, by rwa [Nat.sub_add_cancel (by omega)]⟩
      rw [hset] at hbit
      cases hbit
  case mpr =>
    intro hlow j hj
    rw [← Bool.not_eq_true]
    intro hbit
    by_cases htwo : j = 2
    · rw [htwo] at hbit
      obtain ⟨k, hk, hserving⟩ := h.cascade.mp hbit
      have hlevel := hlow (k + 8) (by omega) hserving
      rw [level, if_neg (by omega)] at hlevel
      omega
    · rw [h.masterIsr j (by omega) htwo] at hbit
      have hlevel := hlow j (by omega) hbit
      rw [level, if_pos (by omega)] at hlevel
      omega

theorem master_accepts_iff (h : a.Implemented c) {i : Nat} (hi : i < 8) :
    c.master.Accepts i ↔ a.Open i ∧ ∀ j < 16, a.serving j = true → i < level j := by
  rw [Pic.Accepts, h.quiet_iff hi, h.masterImr, h.masterMask i hi, Bool.not_eq_false',
    Open, or_iff_left (by omega)]

/-- The second chip has nothing in service when line 2 of the first one is free. -/
theorem slave_accepts_iff (h : a.Implemented c) {i : Nat} (hi : i < 8)
    (hfree : ∀ j < 16, a.serving j = true → 2 < level j) : c.slave.Accepts i ↔ a.Open (i + 8) := by
  -- a line of the slave is blocked by a line served before it on the slave
  have hquiet : ∀ j < i + 1, c.slave.isr.getLsbD j = false := by
    intro j hj
    rw [h.slaveIsr j (by omega), ← Bool.not_eq_true]
    intro hserving
    have hlevel := hfree (j + 8) (by omega) hserving
    rw [level, if_neg (by omega)] at hlevel
    omega
  -- until its first mask is written, the slave masks nothing: ICW1 has cleared the register
  have hmask : c.slave.imr.getLsbD i = false ↔ a.Open (i + 8) := by
    rw [h.slaveImr, Open]
    cases hmasked : a.slaveMasked with
    | false => simp
    | true => simp [h.slaveMask i hi]
  rw [Pic.Accepts, hmask]
  exact and_iff_left hquiet

/-- The chips let through what passes, from either of them. -/
theorem passes_master_iff (h : a.Implemented c) {i : Nat} (hi : i < 8) :
    a.Passes i ↔ c.master.Accepts i := by
  rw [h.master_accepts_iff hi, Passes, level, if_pos hi]
  constructor
  case mp => exact fun hpass => ⟨hpass.1, hpass.2.2⟩
  case mpr => exact fun haccepts => ⟨haccepts.1, fun hge => absurd hge (by omega), haccepts.2⟩

theorem passes_slave_iff (h : a.Implemented c) {i : Nat} (hi : i < 8) :
    a.Passes (i + 8) ↔ c.slave.Accepts i ∧ c.master.Accepts 2 := by
  rw [h.master_accepts_iff (show 2 < 8 by decide), Passes, level, if_neg (by omega)]
  constructor
  case mp =>
    intro ⟨hline, hopen, hfree⟩
    exact ⟨(h.slave_accepts_iff hi hfree).mpr hline, hopen (by omega), hfree⟩
  case mpr =>
    intro ⟨hslave, hopen, hfree⟩
    exact ⟨(h.slave_accepts_iff hi hfree).mp hslave, fun _ => hopen, hfree⟩

/-- The vector that the processor gets. -/
theorem vector_deliver (h : a.Implemented c) {irq : Nat} (hirq : irq < 16) :
    (c.deliver irq).map Prod.fst =
      if a.Passes irq then some (BitVec.ofNat 8 (0x20 + irq)) else none := by
  -- the master sends its vector itself, the slave its own through line 2
  by_cases hmaster : irq < 8
  · have hiff := h.passes_master_iff hmaster
    rw [h.modes.deliver_master hmaster, h.masterVector, BitVec.ofNat_add]
    by_cases hpass : a.Passes irq
    · rw [if_pos hpass, if_pos (hiff.mp hpass)]
      rfl
    · rw [if_neg hpass, if_neg (hpass ∘ hiff.mpr)]
      rfl
  · obtain ⟨i, rfl⟩ : ∃ i, irq = i + 8 := ⟨irq - 8, by omega⟩
    have hiff := h.passes_slave_iff (show i < 8 by omega)
    rw [h.modes.deliver_slave, h.slaveVector, Nat.add_comm i, ← Nat.add_assoc, BitVec.ofNat_add,
      Nat.add_comm 8]
    by_cases hpass : a.Passes (i + 8)
    · rw [if_pos hpass, if_pos (hiff.mp hpass)]
      rfl
    · rw [if_neg hpass, if_neg (hpass ∘ hiff.mpr)]
      rfl

/-! ## Every step keeps it -/

/-- A line of the first chip begins or ends its service. -/
theorem serve_master (h : a.Implemented c) {i : Nat} (hne : i ≠ 2) (hi : i < 8) {b : Bool}
    {isr : BitVec 8}
    (hisr : ∀ j < 8, isr.getLsbD j = if j = i then b else c.master.isr.getLsbD j) :
    ({ a with serving := Function.update a.serving i b } : IrqLines).Implemented
      { c with master := { c.master with isr := isr } } := by
  -- serving a line of the master does not change what the slave serves
  have hslave : ∀ j, Function.update a.serving i b (j + 8) = a.serving (j + 8) :=
    fun j => Function.update_of_ne (by omega) ..
  constructor
  -- only the master's service register is another one
  case modes => exact ⟨h.modes.masterIcw3, h.modes.slaveIcw3, h.modes.masterIcw4, h.modes.slaveIcw4⟩
  case masterReady => exact h.masterReady
  case slaveReady => exact h.slaveReady
  case masterVector => exact h.masterVector
  case slaveVector => exact h.slaveVector
  case masterMask => exact h.masterMask
  case slaveMask => exact h.slaveMask
  case masterImr => exact h.masterImr
  case slaveImr => exact h.slaveImr
  case masterIsr =>
    intro j hj hjne
    show isr.getLsbD j = Function.update a.serving i b j
    rw [hisr j hj, Function.update_apply, h.masterIsr j hj hjne]
  case slaveIsr =>
    exact fun j hj => (h.slaveIsr j hj).trans (hslave j).symm
  case cascade =>
    rw [hisr 2 (by decide), if_neg hne.symm, h.cascade]
    simp only [hslave]
  case noCascade => exact (Function.update_of_ne hne.symm ..).trans h.noCascade
  case single =>
    intro j hj k hk hserving hserving'
    exact h.single j hj k hk ((hslave j).symm.trans hserving) ((hslave k).symm.trans hserving')

/-- A line of the second chip begins or ends its service, and line 2 of the first one with it. -/
theorem serve_slave (h : a.Implemented c) {i : Nat} (hi : i < 8) {b : Bool}
    {master slave : BitVec 8}
    (hmaster : ∀ j < 8, master.getLsbD j = if j = 2 then b else c.master.isr.getLsbD j)
    (hslave : ∀ j < 8, slave.getLsbD j = if j = i then b else c.slave.isr.getLsbD j)
    (hothers : ∀ j < 8, j ≠ i → a.serving (j + 8) = false) :
    ({ a with serving := Function.update a.serving (i + 8) b } : IrqLines).Implemented
      { c with
        master := { c.master with isr := master }
        slave := { c.slave with isr := slave } } := by
  -- on the slave at most one line is served, namely `i`
  have hupdate : ∀ j < 8,
      Function.update a.serving (i + 8) b (j + 8) = true ↔ j = i ∧ b = true := by
    intro j hj
    rw [Function.update_apply]
    by_cases hji : j = i
    · simp [hji]
    · rw [if_neg (by omega), hothers j hj hji]
      simp [hji]
  constructor
  case modes => exact ⟨h.modes.masterIcw3, h.modes.slaveIcw3, h.modes.masterIcw4, h.modes.slaveIcw4⟩
  case masterReady => exact h.masterReady
  case slaveReady => exact h.slaveReady
  case masterVector => exact h.masterVector
  case slaveVector => exact h.slaveVector
  case masterMask => exact h.masterMask
  case slaveMask => exact h.slaveMask
  case masterImr => exact h.masterImr
  case slaveImr => exact h.slaveImr
  case masterIsr =>
    intro j hj hjne
    show master.getLsbD j = Function.update a.serving (i + 8) b j
    rw [hmaster j hj, if_neg hjne, Function.update_of_ne (by omega)]
    exact h.masterIsr j hj hjne
  case slaveIsr =>
    intro j hj
    show slave.getLsbD j = Function.update a.serving (i + 8) b (j + 8)
    rw [hslave j hj, h.slaveIsr j hj, Function.update_apply]
    by_cases hji : j = i
    · rw [if_pos hji, if_pos (by omega)]
    · rw [if_neg hji, if_neg (by omega)]
  case cascade =>
    -- line 2 of the master is in service as long as the slave serves a line
    rw [hmaster 2 (by decide), if_pos rfl]
    constructor
    · exact fun hb => ⟨i, hi, (hupdate i hi).mpr ⟨rfl, hb⟩⟩
    · exact fun ⟨j, hj, hserving⟩ => ((hupdate j hj).mp hserving).2
  case noCascade =>
    show Function.update a.serving (i + 8) b 2 = false
    rw [Function.update_of_ne (by omega)]
    exact h.noCascade
  case single =>
    intro j hj k hk hserving hserving'
    exact ((hupdate j hj).mp hserving).1.trans ((hupdate k hk).mp hserving').1.symm

/-- A new mask of the first chip. -/
theorem mask_master (h : a.Implemented c) {i : Nat} (hi : i < 8) {b : Bool} {mask : BitVec 8}
    (hmask : ∀ j < 8, mask.getLsbD j = if j = i then !b else c.masterMask.getLsbD j) :
    (a.setEnabled i b).Implemented
      { c with masterMask := mask, master := c.master.data mask } := by
  -- a line of the master: only its mask is written
  have hset : a.setEnabled i b = { a with enabled := Function.update a.enabled i b } := by
    rw [setEnabled, if_pos (by omega), decide_eq_false (by omega), Bool.or_false]
  rw [hset, Pic.data_mask h.masterReady]
  constructor
  case modes => exact ⟨h.modes.masterIcw3, h.modes.slaveIcw3, h.modes.masterIcw4, h.modes.slaveIcw4⟩
  case masterReady => exact h.masterReady
  case slaveReady => exact h.slaveReady
  case masterVector => exact h.masterVector
  case slaveVector => exact h.slaveVector
  case masterMask =>
    intro j hj
    show mask.getLsbD j = !Function.update a.enabled i b j
    rw [hmask j hj, h.masterMask j hj, Function.update_apply]
    split <;> rfl
  case slaveMask =>
    intro j hj
    show c.slaveMask.getLsbD j = !Function.update a.enabled i b (j + 8)
    rw [h.slaveMask j hj, Function.update_of_ne (by omega)]
  case masterImr => rfl
  case slaveImr => exact h.slaveImr
  case masterIsr => exact h.masterIsr
  case slaveIsr => exact h.slaveIsr
  case cascade => exact h.cascade
  case noCascade => exact h.noCascade
  case single => exact h.single

/-- A new mask of the second chip. -/
theorem mask_slave (h : a.Implemented c) {i : Nat} (hi : i < 8) {b : Bool} {mask : BitVec 8}
    (hmask : ∀ j < 8, mask.getLsbD j = if j = i then !b else c.slaveMask.getLsbD j) :
    (a.setEnabled (i + 8) b).Implemented
      { c with slaveMask := mask, slave := c.slave.data mask } := by
  -- the slave's chip has the kernel's mask from the first write to it on
  have hset : a.setEnabled (i + 8) b =
      { a with enabled := Function.update a.enabled (i + 8) b, slaveMasked := true } := by
    rw [setEnabled, if_pos (by omega), decide_eq_true (by omega), Bool.or_true]
  rw [hset, Pic.data_mask h.slaveReady]
  constructor
  case modes => exact ⟨h.modes.masterIcw3, h.modes.slaveIcw3, h.modes.masterIcw4, h.modes.slaveIcw4⟩
  case masterReady => exact h.masterReady
  case slaveReady => exact h.slaveReady
  case masterVector => exact h.masterVector
  case slaveVector => exact h.slaveVector
  case masterMask =>
    intro j hj
    show c.masterMask.getLsbD j = !Function.update a.enabled (i + 8) b j
    rw [h.masterMask j hj, Function.update_of_ne (by omega)]
  case slaveMask =>
    intro j hj
    show mask.getLsbD j = !Function.update a.enabled (i + 8) b (j + 8)
    rw [hmask j hj, h.slaveMask j hj, Function.update_apply]
    by_cases hji : j = i
    · rw [if_pos hji, if_pos (by omega)]
    · rw [if_neg hji, if_neg (by omega)]
  case masterImr => exact h.masterImr
  case slaveImr => rfl
  case masterIsr => exact h.masterIsr
  case slaveIsr => exact h.slaveIsr
  case cascade => exact h.cascade
  case noCascade => exact h.noCascade
  case single => exact h.single

theorem enableIrq (h : a.Implemented c) (n : Nat) :
    (a.setEnabled n true).Implemented (c.enableIrq n) := by
  rcases Nat.lt_or_ge n 8 with hmaster | hslave
  · rw [c.enableIrq_master hmaster]
    exact h.mask_master hmaster fun j hj => getLsbD_enable _ hmaster hj
  rcases Nat.lt_or_ge 15 n with hlarge | hsmall
  · rw [show a.setEnabled n true = a from if_neg (by omega),
      show c.enableIrq n = c from if_pos hlarge]
    exact h
  · obtain ⟨i, rfl⟩ : ∃ i, n = i + 8 := ⟨n - 8, by omega⟩
    rw [c.enableIrq_slave (by omega)]
    exact h.mask_slave (by omega) fun j hj => getLsbD_enable _ (by omega) hj

theorem disableIrq (h : a.Implemented c) (n : Nat) :
    (a.setEnabled n false).Implemented (c.disableIrq n) := by
  rcases Nat.lt_or_ge n 8 with hmaster | hslave
  · rw [c.disableIrq_master hmaster]
    exact h.mask_master hmaster fun j hj => getLsbD_disable _ hmaster hj
  rcases Nat.lt_or_ge 15 n with hlarge | hsmall
  · rw [show a.setEnabled n false = a from if_neg (by omega),
      show c.disableIrq n = c from if_pos hlarge]
    exact h
  · obtain ⟨i, rfl⟩ : ∃ i, n = i + 8 := ⟨n - 8, by omega⟩
    rw [c.disableIrq_slave (by omega)]
    exact h.mask_slave (by omega) fun j hj => getLsbD_disable _ (by omega) hj

/-- Interrupts of the second chip come one at a time. -/
theorem others_idle (h : a.Implemented c) {i : Nat} (hi : i < 8)
    (hserving : a.serving (i + 8) = true) : ∀ j < 8, j ≠ i → a.serving (j + 8) = false := by
  intro j hj hji
  rw [← Bool.not_eq_true]
  exact fun hj' => hji (h.single j hj i hi hj' hserving)

/-- An interrupt in service is ended. -/
theorem sendEoi (h : a.Implemented c) {n : Nat} (hn : n ≤ 15) (hserving : a.serving n = true) :
    ({ a with serving := Function.update a.serving n false } : IrqLines).Implemented
      (c.sendEoi n) := by
  -- the master clears its own bit, a line of the slave clears two
  rcases Nat.lt_or_ge n 8 with hmaster | hslave
  · have hne : n ≠ 2 := by
      rintro rfl
      rw [h.noCascade] at hserving
      cases hserving
    rw [show c.sendEoi n = _ from if_pos hmaster, Pic.command_eoi _ hmaster]
    exact h.serve_master hne hmaster fun j hj => getLsbD_clear _ hmaster hj
  · obtain ⟨i, rfl⟩ : ∃ i, n = i + 8 := ⟨n - 8, by omega⟩
    have hi : i < 8 := by omega
    rw [c.sendEoi_slave hi, Pic.command_eoi _ hi, Pic.command_eoi _ (by decide)]
    exact h.serve_slave hi (fun j hj => getLsbD_clear _ (by decide) hj)
      (fun j hj => getLsbD_clear _ hi hj) (h.others_idle hi hserving)

/-- A request that passes is taken. -/
theorem deliver (h : a.Implemented c) {irq : Nat} (hirq : irq ≤ 15) (hne : irq ≠ 2)
    (hpass : a.Passes irq) :
    ∃ c', (c.deliver irq).map Prod.snd = some c' ∧
      ({ a with serving := Function.update a.serving irq true } : IrqLines).Implemented c' := by
  -- a line of the master does not involve the slave
  rcases Nat.lt_or_ge irq 8 with hmaster | hslave
  · rw [h.modes.deliver_master hmaster, if_pos ((h.passes_master_iff hmaster).mp hpass)]
    exact ⟨_, rfl, h.serve_master hne hmaster fun j hj => getLsbD_set _ hmaster hj⟩
  · obtain ⟨i, rfl⟩ : ∃ i, irq = i + 8 := ⟨irq - 8, by omega⟩
    have hi : i < 8 := by omega
    -- a line that passes comes before all that are served, so the slave serves none
    have hidle : ∀ j < 8, j ≠ i → a.serving (j + 8) = false := by
      intro j hj _
      rw [← Bool.not_eq_true]
      intro hserving
      have hlevel := hpass.2.2 (j + 8) (by omega) hserving
      rw [level, level, if_neg (by omega), if_neg (by omega)] at hlevel
      exact absurd hlevel (by decide)
    rw [h.modes.deliver_slave, if_pos ((h.passes_slave_iff hi).mp hpass)]
    exact ⟨_, rfl, h.serve_slave hi (fun j hj => getLsbD_set _ (by decide) hj)
      (fun j hj => getLsbD_set _ hi hj) hidle⟩

/-- Behind `i8259_init`, whatever the chips have done before. -/
theorem start (hmaster : c.masterMask = maskAll) (hslave : c.slaveMask = maskAll) :
    IrqLines.start.Implemented c.i8259Init := by
  -- the masks begin with all lines masked, as the initialisation of the globals says
  obtain ⟨master, slave, masterMask, slaveMask⟩ := c
  obtain rfl : masterMask = maskAll := hmaster
  obtain rfl : slaveMask = maskAll := hslave
  constructor
  case modes => exact ⟨rfl, rfl, rfl, rfl⟩
  case masterReady => rfl
  case slaveReady => rfl
  case masterVector => rfl
  case slaveVector => rfl
  case masterMask =>
    exact show ∀ i < 8, (maskAll &&& enableMask 2).getLsbD i = !decide (i = 2) by decide
  case slaveMask =>
    -- `enable_irq(2)` is the last thing `i8259_init` does
    exact show ∀ i < 8, maskAll.getLsbD i = !decide (i + 8 = 2) by decide
  case masterImr => rfl
  case slaveImr => rfl
  case masterIsr => exact fun _ _ _ => BitVec.getLsbD_zero
  case slaveIsr => exact fun _ _ => BitVec.getLsbD_zero
  case cascade =>
    constructor
    · exact fun hbit => absurd (show (0 : BitVec 8).getLsbD 2 = true from hbit) (by decide)
    · exact fun ⟨_, _, hserving⟩ => absurd (show false = true from hserving) (by decide)
  case noCascade => rfl
  case single =>
    exact fun _ _ _ _ hserving => absurd (show false = true from hserving) (by decide)

/-- **A step of the lines is a step of the chips.** -/
theorem step (h : a.Implemented c) {e : IrqEvent} {a' : IrqLines} (hstep : a.step e = some a') :
    ∃ c', irqStep c e = some c' ∧ a'.Implemented c' := by
  -- one lemma for each of the four operations
  cases e with
  | enable n =>
    obtain rfl := Option.some.inj hstep
    exact ⟨_, rfl, h.enableIrq n⟩
  | disable n =>
    obtain rfl := Option.some.inj hstep
    exact ⟨_, rfl, h.disableIrq n⟩
  | eoi n =>
    rw [IrqLines.step] at hstep
    split_ifs at hstep with hn hserving
    · -- the line is served, so its bit is cleared; or the number is above 15 and nothing is sent
      obtain rfl := Option.some.inj hstep
      exact ⟨_, rfl, h.sendEoi hn hserving⟩
    · obtain rfl := Option.some.inj hstep
      exact ⟨c, congrArg some (c.sendEoi_large (by omega)), h⟩
  | request irq =>
    rw [IrqLines.step] at hstep
    split_ifs at hstep with hpass
    obtain rfl := Option.some.inj hstep
    exact h.deliver hpass.1 hpass.2.1 hpass.2.2

/-- A run of the lines is a run of the chips. -/
theorem exec (h : a.Implemented c) {es : List IrqEvent} {a' : IrqLines}
    (hrun : Library.exec IrqLines.step a es = some a') :
    ∃ c', Library.exec irqStep c es = some c' ∧ a'.Implemented c' := by
  induction es generalizing a c with
  | nil =>
    obtain rfl := Option.some.inj hrun
    exact ⟨c, rfl, h⟩
  | cons e es ih =>
    obtain ⟨a₁, hstep, hrest⟩ := exec_cons_iff.mp hrun
    obtain ⟨c₁, hchips, h₁⟩ := h.step hstep
    obtain ⟨c', hchips', h'⟩ := ih h₁ hrest
    exact ⟨c', exec_cons_iff.mpr ⟨c₁, hchips, hchips'⟩, h'⟩

end IrqLines.Implemented

/-- **The chips are the lines**: in every run of calls of `enable_irq`, `disable_irq` and `send_eoi`
    with any arguments, and of interrupts that the devices request, in which only interrupts in
    service are ended, a request reaches the processor exactly when its line passes, and with the
    vector of its line. -/
theorem irq_lines_of_run {c : InterruptController} (hmaster : c.masterMask = maskAll)
    (hslave : c.slaveMask = maskAll) {es : List IrqEvent} {a : IrqLines}
    (hrun : exec IrqLines.step IrqLines.start es = some a) :
    ∃ c', exec irqStep c.i8259Init es = some c' ∧ ∀ irq < 16, irq ≠ 2 →
      (c'.deliver irq).map Prod.fst =
        if a.Passes irq then some (BitVec.ofNat 8 (0x20 + irq)) else none := by
  obtain ⟨c', hchips, h⟩ := (IrqLines.Implemented.start hmaster hslave).exec hrun
  exact ⟨c', hchips, fun irq hirq _ => h.vector_deliver hirq⟩

/-- The lines that the kernel enables, and a key that is pressed while the RTC is served. -/
def nestedInterrupts : List IrqEvent :=
  [.enable 1, .enable 8, .enable 0, .request 8, .request 1, .eoi 1]

theorem nestedInterrupts_run :
    (exec IrqLines.step IrqLines.start nestedInterrupts).isSome := by decide

/-- Two chips that another system has used. -/
def usedController : InterruptController :=
  ⟨⟨0, 0, 8, 0, 0, []⟩, ⟨0, 1, 112, 0, 3, []⟩, maskAll, maskAll⟩

theorem irq_lines_of_run_nested :
    ∃ c, exec irqStep usedController.i8259Init nestedInterrupts = some c ∧
      (c.deliver 0).map Prod.fst = some 0x20 ∧ (c.deliver 8).map Prod.fst = none := by
  obtain ⟨c, hchips, hlines⟩ :=
    @irq_lines_of_run usedController rfl rfl _ _ (Option.some_get nestedInterrupts_run).symm
  refine ⟨c, hchips, ?_, ?_⟩
  · rw [hlines 0 (by decide) (by decide)]
    decide
  · rw [hlines 8 (by decide) (by decide)]
    decide

end LinuxLikeOs
