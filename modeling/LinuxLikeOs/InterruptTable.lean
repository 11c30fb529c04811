import LinuxLikeOs.InterruptController

/-!
# The interrupt descriptor table

`idt_setup`, and the interrupts that find their handlers in the table.

- `IdtEntry`, `IdtEntry.bits`: an entry and the 64 bits that the processor sees
- `idtSetup`: the loops of `idt_setup`
- `readGate_idtSetup`: what the processor finds at every vector
- `program_gate_iff`: the vectors that programs may use
- `interrupt_finds_gate`: the interrupts of the kernel's devices
-/

namespace LinuxLikeOs

open Library

/-! ## Loops over a table -/

/-- A loop that changes one entry in each round. -/
theorem foldl_update {α : Type} (f : Nat → α → α) {l : List Nat} (hl : l.Nodup) (t : Nat → α)
    (v : Nat) :
    l.foldl (fun t i => Function.update t i (f i (t i))) t v =
      if v ∈ l then f v (t v) else t v := by
  induction l generalizing t with
  | nil => rfl
  | cons i l ih =>
    obtain ⟨hi, hl⟩ := List.nodup_cons.mp hl
    rw [List.foldl_cons, ih hl, Function.update_apply]
    by_cases hv : v = i
    · subst hv
      rw [if_neg hi, if_pos rfl, if_pos List.mem_cons_self]
    · rw [if_neg hv]
      simp only [List.mem_cons, hv, false_or]

/-! ## The table -/

/-- The linkages of `handler_link.S`. -/
inductive Linkage where
  | exception (n : Nat)
  | pit | rtc | keyboard | systemcall | default
  deriving DecidableEq

/-- `idt_desc_t`. -/
structure IdtEntry where
  offset1500 : BitVec 16
  segSelector : BitVec 16
  reserved4 : BitVec 8
  reserved3 : Bool
  reserved2 : Bool
  reserved1 : Bool
  size : Bool
  reserved0 : Bool
  dpl : BitVec 2
  present : Bool
  offset3116 : BitVec 16

def exceptionNum : Nat := 20
def idtNum : Nat := 256
def systemcallId : Nat := 0x80
def keyboardVecNum : Nat := 0x21
def rtcVecNum : Nat := 0x28
def pitVecNum : Nat := 0x20
def kernelCs : BitVec 16 := 0x10

/-- The bits of the access byte. -/
def IdtEntry.access (e : IdtEntry) : BitVec 8 :=
  BitVec.ofBool e.present ++ e.dpl ++ BitVec.ofBool e.reserved0 ++ BitVec.ofBool e.size ++
    BitVec.ofBool e.reserved1 ++ BitVec.ofBool e.reserved2 ++ BitVec.ofBool e.reserved3

/-- The entry in memory. -/
def IdtEntry.bits (e : IdtEntry) : BitVec 64 :=
  e.offset3116 ++ e.access ++ e.reserved4 ++ e.segSelector ++ e.offset1500

/-- `SET_IDT_ENTRY`. -/
def IdtEntry.setHandler (e : IdtEntry) (handler : BitVec 32) : IdtEntry :=
  { e with
    offset3116 := ((handler &&& 0xFFFF0000) >>> 16).setWidth 16
    offset1500 := (handler &&& 0xFFFF).setWidth 16 }

/-- The handlers of `idt_setup`. -/
def idtHandlers (link : Linkage → BitVec 32) (idt : Nat → IdtEntry) : Nat → IdtEntry :=
  let idt := (List.range exceptionNum).foldl
    (fun idt i => Function.update idt i ((idt i).setHandler (link (.exception i)))) idt
  let idt := Function.update idt pitVecNum ((idt pitVecNum).setHandler (link .pit))
  let idt := Function.update idt rtcVecNum ((idt rtcVecNum).setHandler (link .rtc))
  let idt := Function.update idt keyboardVecNum ((idt keyboardVecNum).setHandler (link .keyboard))
  let idt := Function.update idt systemcallId ((idt systemcallId).setHandler (link .systemcall))
  (List.range' exceptionNum (idtNum - exceptionNum)).foldl
    (fun idt i => Function.update idt i
      (if i = systemcallId ∨ i = rtcVecNum ∨ i = keyboardVecNum ∨ i = pitVecNum then idt i
      else (idt i).setHandler (link .default))) idt

/-- The information about entry `i`. -/
def IdtEntry.setInformation (e : IdtEntry) (i : Nat) : IdtEntry :=
  { e with
    segSelector := kernelCs
    size := true
    reserved0 := false
    reserved1 := true
    reserved2 := true
    reserved3 := i < exceptionNum ∨ i = systemcallId
    reserved4 := 0
    dpl := if i = systemcallId then 3 else 0 }

def IdtEntry.setPresent (e : IdtEntry) : IdtEntry := { e with present := true }

/-- `idt_setup`. -/
def idtSetup (link : Linkage → BitVec 32) (idt : Nat → IdtEntry) : Nat → IdtEntry :=
  let idt := idtHandlers link idt
  let idt := (List.range idtNum).foldl
    (fun idt i => Function.update idt i ((idt i).setInformation i)) idt
  let idt := (List.range exceptionNum).foldl
    (fun idt i => Function.update idt i (idt i).setPresent) idt
  let idt := Function.update idt pitVecNum (idt pitVecNum).setPresent
  let idt := Function.update idt rtcVecNum (idt rtcVecNum).setPresent
  let idt := Function.update idt keyboardVecNum (idt keyboardVecNum).setPresent
  Function.update idt systemcallId (idt systemcallId).setPresent

/-! ## What the processor reads -/

/-- A gate, as the processor takes it from the table. -/
structure IdtGate where
  handler : BitVec 32
  selector : BitVec 16
  dpl : BitVec 2
  masks : Bool
  deriving DecidableEq

/-- An entry that is present and an interrupt gate or a trap gate of 32 bits. -/
def readGate (w : BitVec 64) : Option IdtGate :=
  let access := w.extractLsb' 40 8
  let gate (masks : Bool) : IdtGate :=
    ⟨w.extractLsb' 48 16 ++ w.extractLsb' 0 16, w.extractLsb' 16 16, access.extractLsb' 5 2, masks⟩
  if access.getLsbD 7 then
    -- an interrupt gate keeps other interrupts away, a trap gate does not
    if access.extractLsb' 0 5 = 0b01110 then some (gate true)
    else if access.extractLsb' 0 5 = 0b01111 then some (gate false)
    else none
  else none

/-- The two halves of a handler's address. -/
theorem offset_setHandler (e : IdtEntry) (handler : BitVec 32) :
    (e.setHandler handler).offset3116 ++ (e.setHandler handler).offset1500 = handler := by
  have hhigh : ∀ i < 32, (0xFFFF0000 : BitVec 32).getLsbD i = decide (16 ≤ i) := by decide
  have hlow : ∀ i < 32, (0xFFFF : BitVec 32).getLsbD i = decide (i < 16) := by decide
  apply BitVec.eq_of_getLsbD_eq
  intro i hi
  simp only [IdtEntry.setHandler, BitVec.getLsbD_append, BitVec.getLsbD_setWidth,
    BitVec.getLsbD_ushiftRight, BitVec.getLsbD_and]
  by_cases hlt : i < 16
  · rw [hlow i hi]
    simp [hlt]
  · rw [hhigh (16 + (i - 16)) (by omega), Nat.add_sub_cancel' (by omega)]
    have hin : i - 16 < 16 := by omega
    simp [hlt, hin, Nat.le_of_not_lt hlt]

section Bits

variable (e : IdtEntry)

theorem access_bits : e.bits.extractLsb' 40 8 = e.access := by
  simp (disch := decide) only [IdtEntry.bits, BitVec.extractLsb'_append_eq_of_le,
    BitVec.extractLsb'_append_eq_of_add_le]
  simp

theorem offset3116_bits : e.bits.extractLsb' 48 16 = e.offset3116 := by
  simp (disch := decide) only [IdtEntry.bits, BitVec.extractLsb'_append_eq_of_le]
  simp

theorem segSelector_bits : e.bits.extractLsb' 16 16 = e.segSelector := by
  simp (disch := decide) only [IdtEntry.bits, BitVec.extractLsb'_append_eq_of_le,
    BitVec.extractLsb'_append_eq_of_add_le]
  simp

theorem offset1500_bits : e.bits.extractLsb' 0 16 = e.offset1500 := by
  simp (disch := decide) only [IdtEntry.bits, BitVec.extractLsb'_append_eq_of_add_le]
  simp

end Bits

/-- The access byte of an entry that `idt_setup` has filled. -/
theorem access_fields : ∀ (present trap : Bool) (dpl : BitVec 2),
    let access : BitVec 8 := BitVec.ofBool present ++ dpl ++ BitVec.ofBool false ++
      BitVec.ofBool true ++ BitVec.ofBool true ++ BitVec.ofBool true ++ BitVec.ofBool trap
    access.getLsbD 7 = present ∧ access.extractLsb' 5 2 = dpl ∧
      access.extractLsb' 0 5 = if trap then 0b01111 else 0b01110 := by decide

/-! ## The table after `idt_setup` -/

/-- The linkage of a vector. -/
def linkageOf (v : Nat) : Linkage :=
  if v < 20 then .exception v
  else if v = 0x20 then .pit
  else if v = 0x21 then .keyboard
  else if v = 0x28 then .rtc
  else if v = 0x80 then .systemcall
  else .default

/-- The vectors, sorted by what `idt_setup` does about them. -/
theorem vector_cases (v : Nat) : v < 20 ∨ v = 0x20 ∨ v = 0x21 ∨ v = 0x28 ∨ v = 0x80 ∨
    20 ≤ v ∧ v ≠ 0x20 ∧ v ≠ 0x21 ∧ v ≠ 0x28 ∧ v ≠ 0x80 := by omega

/-- The vectors of exceptions and of system calls, which do not keep interrupts away. -/
def IsTrap (v : Nat) : Prop := v < 20 ∨ v = 0x80

/-- The vectors that the processor may use. -/
def IsPresent (v : Nat) : Prop := IsTrap v ∨ v = 0x20 ∨ v = 0x21 ∨ v = 0x28

instance (v : Nat) : Decidable (IsTrap v) := inferInstanceAs (Decidable (_ ∨ _))

instance (v : Nat) : Decidable (IsPresent v) := inferInstanceAs (Decidable (_ ∨ _))

theorem idtHandlers_apply (link : Linkage → BitVec 32) (idt : Nat → IdtEntry) {v : Nat}
    (hv : v < 256) : idtHandlers link idt v = (idt v).setHandler (link (linkageOf v)) := by
  have hdefault := foldl_update (fun i (e : IdtEntry) =>
    if i = systemcallId ∨ i = rtcVecNum ∨ i = keyboardVecNum ∨ i = pitVecNum then e
    else e.setHandler (link .default))
    (List.nodup_range' 1 (s := exceptionNum) (n := idtNum - exceptionNum))
  rw [idtHandlers, hdefault]
  have hexceptions := foldl_update (fun i e => IdtEntry.setHandler e (link (.exception i)))
    (List.nodup_range (n := 20)) idt
  simp only [List.mem_range] at hexceptions
  simp only [Function.update_apply, exceptionNum, idtNum, systemcallId, rtcVecNum, keyboardVecNum,
    pitVecNum, hexceptions, List.mem_range'_1, linkageOf]
  -- the last loop leaves the four vectors alone that were filled one by one before it
  rcases vector_cases v with hlow | rfl | rfl | rfl | rfl | ⟨hhigh, hpit, hkey, hrtc, hcall⟩
  · simp [hlow, Nat.not_le_of_lt hlow, show v ≠ 32 by omega, show v ≠ 33 by omega,
      show v ≠ 40 by omega, show v ≠ 128 by omega]
  · simp
  · simp
  · simp
  · simp
  · simp [hhigh, Nat.not_lt_of_le hhigh, hpit, hkey, hrtc, hcall, hv]

theorem idtSetup_apply (link : Linkage → BitVec 32) (idt : Nat → IdtEntry) {v : Nat}
    (hv : v < 256) :
    idtSetup link idt v =
      if IsPresent v then ((idtHandlers link idt v).setInformation v).setPresent
      else (idtHandlers link idt v).setInformation v := by
  have hinformation := foldl_update (fun i e => IdtEntry.setInformation e i)
    (List.nodup_range (n := idtNum)) (idtHandlers link idt)
  have hpresent := foldl_update (fun _ e => IdtEntry.setPresent e)
    (List.nodup_range (n := exceptionNum))
  simp only [List.mem_range, exceptionNum, idtNum] at hinformation hpresent
  simp only [idtSetup, Function.update_apply, hpresent, hinformation, exceptionNum, idtNum,
    systemcallId, rtcVecNum, keyboardVecNum, pitVecNum, IsPresent, IsTrap]
  -- a vector of the last case has its information too, but is not marked as present
  rcases vector_cases v with hlow | rfl | rfl | rfl | rfl | ⟨hhigh, hpit, hkey, hrtc, hcall⟩
  · simp [hlow, hv, show v ≠ 32 by omega, show v ≠ 33 by omega, show v ≠ 40 by omega,
      show v ≠ 128 by omega]
  · simp
  · simp
  · simp
  · simp
  · simp [Nat.not_lt_of_le hhigh, hpit, hkey, hrtc, hcall, hv]

/-- **What the processor finds in the table**: at the vectors of the exceptions, of the three
    devices and of the system calls a gate of the kernel to the linkage of the vector, which
    programs may use for system calls only; at all other vectors nothing. -/
theorem readGate_idtSetup (link : Linkage → BitVec 32) {idt : Nat → IdtEntry} {v : Nat}
    (hv : v < 256) (hempty : (idt v).present = false) :
    readGate (idtSetup link idt v).bits =
      if IsPresent v then
        some ⟨link (linkageOf v), kernelCs, if v = 0x80 then 3 else 0, !decide (IsTrap v)⟩
      else none := by
  have hentry := idtSetup_apply link idt hv
  rw [idtHandlers_apply link idt hv] at hentry
  have hoffset := offset_setHandler (idt v) (link (linkageOf v))
  -- `idt_setup` never clears the bit, so a vector that it leaves out stays absent
  have habsent : ((idt v).setHandler (link (linkageOf v))).present = false := hempty
  generalize (idt v).setHandler (link (linkageOf v)) = e at hentry hoffset habsent
  generalize idtSetup link idt v = e' at hentry ⊢
  have hfields : e'.offset3116 ++ e'.offset1500 = link (linkageOf v) ∧
      e'.segSelector = kernelCs ∧
      e'.access = BitVec.ofBool (decide (IsPresent v)) ++
        (if v = 0x80 then 3 else 0 : BitVec 2) ++ BitVec.ofBool false ++ BitVec.ofBool true ++
        BitVec.ofBool true ++ BitVec.ofBool true ++ BitVec.ofBool (decide (IsTrap v)) := by
    rw [hentry]
    by_cases hp : IsPresent v
    · rw [if_pos hp, decide_eq_true hp]
      exact ⟨hoffset, rfl, rfl⟩
    · rw [if_neg hp, decide_eq_false hp]
      refine ⟨hoffset, rfl, ?_⟩
      simp only [IdtEntry.access, IdtEntry.setInformation, habsent]
      rfl
  obtain ⟨hhandler, hselector, haccess⟩ := hfields
  obtain ⟨hpresent, hdpl, htype⟩ := access_fields (decide (IsPresent v)) (decide (IsTrap v))
    (if v = 0x80 then 3 else 0)
  rw [← haccess] at hpresent hdpl htype
  simp only [readGate, access_bits, offset3116_bits, offset1500_bits, segSelector_bits, hpresent,
    hdpl, htype, hhandler, hselector]
  by_cases hp : IsPresent v
  · by_cases ht : IsTrap v
    · simp [hp, ht]
    · simp [hp, ht]
  · simp [hp]

/-- **One way into the kernel**: of all vectors a program may use that of the system calls and no
    other one, and behind it is a trap gate to `systemcall_handler_linkage`. -/
theorem program_gate_iff (link : Linkage → BitVec 32) {idt : Nat → IdtEntry}
    (hempty : ∀ v < 256, (idt v).present = false) :
    (∀ v < 256, (∃ g, readGate (idtSetup link idt v).bits = some g ∧ g.dpl = 3) ↔ v = 0x80) ∧
      readGate (idtSetup link idt 0x80).bits =
        some ⟨link .systemcall, kernelCs, 3, false⟩ := by
  -- the gate at 0x80 is the one `idt_setup` builds by itself
  have hcall : readGate (idtSetup link idt 0x80).bits =
      some ⟨link .systemcall, kernelCs, 3, false⟩ :=
    readGate_idtSetup link (v := 0x80) (by decide) (hempty 0x80 (by decide))
  refine ⟨fun v hv => ?_, hcall⟩
  constructor
  case mp =>
    -- a gate with privilege 3 at any other vector: the loops give 0 there
    intro ⟨g, hgate, hdpl⟩
    rw [readGate_idtSetup link hv (hempty v hv)] at hgate
    split at hgate
    case isFalse => cases hgate
    case isTrue =>
      obtain rfl := Option.some.inj hgate
      by_contra hne
      exact absurd ((if_neg hne).symm.trans hdpl) (by decide)
  case mpr =>
    rintro rfl
    exact ⟨_, hcall, rfl⟩

/-! ## The interrupts of the kernel -/

section Step

variable {a a' : IrqLines} {e : IrqEvent}

theorem enabled_step (hstep : a.step e = some a') {n : Nat} (hn : a'.enabled n = true) :
    a.enabled n = true ∨ e = .enable n := by
  -- both calls write one line: another one is as it was
  have hcall : ∀ m b, (a.setEnabled m b).enabled n = true →
      a.enabled n = true ∨ b = true ∧ m = n := by
    intro m b hset
    rw [IrqLines.setEnabled] at hset
    split at hset
    · simp only [Function.update_apply] at hset
      split at hset
      case isTrue hnm => exact .inr ⟨hset, hnm.symm⟩
      case isFalse => exact .inl hset
    · exact .inl hset
  cases e with
  | enable m =>
    obtain rfl := Option.some.inj hstep
    exact (hcall m true hn).imp_right fun hm => by rw [hm.2]
  | disable m =>
    obtain rfl := Option.some.inj hstep
    exact .inl ((hcall m false hn).resolve_right fun hm => Bool.noConfusion hm.1)
  | eoi m =>
    rw [IrqLines.step] at hstep
    split_ifs at hstep <;> obtain rfl := Option.some.inj hstep <;> exact .inl hn
  | request irq =>
    rw [IrqLines.step] at hstep
    split_ifs at hstep
    obtain rfl := Option.some.inj hstep
    exact .inl hn

theorem slaveMasked_step (hstep : a.step e = some a')
    (hmasked : a.slaveMasked = true ∨ e = .enable 8) : a'.slaveMasked = true := by
  -- `enable_irq` and `disable_irq` of a line from 8 on write the slave's mask
  have hcall : ∀ m b, a.slaveMasked = true ∨ m = 8 → (a.setEnabled m b).slaveMasked = true := by
    intro m b hm
    rw [IrqLines.setEnabled]
    split
    · rcases hm with hm | rfl
      · simp [hm]
      · simp
    case isFalse hlarge => exact hm.resolve_right (by omega)
  cases e with
  | enable m =>
    obtain rfl := Option.some.inj hstep
    exact hcall m true (hmasked.imp_right IrqEvent.enable.inj)
  | disable m =>
    obtain rfl := Option.some.inj hstep
    exact hcall m false (.inl (hmasked.resolve_right fun he => by cases he))
  | eoi m =>
    have hmasked := hmasked.resolve_right fun he => by cases he
    rw [IrqLines.step] at hstep
    split_ifs at hstep <;> obtain rfl := Option.some.inj hstep <;> exact hmasked
  | request irq =>
    have hmasked := hmasked.resolve_right fun he => by cases he
    rw [IrqLines.step] at hstep
    split_ifs at hstep
    obtain rfl := Option.some.inj hstep
    exact hmasked

end Step

/-- Only lines that a call has enabled are enabled. -/
theorem enabled_of_run {P : Nat → Prop} {es : List IrqEvent} {a a' : IrqLines}
    (hrun : exec IrqLines.step a es = some a') (hcalls : ∀ n, .enable n ∈ es → P n)
    (hstart : ∀ n, a.enabled n = true → P n) : ∀ n, a'.enabled n = true → P n := by
  induction es generalizing a with
  | nil =>
    obtain rfl := Option.some.inj hrun
    exact hstart
  | cons e es ih =>
    obtain ⟨a₁, hstep, hrest⟩ := exec_cons_iff.mp hrun
    refine ih hrest (fun n hn => hcalls n (List.mem_cons_of_mem _ hn)) fun n hn => ?_
    rcases enabled_step hstep hn with hbefore | rfl
    · exact hstart n hbefore
    · exact hcalls n List.mem_cons_self

theorem slaveMasked_of_run {es : List IrqEvent} {a a' : IrqLines}
    (hrun : exec IrqLines.step a es = some a')
    (hmasked : a.slaveMasked = true ∨ .enable 8 ∈ es) : a'.slaveMasked = true := by
  induction es generalizing a with
  | nil =>
    obtain rfl := Option.some.inj hrun
    exact hmasked.resolve_right List.not_mem_nil
  | cons e es ih =>
    obtain ⟨a₁, hstep, hrest⟩ := exec_cons_iff.mp hrun
    rcases hmasked with hmasked | hcall
    · exact ih hrest (.inl (slaveMasked_step hstep (.inl hmasked)))
    rcases List.mem_cons.mp hcall with hcall | hcall
    · exact ih hrest (.inl (slaveMasked_step hstep (.inr hcall.symm)))
    · exact ih hrest (.inr hcall)

/-- The linkage of an interrupt of the kernel's devices. -/
def irqLinkage (irq : Nat) : Linkage :=
  if irq = 0 then .pit else if irq = 1 then .keyboard else .rtc

/-- **Every interrupt finds its handler**: behind `idt_setup` and `i8259_init`, in every run in
    which only the lines of the timer, the keyboard and the RTC are enabled, the last one once at
    least, each interrupt that reaches the processor is of one of the three and finds a gate of the
    kernel to the linkage of its handler, which keeps other interrupts away. -/
theorem interrupt_finds_gate (link : Linkage → BitVec 32) {idt : Nat → IdtEntry}
    (hempty : ∀ v < 256, (idt v).present = false) {c : InterruptController}
    (hmaster : c.masterMask = maskAll) (hslave : c.slaveMask = maskAll) {es : List IrqEvent}
    {a : IrqLines} (hrun : exec IrqLines.step IrqLines.start es = some a)
    (hcalls : ∀ n, .enable n ∈ es → n = 0 ∨ n = 1 ∨ n = 8) (hrtc : .enable 8 ∈ es) :
    ∃ c', exec irqStep c.i8259Init es = some c' ∧
      ∀ irq < 16, irq ≠ 2 → ∀ v c'', c'.deliver irq = some (v, c'') →
        (irq = 0 ∨ irq = 1 ∨ irq = 8) ∧
          readGate (idtSetup link idt v.toNat).bits =
            some ⟨link (irqLinkage irq), kernelCs, 0, true⟩ := by
  obtain ⟨c', hchips, h⟩ := (IrqLines.Implemented.start hmaster hslave).exec hrun
  refine ⟨c', hchips, fun irq hirq hne v c'' hdeliver => ?_⟩
  -- what reaches the processor has passed the abstract lines
  have hvector := h.vector_deliver hirq
  rw [hdeliver, Option.map_some] at hvector
  have hpass : a.Passes irq := by
    by_contra hnot
    rw [if_neg hnot] at hvector
    cases hvector
  rw [if_pos hpass, Option.some.injEq] at hvector
  -- a line that passes is enabled, or is one of the slave's while the slave masks nothing
  have hline : irq = 0 ∨ irq = 1 ∨ irq = 8 := by
    rcases hpass.1 with henabled | ⟨_, hunmasked⟩
    · have hknown := enabled_of_run (P := fun n => n = 0 ∨ n = 1 ∨ n = 2 ∨ n = 8) hrun
        (fun n hn => by rcases hcalls n hn with rfl | rfl | rfl <;> simp)
        (fun n hn => by simp [show n = 2 from of_decide_eq_true hn]) irq henabled
      omega
    · rw [slaveMasked_of_run hrun (.inr hrtc)] at hunmasked
      cases hunmasked
  refine ⟨hline, ?_⟩
  rw [show v = BitVec.ofNat 8 (0x20 + irq) from hvector]
  -- the three gates, at the vectors that `i8259_init` has set
  rcases hline with rfl | rfl | rfl
  · exact readGate_idtSetup link (v := 0x20) (by decide) (hempty 0x20 (by decide))
  · exact readGate_idtSetup link (v := 0x21) (by decide) (hempty 0x21 (by decide))
  · exact readGate_idtSetup link (v := 0x28) (by decide) (hempty 0x28 (by decide))

/-- A table of zeros. -/
def zeroTable : Nat → IdtEntry :=
  fun _ => ⟨0, 0, 0, false, false, false, false, false, 0, false, 0⟩

/-- Addresses for the linkages. -/
def linkAddress : Linkage → BitVec 32
  | .keyboard => 0x401234
  | .systemcall => 0x405678
  | _ => 0x400000

theorem program_gate_iff_systemcall :
    (∀ v < 256, (∃ g, readGate (idtSetup linkAddress zeroTable v).bits = some g ∧ g.dpl = 3) ↔
        v = 0x80) ∧
      readGate (idtSetup linkAddress zeroTable 0x80).bits = some ⟨0x405678, 0x10, 3, false⟩ :=
  program_gate_iff linkAddress fun _ _ => rfl

/-- A key, after the calls that the kernel makes. -/
theorem interrupt_finds_gate_keyboard :
    ∃ c c', exec irqStep usedController.i8259Init [.enable 8, .enable 1, .enable 0] = some c ∧
      c.deliver 1 = some (0x21, c') ∧
      readGate (idtSetup linkAddress zeroTable 0x21).bits = some ⟨0x401234, 0x10, 0, true⟩ := by
  have hruns : (exec IrqLines.step IrqLines.start [.enable 8, .enable 1, .enable 0]).isSome := rfl
  obtain ⟨c, hchips, hgates⟩ := @interrupt_finds_gate linkAddress zeroTable (fun _ _ => rfl)
    usedController rfl rfl _ _ (Option.some_get hruns).symm (by simp) (by simp)
  -- the key reaches the processor with the vector of its line
  have hvector : ((exec irqStep usedController.i8259Init [.enable 8, .enable 1, .enable 0]).bind
      fun c => (c.deliver 1).map Prod.fst) = some 0x21 := by decide
  rw [hchips, Option.bind_some] at hvector
  obtain ⟨⟨v, c'⟩, hdeliver, rfl⟩ := Option.map_eq_some_iff.mp hvector
  exact ⟨c, c', hchips, hdeliver, (hgates 1 (by decide) (by decide) _ c' hdeliver).2⟩

end LinuxLikeOs
