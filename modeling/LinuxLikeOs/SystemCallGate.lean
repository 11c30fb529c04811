import LinuxLikeOs.Library.Gates386

/-!
# The way into the kernel

The library functions of the programs, `int $0x80`, and the assembly that stands between the gates
and the handlers.

- `doCall`, `systemcallHandlerLinkage`, `asmLink`: the assembly
- `handlerEntry`, `behindGate`: the states at the two ends of a handler
- `system_call_refused`: numbers that are in no table
- `system_call_returns`: a call of a library function calls its handler and returns its result
- `interrupt_transparent`: what an interrupt leaves of the code that it comes in between
-/

namespace LinuxLikeOs

open Library

/-! ## The assembly -/

/-- The functions in `systemcall_table`. -/
inductive SystemCallHandler where
  | halt | execute | read | write | «open» | close | getargs | vidmap | setHandler | sigreturn
  deriving DecidableEq

/-- `systemcall_table`. -/
def systemcallTable : List (Option SystemCallHandler) :=
  [none, some .halt, some .execute, some .read, some .write, some .open, some .close,
    some .getargs, some .vidmap, some .setHandler, some .sigreturn]

/-- `systemcall_handler_linkage`, which stands at index `g`. -/
def systemcallHandlerLinkage (g : Nat) : List (LinkInstr SystemCallHandler) :=
  [.instr .pushfl,
    .instr (.push .edi),
    .instr (.push .esi),
    .instr (.push .ebp),
    .instr (.push .edx),
    .instr (.push .ecx),
    .instr (.push .ebx),
    .instr (.cmp (.imm 1) .eax),
    .instr (.jump .l (g + 13)),
    .instr (.cmp (.imm 10) .eax),
    .instr (.jump .g (g + 13)),
    .callTable systemcallTable,
    .instr (.jump .always (g + 14)),
    -- ERROR_CALL_NUMBER
    .instr (.mov (.imm (-1)) .eax),
    -- systemcall_handler_linkage_return
    .instr (.pop .ebx),
    .instr (.pop .ecx),
    .instr (.pop .edx),
    .instr (.pop .ebp),
    .instr (.pop .esi),
    .instr (.pop .edi),
    .instr .popfl,
    .iret]

/-- `DO_CALL`. -/
def doCall (number : BitVec 32) : List (LinkInstr SystemCallHandler) :=
  [.instr (.push .ebx),
    .instr (.mov (.imm number) .eax),
    .instr (.load 8 .esp .ebx),
    .instr (.load 12 .esp .ecx),
    .instr (.load 16 .esp .edx),
    .int,
    .instr (.pop .ebx),
    .ret]

/-- `ASM_LINK`. -/
def asmLink {F : Type} (func : F) : List (LinkInstr F) :=
  [.pushal, .instr .pushfl, .call func, .instr .popfl, .popal, .iret]

/-! ## The system call gate -/

section Gate

variable {prog : List (LinkInstr SystemCallHandler)} {env : LinkEnv SystemCallHandler} {g : Nat}

/-- The words that the linkage saves, the first one first; the last three are the arguments. -/
def savedWords (c : Cpu) : List (BitVec 32) :=
  [c.eflags, c.reg .edi, c.reg .esi, c.reg .ebp, c.reg .edx, c.reg .ecx, c.reg .ebx]

/-- What the linkage saves is what `int` has left alone. -/
theorem savedWords_enter (t : Processor) (tss : Tss) (gate : Gate) (back : Nat) :
    (savedWords (t.enter tss gate back).cpu).reverse =
      [t.cpu.reg .ebx, t.cpu.reg .ecx, t.cpu.reg .edx, t.cpu.reg .ebp, t.cpu.reg .esi,
        t.cpu.reg .edi, (t.enter tss gate back).cpu.eflags] := by
  have hreg (r : Reg) (hr : r ≠ .esp) := t.reg_enter tss gate back hr
  simp only [savedWords, List.reverse_cons, List.reverse_nil, List.nil_append,
    List.cons_append, hreg _ (show Reg.ebx ≠ .esp by decide),
    hreg _ (show Reg.ecx ≠ .esp by decide), hreg _ (show Reg.edx ≠ .esp by decide),
    hreg _ (show Reg.ebp ≠ .esp by decide), hreg _ (show Reg.esi ≠ .esp by decide),
    hreg _ (show Reg.edi ≠ .esp by decide)]

/-- The state behind the pushes. -/
def behindPushes (g : Nat) (s : Processor) : Processor :=
  { s with cpu := { s.cpu.pushWords (savedWords s.cpu) with pc := g + 7 } }

theorem reg_behindPushes (g : Nat) (s : Processor) {r : Reg} (hr : r ≠ .esp) :
    (behindPushes g s).cpu.reg r = s.cpu.reg r := by
  simp only [behindPushes]
  exact Cpu.reg_pushWords s.cpu (savedWords s.cpu) hr

theorem esp_behindPushes (g : Nat) (s : Processor) :
    (behindPushes g s).cpu.reg .esp = s.cpu.reg .esp - 28 := by
  simp only [behindPushes]
  exact Cpu.esp_pushWords s.cpu (savedWords s.cpu)

theorem outside_behindPushes (g : Nat) (s : Processor) :
    ChangesOnly s.cpu.mem (behindPushes g s).cpu.mem (s.cpu.reg .esp - 28) 28 := by
  have hpushed := Cpu.outside_pushWords s.cpu (savedWords s.cpu) (show 4 * 7 ≤ 2 ^ 32 by decide)
  rw [Cpu.esp_pushWords] at hpushed
  simp only [behindPushes]
  exact hpushed

theorem onStack_behindPushes (g : Nat) {s : Processor} {below : List (BitVec 32)}
    (hbelow : s.cpu.OnStack below) (hlength : below.length ≤ 5) :
    (behindPushes g s).cpu.OnStack ((savedWords s.cpu).reverse ++ below) := by
  have hpushed := Cpu.onStack_pushWords hbelow (savedWords s.cpu)
    (by rw [show (savedWords s.cpu).length = 7 from rfl]; omega)
  simp only [behindPushes]
  exact hpushed

theorem reaches_pushes (hgate : HasBlock prog g (systemcallHandlerLinkage g)) {s d : Processor}
    (hpc : s.cpu.pc = g) (h : LinkReaches prog env (behindPushes g s) d) :
    LinkReaches prog env s d := by
  subst hpc
  have hcode (i : Nat) (hi : i < 22) := hgate i hi
  refine .step (hcode 0 (by decide)) rfl ?_
  refine .step (hcode 1 (by decide)) rfl ?_
  refine .step (hcode 2 (by decide)) rfl ?_
  refine .step (hcode 3 (by decide)) rfl ?_
  refine .step (hcode 4 (by decide)) rfl ?_
  refine .step (hcode 5 (by decide)) rfl ?_
  exact .step (hcode 6 (by decide)) rfl h

/-- The state behind the two comparisons, which change the flags only. -/
def behindChecks (g : Nat) (s : Processor) : Processor :=
  { s with cpu :=
      { s.cpu with
        eflags := compareFlags (compareFlags s.cpu.eflags 1 (s.cpu.reg .eax)) 10 (s.cpu.reg .eax)
        pc := g + 11 } }

theorem reg_behindChecks (g : Nat) (s : Processor) (r : Reg) :
    (behindChecks g s).cpu.reg r = s.cpu.reg r := by
  simp only [behindChecks]

theorem reaches_checks (hgate : HasBlock prog g (systemcallHandlerLinkage g)) {s d : Processor}
    (hpc : s.cpu.pc = g + 7) (hlow : (s.cpu.reg .eax).slt 1 = false)
    (hhigh : (10 : BitVec 32).slt (s.cpu.reg .eax) = false)
    (h : LinkReaches prog env (behindChecks g s) d) : LinkReaches prog env s d := by
  have hcode (i : Nat) (hi : i < 22) := hgate i hi
  obtain ⟨⟨reg, e, ds, es, pc, mem⟩, cs, ss⟩ := s
  obtain rfl : pc = g + 7 := hpc
  refine .step (hcode 7 (by decide)) rfl ?_
  refine .step (hcode 8 (by decide)) (congrArg (fun c => some (Processor.mk c cs ss))
    (if_neg (ne_true_of_eq_false ((Cpu.holds_l_compareFlags ..).trans hlow)))) ?_
  refine .step (hcode 9 (by decide)) rfl ?_
  refine .step (hcode 10 (by decide)) (congrArg (fun c => some (Processor.mk c cs ss))
    (if_neg (ne_true_of_eq_false ((Cpu.holds_g_compareFlags ..).trans hhigh)))) ?_
  exact h

/-- The gate of `int $0x80`, up to the call through the table. -/
theorem reaches_callTable (hgate : HasBlock prog g (systemcallHandlerLinkage g))
    {s d : Processor} (hpc : s.cpu.pc = g) (hlow : (s.cpu.reg .eax).slt 1 = false)
    (hhigh : (10 : BitVec 32).slt (s.cpu.reg .eax) = false)
    (h : LinkReaches prog env (behindChecks g (behindPushes g s)) d) :
    LinkReaches prog env s d := by
  have heax := reg_behindPushes g s (show Reg.eax ≠ .esp by decide)
  refine reaches_pushes hgate hpc (reaches_checks hgate rfl ?low ?high h)
  case low => rwa [heax]
  case high => rwa [heax]

/-- A number that is too small or too large. -/
theorem reaches_error (hgate : HasBlock prog g (systemcallHandlerLinkage g)) {s : Processor}
    (hpc : s.cpu.pc = g + 7)
    (hnumber : (s.cpu.reg .eax).slt 1 = true ∨ (10 : BitVec 32).slt (s.cpu.reg .eax) = true) :
    ∃ e, ∀ d, LinkReaches prog env
        { s with cpu := { s.cpu.set .eax (-1) with eflags := e, pc := g + 14 } } d →
      LinkReaches prog env s d := by
  have hcode (i : Nat) (hi : i < 22) := hgate i hi
  obtain ⟨⟨reg, e, ds, es, pc, mem⟩, cs, ss⟩ := s
  obtain rfl : pc = g + 7 := hpc
  -- below 1 the first jump is taken, above 10 the second one
  by_cases hlow : (reg .eax).slt 1 = true
  · refine ⟨compareFlags e 1 (reg .eax), fun d h => ?_⟩
    refine .step (hcode 7 (by decide)) rfl ?_
    refine .step (hcode 8 (by decide)) (congrArg (fun c => some (Processor.mk c cs ss))
      (if_pos ((Cpu.holds_l_compareFlags ..).trans hlow))) ?_
    exact .step (hcode 13 (by decide)) rfl h
  · have hhigh := hnumber.resolve_left hlow
    refine ⟨compareFlags (compareFlags e 1 (reg .eax)) 10 (reg .eax), fun d h => ?_⟩
    refine .step (hcode 7 (by decide)) rfl ?_
    refine .step (hcode 8 (by decide)) (congrArg (fun c => some (Processor.mk c cs ss))
      (if_neg ((Cpu.holds_l_compareFlags ..).trans_ne hlow))) ?_
    refine .step (hcode 9 (by decide)) rfl ?_
    refine .step (hcode 10 (by decide)) (congrArg (fun c => some (Processor.mk c cs ss))
      (if_pos ((Cpu.holds_g_compareFlags ..).trans hhigh))) ?_
    exact .step (hcode 13 (by decide)) rfl h

/-- At the entry of the handler. -/
def handlerEntry (g : Nat) (s : Processor) : Processor := (behindChecks g (behindPushes g s)).called

/-- The stack of the handler: the address behind the call, the three arguments, and what the linkage
    has saved in front of them. -/
theorem onStack_handlerEntry (g : Nat) {s : Processor} {below : List (BitVec 32)}
    (hbelow : s.cpu.OnStack below) (hlength : below.length ≤ 5) :
    (handlerEntry g s).cpu.OnStack
      (BitVec.ofNat 32 (g + 12) :: ((savedWords s.cpu).reverse ++ below)) := by
  have hsaved := onStack_behindPushes g hbelow hlength
  rw [Cpu.OnStack] at hsaved
  refine Processor.onStack_called (s := behindChecks g (behindPushes g s)) ?_ ?_
  · rw [Cpu.OnStack]
    simp only [behindChecks]
    exact hsaved
  rw [List.length_append, List.length_reverse, show (savedWords s.cpu).length = 7 from rfl]
  omega

theorem esp_handlerEntry (g : Nat) (s : Processor) :
    (handlerEntry g s).cpu.reg .esp = s.cpu.reg .esp - 32 := by
  have hesp : (behindChecks g (behindPushes g s)).cpu.reg .esp = s.cpu.reg .esp - 28 :=
    esp_behindPushes g s
  rw [handlerEntry, Processor.esp_called, hesp, BitVec.sub_sub]
  rfl

theorem outside_handlerEntry (g : Nat) (s : Processor) :
    ChangesOnly s.cpu.mem (handlerEntry g s).cpu.mem (s.cpu.reg .esp - 32) 32 := by
  have hesp : (behindChecks g (behindPushes g s)).cpu.reg .esp - 4 = s.cpu.reg .esp - 32 := by
    rw [← Processor.esp_called]
    exact esp_handlerEntry g s
  have hcall := Processor.outside_called (behindChecks g (behindPushes g s))
  rw [hesp] at hcall
  rw [show s.cpu.reg .esp - 32 = s.cpu.reg .esp - 28 - BitVec.ofNat 32 4 by bv_omega] at hcall ⊢
  exact (outside_behindPushes g s).below hcall (by decide)

/-- The supervisor's stack of a call from a program. -/
theorem outside_handlerEntry_user (g : Nat) {t : Processor} (tss : Tss) (gate : Gate) (back : Nat)
    (hmode : ¬ t.Supervisor) :
    ChangesOnly t.cpu.mem (handlerEntry g (t.enter tss gate back)).cpu.mem (tss.esp0 - 52) 52 := by
  have henter := t.outside_enter tss gate back
  have hpushes := outside_handlerEntry g (t.enter tss gate back)
  rw [t.esp_enter_user tss gate back hmode, t.length_frame_user back hmode] at henter
  rw [t.esp_enter_user tss gate back hmode] at hpushes
  have hboth := henter.below hpushes (by decide)
  rwa [BitVec.sub_sub] at hboth

/-- Behind the gate that `t` has gone through: the registers of the arguments have what the handler
    has left of them. -/
def behindGate (s t : Processor) (x y z : BitVec 32) (back : Nat) : Processor :=
  ⟨{ s.cpu with
      reg := fun r =>
        match r with
        | .eax => s.cpu.reg .eax
        | .ebx => x
        | .ecx => y
        | .edx => z
        | r => t.cpu.reg r
      eflags := t.cpu.eflags
      pc := back }, t.cs, t.ss⟩

/-- From the pops on: the three words on top go to the registers of the arguments, and the rest is
    as it was in front of the gate. -/
theorem reaches_return (hgate : HasBlock prog g (systemcallHandlerLinkage g)) {s t d : Processor}
    {tss : Tss} {gate : Gate} {back : Nat} {x y z e : BitVec 32} (hback : back < 2 ^ 32)
    (hpc : s.cpu.pc = g + 14)
    (hstack : s.cpu.OnStack
      ([x, y, z, t.cpu.reg .ebp, t.cpu.reg .esi, t.cpu.reg .edi, e] ++ t.frame back))
    (hesp : s.cpu.reg .esp + 28 = (t.enter tss gate back).cpu.reg .esp)
    (hss : s.ss = (t.enter tss gate back).ss)
    (h : LinkReaches prog env (behindGate s t x y z back) d) :
    LinkReaches prog env s d := by
  -- the six pops of the linkage, with the words the stack holds for them
  have hpops : HasBlock prog (g + 14) ([.ebx, .ecx, .edx, .ebp, .esi, .edi].map fun r =>
      LinkInstr.instr (F := SystemCallHandler) (.pop r)) :=
    HasBlock.part ((systemcallHandlerLinkage g).take 14) _ [.instr .popfl, .iret] hgate
  let l : List (Reg × BitVec 32) := [(.ebx, x), (.ecx, y), (.edx, z), (.ebp, t.cpu.reg .ebp),
    (.esi, t.cpu.reg .esi), (.edi, t.cpu.reg .edi)]
  have hl : .esp ∉ l.map Prod.fst :=
    show .esp ∉ [Reg.ebx, .ecx, .edx, .ebp, .esi, .edi] by decide
  refine .pops l (hpc ▸ hpops) hl hstack ?_
  -- behind them the flags and the frame of the gate are left
  have hflags := Cpu.onStack_popWords (l := l) hstack hl
  have htop := Cpu.esp_popWords s.cpu hl
  have hpopped := Cpu.pc_popWords s.cpu l
  have hds : (s.cpu.popWords l).ds = s.cpu.ds := rfl
  have hes : (s.cpu.popWords l).es = s.cpu.es := rfl
  have hmem := Cpu.mem_popWords s.cpu l
  -- what was popped is where it belongs, `eax` is as the handler left it
  have hregs : ∀ r, r ≠ .esp → (s.cpu.popWords l).reg r =
      match r with
      | .eax => s.cpu.reg .eax
      | .ebx => x
      | .ecx => y
      | .edx => z
      | r => t.cpu.reg r := by
    intro r hr
    cases r <;> first | rfl | exact absurd rfl hr
  -- from here on only these facts about the state behind the pops matter
  generalize s.cpu.popWords l = c at hflags htop hpopped hds hes hmem hregs ⊢
  have hcode (i : Nat) (hi : i < 22) := hgate i hi
  rw [hpc] at hpopped
  -- `popfl` takes the saved flags off the stack
  refine .step (i := .instr .popfl) ?_ rfl ?_
  · rw [hpopped]
    exact hcode 20 (by decide)
  have hframe : (c.exec .popfl).OnStack (t.frame back) :=
    Cpu.onStack_tail hflags rfl (Cpu.esp_popfl c)
  have hesp' : (c.exec .popfl).reg .esp = (t.enter tss gate back).cpu.reg .esp := by
    rw [Cpu.esp_popfl, htop, ← hesp, BitVec.add_assoc]
    rfl
  -- `iret` takes the frame, so the flags it restores are those of the caller
  have hiret := Processor.iret_frame (k := ⟨c.exec .popfl, s.cs, s.ss⟩) hback hframe hesp' hss
  refine .step (i := .iret) ?_ (congrArg some hiret) ?_
  · show prog[c.pc + 1]? = _
    rw [hpopped]
    exact hcode 21 (by decide)
  refine Eq.subst (motive := fun k => LinkReaches prog env k d) ?_ h
  simp only [behindGate, Processor.mk.injEq, Cpu.mk.injEq, and_true]
  constructor
  · funext r
    by_cases hr : r = .esp
    · rw [hr]
      simp only [Cpu.set, Function.update_self]
    · refine (hregs r hr).symm.trans ?_
      simp only [Cpu.set, Cpu.exec, Cpu.effect, Cpu.next, Function.update_of_ne hr]
  · exact ⟨trivial, hds.symm, hes.symm, trivial, hmem.symm⟩

/-- A handler that keeps to the calling convention comes back to the instruction behind `int`. -/
theorem reaches_behindGate (hgate : HasBlock prog g (systemcallHandlerLinkage g))
    {s t : Processor} {tss : Tss} {gate : Gate} {back : Nat} (hback : back < 2 ^ 32)
    (hfits : g + 12 < 2 ^ 32)
    (hreturns : Cdecl 3 (16 + 4 * (t.frame back).length)
      (handlerEntry g (t.enter tss gate back)) s) :
    ∃ x y z, ∀ d, LinkReaches prog env (behindGate s t x y z back) d →
      LinkReaches prog env s d := by
  have hlength := t.length_frame_le back
  have hstack := onStack_handlerEntry g (t.onStack_enter tss gate back) hlength
  have hesp := esp_handlerEntry g (t.enter tss gate back)
  have hss : (handlerEntry g (t.enter tss gate back)).ss = (t.enter tss gate back).ss := rfl
  rw [savedWords_enter] at hstack
  generalize (t.enter tss gate back).cpu.eflags = e at hstack
  generalize handlerEntry g (t.enter tss gate back) = s₁ at hreturns hstack hesp hss
  have hkept := hreturns.holdsWords [_, _, _, _] (_ :: _ :: _ :: _ :: t.frame back) hstack rfl
    (by
      simp only [List.length_cons]
      omega)
    (by omega)
  obtain ⟨hret, -⟩ := hstack
  have hpc : s.cpu.pc = g + 12 := by
    rw [hreturns.pc, hret, BitVec.toNat_ofNat, Nat.mod_eq_of_lt hfits]
  -- the words behind the arguments are as they were
  have haddr : s.cpu.reg .esp + BitVec.ofNat 32 (4 * 3) = s.cpu.reg .esp + 4 + 4 + 4 := by bv_omega
  rw [haddr] at hkept
  have hcode : prog[s.cpu.pc]? = some (.instr (.jump .always (g + 14))) := by
    rw [hpc]
    exact hgate 12 (show 12 < 22 by decide)
  obtain ⟨x, y, z, hwords⟩ : ∃ x y z, s.cpu.OnStack
      ([x, y, z, t.cpu.reg .ebp, t.cpu.reg .esi, t.cpu.reg .edi, e] ++ t.frame back) :=
    ⟨_, _, _, rfl, rfl, rfl, hkept⟩
  refine ⟨x, y, z, fun d h => .step hcode rfl ?_⟩
  refine reaches_return hgate hback rfl hwords ?_ (hreturns.ss.trans hss) h
  show s.cpu.reg .esp + 28 = _
  rw [hreturns.esp, hesp]
  bv_omega

/-- Back from the branch that refuses the number. -/
theorem reaches_refused (hgate : HasBlock prog g (systemcallHandlerLinkage g)) {v t : Processor}
    (tss : Tss) (gate : Gate) {back : Nat} {e e' : BitVec 32} (hback : back < 2 ^ 32)
    (hstack : v.cpu.OnStack ([t.cpu.reg .ebx, t.cpu.reg .ecx, t.cpu.reg .edx, t.cpu.reg .ebp,
      t.cpu.reg .esi, t.cpu.reg .edi, e] ++ t.frame back))
    (hesp : v.cpu.reg .esp + 28 = (t.enter tss gate back).cpu.reg .esp)
    (hss : v.ss = (t.enter tss gate back).ss) (hds : v.cpu.ds = t.cpu.ds)
    (hes : v.cpu.es = t.cpu.es) :
    LinkReaches prog env
      { v with cpu := { v.cpu.set .eax (-1) with eflags := e', pc := g + 14 } }
      { t with cpu := { t.cpu.set .eax (-1) with pc := back, mem := v.cpu.mem } } := by
  have hkept : (v.cpu.set .eax (-1)).reg .esp = v.cpu.reg .esp := rfl
  refine reaches_return (x := t.cpu.reg .ebx) (y := t.cpu.reg .ecx) (z := t.cpu.reg .edx) (e := e)
    hgate hback rfl ?stack ?esp hss ?rest
  case stack =>
    rw [Cpu.OnStack] at hstack ⊢
    rw [← hkept] at hstack
    exact hstack
  case esp => exact (congrArg (· + 28) hkept).trans hesp
  case rest =>
    -- the error code in `eax` is all that differs from the state at the call
    refine Eq.subst (motive := fun k => LinkReaches prog env k _) ?_ .refl
    simp only [behindGate, Processor.mk.injEq, Cpu.mk.injEq, and_true]
    refine ⟨?_, rfl, hds.symm, hes.symm, trivial, rfl⟩
    funext r
    cases r <;> rfl

/-- **Other numbers**: `int $0x80` with a number that is not in the table puts -1 in `eax`; every
    other register, the flags, and all memory but the supervisor's stack are as they were. -/
theorem system_call_refused (hgate : HasBlock prog g (systemcallHandlerLinkage g))
    (hentry : env.gate.entry = g) {s : Processor} (hint : prog[s.cpu.pc]? = some .int)
    (hback : s.cpu.pc + 1 < 2 ^ 32)
    (hnumber : (s.cpu.reg .eax).slt 1 = true ∨ (10 : BitVec 32).slt (s.cpu.reg .eax) = true) :
    ∃ mem, LinkReaches prog env s
        { s with cpu := { s.cpu.set .eax (-1) with pc := s.cpu.pc + 1, mem := mem } } ∧
      ChangesOnly s.cpu.mem mem
        ((s.enter env.tss env.gate (s.cpu.pc + 1)).cpu.reg .esp - 28)
        (28 + 4 * (s.frame (s.cpu.pc + 1)).length) := by
  -- entering the gate: the frame on the kernel's stack, the other registers as they were
  have hlength := s.length_frame_le (s.cpu.pc + 1)
  have hframe := s.onStack_enter env.tss env.gate (s.cpu.pc + 1)
  have hout := s.outside_enter env.tss env.gate (s.cpu.pc + 1)
  have hsaved := savedWords_enter s env.tss env.gate (s.cpu.pc + 1)
  have heax := s.reg_enter env.tss env.gate (s.cpu.pc + 1) (show Reg.eax ≠ .esp by decide)
  have hpc : (s.enter env.tss env.gate (s.cpu.pc + 1)).cpu.pc = g := hentry
  have hsegments := s.segments_enter env.tss env.gate (s.cpu.pc + 1)
  -- the seven pushes of the linkage
  have hstack := onStack_behindPushes g hframe hlength
  rw [hsaved] at hstack
  have hesp := esp_behindPushes g (s.enter env.tss env.gate (s.cpu.pc + 1))
  have heax' := (reg_behindPushes g _ (show Reg.eax ≠ .esp by decide)).trans heax
  -- the number is refused before anything else happens
  obtain ⟨e, herror⟩ : ∃ e, ∀ d, LinkReaches prog env _ d → LinkReaches prog env _ d :=
    reaches_error hgate (s := behindPushes g (s.enter env.tss env.gate (s.cpu.pc + 1))) rfl
      (by rwa [heax'])
  -- the only memory written is the frame and the seven words below it
  refine ⟨(behindPushes g (s.enter env.tss env.gate (s.cpu.pc + 1))).cpu.mem,
    .step hint rfl (reaches_pushes hgate hpc (herror _ ?run)), ?mem⟩
  case run =>
    refine reaches_refused hgate env.tss env.gate hback hstack ?esp rfl hsegments.1 hsegments.2
    rw [hesp, BitVec.sub_add_cancel]
  case mem =>
    exact hout.below (m := 28) (outside_behindPushes g _) (by omega)

/-! ## The library functions -/

/-- At `int`, in a library function that has found `a`, `b` and `c` as its arguments. -/
def atInt (p : Nat) (number : BitVec 32) (s : Processor) (a b c : BitVec 32) : Processor :=
  { s with cpu :=
      { s.cpu.pushWord (s.cpu.reg .ebx) with
        reg := fun r =>
          match r with
          | .eax => number
          | .ebx => a
          | .ecx => b
          | .edx => c
          | .esp => s.cpu.reg .esp - 4
          | r => s.cpu.reg r
        pc := p + 5 } }

variable {p : Nat} {number : BitVec 32}

/-- `ebx` is on the stack in front of the return address. -/
theorem onStack_atInt (p : Nat) (number : BitVec 32) {s : Processor} {ws : List (BitVec 32)}
    (a b c : BitVec 32) (hstack : s.cpu.OnStack ws) (hfits : 4 * ws.length + 4 ≤ 2 ^ 32) :
    (atInt p number s a b c).cpu.OnStack (s.cpu.reg .ebx :: ws) :=
  HoldsWords.push hstack hfits (s.cpu.reg .ebx)

theorem reaches_int (hwrapper : HasBlock prog p (doCall number)) {s d : Processor}
    {ret a b c : BitVec 32} (hpc : s.cpu.pc = p) (hstack : s.cpu.OnStack [ret, a, b, c])
    (h : LinkReaches prog env (atInt p number s a b c) d) : LinkReaches prog env s d := by
  subst hpc
  have hpushed := onStack_atInt s.cpu.pc number a b c hstack
    (show 4 * 4 + 4 ≤ 2 ^ 32 by decide)
  -- the arguments are behind `ebx` and the return address
  have ha := hpushed.getElem (show 2 < 5 by decide)
  have hb := hpushed.getElem (show 3 < 5 by decide)
  have hc := hpushed.getElem (show 4 < 5 by decide)
  have hcode (i : Nat) (hi : i < 8) := hwrapper i hi
  refine .step (hcode 0 (by decide)) rfl ?_
  refine .step (hcode 1 (by decide)) rfl ?_
  refine .step (hcode 2 (by decide)) rfl ?_
  refine .step (hcode 3 (by decide)) rfl ?_
  refine .step (hcode 4 (by decide)) rfl ?_
  refine Eq.subst (motive := fun k => LinkReaches prog env k d) ?_ h
  simp only [atInt, Processor.mk.injEq, and_true]
  refine (Cpu.mk.injEq ..).mpr ⟨?_, rfl, rfl, rfl, rfl, rfl⟩
  funext r
  cases r with
  | ebx => exact ha.symm
  | ecx => exact hb.symm
  | edx => exact hc.symm
  | _ => rfl

/-- The numbers in the table pass both comparisons. -/
theorem checks_of_table {f : SystemCallHandler}
    (htable : systemcallTable[number.toNat]? = some (some f)) :
    number.slt 1 = false ∧ (10 : BitVec 32).slt number = false := by
  have hlt : number.toNat < 11 := (List.getElem?_eq_some_iff.mp htable).1
  have hne : number.toNat ≠ 0 := by
    intro hzero
    rw [hzero] at htable
    cases htable
  rw [BitVec.slt_eq_decide, BitVec.slt_eq_decide, decide_eq_false_iff_not, decide_eq_false_iff_not,
    BitVec.toInt_eq_toNat_of_lt (by omega)]
  constructor
  · show ¬ (_ < (1 : Int))
    omega
  · show ¬ ((10 : Int) < _)
    omega

/-- The way to the handler: its stack, and the call itself. -/
theorem reaches_handler (hwrapper : HasBlock prog p (doCall number))
    (hgate : HasBlock prog g (systemcallHandlerLinkage g)) (hentry : env.gate.entry = g)
    {f : SystemCallHandler} (htable : systemcallTable[number.toNat]? = some (some f))
    {s : Processor} {ret a b c : BitVec 32} (hpc : s.cpu.pc = p)
    (hstack : s.cpu.OnStack [ret, a, b, c]) {s₀ : Processor}
    (hs₀ : s₀ = behindChecks g
      (behindPushes g ((atInt p number s a b c).enter env.tss env.gate (p + 6)))) :
    LinkReaches prog env s s₀ ∧
      prog[s₀.cpu.pc]?.bind (LinkInstr.perform env s₀) = env.result f s₀.called := by
  obtain ⟨hlow, hhigh⟩ := checks_of_table htable
  have heax : ((atInt p number s a b c).enter env.tss env.gate (p + 6)).cpu.reg .eax = number :=
    Processor.reg_enter _ _ _ _ (show Reg.eax ≠ .esp by decide)
  have hint : prog[(atInt p number s a b c).cpu.pc]? = some .int :=
    hwrapper 5 (show 5 < 8 by decide)
  constructor
  · refine reaches_int hwrapper hpc hstack (.step hint rfl ?_)
    change LinkReaches prog env ((atInt p number s a b c).enter env.tss env.gate (p + 6)) s₀
    refine reaches_callTable hgate hentry ?low ?high ?rest
    case low => rwa [heax]
    case high => rwa [heax]
    case rest =>
      rw [hs₀]
      exact .refl
  · have hcall : prog[s₀.cpu.pc]? = some (.callTable systemcallTable) := by
      rw [hs₀]
      exact hgate 11 (show 11 < 22 by decide)
    -- nothing between the wrapper and the call through the table writes `eax`
    have hnumber : s₀.cpu.reg .eax = number := by
      rw [hs₀, reg_behindChecks, reg_behindPushes g _ (show Reg.eax ≠ .esp by decide), heax]
    rw [hcall, Option.bind_some, LinkInstr.perform, hnumber, htable]
    rfl

/-- Behind `int`, back to the caller of the library function. -/
theorem reaches_ret (hwrapper : HasBlock prog p (doCall number)) {v : Processor}
    {w ret : BitVec 32} (hpc : v.cpu.pc = p + 6) (hstack : v.cpu.OnStack [w, ret]) :
    LinkReaches prog env v
      { v with cpu :=
          { (v.cpu.set .esp (v.cpu.reg .esp + 8)).set .ebx w with pc := ret.toNat } } := by
  -- `pop` gives `ebx` back, then `ret` goes to the caller of the wrapper
  have hpop : prog[v.cpu.pc]? = some (.instr (.pop .ebx)) := by
    rw [hpc]
    exact hwrapper 6 (show 6 < 8 by decide)
  have hpopped : v.cpu.exec (.pop .ebx) = ((v.cpu.set .esp (v.cpu.reg .esp + 4)).set .ebx w).next :=
    congrArg Cpu.next (Cpu.effect_pop hstack .ebx)
  refine .step hpop (congrArg (fun c => some (Processor.mk c v.cs v.ss)) hpopped) ?_
  have hret : prog[v.cpu.pc + 1]? = some .ret := by
    rw [hpc]
    exact hwrapper 7 (show 7 < 8 by decide)
  refine .step hret rfl ?_
  refine Eq.subst (motive := fun k => LinkReaches prog env k _) ?_ .refl
  have hword : loadWord v.cpu.mem (v.cpu.reg .esp + 4) = ret := hstack.2.1
  refine (Processor.mk.injEq ..).mpr ⟨(Cpu.mk.injEq ..).mpr ⟨?_, rfl, rfl, rfl, ?_, rfl⟩, rfl, rfl⟩
  · funext r
    cases r with
    | esp => exact (BitVec.add_assoc (v.cpu.reg .esp) 4 4).symm
    | _ => rfl
  · exact congrArg BitVec.toNat hword.symm

/-- **A call of a library function calls its handler**, with the three arguments on the supervisor's
    stack and no other memory changed than that stack and the word below the program's own stack.
    If the handler keeps to the calling convention and leaves that word and the return address
    alone, the library function keeps to it too: it returns to the program what the handler has
    returned, with the memory that the handler has left and the flags of the call. -/
theorem system_call_returns (hwrapper : HasBlock prog p (doCall number))
    (hgate : HasBlock prog g (systemcallHandlerLinkage g)) (hentry : env.gate.entry = g)
    (hp : p + 6 < 2 ^ 32) (hg : g + 12 < 2 ^ 32) {f : SystemCallHandler}
    (htable : systemcallTable[number.toNat]? = some (some f)) {s : Processor}
    {ret a b c : BitVec 32} (hpc : s.cpu.pc = p) (hstack : s.cpu.OnStack [ret, a, b, c])
    (hmode : ¬ s.Supervisor)
    (hapart : Apart (env.tss.esp0 - 52) 52 (s.cpu.reg .esp - 4) 20) :
    ∃ s₀, LinkReaches prog env s s₀ ∧
      prog[s₀.cpu.pc]?.bind (LinkInstr.perform env s₀) = env.result f s₀.called ∧
      s₀.called.cpu.reg .esp = env.tss.esp0 - 52 ∧
      s₀.called.cpu.OnStack [BitVec.ofNat 32 (g + 12), a, b, c] ∧
      (∀ x, 52 ≤ (x - (env.tss.esp0 - 52)).toNat → 4 ≤ (x - (s.cpu.reg .esp - 4)).toNat →
        s₀.called.cpu.mem x = s.cpu.mem x) ∧
      ∀ s₂, env.result f s₀.called = some s₂ → Cdecl 3 36 s₀.called s₂ →
        KeepsBytes s₀.called.cpu.mem s₂.cpu.mem (s.cpu.reg .esp - 4) 8 →
        ∃ s₃, LinkReaches prog env s s₃ ∧ Cdecl 3 0 s s₃ ∧
          s₃.cpu.reg .eax = s₂.cpu.reg .eax ∧ s₃.cpu.eflags = s.cpu.eflags ∧
          s₃.cpu.mem = s₂.cpu.mem := by
  have hmode' : ¬ (atInt p number s a b c).Supervisor := hmode
  obtain ⟨s₀, hs₀⟩ : ∃ s₀, s₀ = behindChecks g (behindPushes g
    ((atInt p number s a b c).enter env.tss env.gate (p + 6))) := ⟨_, rfl⟩
  obtain ⟨hreach, hcall⟩ := reaches_handler hwrapper hgate hentry htable hpc hstack hs₀
  have hcalled : s₀.called =
      handlerEntry g ((atInt p number s a b c).enter env.tss env.gate (p + 6)) := by rw [hs₀]; rfl
  have hout := outside_handlerEntry_user g env.tss env.gate (p + 6) hmode'
  rw [← hcalled] at hout
  refine ⟨s₀, hreach, hcall, ?esp, ?stack, ?memory, ?returns⟩
  case esp =>
    rw [hcalled, esp_handlerEntry, Processor.esp_enter_user _ _ _ _ hmode', BitVec.sub_sub]
    rfl
  case stack =>
    have hentered := onStack_handlerEntry g (Processor.onStack_enter _ env.tss env.gate (p + 6))
      (Processor.length_frame_le (atInt p number s a b c) (p + 6))
    rw [savedWords_enter, ← hcalled] at hentered
    obtain ⟨hback, ha, hb, hc, -⟩ := hentered
    exact ⟨hback, ha, hb, hc, trivial⟩
  case memory =>
    intro x hkernel hword
    exact (hout x hkernel).trans (changesOnly_storeWord _ _ _ x hword)
  case returns =>
    intro s₂ hresult hconv hkept
    have hframe : 36 = 16 + 4 * ((atInt p number s a b c).frame (p + 6)).length := by
      rw [Processor.length_frame_user _ _ hmode']
    rw [hframe, hcalled] at hconv
    obtain ⟨x, y, z, hbehind⟩ : ∃ x y z, ∀ d, LinkReaches prog env
        (behindGate s₂ (atInt p number s a b c) x y z (p + 6)) d → LinkReaches prog env s₂ d :=
      reaches_behindGate hgate hp hg hconv
    -- `ebx` and the return address are still on the program's stack
    have hslots : (behindGate s₂ (atInt p number s a b c) x y z (p + 6)).cpu.OnStack
        [s.cpu.reg .ebx, ret] := by
      have hheld := onStack_atInt p number a b c hstack
        (show 4 * 4 + 4 ≤ 2 ^ 32 by decide)
      have hfirst : HoldsWords (atInt p number s a b c).cpu.mem (s.cpu.reg .esp - 4)
          [s.cpu.reg .ebx, ret] := ⟨hheld.1, hheld.2.1, trivial⟩
      have hcall := (hout.keeps hapart).mono (b := s.cpu.reg .esp - 4) (m := 8)
        (by rw [BitVec.sub_self]; decide)
      exact hfirst.of_keeps (hcall.trans hkept) (show 4 * 2 ≤ 2 ^ 32 by decide)
    have hstep : prog[s₀.cpu.pc]?.bind (LinkInstr.perform env s₀) = some s₂ := hcall.trans hresult
    refine ⟨_, hreach.trans (.head hstep (hbehind _ (reaches_ret hwrapper rfl hslots))),
      ?conv, rfl, rfl, rfl⟩
    constructor
    case pc => exact congrArg BitVec.toNat hstack.1.symm
    case esp =>
      show s.cpu.reg .esp - 4 + 8 = _
      bv_omega
    case saved =>
      rintro r (rfl | rfl | rfl | rfl) <;> rfl
    case cs => rfl
    case ss => rfl
    case memory => exact fun _ hx => absurd hx (Nat.not_lt_zero _)

end Gate

/-- A program in front of a call of `ece391_read`. -/
def readCaller : Processor where
  cpu :=
    { reg := fun r => if r = .esp then 0x83FFF00 else 7, eflags := 0x202, ds := 0x2B, es := 0x2B
      pc := 0, mem := fun _ => 0 }
  cs := 0x23
  ss := 0x2B

/-- A kernel of which every handler returns 5. -/
def returnsFive {F : Type} (entry : Nat) : LinkEnv F where
  tss := ⟨0x800000, 0x18⟩
  gate := ⟨0x10, entry, false⟩
  result _ s := some { s.ret with cpu := s.ret.cpu.set .eax 5 }

theorem cdecl_returnsFive (args frame : Nat) (s : Processor) :
    Cdecl args frame s { s.ret with cpu := s.ret.cpu.set .eax 5 } := by
  constructor
  case pc => rfl
  case esp => rfl
  case saved => rintro r (rfl | rfl | rfl | rfl) <;> rfl
  case cs => rfl
  case ss => rfl
  case memory => exact fun _ _ => rfl

theorem system_call_returns_read :
    ∃ s, LinkReaches (doCall 3 ++ systemcallHandlerLinkage 8) (returnsFive 8) readCaller s ∧
      Cdecl 3 0 readCaller s ∧ s.cpu.reg .eax = 5 ∧ s.cpu.eflags = 0x202 := by
  have hblocks := hasBlock_self (doCall 3 ++ systemcallHandlerLinkage 8)
  have hwrapper := HasBlock.part [] (doCall 3) (systemcallHandlerLinkage 8) hblocks
  have hgate : HasBlock (doCall 3 ++ systemcallHandlerLinkage 8) 8 (systemcallHandlerLinkage 8) :=
    HasBlock.part (doCall 3) (systemcallHandlerLinkage 8) [] (by rwa [List.append_nil])
  have hentry : (returnsFive 8 : LinkEnv SystemCallHandler).gate.entry = 8 := rfl
  have htable : systemcallTable[(3 : BitVec 32).toNat]? = some (some .read) := rfl
  have hstack : readCaller.cpu.OnStack [0, 0, 0, 0] := ⟨rfl, rfl, rfl, rfl, trivial⟩
  obtain ⟨s₀, -, -, -, -, -, hreturns⟩ := system_call_returns hwrapper hgate hentry (by decide)
    (by decide) htable rfl hstack (by decide) (by constructor <;> decide)
  obtain ⟨s, hreach, hconv, heax, hflags, -⟩ :=
    hreturns _ rfl (cdecl_returnsFive 3 36 _) fun _ _ => rfl
  exact ⟨s, hreach, hconv, heax, hflags⟩

/-- There is no handler 11. -/
theorem system_call_refused_eleven :
    ∃ mem, LinkReaches (.int :: systemcallHandlerLinkage 1) (returnsFive 1)
      { readCaller with cpu := readCaller.cpu.set .eax 11 }
      { readCaller with cpu := { readCaller.cpu.set .eax (-1) with pc := 1, mem := mem } } := by
  have hblocks := hasBlock_self (.int :: systemcallHandlerLinkage 1)
  have hgate : HasBlock (.int :: systemcallHandlerLinkage 1) 1 (systemcallHandlerLinkage 1) :=
    HasBlock.part [.int] (systemcallHandlerLinkage 1) [] (by rwa [List.append_nil])
  have hentry : (returnsFive 1 : LinkEnv SystemCallHandler).gate.entry = 1 := rfl
  obtain ⟨mem, hreach, -⟩ := system_call_refused hgate hentry
    (s := { readCaller with cpu := readCaller.cpu.set .eax 11 }) rfl (by decide)
    (.inr (by decide))
  refine ⟨mem, ?_⟩
  refine Eq.subst (motive := fun s => LinkReaches _ (returnsFive 1) _ s) ?_ hreach
  refine (Processor.mk.injEq ..).mpr ⟨(Cpu.mk.injEq ..).mpr ⟨?_, rfl, rfl, rfl, rfl, rfl⟩, rfl, rfl⟩
  funext r
  cases r <;> rfl

/-! ## Interrupts -/

section Interrupt

variable {F : Type} {prog : List (LinkInstr F)} {env : LinkEnv F} {h : Nat} {func : F}

/-- The words that `pushal` and `pushfl` save, the first one first. -/
def savedByLink (c : Cpu) : List (BitVec 32) :=
  [c.reg .eax, c.reg .ecx, c.reg .edx, c.reg .ebx, c.reg .esp, c.reg .ebp, c.reg .esi, c.reg .edi,
    c.eflags]

/-- The state in front of the call. -/
def behindSaves (h : Nat) (s : Processor) : Processor :=
  { s with cpu := { s.cpu.pushWords (savedByLink s.cpu) with pc := h + 2 } }

theorem reaches_saves (hlink : HasBlock prog h (asmLink func)) {s d : Processor}
    (hpc : s.cpu.pc = h) (hd : LinkReaches prog env (behindSaves h s) d) :
    LinkReaches prog env s d := by
  subst hpc
  refine .step (hlink 0 (show 0 < 6 by decide)) rfl ?_
  exact .step (hlink 1 (show 1 < 6 by decide)) rfl hd

theorem esp_behindSaves (h : Nat) (s : Processor) :
    (behindSaves h s).cpu.reg .esp = s.cpu.reg .esp - 36 := by
  simp only [behindSaves]
  exact Cpu.esp_pushWords s.cpu (savedByLink s.cpu)

theorem outside_behindSaves (h : Nat) (s : Processor) :
    ChangesOnly s.cpu.mem (behindSaves h s).cpu.mem (s.cpu.reg .esp - 36) 36 := by
  have hpushed := Cpu.outside_pushWords s.cpu (savedByLink s.cpu) (show 4 * 9 ≤ 2 ^ 32 by decide)
  rw [Cpu.esp_pushWords] at hpushed
  simp only [behindSaves]
  exact hpushed

theorem onStack_behindSaves (h : Nat) {s : Processor} {below : List (BitVec 32)}
    (hbelow : s.cpu.OnStack below) (hlength : below.length ≤ 5) :
    (behindSaves h s).cpu.OnStack ((savedByLink s.cpu).reverse ++ below) := by
  have hpushed := Cpu.onStack_pushWords hbelow (savedByLink s.cpu)
    (by rw [show (savedByLink s.cpu).length = 9 from rfl]; omega)
  simp only [behindSaves]
  exact hpushed

theorem savedByLink_enter (t : Processor) (tss : Tss) (gate : Gate) (back : Nat) :
    (savedByLink (t.enter tss gate back).cpu).reverse =
      [(t.enter tss gate back).cpu.eflags, t.cpu.reg .edi, t.cpu.reg .esi, t.cpu.reg .ebp,
        (t.enter tss gate back).cpu.reg .esp, t.cpu.reg .ebx, t.cpu.reg .edx, t.cpu.reg .ecx,
        t.cpu.reg .eax] := by
  have hreg (r : Reg) (hr : r ≠ .esp) := t.reg_enter tss gate back hr
  simp only [savedByLink, List.reverse_cons, List.reverse_nil, List.nil_append,
    List.cons_append, hreg _ (show Reg.eax ≠ .esp by decide),
    hreg _ (show Reg.ecx ≠ .esp by decide), hreg _ (show Reg.edx ≠ .esp by decide),
    hreg _ (show Reg.ebx ≠ .esp by decide), hreg _ (show Reg.ebp ≠ .esp by decide),
    hreg _ (show Reg.esi ≠ .esp by decide), hreg _ (show Reg.edi ≠ .esp by decide)]

/-- From `popfl` on: all that was saved comes back. -/
theorem reaches_iret (hlink : HasBlock prog h (asmLink func)) {s t : Processor} {tss : Tss}
    {gate : Gate} {back : Nat} {e sp : BitVec 32} (hback : back < 2 ^ 32) (hpc : s.cpu.pc = h + 3)
    (hstack : s.cpu.OnStack ([e, t.cpu.reg .edi, t.cpu.reg .esi, t.cpu.reg .ebp, sp,
      t.cpu.reg .ebx, t.cpu.reg .edx, t.cpu.reg .ecx, t.cpu.reg .eax] ++ t.frame back))
    (hesp : s.cpu.reg .esp + 36 = (t.enter tss gate back).cpu.reg .esp)
    (hss : s.ss = (t.enter tss gate back).ss) :
    LinkReaches prog env s
      ⟨{ s.cpu with reg := t.cpu.reg, eflags := t.cpu.eflags, pc := back }, t.cs, t.ss⟩ := by
  have hflags : prog[s.cpu.pc]? = some (.instr .popfl) := by
    rw [hpc]
    exact hlink 3 (show 3 < 6 by decide)
  refine .step hflags rfl ?_
  have htop : (s.cpu.exec .popfl).reg .esp = s.cpu.reg .esp + 4 := Cpu.esp_popfl s.cpu
  have hsaved : (s.cpu.exec .popfl).OnStack ([t.cpu.reg .edi, t.cpu.reg .esi, t.cpu.reg .ebp, sp,
      t.cpu.reg .ebx, t.cpu.reg .edx, t.cpu.reg .ecx, t.cpu.reg .eax] ++ t.frame back) :=
    Cpu.onStack_tail hstack rfl htop
  have hnext : (s.cpu.exec .popfl).pc = h + 4 := congrArg (· + 1) hpc
  have hds : (s.cpu.exec .popfl).ds = s.cpu.ds := rfl
  have hes : (s.cpu.exec .popfl).es = s.cpu.es := rfl
  have hmem : (s.cpu.exec .popfl).mem = s.cpu.mem := rfl
  generalize s.cpu.exec .popfl = c at htop hsaved hnext hds hes hmem ⊢
  have hpopal : prog[c.pc]? = some .popal := by
    rw [hnext]
    exact hlink 4 (show 4 < 6 by decide)
  -- `popal` passes over the saved `esp`; `iret` takes the program's from the frame
  have hrestored := Processor.popal_of_onStack (s := ⟨c, s.cs, s.ss⟩) hsaved
  refine .step hpopal (congrArg some hrestored) ?_
  have hframe := (HoldsWords.append_iff.mp hsaved).2
  have hiret : prog[c.pc + 1]? = some .iret := by
    rw [hnext]
    exact hlink 5 (show 5 < 6 by decide)
  have hesp' : c.reg .esp + 32 = (t.enter tss gate back).cpu.reg .esp := by
    rw [htop, ← hesp, BitVec.add_assoc]
    rfl
  refine .step hiret (congrArg some (Processor.iret_frame hback hframe hesp' hss)) ?_
  refine Eq.subst (motive := fun k => LinkReaches prog env k _) ?_ .refl
  refine (Processor.mk.injEq ..).mpr ⟨(Cpu.mk.injEq ..).mpr ⟨?_, rfl, hds.symm, hes.symm, rfl,
    hmem.symm⟩, rfl, rfl⟩
  funext r
  cases r <;> rfl

/-- **An interrupt goes unnoticed**: whatever code it comes in between, the handler is called, and
    if it keeps to the calling convention, that code goes on where it was, with every register,
    the flags and both selectors as they were, on the memory that the handler has left. -/
theorem interrupt_transparent (hlink : HasBlock prog h (asmLink func)) (hh : h + 3 < 2 ^ 32)
    {gate : Gate} (hentry : gate.entry = h) {s : Processor} (hback : s.cpu.pc < 2 ^ 32) :
    ∃ s₀, LinkReaches prog env (s.enter env.tss gate s.cpu.pc) s₀ ∧
      prog[s₀.cpu.pc]?.bind (LinkInstr.perform env s₀) = env.result func s₀.called ∧
      ChangesOnly s.cpu.mem s₀.called.cpu.mem
        ((s.enter env.tss gate s.cpu.pc).cpu.reg .esp - 40)
        (40 + 4 * (s.frame s.cpu.pc).length) ∧
      ∀ s₂, env.result func s₀.called = some s₂ →
        Cdecl 0 (36 + 4 * (s.frame s.cpu.pc).length) s₀.called s₂ →
        LinkReaches prog env (s.enter env.tss gate s.cpu.pc)
          { s with cpu :=
              { s.cpu with ds := s₂.cpu.ds, es := s₂.cpu.es, mem := s₂.cpu.mem } } := by
  have hlength := s.length_frame_le s.cpu.pc
  have hstack := onStack_behindSaves h (s.onStack_enter env.tss gate s.cpu.pc) hlength
  have houtside := s.outside_enter env.tss gate s.cpu.pc
  have hpc : (s.enter env.tss gate s.cpu.pc).cpu.pc = h := hentry
  have hreach (d : Processor) : LinkReaches prog env _ d → LinkReaches prog env _ d :=
    reaches_saves hlink hpc
  have hesp := esp_behindSaves h (s.enter env.tss gate s.cpu.pc)
  have hsaves := outside_behindSaves h (s.enter env.tss gate s.cpu.pc)
  have hss : (behindSaves h (s.enter env.tss gate s.cpu.pc)).ss =
    (s.enter env.tss gate s.cpu.pc).ss := rfl
  have hcode : (behindSaves h (s.enter env.tss gate s.cpu.pc)).cpu.pc = h + 2 := rfl
  rw [savedByLink_enter] at hstack
  generalize behindSaves h (s.enter env.tss gate s.cpu.pc) = s₀
    at hstack hreach hesp hsaves hss hcode
  have hcall : prog[s₀.cpu.pc]?.bind (LinkInstr.perform env s₀) = env.result func s₀.called := by
    rw [hcode, hlink 2 (show 2 < 6 by decide)]
    rfl
  have hcalled := Processor.onStack_called hstack (by
    simp only [List.length_append, List.length_cons, List.length_nil]
    omega)
  refine ⟨s₀, hreach _ .refl, hcall, ?memory, ?returns⟩
  case memory =>
    have hcallWord := Processor.outside_called s₀
    rw [hesp] at hcallWord
    have hall := (houtside.below (m := 36) hsaves (by omega)).below (m := 4) hcallWord (by omega)
    rwa [BitVec.sub_sub, ← Nat.add_assoc] at hall
  case returns =>
    intro s₂ hresult hconv
    refine hreach _ (.head (hcall.trans hresult) ?_)
    have hpc₂ : s₂.cpu.pc = h + 3 := by
      rw [hconv.pc, hcalled.1, BitVec.toNat_ofNat, hcode]
      exact Nat.mod_eq_of_lt hh
    -- the handler keeps the saved words and the frame, which are its caller's
    have hkept := hconv.holdsWords [_]
      (_ :: _ :: _ :: _ :: _ :: _ :: _ :: _ :: _ :: s.frame s.cpu.pc) hcalled rfl
      (by
        simp only [List.length_cons]
        omega)
      (by omega)
    rw [Nat.mul_zero, BitVec.add_zero] at hkept
    refine reaches_iret hlink hback hpc₂ hkept ?_ (hconv.ss.trans hss)
    rw [hconv.esp, Processor.esp_called, hesp]
    bv_omega

end Interrupt

/-- An interrupt between two instructions of the program. -/
theorem interrupt_transparent_readCaller :
    ∃ s, LinkReaches (asmLink ()) (returnsFive 0)
        (readCaller.enter ⟨0x800000, 0x18⟩ ⟨0x10, 0, true⟩ 0) s ∧
      s.cpu.reg = readCaller.cpu.reg ∧ s.cpu.eflags = 0x202 ∧ s.cpu.pc = 0 ∧ s.cs = 0x23 := by
  have hentry : (Gate.mk 0x10 0 true).entry = 0 := rfl
  have hlink : HasBlock (asmLink ()) 0 (asmLink ()) := hasBlock_self _
  obtain ⟨s₀, -, -, -, hreturns⟩ := @interrupt_transparent _ _ (returnsFive 0) _ _ hlink
    (by decide) _ hentry readCaller (by decide)
  exact ⟨_, hreturns _ rfl (cdecl_returnsFive ..), rfl, rfl, rfl, rfl⟩

end LinuxLikeOs
