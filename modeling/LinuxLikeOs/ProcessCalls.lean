import LinuxLikeOs.DescriptorTable
import LinuxLikeOs.FairScheduling

/-!
# `execute` and `halt` as a call and its return

A program that calls `execute` waits until the program that it starts halts, in every
interleaving with the other terminals.  Then it goes on where it was, with its own registers,
descriptors and arguments, and `execute` returns the status of the child.

- `KeepsPcb`: a process keeps its PCB, but for the RTC interrupts that it counts
- `kernelStep_keepsPcb`: the other processes leave it alone
- `Waits`, `Resumes`: the caller, while the child lives and once it has halted
- `execute_returns_of_run`: a call returns to its caller
-/

namespace LinuxLikeOs

open Library

namespace Kernel

/-! ## Whose PCB an event changes -/

/-- Only the running process has another PCB, and the registers of its caller and its argument are
    still in it. -/
structure CallFrame (k k' : Kernel) : Prop where
  others : ∀ q, q ≠ k.currPid → k'.pcbArray q = k.pcbArray q
  saved : ∀ q, (k'.pcbArray q).saved = (k.pcbArray q).saved
  argsBuf : ∀ q, (k'.pcbArray q).argsBuf = (k.pcbArray q).argsBuf

variable {k k₁ k' : Kernel}

theorem CallFrame.of_eq (h : k'.pcbArray = k.pcbArray) : CallFrame k k' :=
  ⟨fun q _ => congrFun h q, fun q => congrArg Pcb.saved (congrFun h q),
    fun q => congrArg Pcb.argsBuf (congrFun h q)⟩

theorem CallFrame.of_update {pcb : Pcb}
    (h : k'.pcbArray = Function.update k.pcbArray k.currPid pcb)
    (hsaved : pcb.saved = k.currPcb.saved) (hargs : pcb.argsBuf = k.currPcb.argsBuf) :
    CallFrame k k' := by
  constructor
  case others =>
    intro q hq
    rw [h, Function.update_of_ne hq]
  case saved =>
    intro q
    by_cases hq : q = k.currPid
    · rw [h, hq, Function.update_self, hsaved, currPcb]
    · rw [h, Function.update_of_ne hq]
  case argsBuf =>
    intro q
    by_cases hq : q = k.currPid
    · rw [h, hq, Function.update_self, hargs, currPcb]
    · rw [h, Function.update_of_ne hq]

theorem CallFrame.trans (h : CallFrame k k₁) (hcurr : k₁.currPid = k.currPid)
    (h' : CallFrame k₁ k') : CallFrame k k' where
  others q hq := (h'.others q (hcurr.symm ▸ hq)).trans (h.others q hq)
  saved q := (h'.saved q).trans (h.saved q)
  argsBuf q := (h'.argsBuf q).trans (h.argsBuf q)

theorem callFrame_read (ops : FileOperation) (k : Kernel) (fd : Nat) (buf : Option Buffer)
    (nbytes : Int) : (ops.read k fd buf nbytes).Keeps (CallFrame k) := by
  -- one case per driver behind the jump table: each changes at most its own descriptor or
  -- the process's RTC fields, never the saved context or the arguments
  cases ops with
  | rtc =>
    simp only [FileOperation.read, rtcRead]
    split_ifs
    · exact SysResult.keeps_blocked
    · exact SysResult.keeps_ret.mpr (.of_update rfl rfl rfl)
  | file => exact SysResult.keeps_ret.mpr (.of_update rfl rfl rfl)
  | dir =>
    simp only [FileOperation.read, dirRead]
    split
    · exact SysResult.keeps_ret.mpr (.of_eq rfl)
    · split_ifs
      · exact SysResult.keeps_ret.mpr (.of_eq rfl)
      · split <;> exact SysResult.keeps_ret.mpr (.of_eq rfl)
  | stdoutOp => exact SysResult.keeps_ret.mpr (.of_eq rfl)
  | stdinOp =>
    simp only [FileOperation.read]
    cases terminalRead k.tty k.currPcb.terminalNumber buf nbytes with
    | none => exact SysResult.keeps_blocked
    | some r => exact SysResult.keeps_ret.mpr (.of_eq rfl)

theorem callFrame_write (ops : FileOperation) (k : Kernel) (buf : Option Buffer)
    (nbytes : Int) : (ops.write k buf nbytes).Keeps (CallFrame k) := by
  cases ops with
  | rtc =>
    -- `rtc_write` stores the new divisor in the caller's PCB; the other drivers store nothing
    refine SysResult.keeps_ret.mpr ?_
    cases buf with
    | none => exact .of_eq rfl
    | some buf =>
      simp only
      split_ifs
      · exact .of_eq rfl
      · exact .of_eq rfl
      · exact .of_update rfl rfl rfl
  | file | dir | stdinOp | stdoutOp => exact SysResult.keeps_ret.mpr (.of_eq rfl)

theorem callFrame_openEntry (ops : FileOperation) (k : Kernel) (filename : Option CString) :
    CallFrame k (ops.open k filename).2 := by
  cases ops with
  | rtc => exact .of_update rfl rfl rfl
  | file =>
    simp only [FileOperation.open, fileOpen]
    split <;> exact .of_eq rfl
  | dir | stdinOp | stdoutOp => exact .of_eq rfl

theorem callFrame_closeEntry (ops : FileOperation) (k : Kernel) (fd : Nat) :
    CallFrame k (ops.close k fd).2 := by
  cases ops with
  | rtc => exact .of_update rfl rfl rfl
  | file | dir | stdinOp | stdoutOp => exact .of_eq rfl

theorem callFrame_open (k : Kernel) (filename : Option CString) :
    (k.open filename).Keeps (CallFrame k) := by
  intro k' h
  -- nothing opened, `stdin` or `stdout` by its name, or a free descriptor bound to the file
  rcases open_cases h with ⟨-, rfl | ⟨text, rfl⟩⟩ | ⟨name, -, ⟨-, rfl⟩ | ⟨-, rfl⟩⟩ |
    ⟨name, dentry, fd, ops, f, -, -, -, -, -, -, rfl⟩
  · exact .of_eq rfl
  · exact .of_eq rfl
  · exact .of_update rfl rfl rfl
  · exact .of_update rfl rfl rfl
  · -- first `open` fills the descriptor, then the driver's own `open` may reset it
    have hbound : CallFrame k (k.modifyFd k.currPid fd (bindDentry dentry)) :=
      .of_update rfl rfl rfl
    have hcurr : (ops.open (k.modifyFd k.currPid fd (bindDentry dentry)) filename).2.currPid =
        k.currPid :=
      congrArg ProcessState.currPid (processes_open ops _ filename)
    have hopened := hbound.trans rfl (callFrame_openEntry ops _ filename)
    exact hopened.trans hcurr (.of_update rfl rfl rfl)

/-- A call on files changes the PCB of its own process. -/
theorem callFrame_fileCall {e : KernelEvent} (he : e.IsFileCall)
    (hstep : kernelStep k e = some k') : CallFrame k k' := by
  cases e with
  | read fd buf nbytes =>
    have hkeeps : (k.read fd buf nbytes).Keeps (CallFrame k) :=
      SysResult.keeps_guard (.of_eq rfl) fun ops => callFrame_read ops k _ _ _
    exact hkeeps k' hstep
  | write fd buf nbytes =>
    have hkeeps : (k.write fd buf nbytes).Keeps (CallFrame k) :=
      SysResult.keeps_guard (.of_eq rfl) fun ops => callFrame_write ops k _ _
    exact hkeeps k' hstep
  -- `open` has its own lemma because it meets two tables
  | «open» filename => exact k.callFrame_open filename k' hstep
  | close fd =>
    have hkeeps : (k.close fd).Keeps (CallFrame k) := by
      -- the driver's `close` runs before the descriptor is cleared
      refine SysResult.keeps_guard (.of_eq rfl) fun ops => ?_
      have hclose := callFrame_closeEntry ops k fd.toNat
      have hcurr : (ops.close k fd.toNat).2.currPid = k.currPid :=
        congrArg ProcessState.currPid (processes_close ops k fd.toNat)
      dsimp only
      split_ifs
      · exact SysResult.keeps_ret.mpr (hclose.trans hcurr (.of_update rfl rfl rfl))
      · exact SysResult.keeps_ret.mpr hclose
    exact hkeeps k' hstep
  | tick | key | rtcInterrupt | switch | execute | halt | getargs | vidmap => exact he.elim

/-! ## What a process keeps while it does not run -/

/-- Process `p` keeps its place in the process table and its PCB, but for the RTC interrupts that
    it counts. -/
structure KeepsPcb (p : Nat) (k k' : Kernel) : Prop where
  live : k'.processArray p = k.processArray p
  pcb : ∃ n, k'.pcbArray p = { k.pcbArray p with rtcCounter := n }

namespace KeepsPcb

variable {p : Nat}

theorem of_eq (hlive : k'.processArray p = k.processArray p)
    (hpcb : k'.pcbArray p = k.pcbArray p) : KeepsPcb p k k' :=
  ⟨hlive, (k.pcbArray p).rtcCounter, hpcb⟩

theorem trans (h : KeepsPcb p k k₁) (h' : KeepsPcb p k₁ k') : KeepsPcb p k k' := by
  obtain ⟨n, hn⟩ := h.pcb
  obtain ⟨m, hm⟩ := h'.pcb
  exact ⟨h'.live.trans h.live, m, by rw [hm, hn]⟩

/-- Another process starts. -/
theorem startProgram (hp : p ≠ k.currPid) (args : CString) (regs : Context) :
    KeepsPcb p k (k.startProgram args regs) := by
  have hprocesses := processes_startProgram k args regs
  exact of_eq (congrFun (congrArg ProcessState.processArray hprocesses) p)
    ((pcbArray_startProgram k args regs).2 p hp)

theorem rtcHandler (k : Kernel) : KeepsPcb p k k.rtcHandler := by
  refine ⟨rfl, ?_⟩
  simp only [Kernel.rtcHandler]
  split_ifs
  · exact ⟨_, rfl⟩
  · exact ⟨(k.pcbArray p).rtcCounter, rfl⟩

/-- `halt` of another process. -/
theorem halt (hp : p ≠ k.currPid) {exitCode : UInt8} {stack : Buffer} {regs : Context}
    {r : Outcome × Kernel} (h : k.halt exitCode stack regs = some r) : KeepsPcb p k r.2 := by
  obtain ⟨k₁, hclose, hcases⟩ := halt_cases h
  -- closing the descriptors of the halting process touches only its own entry
  have hclosed : KeepsPcb p k k₁ := by
    obtain ⟨fds, rfl⟩ := closePcb_eq hclose
    exact of_eq (Function.update_of_ne hp ..) (pcbArray_modifyPcb_of_ne _ hp _)
  obtain ⟨-, -, args, rfl⟩ | ⟨-, rfl⟩ := hcases
  · -- a base shell is started again in the same place, so its entry changes, and no other
    have hcurr : (k₁.enterShell k.currPid).currPid = k.currPid := rfl
    have hentered : KeepsPcb p k₁ (k₁.enterShell k.currPid) := by
      refine of_eq (Function.update_of_ne hp ..) ?_
      unfold enterShell
      exact pcbArray_modifyPcb_of_ne _ hp _
    exact hclosed.trans (hentered.trans (startProgram (hcurr ▸ hp) args regs))
  · exact hclosed.trans (of_eq rfl rfl)

/-- `execute` takes a process that is not in use. -/
theorem execute (hlive : k.processArray p ≠ 0) (command : Option CString) (stack : Buffer)
    (regs : Context) : KeepsPcb p k (k.execute command stack regs).2 := by
  rcases k.execute_cases command stack regs with ⟨-, heq⟩ | ⟨q, args, -, -, hfree, heq⟩
  · rw [heq]
    exact of_eq rfl rfl
  · -- the new process gets a free number, and `p` is live
    have hpq : p ≠ q := by
      rintro rfl
      exact hlive hfree
    -- `enterChild` writes the entry of the child only
    have hcurr : (k.enterChild q).currPid = q := (k.enterChild_frame q).2.1
    have hentered : KeepsPcb p k (k.enterChild q) := by
      refine of_eq ?_ ?_
      · rw [(k.enterChild_frame q).2.2.1]
        exact Function.update_of_ne hpq ..
      · unfold enterChild
        dsimp only
        split_ifs
        · exact pcbArray_modifyPcb_of_ne _ hpq _
        · exact pcbArray_modifyPcb_of_ne _ hpq _
    rw [heq]
    exact hentered.trans (startProgram (hcurr.symm ▸ hpq) args regs)

/-- A tick saves the registers of the process that it takes the processor from. -/
theorem pitHandler (hboot : 2 < k.shellTid) (hp : p ≠ k.currPid) (stack : Buffer)
    (regs : Context) : KeepsPcb p k (k.pitHandler stack regs) := by
  refine of_eq (congrFun (congrArg ProcessState.processArray
    (processes_pitHandler hboot stack regs)) p) ?_
  rw [pcbArray_pitHandler hboot]
  exact pcbArray_modifyPcb_of_ne k hp _

end KeepsPcb

theorem pcbArray_terminalSwitch (k : Kernel) (n : Int) :
    (k.terminalSwitch n).2.pcbArray = k.pcbArray := by
  unfold Kernel.terminalSwitch
  split_ifs
  · rfl
  · rfl
  · dsimp only
    split_ifs <;> rfl

/-- **Frame**: only its own calls on files, its end and the loss of the processor change the PCB of
    a live process. -/
theorem kernelStep_keepsPcb {e : KernelEvent} {p : Nat} (hboot : 2 < k.shellTid)
    (hlive : k.processArray p ≠ 0)
    (hother : p = k.currPid → ¬ e.IsFileCall ∧ ¬ e.IsHalt ∧ ¬ e.IsTick)
    (hstep : kernelStep k e = some k') : KeepsPcb p k k' := by
  have htable := kernelStep_keepsTable hlive
    (fun heq => ⟨(hother heq).1, (hother heq).2.1⟩) hstep
  have hcall (he : e.IsFileCall) : KeepsPcb p k k' :=
    .of_eq htable.live ((callFrame_fileCall he hstep).others p fun hp => (hother hp).1 he)
  cases e with
  | tick stack regs =>
    -- a file call changes the PCB of its caller only, which `hother` says is not `p`
    obtain rfl := Option.some.inj hstep
    exact .pitHandler hboot (fun hp => (hother hp).2.2 trivial) stack regs
  | key code =>
    obtain rfl := Option.some.inj hstep
    refine .of_eq htable.live ?_
    unfold keyboardHandler
    -- a terminal switch by Alt+F1..F3 touches no PCB
    dsimp only
    split
    · rw [pcbArray_terminalSwitch]
    · rfl
  | rtcInterrupt =>
    obtain rfl := Option.some.inj hstep
    exact .rtcHandler k
  | switch n =>
    obtain rfl := Option.some.inj hstep
    exact .of_eq htable.live (congrFun (k.pcbArray_terminalSwitch n) p)
  | execute command stack regs =>
    obtain rfl := Option.some.inj hstep
    exact .execute hlive command stack regs
  | halt exitCode stack regs =>
    obtain ⟨r, hr, rfl⟩ := Option.map_eq_some_iff.mp hstep
    exact .halt (fun hp => (hother hp).2.1 trivial) hr
  -- the four file calls together
  | read | write | «open» | close => exact hcall trivial
  | getargs buf nbytes =>
    obtain rfl := Option.some.inj hstep
    exact .of_eq rfl rfl
  | vidmap screenStart =>
    obtain rfl := Option.some.inj hstep
    refine .of_eq htable.live ?_
    unfold vidmap
    split_ifs <;> rfl

/-- A process that does not halt keeps its parent and the registers to return to. -/
theorem Settled.caller_step {e : KernelEvent} {p : Nat} (h : k.Settled)
    (hlive : k.processArray p ≠ 0) (hgoes : ¬ (e.IsHalt ∧ p = k.currPid))
    (hstep : kernelStep k e = some k') :
    (k'.pcbArray p).parentPid = (k.pcbArray p).parentPid ∧
      (k'.pcbArray p).saved = (k.pcbArray p).saved := by
  -- the two kinds of call of `p` itself that leave it a caller: a file call and a tick
  by_cases hown : p = k.currPid ∧ (e.IsFileCall ∨ e.IsTick)
  · -- they change neither the parent links nor, outside the tick's own save, what `p` saved
    obtain ⟨rfl, hcall⟩ := hown
    have hprocesses := kernelStep_processes h.boot h.shell hstep
    have hparent : k'.processes.parentPid k.currPid = k.processes.parentPid k.currPid := by
      rw [hprocesses]
      cases e with
      | tick | read | write | «open» | close => rfl
      | key | rtcInterrupt | switch | execute | halt | getargs | vidmap =>
        exact (hcall.elim id id).elim
    refine ⟨hparent, ?_⟩
    rcases hcall with hcall | htick
    · exact (callFrame_fileCall hcall hstep).saved k.currPid
    · cases e with
      | tick stack regs =>
        obtain rfl := Option.some.inj hstep
        -- the tick saves its own registers in the scheduler's fields, not in `saved`
        show ((k.pitHandler stack regs).pcbArray k.currPid).saved = _
        rw [pcbArray_pitHandler h.boot, pcbArray_modifyPcb_self]
      | key | rtcInterrupt | switch | execute | halt | read | write | «open» | close | getargs
      | vidmap => exact htick.elim
  · -- any other step is another process's, or one that keeps the PCB whole but for the RTC count
    obtain ⟨n, hn⟩ := (kernelStep_keepsPcb h.boot hlive (fun hp => ⟨fun he => hown ⟨hp, .inl he⟩,
      fun he => hgoes ⟨he, hp⟩, fun he => hown ⟨hp, .inr he⟩⟩) hstep).pcb
    rw [hn]
    exact ⟨rfl, rfl⟩

/-! ## A call of `execute` -/

/-- The program that called `execute` in the state `caller` waits for process `c`. -/
structure Waits (caller : Kernel) (c : Nat) (regs : Context) (k : Kernel) : Prop where
  live : k.processArray c ≠ 0
  parent : (k.pcbArray c).parentPid = caller.currPid
  saved : (k.pcbArray c).saved = regs
  pcb : KeepsPcb caller.currPid caller k
  waits : k.currPid ≠ caller.currPid

/-- It goes on after `execute`, with its own memory and kernel stack. -/
structure Resumes (caller : Kernel) (c : Nat) (regs : Context) (k : Kernel) : Prop where
  running : k.currPid = caller.currPid
  parent : k.currParentPid = caller.currParentPid
  terminal : k.activeTid = caller.activeTid
  place : (k.tty.terminals k.activeTid).curPid = caller.currPid
  context : k.context = regs
  stack : k.tssEsp0 = kernelStack caller.currPid
  frame : k.pageDirectory (programImage / fourMB) = frameEntry (processFrame caller.currPid)
  free : k.processArray c = 0
  pcb : KeepsPcb caller.currPid caller k

variable {caller : Kernel} {c : Nat} {regs : Context}

/-- The running process is in use. -/
theorem Settled.live_running (h : k.Settled) : k.processArray k.currPid = 1 := by
  obtain ⟨top, stack, htree⟩ := h.tree
  obtain ⟨t, -, hcurr⟩ := htree.running
  have hmem : k.currPid ∈ stack t := by
    rw [show k.currPid = top t from hcurr]
    exact htree.top_mem t
  exact (htree.live _ (htree.bounded t _ hmem)).mpr ⟨t, hmem⟩

/-- The root shell of terminal 0 is in use. -/
theorem Settled.live_zero (h : k.Settled) : k.processArray 0 = 1 := by
  obtain ⟨top, stack, htree⟩ := h.tree
  let first : Fin terminalTotalNum := ⟨0, by decide⟩
  exact (htree.live 0 (by decide)).mpr ⟨first, (htree.paths.climbs first).root_mem⟩

/-- A process that has a live child does not run. -/
theorem Settled.parent_waits (h : k.Settled) (hc : c < maxProcessNum)
    (hlive : k.processArray c ≠ 0) (hne : (k.pcbArray c).parentPid ≠ c) :
    k.currPid ≠ (k.pcbArray c).parentPid := by
  obtain ⟨top, stack, htree⟩ := h.tree
  obtain ⟨t, hmem⟩ := (htree.live c hc).mp ((htree.array c hc).resolve_left hlive)
  obtain ⟨u, -, hcurr⟩ := htree.running
  rw [show k.currPid = top u from hcurr]
  intro heq
  have hparent : (k.pcbArray c).parentPid ∈ stack t :=
    (htree.paths.climbs t).parent_mem hmem
  obtain rfl : u = t := htree.paths.disjoint u t _ (htree.top_mem u) (heq ▸ hparent)
  exact (htree.paths.climbs u).parent_ne_start hmem hne heq.symm

/-- After `execute` has started `c`. -/
theorem waits_execute (h : caller.Settled) {command : Option CString} {stack : Buffer}
    (hspawn : caller.spawned command stack = some c)
    (hstep : kernelStep caller (.execute command stack regs) = some k) :
    c < maxProcessNum ∧ c ≠ caller.currPid ∧ k.processArray c ≠ 0 ∧
      (k.pcbArray c).parentPid = caller.currPid ∧ (k.pcbArray c).saved = regs ∧
      KeepsPcb caller.currPid caller k := by
  have hrunning := h.live_running
  have hprocesses := kernelStep_processes h.boot h.shell hstep
  have haction : caller.processAction (.execute command stack regs) = .spawn c := by
    simp only [processAction, hspawn]
  rw [haction] at hprocesses
  -- `spawned` says which of the two outcomes of `execute` this is
  rcases caller.execute_cases command stack regs with ⟨hnone, -⟩ | ⟨p, args, hp, hlt, hfree, heq⟩
  · rw [hspawn] at hnone
    cases hnone
  obtain rfl := Option.some.inj (hspawn.symm.trans hp)
  have hstarted : k = (caller.enterChild c).startProgram args regs := by
    rw [← Option.some.inj hstep, heq]
  -- the child's number was free, and the caller's and process 0's are taken
  have hne : c ≠ caller.currPid := by
    rintro rfl
    rw [hrunning] at hfree
    cases hfree
  have hzero : c ≠ 0 := by
    rintro rfl
    rw [h.live_zero] at hfree
    cases hfree
  -- the child is live, has the caller as its parent and holds the caller's registers
  refine ⟨hlt, hne, ?_, ?_, ?_, ?_⟩
  · have harray := congrFun (congrArg ProcessState.processArray hprocesses) c
    rw [show k.processArray c = 1 from harray.trans (Function.update_self ..)]
    decide
  · have hparent := congrFun (congrArg ProcessState.parentPid hprocesses) c
    exact (hparent.trans (Function.update_self ..)).trans (if_neg hzero)
  · have hcurr : (caller.enterChild c).currPid = c := (caller.enterChild_frame c).2.1
    have hpcb := pcb_startProgram (caller.enterChild c) args regs
    rw [hcurr] at hpcb
    rw [hstarted, hpcb]
  · -- and the caller's own PCB is kept
    rw [← Option.some.inj hstep]
    exact .execute (by rw [hrunning]; decide) command stack regs

/-- The caller waits through every event that does not end the child. -/
theorem Waits.step {e : KernelEvent} (h : Waits caller c regs k) (hsettled : k.Settled)
    (hc : c < maxProcessNum) (hne : c ≠ caller.currPid)
    (hcaller : caller.processArray caller.currPid ≠ 0) (hgoes : ¬ (e.IsHalt ∧ c = k.currPid))
    (hstep : kernelStep k e = some k') : Waits caller c regs k' := by
  have hcallerLive : k.processArray caller.currPid ≠ 0 := by rwa [h.pcb.live]
  have hkeeps := kernelStep_keepsPcb hsettled.boot hcallerLive
    (fun heq => absurd heq.symm h.waits) hstep
  obtain ⟨hparent, hsaved⟩ := hsettled.caller_step h.live hgoes hstep
  have hlive := live_of_step h.live hgoes hstep
  have hparent' : (k'.pcbArray c).parentPid = caller.currPid := hparent.trans h.parent
  refine ⟨hlive, hparent', hsaved.trans h.saved, h.pcb.trans hkeeps, ?_⟩
  have hwaits := (hsettled.step hstep).parent_waits hc hlive (by rw [hparent']; exact hne.symm)
  rwa [hparent'] at hwaits

/-- The child halts. -/
theorem Waits.halt (h : Waits caller c regs k) (hcaller : caller.Settled) (hsettled : k.Settled)
    (hne : c ≠ caller.currPid) (hcurr : k.currPid = c) {exitCode : UInt8} {stack : Buffer}
    {regs' : Context} {r : Outcome × Kernel} (hhalt : k.halt exitCode stack regs' = some r) :
    r.1 = .ret exitCode.toNat ∧ Resumes caller c regs r.2 := by
  have hstep : kernelStep k (.halt exitCode stack regs') = some r.2 := by
    rw [kernelStep, hhalt, Option.map_some]
  obtain ⟨top, procs, htree⟩ := hsettled.tree
  obtain ⟨top₀, procs₀, htree₀⟩ := hcaller.tree
  have hparent : k.currParentPid = caller.currPid := by
    rw [show k.currParentPid = (k.pcbArray k.currPid).parentPid from htree.parent, hcurr, h.parent]
  have hroot : k.currPid ≠ k.currParentPid := by rw [hcurr, hparent]; exact hne
  have hpcb : KeepsPcb caller.currPid caller r.2 :=
    h.pcb.trans (.halt h.waits.symm hhalt)
  obtain ⟨n, hn⟩ := hpcb.pcb
  have hprocesses := kernelStep_processes hsettled.boot hsettled.shell hstep
  have haction : k.processAction (.halt exitCode stack regs') = .exit := if_neg hroot
  rw [haction] at hprocesses
  have hrunning : r.2.currPid = caller.currPid :=
    (congrArg ProcessState.currPid hprocesses).trans hparent
  have hafter := (hsettled.step hstep)
  obtain ⟨top', procs', htree'⟩ := hafter.tree
  -- the terminal of the running process is the active one, before the call and after it
  have hterminal : r.2.activeTid = caller.activeTid := by
    have hnow : (r.2.pcbArray r.2.currPid).terminalNumber = r.2.activeTid :=
      htree'.terminal_running
    rw [hrunning, hn] at hnow
    exact hnow.symm.trans htree₀.terminal_running
  obtain ⟨k₁, -, ⟨hself, -⟩ | ⟨-, rfl⟩⟩ := halt_cases hhalt
  · exact absurd hself hroot
  refine ⟨rfl, ?_⟩
  constructor
  case running => exact hrunning
  case parent =>
    rw [show (k₁.resumeParent k.currPcb.saved).currParentPid =
        ((k₁.resumeParent k.currPcb.saved).pcbArray
          (k₁.resumeParent k.currPcb.saved).currPid).parentPid from htree'.parent, hrunning, hn]
    exact htree₀.parent.symm
  case terminal => exact hterminal
  case place =>
    rw [← hrunning]
    exact htree'.processTree.running
  case context =>
    show k.currPcb.saved = regs
    rw [currPcb, hcurr, h.saved]
  case stack => exact (congrArg ProcessState.esp0 hprocesses).trans (congrArg kernelStack hparent)
  case frame =>
    exact (congrArg ProcessState.frame hprocesses).trans
      (congrArg (fun p => frameEntry (processFrame p)) hparent)
  case free =>
    have harray := congrFun (congrArg ProcessState.processArray hprocesses) c
    refine harray.trans ?_
    show Function.update k.processArray k.currPid 0 c = 0
    rw [hcurr, Function.update_self]
  case pcb => exact hpcb

end Kernel

/-- Process `c` does not halt in this event. -/
def Kernel.GoesOn (c : Nat) (k : Kernel) (e : KernelEvent) : Prop := ¬ (e.IsHalt ∧ c = k.currPid)

/-- **A call and its return**: in every state that the start-up leads to, a program that starts
    process `c` with `execute` does not run while `c` lives, whatever the other processes and the
    interrupts do, and keeps its PCB.  When `c` halts, `execute` returns its status and the caller
    goes on where it was. -/
theorem execute_returns_of_run {a : TableAddresses} {img : Image} (hshell : img.HoldsShell)
    {es es' : List KernelEvent}
    (hquiet : EachStep startupStep Kernel.NoEarlyProgram (.entry a img) es)
    {caller k₁ k : Kernel} (hrun : exec startupStep (.entry a img) es = some caller)
    (hboot : 2 < caller.shellTid) {command : Option CString} {stack : Buffer} {regs : Context}
    {c : Nat} (hspawn : caller.spawned command stack = some c)
    (hstep : startupStep caller (.execute command stack regs) = some k₁)
    (hgoes : EachStep startupStep (Kernel.GoesOn c) k₁ es')
    (hrun' : exec startupStep k₁ es' = some k) :
    Kernel.Waits caller c regs k ∧
      ∀ exitCode stack' regs' r, k.currPid = c → k.halt exitCode stack' regs' = some r →
        r.1 = .ret exitCode.toNat ∧ Kernel.Resumes caller c regs r.2 := by
  have hcaller : caller.Settled := (wellMapped_of_run hshell hquiet hrun).1.started.settled hboot
  have hcallerLive : caller.processArray caller.currPid ≠ 0 := by
    rw [hcaller.live_running]
    decide
  have hexecute := (startupStep_eq_some hstep).2
  -- what holds right after the call
  obtain ⟨hc, hne, hlive, hparent, hsaved, hpcb⟩ :=
    Kernel.waits_execute hcaller hspawn hexecute
  have hsettled₁ := hcaller.step hexecute
  have hwaits₁ := hsettled₁.parent_waits hc hlive (by rw [hparent]; exact hne.symm)
  rw [hparent] at hwaits₁
  -- from there on by induction over the run, whose steps all leave the child living
  obtain ⟨hsettled, hwaits⟩ := exec_invariant_of_eachStep
    (I := fun s => s.Settled ∧ Kernel.Waits caller c regs s)
    (fun s e s' h hC hone =>
      have hnext := (startupStep_eq_some hone).2
      ⟨h.1.step hnext, h.2.step h.1 hc hne hcallerLive hC hnext⟩)
    ⟨hsettled₁, hlive, hparent, hsaved, hpcb, hwaits₁⟩ hgoes hrun'
  -- when the child is the one that halts, its parent is the caller
  refine ⟨hwaits, fun exitCode stack' regs' r hcurr hhalt => ?_⟩
  exact hwaits.halt hcaller hsettled hne hcurr hhalt

/-- The other terminals run, one of them starts a shell, and the child gets a key. -/
def whileChildLives : List KernelEvent :=
  [.tick (fun _ => 0) ⟨1, 1⟩, .execute (some shellName) (fun _ => 0) ⟨2, 2⟩,
    .tick (fun _ => 0) ⟨3, 3⟩, .key 0x1e, .tick (fun _ => 0) ⟨4, 4⟩]

theorem execute_returns_of_run_shell_in_shell :
    ∃ caller k₁ k r,
      exec startupStep (Kernel.entry sampleTables shellImage) bootTicks = some caller ∧
      startupStep caller (.execute (some shellName) (fun _ => 0) ⟨8, 9⟩) = some k₁ ∧
      exec startupStep k₁ whileChildLives = some k ∧ k.halt 7 (fun _ => 0) ⟨0, 0⟩ = some r ∧
      r.1 = .ret 7 ∧ Kernel.Resumes caller 3 ⟨8, 9⟩ r.2 := by
  let call : KernelEvent := .execute (some shellName) (fun _ => 0) ⟨8, 9⟩
  -- one run to the call, and one through the child's life to its `halt`
  obtain ⟨caller, hrun⟩ := Option.isSome_iff_exists.mp (show (exec startupStep
    (Kernel.entry sampleTables shellImage) bootTicks).isSome = true by decide +kernel)
  obtain ⟨r, hboth⟩ := Option.isSome_iff_exists.mp (show (((exec startupStep
    (Kernel.entry sampleTables shellImage) (bootTicks ++ call :: whileChildLives)).filter
      (·.currPid = 3)).bind (·.halt 7 (fun _ => 0) ⟨0, 0⟩)).isSome = true by decide +kernel)
  obtain ⟨k, hfilter, hhalt⟩ := Option.bind_eq_some_iff.mp hboth
  obtain ⟨hall, hcurr⟩ := Option.filter_eq_some_iff.mp hfilter
  -- the whole run is the first one, the call, and the rest
  rw [exec_append hrun] at hall
  obtain ⟨k₁, hstep, hrun'⟩ := exec_cons_iff.mp hall
  have hquiet : EachStep startupStep Kernel.NoEarlyProgram (Kernel.entry sampleTables shellImage)
      bootTicks := by
    decide +kernel
  have hstart : ∀ k ∈ exec startupStep (Kernel.entry sampleTables shellImage) bootTicks,
      2 < k.shellTid ∧ k.spawned (some shellName) (fun _ => 0) = some 3 := by
    decide +kernel
  obtain ⟨hboot, hspawn⟩ := hstart caller hrun
  have hgoes : EachStep startupStep (Kernel.GoesOn 3) k₁ whileChildLives :=
    fun _ _ => ⟨fun h => h.1, fun _ _ => ⟨fun h => h.1, fun _ _ => ⟨fun h => h.1, fun _ _ =>
      ⟨fun h => h.1, fun _ _ => ⟨fun h => h.1, trivial⟩⟩⟩⟩⟩
  obtain ⟨hret, hresumes⟩ := (execute_returns_of_run holdsShell_shellImage hquiet hrun hboot hspawn
    hstep hgoes hrun').2 7 (fun _ => 0) ⟨0, 0⟩ r (of_decide_eq_true hcurr) hhalt
  exact ⟨caller, k₁, k, r, hrun, hstep, hrun', hhalt, hret, hresumes⟩

end LinuxLikeOs
