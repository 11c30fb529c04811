import LinuxLikeOs.ProcessRuns

/-!
# The context of the running process

A process runs on its own frame and kernel stack, and `process_switch` gives it back the
registers that it had when it was switched out.

- `ProcessState.OnOwnStack`: the mapping and the kernel stack of the running process
- `switchingStep`: one event, recorded in a table of the registers that the processes had at
  their last switch; a process that starts or ends loses its entry
- `running_context_of_run`: both properties in every state of a run
-/

namespace LinuxLikeOs

open Library

/-! ## Frames and kernel stacks -/

/-- The frames of two processes do not overlap. -/
theorem processFrame_disjoint {p q : Nat} (h : p < q) :
    processFrame p + fourMB ≤ processFrame q := by
  simp only [processFrame, fourMB]
  omega

/-- Nor do their kernel stacks, which grow down from `kernelStack`. -/
theorem kernelStack_disjoint {p q : Nat} (h : p < q) :
    kernelStack q ≤ kernelStack p - eightKB := by
  simp only [kernelStack, eightKB]
  omega

namespace ProcessState

/-- The running process has its own frame and kernel stack. -/
def OnOwnStack (s : ProcessState) : Prop :=
  s.frame = frameEntry (processFrame s.currPid) ∧ s.esp0 = kernelStack s.currPid

/-- Every action that changes the running process enters it. -/
theorem OnOwnStack.apply {s : ProcessState} (h : s.OnOwnStack) (a : ProcessAction) :
    (s.apply a).OnOwnStack := by
  cases a with
  | tick | spawn | exit | restart => exact ⟨rfl, rfl⟩
  | switch | vidmap | other => exact h

/-! ## Saved registers -/

/-- What an action does to the table of saved registers. -/
def record (s : ProcessState) (lastOut : Nat → Option Context) :
    ProcessAction → Nat → Option Context
  | .tick regs => Function.update lastOut s.currPid (some regs)
  | .spawn p => Function.update lastOut p none
  | .exit | .restart => Function.update lastOut s.currPid none
  | .switch _ | .vidmap | .other => lastOut

/-- The processes that wait for their time slice have the registers of their last switch. -/
def SavedOk (s : ProcessState) (lastOut : Nat → Option Context) : Prop :=
  ∀ t < terminalTotalNum, t ≠ s.activeTid →
    lastOut (s.curPid t).toNat = some (s.own (s.curPid t).toNat)

namespace TreeInv

variable {s : ProcessState} {top : Fin terminalTotalNum → Nat}
  {stack : Fin terminalTotalNum → List Nat}

/-- A process that waits is not the running one. -/
theorem waiting_ne_running (h : s.TreeInv top stack) {t : Nat} (ht : t < terminalTotalNum)
    (hne : t ≠ s.activeTid) : (s.curPid t).toNat ≠ s.currPid := by
  obtain ⟨u, hactive, hcurr⟩ := h.running
  rw [h.cur ⟨t, ht⟩, hcurr, Int.toNat_natCast]
  intro heq
  have hmem : top ⟨t, ht⟩ ∈ stack u := heq ▸ h.top_mem u
  have hsame := h.paths.disjoint ⟨t, ht⟩ u _ (h.top_mem _) hmem
  exact hne ((congrArg Fin.val hsame).trans hactive.symm)

/-- The processes of the other terminals stay what they are. -/
theorem curPid_apply (h : s.TreeInv top stack) {a : ProcessAction} (ha : s.Enabled a) {t : Nat}
    (hne : t ≠ s.activeTid) : (s.apply a).curPid t = s.curPid t := by
  have hterm := h.terminal_running
  -- `spawn`, `exit` and `restart` write the number of the active terminal only
  cases a with
  | tick | switch | vidmap | other => rfl
  | spawn p =>
    show Function.update s.curPid (s.terminalNumber s.currPid) (p : Int) t = _
    rw [hterm, Function.update_of_ne hne]
  | exit =>
    show Function.update s.curPid
      (Function.update s.terminalNumber s.currPid 255 s.currParentPid) (s.currParentPid : Int) t = _
    rw [Function.update_of_ne (show s.currParentPid ≠ s.currPid from Ne.symm ha),
      h.terminal_parent, Function.update_of_ne hne]
  | restart =>
    show Function.update s.curPid s.currPid (s.currPid : Int) t = _
    rw [h.root_eq ha, Function.update_of_ne hne]

/-- After a switch every terminal has the registers of its process, also the one that was
    left. -/
theorem saved_tick (h : s.TreeInv top stack) {lastOut : Nat → Option Context}
    (hsaved : s.SavedOk lastOut) (regs : Context) {t : Nat} (ht : t < terminalTotalNum) :
    Function.update lastOut s.currPid (some regs) (s.curPid t).toNat =
      some (Function.update s.own s.currPid regs (s.curPid t).toNat) := by
  by_cases hrun : (s.curPid t).toNat = s.currPid
  · rw [hrun, Function.update_self, Function.update_self]
  · -- it waited before, too
    have hwait : t ≠ s.activeTid := by
      rintro rfl
      rw [h.processTree.running, Int.toNat_natCast] at hrun
      exact hrun rfl
    rw [Function.update_of_ne hrun, Function.update_of_ne hrun]
    exact hsaved t ht hwait

/-- **Every action keeps the saved registers** of the waiting processes. -/
theorem savedOk_apply (h : s.TreeInv top stack) {lastOut : Nat → Option Context}
    (hsaved : s.SavedOk lastOut) {a : ProcessAction} (ha : s.Enabled a) :
    (s.apply a).SavedOk (s.record lastOut a) := by
  -- a process that waits keeps what it saved; the number reused or given up is not its own
  cases a with
  | tick regs => exact fun t ht _ => h.saved_tick hsaved regs ht
  | spawn p =>
    intro t ht hne
    have hwait : t ≠ s.activeTid := hne
    -- the number of a new process is free, so no terminal waits with it
    have hnew : (s.curPid t).toNat ≠ p := by
      rw [h.cur ⟨t, ht⟩, Int.toNat_natCast]
      exact fun heq => h.free_not_mem ha.1 ha.2 ⟨t, ht⟩ (heq ▸ h.top_mem ⟨t, ht⟩)
    show Function.update lastOut p none _ = some (s.own _)
    rw [h.curPid_apply ha hwait, Function.update_of_ne hnew]
    exact hsaved t ht hwait
  | exit | restart =>
    -- the process that ends is the one that runs, and it does not wait
    intro t ht hne
    have hwait : t ≠ s.activeTid := hne
    show Function.update lastOut s.currPid none _ = some (s.own _)
    rw [h.curPid_apply ha hwait, Function.update_of_ne (h.waiting_ne_running ht hwait)]
    exact hsaved t ht hwait
  | switch | vidmap | other => exact hsaved

end TreeInv

end ProcessState

/-! ## The kernel with its history -/

/-- A kernel and, for every process, the registers that it had when it was switched out last;
    `none` for a process that has not been switched out since it started. -/
structure Switching where
  kernel : Kernel
  lastOut : Nat → Option Context

/-- One event of the kernel, and its record. -/
def switchingStep (s : Switching) (e : KernelEvent) : Option Switching :=
  (kernelStep s.kernel e).map fun k' =>
    { kernel := k'
      lastOut :=
        match e with
        | .tick _ regs => Function.update s.lastOut s.kernel.currPid (some regs)
        -- the running process changes when a new one starts
        | .execute .. =>
          if k'.currPid = s.kernel.currPid then s.lastOut
          else Function.update s.lastOut k'.currPid none
        -- with or without a restart, the process that halts is gone
        | .halt .. => Function.update s.lastOut s.kernel.currPid none
        | _ => s.lastOut }

namespace Kernel

/-- The running process has its own frame and kernel stack, and no two processes in use share
    one. -/
structure InOwnContext (k : Kernel) : Prop where
  frame : k.pageDirectory (programImage / fourMB) = frameEntry (eightMB + fourMB * k.currPid)
  stack : k.tssEsp0 = (eightMB : Int) - eightKB * k.currPid - 4
  apart : ∀ p q, k.processArray p = 1 → k.processArray q = 1 → p < q →
    processFrame p + fourMB ≤ processFrame q ∧ kernelStack q ≤ kernelStack p - eightKB

/-- The registers that a tick loads are those that its process has stored. -/
theorem context_pitHandler {k : Kernel} (hboot : 2 < k.shellTid) (stack : Buffer)
    (regs : Context) :
    (k.pitHandler stack regs).context =
      ((k.pitHandler stack regs).pcbArray (k.pitHandler stack regs).currPid).own := by
  rw [pitHandler_eq hboot]

end Kernel

namespace Switching

/-- The next tick loads the registers that its process had when it was switched out last. -/
def ResumesFresh (s : Switching) : Prop :=
  ∀ stack regs s', switchingStep s (.tick stack regs) = some s' →
    s'.lastOut s'.kernel.currPid = some s'.kernel.context

/-- What every event keeps. -/
structure Ok (s : Switching) : Prop where
  settled : s.kernel.Settled
  stack : s.kernel.processes.OnOwnStack
  saved : s.kernel.processes.SavedOk s.lastOut

/-- The record follows the action of the event. -/
theorem lastOut_step {s s' : Switching} {e : KernelEvent} (h : s.kernel.Settled)
    (hstep : switchingStep s e = some s') :
    s'.lastOut = s.kernel.processes.record s.lastOut (s.kernel.processAction e) := by
  obtain ⟨k', hk', rfl⟩ := Option.map_eq_some_iff.mp hstep
  have hrefines := kernelStep_processes h.boot h.shell hk'
  have hcurr : k'.currPid = (s.kernel.processes.apply (s.kernel.processAction e)).currPid :=
    congrArg ProcessState.currPid hrefines
  cases e with
  | execute command stack regs =>
    have henabled := s.kernel.processAction_enabled (.execute command stack regs)
    simp only [Kernel.processAction] at hcurr henabled ⊢
    -- an `execute` that fails leaves the running process, and the record, as they are
    cases hspawn : s.kernel.spawned command stack with
    | none =>
      rw [hspawn] at hcurr
      exact if_pos hcurr
    | some p =>
      rw [hspawn] at hcurr henabled
      obtain ⟨top, procs, htree⟩ := h.tree
      -- the child is free, so it is not the running process
      have hrunning : s.kernel.currPid ≠ p := by
        obtain ⟨t, -, hrun⟩ := htree.running
        intro heq
        have hmem := htree.top_mem t
        rw [← show s.kernel.currPid = top t from hrun, heq] at hmem
        exact htree.free_not_mem henabled.1 henabled.2 t hmem
      have hnew : k'.currPid = p := hcurr
      rw [hnew, if_neg hrunning.symm]
      rfl
  | halt exitCode stack regs =>
    simp only [Kernel.processAction]
    split_ifs <;> rfl
  | key code =>
    simp only [Kernel.processAction]
    split
    · split_ifs <;> rfl
    · rfl
  | switch | vidmap =>
    simp only [Kernel.processAction]
    split_ifs <;> rfl
  | tick | rtcInterrupt | read | write | «open» | close | getargs => rfl

theorem Ok.step {s s' : Switching} {e : KernelEvent} (h : s.Ok)
    (hstep : switchingStep s e = some s') : s'.Ok := by
  have hout := lastOut_step h.settled hstep
  obtain ⟨k', hk', rfl⟩ := Option.map_eq_some_iff.mp hstep
  have hrefines := kernelStep_processes h.settled.boot h.settled.shell hk'
  obtain ⟨top, stack, htree⟩ := h.settled.tree
  refine ⟨h.settled.step hk', ?_, ?_⟩
  · show k'.processes.OnOwnStack
    rw [hrefines]
    exact h.stack.apply _
  · rw [hout]
    show k'.processes.SavedOk _
    rw [hrefines]
    exact htree.savedOk_apply h.saved (s.kernel.processAction_enabled e)

theorem Ok.inOwnContext {s : Switching} (h : s.Ok) : s.kernel.InOwnContext where
  frame := by
    have hframe : processFrame s.kernel.currPid = eightMB + fourMB * s.kernel.currPid := by
      rw [processFrame, Nat.mul_comm]
    exact h.stack.1.trans (congrArg frameEntry hframe)
  stack := h.stack.2
  apart _ _ _ _ hlt := ⟨processFrame_disjoint hlt, kernelStack_disjoint hlt⟩

/-- The registers are fresh. -/
theorem Ok.resumesFresh {s : Switching} (h : s.Ok) : s.ResumesFresh := by
  intro stack regs s' hstep
  obtain ⟨k', hk', rfl⟩ := Option.map_eq_some_iff.mp hstep
  obtain rfl := Option.some.inj hk'
  obtain ⟨top, procs, htree⟩ := h.settled.tree
  have hnext : (s.kernel.activeTid + 1) % terminalTotalNum < terminalTotalNum :=
    Nat.mod_lt _ (by decide)
  have hsaved := htree.saved_tick h.saved regs hnext
  have hrefines := Kernel.processes_pitHandler h.settled.boot stack regs
  -- the process the tick goes to is the one of the next terminal
  let p := (s.kernel.pitHandler stack regs).currPid
  have hcurr : p = (s.kernel.processes.curPid
      ((s.kernel.activeTid + 1) % terminalTotalNum)).toNat :=
    congrArg ProcessState.currPid hrefines
  -- its registers are those it saved last, by the invariant
  have hown : ((s.kernel.pitHandler stack regs).pcbArray p).own =
      Function.update s.kernel.processes.own s.kernel.currPid regs p :=
    congrFun (congrArg ProcessState.own hrefines) p
  show Function.update s.lastOut s.kernel.currPid (some regs) p =
    some (s.kernel.pitHandler stack regs).context
  rw [Kernel.context_pitHandler h.settled.boot, hown, hcurr]
  exact hsaved

end Switching

/-- The booted kernel; the shells that wait were switched out with the registers in their PCB. -/
def Switching.start (k : Kernel) : Switching where
  kernel := k
  lastOut t := if t < terminalTotalNum ∧ t ≠ k.activeTid then some (k.pcbArray t).own else none

/-- **The context of the running process** in every state that a run of the booted kernel
    reaches: its own frame and kernel stack, shared with no other process; and the registers
    that the next tick loads are those of the last time that its process was switched out,
    still alive since then. -/
theorem running_context_of_run {k : Kernel} (hboot : k.Booted) (hshell : k.image.HoldsShell)
    {es : List KernelEvent} {s : Switching}
    (hrun : exec switchingStep (Switching.start k) es = some s) :
    s.kernel.InOwnContext ∧ s.ResumesFresh := by
  have hstart : (Switching.start k).Ok := by
    refine ⟨hboot.settled hshell, ⟨hboot.frame, hboot.stack⟩, fun t ht hne => ?_⟩
    have hpid : (k.processes.curPid t).toNat = t := by
      rw [show k.processes.curPid t = t from (hboot.shells t ht).1, Int.toNat_natCast]
    show (Switching.start k).lastOut (k.processes.curPid t).toNat =
      some (k.processes.own (k.processes.curPid t).toNat)
    rw [hpid]
    exact if_pos ⟨ht, hne⟩
  have hok : s.Ok := exec_invariant (fun _ _ _ h hstep => h.step hstep) hstart hrun
  exact ⟨hok.inOwnContext, hok.resumesFresh⟩

/-- A shell runs a shell that is switched out twice and ends. -/
theorem running_context_of_run_nested_shell :
    ∃ s, exec switchingStep (Switching.start bootedKernel)
        [.execute (some shellName) (fun _ => 0) ⟨1, 2⟩, .tick (fun _ => 0) ⟨3, 4⟩,
          .tick (fun _ => 0) ⟨5, 6⟩, .tick (fun _ => 0) ⟨7, 8⟩, .tick (fun _ => 0) ⟨9, 10⟩,
          .halt 0 (fun _ => 0) ⟨11, 12⟩] = some s ∧
      s.kernel.InOwnContext ∧ s.ResumesFresh := by
  obtain ⟨s, hrun⟩ := Option.isSome_iff_exists.mp (show (exec switchingStep
    (Switching.start bootedKernel)
    [.execute (some shellName) (fun _ => 0) ⟨1, 2⟩, .tick (fun _ => 0) ⟨3, 4⟩,
      .tick (fun _ => 0) ⟨5, 6⟩, .tick (fun _ => 0) ⟨7, 8⟩, .tick (fun _ => 0) ⟨9, 10⟩,
      .halt 0 (fun _ => 0) ⟨11, 12⟩]).isSome = true by decide +kernel)
  exact ⟨s, hrun, running_context_of_run booted_bootedKernel holdsShell_shellImage hrun⟩

end LinuxLikeOs
