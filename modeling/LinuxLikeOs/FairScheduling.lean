import LinuxLikeOs.Library.Turns
import LinuxLikeOs.AddressSpace

/-!
# Fair scheduling

Once the boot shells exist, every PIT interrupt gives the processor to the next terminal, whatever
the programs and the other interrupts do between them.

- `KernelEvent.IsTick`: the PIT interrupts
- `takesTurns_startupStep`: the kernel takes turns among the terminals
- `Settled.waiting_step`: the process of a terminal that waits stays the same
- `round_robin_of_run`: the order of the time slices, the shares, and how long a process waits
-/

namespace LinuxLikeOs

open Library

/-- The interrupts of the PIT. -/
def KernelEvent.IsTick : KernelEvent → Prop
  | .tick .. => True
  | .key _ | .rtcInterrupt | .switch _ | .execute .. | .halt .. | .read .. | .write .. | .open _ |
    .close _ | .getargs .. | .vidmap _ => False

instance : DecidablePred KernelEvent.IsTick
  | .tick .. => isTrue trivial
  | .key _ | .rtcInterrupt | .switch _ | .execute .. | .halt .. | .read .. | .write .. | .open _
  | .close _ | .getargs .. | .vidmap _ => isFalse id

namespace Kernel

variable {k k' : Kernel} {e : KernelEvent}

theorem Settled.activeTid_lt (h : k.Settled) : k.activeTid < terminalTotalNum := by
  obtain ⟨top, stack, htree⟩ := h.tree
  exact htree.processTree.active

/-- The process of the active terminal runs. -/
theorem Settled.running (h : k.Settled) :
    (k.currPid : Int) = (k.tty.terminals k.activeTid).curPid := by
  obtain ⟨top, stack, htree⟩ := h.tree
  exact htree.processTree.running.symm

/-- Only a tick goes on to another terminal. -/
theorem processAction_tick (he : ¬ e.IsTick) (regs : Context) :
    k.processAction e ≠ .tick regs := by
  intro haction
  cases e with
  | tick => exact absurd trivial he
  | key | switch | execute | halt | vidmap =>
    simp only [processAction] at haction
    repeat' split at haction
    all_goals cases haction
  | rtcInterrupt | read | write | «open» | close | getargs => cases haction

theorem Settled.activeTid_step (h : k.Settled) (hstep : kernelStep k e = some k')
    (he : ¬ e.IsTick) : k'.activeTid = k.activeTid := by
  have hprocesses := kernelStep_processes h.boot h.shell hstep
  have hactive : k'.activeTid = (k.processes.apply (k.processAction e)).activeTid :=
    congrArg ProcessState.activeTid hprocesses
  rw [hactive]
  cases haction : k.processAction e with
  | tick regs => exact absurd haction (processAction_tick he regs)
  | switch | spawn | exit | restart | vidmap | other => rfl

theorem Settled.activeTid_tick (h : k.Settled) (hstep : kernelStep k e = some k')
    (he : e.IsTick) : k'.activeTid = (k.activeTid + 1) % terminalTotalNum := by
  cases e with
  | tick stack regs =>
    exact congrArg ProcessState.activeTid (kernelStep_processes h.boot h.shell hstep)
  | key | rtcInterrupt | switch | execute | halt | read | write | «open» | close | getargs
  | vidmap => exact he.elim

/-- The process of a terminal that waits stays the same. -/
theorem Settled.waiting_step (h : k.Settled) {t : Nat} (hwaits : k.activeTid ≠ t)
    (hstep : kernelStep k e = some k') :
    (k'.tty.terminals t).curPid = (k.tty.terminals t).curPid := by
  obtain ⟨top, stack, htree⟩ := h.tree
  have hprocesses := kernelStep_processes h.boot h.shell hstep
  exact (congrFun (congrArg ProcessState.curPid hprocesses) t).trans
    (htree.curPid_apply (k.processAction_enabled e) hwaits.symm)

end Kernel

/-- **The terminals take turns.** -/
theorem takesTurns_startupStep :
    TakesTurns startupStep KernelEvent.IsTick Kernel.activeTid terminalTotalNum Kernel.Settled where
  lt _ h := h.activeTid_lt
  keeps _ _ _ h hstep := h.step (startupStep_eq_some hstep).2
  next _ _ _ h hstep he := h.activeTid_tick (startupStep_eq_some hstep).2 he
  stays _ _ _ h hstep he := h.activeTid_step (startupStep_eq_some hstep).2 he

/-- What the scheduler guarantees in a run from `k` on. -/
structure FairRun (k : Kernel) (es : List KernelEvent) : Prop where
  order : turnsOf startupStep KernelEvent.IsTick Kernel.activeTid k es =
    roundRobin terminalTotalNum k.activeTid (es.countP KernelEvent.IsTick)
  shares : ∀ t < terminalTotalNum,
    es.countP KernelEvent.IsTick / terminalTotalNum ≤
        (turnsOf startupStep KernelEvent.IsTick Kernel.activeTid k es).count t ∧
      (turnsOf startupStep KernelEvent.IsTick Kernel.activeTid k es).count t ≤
        es.countP KernelEvent.IsTick / terminalTotalNum + 1
  waits : ∀ t < terminalTotalNum, 2 ≤ es.countP KernelEvent.IsTick →
    ∃ es₁ es₂ k₁, es = es₁ ++ es₂ ∧ exec startupStep k es₁ = some k₁ ∧
      es₁.countP KernelEvent.IsTick ≤ 2 ∧ k₁.activeTid = t ∧
      (k₁.currPid : Int) = (k.tty.terminals t).curPid

/-- **Round robin**: from every state that the start-up leads to, in every run, the PIT gives its
    time slices to the terminals in turn, each gets its share of them, and after at most two of them
    the process that a terminal had at the beginning runs. -/
theorem round_robin_of_run {a : TableAddresses} {img : Image} (hshell : img.HoldsShell)
    {es es' : List KernelEvent}
    (hquiet : EachStep startupStep Kernel.NoEarlyProgram (.entry a img) es) {k k' : Kernel}
    (hrun : exec startupStep (.entry a img) es = some k) (hboot : 2 < k.shellTid)
    (hrun' : exec startupStep k es' = some k') : FairRun k es' := by
  have hsettled : k.Settled := (wellMapped_of_run hshell hquiet hrun).1.started.settled hboot
  -- one step lemma for the turn is enough: `TakesTurns` is the induction over the run
  have horder := takesTurns_startupStep.turnsOf_eq hsettled hrun'
  constructor
  case order => exact horder
  case shares =>
    intro t ht
    -- in a round robin over `n` terminals every terminal has its share of the ticks
    rw [horder]
    exact count_roundRobin ht _
  case waits =>
    intro t ht hlong
    -- `t` is reached within the next two ticks, and its process is the one that waited
    obtain ⟨es₁, es₂, k₁, hsplit, hrun₁, hcount, hturn, hsettled₁, hsame⟩ :=
      takesTurns_startupStep.reaches ht
        (P := fun s => (s.tty.terminals t).curPid = (k.tty.terminals t).curPid)
        (fun s e s' h hwaits hstep hp =>
          (h.waiting_step hwaits (startupStep_eq_some hstep).2).trans hp)
        hsettled rfl hrun' (Nat.succ_le_succ hlong)
    refine ⟨es₁, es₂, k₁, hsplit, hrun₁, Nat.le_of_lt_succ hcount, hturn, ?_⟩
    rw [hsettled₁.running, hturn, hsame]

instance (k : Kernel) : DecidablePred k.NoEarlyProgram
  | .execute command stack _ =>
    inferInstanceAs (Decidable (k.shellTid ≤ 2 → k.spawned command stack = none))
  | .tick .. | .key _ | .rtcInterrupt | .switch _ | .halt .. | .read .. | .write .. | .open _
  | .close _ | .getargs .. | .vidmap _ => isTrue trivial

/-- The ticks that start the three shells. -/
def bootTicks : List KernelEvent := List.replicate 6 (.tick (fun _ => 0) ⟨0, 0⟩)

/-- A shell starts a program between two ticks. -/
def sharedTicks : List KernelEvent :=
  [.tick (fun _ => 0) ⟨0, 0⟩, .execute (some shellName) (fun _ => 0) ⟨0, 0⟩,
    .tick (fun _ => 0) ⟨0, 0⟩, .key 0x1e, .tick (fun _ => 0) ⟨0, 0⟩]

theorem round_robin_of_run_shared_ticks :
    ∃ k, exec startupStep (Kernel.entry sampleTables shellImage) bootTicks = some k ∧
      FairRun k sharedTicks := by
  obtain ⟨k, hrun⟩ := Option.isSome_iff_exists.mp (show (exec startupStep
    (Kernel.entry sampleTables shellImage) bootTicks).isSome = true by decide +kernel)
  obtain ⟨k', hrun'⟩ := Option.isSome_iff_exists.mp (show (exec startupStep
    (Kernel.entry sampleTables shellImage) (bootTicks ++ sharedTicks)).isSome = true
      by decide +kernel)
  -- the second run is the boot followed by the ticks
  rw [exec_append hrun] at hrun'
  have hquiet : EachStep startupStep Kernel.NoEarlyProgram (Kernel.entry sampleTables shellImage)
      bootTicks := by
    decide +kernel
  have hboot : ∀ k ∈ exec startupStep (Kernel.entry sampleTables shellImage) bootTicks,
      2 < k.shellTid := by
    decide +kernel
  exact ⟨k, hrun, round_robin_of_run holdsShell_shellImage hquiet hrun (hboot k hrun) hrun'⟩

end LinuxLikeOs
