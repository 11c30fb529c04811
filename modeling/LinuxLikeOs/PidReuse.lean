import LinuxLikeOs.Agreement
import LinuxLikeOs.VirtualRtc

/-!
# Reused process numbers

What a process leaves in its PCB when it ends is cleaned up in three places: `close_pcb` resets the
RTC and frees the descriptors, `execute` and `restart_shell` write the rest.

- `Kernel.Reached.idle`: a free process number counts no RTC interrupts
- `started_same`: programs that start in the same process, whatever it has left behind, find the
  same state
- `Kernel.Follows`: they go on to see the same, also of directories, whose index is a global
- `pid_reuse_of_runs`: no state leaks through a process number
-/

namespace LinuxLikeOs

open Library

/-! ## Free process numbers -/

namespace Kernel

/-- A state that a run from power-on leads to. -/
def Reached (k : Kernel) : Prop :=
  ∃ img es, exec startupStep (powerOn img) es = some k

/-- A process number without a process has no RTC. -/
def Idle (k : Kernel) : Prop :=
  ∀ p, k.processArray p = 0 → k.devices.rtcfreq p = 0 ∧ k.devices.rtcCounter p = 0

theorem Idle.step {k k' : Kernel} (h : k.Idle) {e : KernelEvent}
    (hstep : startupStep k e = some k') : k'.Idle := by
  obtain ⟨hcall, hkernel⟩ := startupStep_eq_some hstep
  intro p hfree
  have hreset : k.processArray p = 0 ∨ e.IsHalt ∧ p = k.currPid := by
    by_contra hother
    obtain ⟨hlive, hgoes⟩ := not_or.mp hother
    exact live_of_step hlive hgoes hkernel hfree
  rw [kernelStep_devices hkernel]
  exact RtcRun.devices_reset hreset hcall (h p)

/-- **A free process number has no RTC** in any state that a run leads to. -/
theorem Reached.idle {k : Kernel} (h : k.Reached) : k.Idle := by
  obtain ⟨img, es, hrun⟩ := h
  have hstart : (powerOn img).Idle := fun _ _ => ⟨rfl, rfl⟩
  exact exec_invariant (fun _ _ _ h hstep => h.step hstep) hstart hrun

/-! ## The start of a program -/

/-- The event starts a program in process `p`: `execute`, or a tick of the start-up, takes the
    number for it, or the process is a root shell that halts and starts again. -/
def StartsIn (k : Kernel) (p : Nat) : KernelEvent → Prop
  | .execute command stack _ => k.spawned command stack = some p
  | .tick stack _ =>
    k.shellTid ≤ 2 ∧ (k.tty.terminals k.shellTid).curPid = -1 ∧
      k.spawned (some shellName) stack = some p
  | .halt _ stack _ =>
    p = k.currPid ∧ k.currPid = k.currParentPid ∧ k.checkExecutable shellName stack = true
  | .key _ | .rtcInterrupt | .switch _ | .read .. | .write .. | .open _ | .close _ | .getargs ..
  | .vidmap _ => False

/-- Process `p` runs and has only the first two descriptors open, and no RTC. -/
structure NewProcess (k : Kernel) (p : Nat) : Prop where
  running : k.currPid = p
  table : ∀ i < maximumOpenFiles, (k.pcbArray p).fdArray i = startDescriptor i
  rtcfreq : (k.pcbArray p).rtcfreq = 0
  rtcCounter : (k.pcbArray p).rtcCounter = 0

/-- A program that starts, in a process without an RTC. -/
theorem newProcess_startProgram {k : Kernel} {p : Nat} (hcurr : k.currPid = p)
    (hfreq : k.devices.rtcfreq p = 0) (hcounter : k.devices.rtcCounter p = 0) (args : CString)
    (regs : Context) : (k.startProgram args regs).NewProcess p := by
  subst hcurr
  have hdevices := k.devices_startProgram args regs
  constructor
  case running => exact congrArg ProcessState.currPid (processes_startProgram k args regs)
  case table => exact (pcbArray_startProgram k args regs).1
  case rtcfreq => exact (congrFun (congrArg DeviceState.rtcfreq hdevices) _).trans hfreq
  case rtcCounter => exact (congrFun (congrArg DeviceState.rtcCounter hdevices) _).trans hcounter

/-- Two states in which process `p` has just been started, and that agree in all PCBs. -/
structure StartAlike (k₁ k₂ : Kernel) (p : Nat) : Prop where
  left : k₁.NewProcess p
  right : k₂.NewProcess p
  same : k₁.Same k₂

variable {k₁ k₂ : Kernel} {p : Nat}

/-- `execute` in a free process. -/
theorem startAlike_execute (h : AgreeBut (· = p) k₁ k₂) (hidle₁ : k₁.Idle) (hidle₂ : k₂.Idle)
    {command : Option CString} {stack : Buffer} (hspawn : k₁.spawned command stack = some p)
    (hparent : 2 < k₁.shellTid → k₁.currPid ≠ p) (regs : Context) :
    StartAlike (k₁.execute command stack regs).2 (k₂.execute command stack regs).2 p := by
  obtain ⟨command, rfl, -⟩ := Option.bind_eq_some_iff.mp hspawn
  have hspawn₂ := (h.spawned (some command) stack).symm.trans hspawn
  obtain ⟨⟨-, hfree₁⟩, heq₁⟩ := execute_of_spawned hspawn regs
  obtain ⟨⟨-, hfree₂⟩, heq₂⟩ := execute_of_spawned hspawn₂ regs
  -- in both runs the new process has the RTC fields of a number that is free, zeros
  have hnew {k : Kernel} (hidle : k.Idle) (hfree : k.processArray p = 0) :
      ((k.enterChild p).startProgram (parseCommand command).2 regs).NewProcess p := by
    obtain ⟨hfreq, hcounter⟩ := hidle p hfree
    have hdevices := k.devices_enterChild p
    exact newProcess_startProgram (k.enterChild_frame p).2.1
      ((congrFun (congrArg DeviceState.rtcfreq hdevices) p).trans hfreq)
      ((congrFun (congrArg DeviceState.rtcCounter hdevices) p).trans hcounter) _ regs
  constructor
  case left =>
    rw [heq₁]
    exact hnew hidle₁ hfree₁
  case right =>
    rw [heq₂]
    exact hnew hidle₂ hfree₂
  case same =>
    -- and the rest of the two states is alike after the start
    obtain ⟨hfreq₁, hcounter₁⟩ := hidle₁ p hfree₁
    obtain ⟨hfreq₂, hcounter₂⟩ := hidle₂ p hfree₂
    exact h.execute hspawn (fun _ => id) hparent (hfreq₁.trans hfreq₂.symm)
      (hcounter₁.trans hcounter₂.symm) regs

/-- `close_pcb` resets the RTC of a root shell. -/
private theorem devices_closed {k c : Kernel} (hclose : k.closePcb k.currPid = some c) :
    (c.enterShell k.currPid).devices.rtcfreq k.currPid = 0 ∧
      (c.enterShell k.currPid).devices.rtcCounter k.currPid = 0 := by
  rw [devices_enterShell, devices_closePcb hclose]
  exact ⟨Function.update_self .., Function.update_self ..⟩

/-- `restart_shell` in the process that has halted. -/
theorem startAlike_halt (h : AgreeBut (· = k₁.currPid) k₁ k₂)
    (hroot : k₁.currPid = k₁.currParentPid) {stack : Buffer}
    (hcheck : k₁.checkExecutable shellName stack = true) {exitCode : UInt8} {regs : Context}
    {r₁ r₂ : Outcome × Kernel} (hr₁ : k₁.halt exitCode stack regs = some r₁)
    (hr₂ : k₂.halt exitCode stack regs = some r₂) : StartAlike r₁.2 r₂.2 k₁.currPid := by
  have hroot₂ : k₂.currPid = k₂.currParentPid := by
    rw [← h.currPid, ← h.currParentPid]
    exact hroot
  have hcheck₂ := (h.checkExecutable shellName stack).symm.trans hcheck
  obtain ⟨c₁, hclose₁, -⟩ := Option.map_eq_some_iff.mp hr₁
  obtain ⟨c₂, hclose₂, -⟩ := Option.map_eq_some_iff.mp hr₂
  obtain rfl := Option.some.inj (hr₁.symm.trans (halt_root hclose₁ hroot hcheck exitCode regs))
  obtain rfl := Option.some.inj (hr₂.symm.trans (halt_root hclose₂ hroot₂ hcheck₂ exitCode regs))
  obtain ⟨hfreq₁, hcounter₁⟩ := devices_closed hclose₁
  obtain ⟨hfreq₂, hcounter₂⟩ := devices_closed hclose₂
  have hentered := (h.closePcb hclose₁ hclose₂).enterShell k₁.currPid
  rw [← h.currPid] at hfreq₂ hcounter₂ ⊢
  constructor
  case left => exact newProcess_startProgram rfl hfreq₁ hcounter₁ _ regs
  case right => exact newProcess_startProgram rfl hfreq₂ hcounter₂ _ regs
  case same =>
    refine (hentered.startProgram _ regs).same fun q hq => ?_
    subst hq
    -- `restart_shell` writes the terminal number, too
    have hterminal (c : Kernel) :
        ((c.enterShell k₁.currPid).pcbArray k₁.currPid).terminalNumber = k₁.currPid := by
      simp [enterShell]
    exact hentered.pcb_started ((hterminal c₁).trans (hterminal c₂).symm)
      (hfreq₁.trans hfreq₂.symm) (hcounter₁.trans hcounter₂.symm) _ regs

/-- **Programs that start in the same process** find the same state, whatever the process has
    left behind. -/
theorem startAlike_of_startsIn (h : AgreeBut (· = p) k₁ k₂) (hidle₁ : k₁.Idle) (hidle₂ : k₂.Idle)
    {e : KernelEvent} (hstart : k₁.StartsIn p e) {k₁' k₂' : Kernel}
    (hstep₁ : startupStep k₁ e = some k₁') (hstep₂ : startupStep k₂ e = some k₂') :
    StartAlike k₁' k₂' p := by
  obtain ⟨hcall, hkernel₁⟩ := startupStep_eq_some hstep₁
  obtain ⟨-, hkernel₂⟩ := startupStep_eq_some hstep₂
  cases e with
  | execute command stack regs =>
    obtain rfl := Option.some.inj hkernel₁
    obtain rfl := Option.some.inj hkernel₂
    refine startAlike_execute h hidle₁ hidle₂ hstart (fun _ hself => hcall trivial ?_) regs
    -- the process that calls is in use, the one that starts is free
    obtain ⟨command, rfl, -⟩ := Option.bind_eq_some_iff.mp hstart
    rw [hself]
    exact (execute_of_spawned hstart regs).1.2
  | tick stack regs =>
    obtain rfl := Option.some.inj hkernel₁
    obtain rfl := Option.some.inj hkernel₂
    obtain ⟨hboot, hnone, hspawn⟩ := hstart
    have hearly : ¬ 2 < k₁.shellTid := Nat.not_lt.mpr hboot
    have hchosen : AgreeBut (· = p) k₁.chooseShell k₂.chooseShell :=
      { h with activeTid := h.shellTid }
    rw [pitHandler_boot hboot, pitHandler_boot (h.shellTid ▸ hboot), ← h.tty, ← h.shellTid]
    have hspawned {k : Kernel} (himage : k.image = k₁.image)
        (harray : k.processArray = k₁.processArray) : k.spawned (some shellName) stack = some p :=
      (spawned_congr himage harray ..).trans hspawn
    simp only [hnone, true_and, if_true]
    split_ifs
    · exact startAlike_execute hchosen hidle₁ hidle₂ (hspawned rfl rfl)
        (fun hlate => absurd hlate hearly) regs
    · -- `process_switch` has saved the registers of the last shell
      have hsaved (k : Kernel) (hidle : k.Idle) : (k.chooseShell.modifyPcb
          ((k₁.shellTid : Int) - 1).toNat fun pcb => { pcb with own := regs }).Idle := by
        unfold Idle
        rw [devices_modifyPcb_same]
        · exact hidle
        · exact fun _ => ⟨rfl, rfl⟩
      exact startAlike_execute (hchosen.setOwn _ regs) (hsaved k₁ hidle₁) (hsaved k₂ hidle₂)
        (hspawned rfl rfl) (fun hlate => absurd hlate hearly) regs
  | halt exitCode stack regs =>
    obtain ⟨rfl, hroot, hcheck⟩ := hstart
    obtain ⟨r₁, hr₁, rfl⟩ := Option.map_eq_some_iff.mp hkernel₁
    obtain ⟨r₂, hr₂, rfl⟩ := Option.map_eq_some_iff.mp hkernel₂
    exact startAlike_halt h hroot hcheck hr₁ hr₂
  | key | rtcInterrupt | switch | read | write | «open» | close | getargs | vidmap =>
    exact hstart.elim

/-! ## Directories -/

/-- Process `p` has no directory open. -/
def NoDirectory (k : Kernel) (p : Nat) : Prop :=
  ∀ i < maximumOpenFiles, (k.files.tables p i).flags ≠ notUse →
    (k.files.tables p i).funcPointer ≠ .table .dir

/-- A program that starts. -/
theorem noDirectory_of_start {k : Kernel}
    (h : ∀ i < maximumOpenFiles, k.files.tables p i = startDescriptor i) : k.NoDirectory p := by
  intro i hi _
  rw [h i hi]
  unfold startDescriptor
  split_ifs
  · exact fun hdir => FileOperation.noConfusion (FuncPointer.table.inj hdir)
  · exact fun hdir => FileOperation.noConfusion (FuncPointer.table.inj hdir)
  · exact FuncPointer.noConfusion

/-- A descriptor that is stored and is no directory. -/
theorem NoDirectory.setFd {k k' : Kernel} (h : k.NoDirectory k.currPid) {i : Nat}
    {d : FileDescriptor} (hfiles : k'.files = k.files.setFd i d)
    (hd : i < maximumOpenFiles → d.flags ≠ notUse → d.funcPointer ≠ .table .dir) :
    k'.NoDirectory k.currPid := by
  intro j hj
  rw [tables_of_setFd hfiles]
  by_cases hji : j = i
  · subst hji
    rw [Function.update_self]
    exact hd hj
  · rw [Function.update_of_ne hji]
    exact h j hj

/-- **A process opens a directory** only by an `open` that sets the index to 0. -/
theorem NoDirectory.step {k k' : Kernel} {e : KernelEvent} (h : k.NoDirectory p)
    (hlive : k.processArray p ≠ 0) (hgoes : ¬ (e.IsHalt ∧ p = k.currPid))
    (hstep : kernelStep k e = some k') : k'.NoDirectory p ∨ k.deviceAction e = .openDir := by
  have hsame (htable : k'.files.tables p = k.files.tables p) : k'.NoDirectory p := by
    unfold NoDirectory
    rw [htable]
    exact h
  by_cases hcall : p = k.currPid ∧ e.IsFileCall
  · obtain ⟨rfl, he⟩ := hcall
    cases e with
    | read fd buf nbytes =>
      rcases k.files_read fd buf nbytes k' hstep with hfiles | ⟨hin, -, pos, hfiles⟩
      · exact .inl (hsame (congrFun (congrArg FileState.tables hfiles) _))
      · exact .inl (h.setFd hfiles fun hi => h _ hi)
    | write fd buf nbytes =>
      have hfiles := k.files_write fd buf nbytes k' hstep
      exact .inl (hsame (congrFun (congrArg FileState.tables hfiles) _))
    | «open» filename =>
      cases hopened : k.openedTable filename with
      | none =>
        obtain ⟨i, d, hfiles, -, hd⟩ := open_of_openedTable_none hopened hstep
        refine .inl (h.setFd hfiles fun hi huse => ?_)
        rcases hd with rfl | hin | hout
        · exact h i hi huse
        · rw [hin]
          exact fun hdir => FileOperation.noConfusion (FuncPointer.table.inj hdir)
        · rw [hout]
          exact fun hdir => FileOperation.noConfusion (FuncPointer.table.inj hdir)
      | some ops =>
        -- `dir_open` sets the index, which all processes share, to 0
        by_cases hdir : ops = .dir
        · subst hdir
          exact .inr (by rw [deviceAction, hopened])
        · obtain ⟨fd, d, hfiles, -, -, -, hd⟩ := open_of_openedTable hopened hstep
          refine .inl (h.setFd hfiles fun _ _ => ?_)
          rw [hd]
          exact fun heq => hdir (FuncPointer.table.inj heq)
    | close fd =>
      rcases k.files_close fd k' hstep with hfiles | hfiles
      · exact .inl (hsame (congrFun (congrArg FileState.tables hfiles) _))
      · exact .inl (h.setFd hfiles fun _ huse => absurd rfl huse)
    | tick | key | rtcInterrupt | switch | execute | halt | getargs | vidmap => exact he.elim
  · have hkeeps := kernelStep_keepsTable hlive
      (fun hp => ⟨fun he => hcall ⟨hp, he⟩, fun he => hgoes ⟨he, hp⟩⟩) hstep
    exact .inl (hsame hkeeps.table)

/-! ## Two runs -/

/-- The states agree, and in the index of the next entry, too, unless process `p` has no directory
    open. -/
structure Follows (p : Nat) (k₁ k₂ : Kernel) : Prop where
  same : k₁.Same k₂
  index : k₁.processArray p ≠ 0 → k₁.dirReadnum = k₂.dirReadnum ∨ k₁.NoDirectory p

theorem StartAlike.follows (h : StartAlike k₁ k₂ p) : Follows p k₁ k₂ :=
  ⟨h.same, fun _ => .inr (noDirectory_of_start h.left.table)⟩

/-- The index after an action. -/
private theorem dirReadnum_apply {s t : DeviceState} (h : s.dirReadnum = t.dirReadnum)
    (a : DeviceAction) : (s.apply a).dirReadnum = (t.apply a).dirReadnum := by
  cases a with
  | openDir => rfl
  | readDir n => simp only [DeviceState.apply, h]
  | interrupt | openRtc | readRtc | writeRtc | resetRtc | other => exact h

/-- **Every event** keeps the two runs together. -/
theorem Follows.step (h : Follows p k₁ k₂) {e : KernelEvent} {k₁' k₂' : Kernel}
    (hstep₁ : kernelStep k₁ e = some k₁') (hstep₂ : kernelStep k₂ e = some k₂') :
    Follows p k₁' k₂' := by
  have hrel := kernelStep_same h.same e
  rw [hstep₁, hstep₂] at hrel
  have hdevices₁ := congrArg DeviceState.dirReadnum (kernelStep_devices hstep₁)
  have hdevices₂ := congrArg DeviceState.dirReadnum (kernelStep_devices hstep₂)
  rw [← Same.deviceAction h.same e] at hdevices₂
  constructor
  case same =>
    cases hrel with
    | some hsame => exact hsame
  case index =>
    intro hlive'
    -- a process that starts has no directory open; one that goes on has opened it since
    by_cases hreset : k₁.processArray p = 0 ∨ e.IsHalt ∧ p = k₁.currPid
    · exact .inr (noDirectory_of_start (kernelStep_freshTable hreset hstep₁ hlive'))
    · obtain ⟨hlive, hgoes⟩ := not_or.mp hreset
      rcases h.index hlive with hindex | hnone
      · exact .inl (hdevices₁.trans ((dirReadnum_apply hindex _).trans hdevices₂.symm))
      · rcases hnone.step hlive hgoes hstep₁ with hnone' | hopens
        · exact .inr hnone'
        · rw [hopens] at hdevices₁ hdevices₂
          exact .inl (hdevices₁.trans hdevices₂.symm)

/-- The calls of the running process on files and devices have the same results in both states. -/
structure SameResults (k₁ k₂ : Kernel) : Prop where
  read : ∀ fd buf nbytes, SysResult.Alike True (k₁.read fd buf nbytes) (k₂.read fd buf nbytes)
  write : ∀ fd buf nbytes, SysResult.Alike True (k₁.write fd buf nbytes) (k₂.write fd buf nbytes)
  opens : ∀ filename, SysResult.Alike True (k₁.open filename) (k₂.open filename)
  close : ∀ fd, SysResult.Alike True (k₁.close fd) (k₂.close fd)

/-- The states agree, the next event can happen in both or in neither, and if process `p` runs, its
    calls have the same results. -/
structure LooksAlike (p : Nat) (k₁ k₂ : Kernel) (e : KernelEvent) : Prop where
  same : k₁.Same k₂
  goes : (startupStep k₁ e).isSome = (startupStep k₂ e).isSome
  results : k₁.currPid = p → k₁.processArray p ≠ 0 → SameResults k₁ k₂

theorem Follows.looksAlike (h : Follows p k₁ k₂) (e : KernelEvent) : LooksAlike p k₁ k₂ e where
  same := h.same
  goes := by
    -- steps of alike states are alike, also in whether there is one
    have hrel := kernelStep_same h.same e
    unfold startupStep
    rw [← h.same.processArray, ← h.same.currPid]
    split_ifs
    · rfl
    · generalize kernelStep k₁ e = next₁, kernelStep k₂ e = next₂ at hrel
      cases hrel <;> rfl
  results := by
    rintro rfl hlive
    constructor
    case read =>
      intro fd buf nbytes
      -- a directory is read alike unless the index is unknown, and then none is open
      refine (Same.read h.same fd buf nbytes).of_imp fun _ => ?_
      refine (h.index hlive).imp_right fun hnone hdir => ?_
      obtain ⟨⟨-, -, hin⟩, huse, hptr⟩ := calledTable_eq_some hdir
      exact hnone _ hin huse hptr
    case write => exact Same.write h.same
    case opens => exact Same.open h.same
    case close => exact Same.close h.same

end Kernel

/-- **No state leaks through a process number**: in two states that runs from power-on lead to and
    that agree but for the PCB of process `p`, an event that starts a program in this process
    leaves states that agree in all PCBs, and in which the process has only the first two
    descriptors open and no RTC; and whatever happens next, it finds the same. -/
theorem pid_reuse_of_runs {k₁ k₂ : Kernel} (hreached₁ : k₁.Reached) (hreached₂ : k₂.Reached)
    {p : Nat} (h : Kernel.AgreeBut (· = p) k₁ k₂) {e : KernelEvent} (hstart : k₁.StartsIn p e)
    {k₁' k₂' : Kernel} (hstep₁ : startupStep k₁ e = some k₁')
    (hstep₂ : startupStep k₂ e = some k₂') :
    Kernel.StartAlike k₁' k₂' p ∧
      ∀ es, EachTogether startupStep (Kernel.LooksAlike p) k₁' k₂' es := by
  have hstarted :=
    Kernel.startAlike_of_startsIn h hreached₁.idle hreached₂.idle hstart hstep₁ hstep₂
  refine ⟨hstarted, eachTogether_of_invariant ?_ ?_ hstarted.follows⟩
  · intro s t e s' t' hfollows hs ht
    exact hfollows.step (startupStep_eq_some hs).2 (startupStep_eq_some ht).2
  · exact fun s t e hfollows => hfollows.looksAlike e

/-- The shell starts another one. -/
def startShell : KernelEvent := .execute (some shellName) (fun _ => 0) ⟨0, 0⟩

/-- Process 3 opens a file and halts. -/
def leavesFile : List KernelEvent :=
  [startShell, .open (some shellName), .halt 0 (fun _ => 0) ⟨0, 0⟩]

/-- Process 3 halts at once. -/
def leavesNothing : List KernelEvent := [startShell, .halt 0 (fun _ => 0) ⟨0, 0⟩]

/-- The run goes on after `n` ticks. -/
theorem exec_ticks (k : Kernel) (stack : Buffer) (regs : Context) (n : Nat)
    (es : List KernelEvent) :
    exec startupStep k (List.replicate n (.tick stack regs) ++ es) =
      exec startupStep ((fun k => k.pitHandler stack regs)^[n] k) es := by
  induction n generalizing k with
  | zero => rfl
  | succ n ih => exact ih (k.pitHandler stack regs)

/-- The booted kernel comes from power-on. -/
theorem reached_of_bootedKernel {es : List KernelEvent} {k : Kernel}
    (h : exec startupStep bootedKernel es = some k) : k.Reached :=
  ⟨shellImage, _, (exec_ticks _ (fun _ => 0) ⟨0, 0⟩ 6 es).trans h⟩

theorem pid_reuse_of_runs_left_file :
    ∃ k₁ k₂ k₁' k₂', exec startupStep bootedKernel leavesNothing = some k₁ ∧
      exec startupStep bootedKernel leavesFile = some k₂ ∧
      (k₁.pcbArray 3).fdArray 2 ≠ (k₂.pcbArray 3).fdArray 2 ∧
      startupStep k₁ startShell = some k₁' ∧ startupStep k₂ startShell = some k₂' ∧
      Kernel.StartAlike k₁' k₂' 3 ∧
      ∀ es, EachTogether startupStep (Kernel.LooksAlike 3) k₁' k₂' es := by
  have hstart : (startupStep bootedKernel startShell).map (fun k =>
      (k.currPid, k.currParentPid, k.openedTable (some shellName))) = some (3, 2, some .file) := by
    decide +kernel
  have hnothing : (exec startupStep bootedKernel leavesNothing).map (fun k =>
      ((k.pcbArray 3).fdArray 2, k.spawned (some shellName) fun _ => 0,
        (startupStep k startShell).isSome)) = some (freeDescriptor, some 3, true) := by
    decide +kernel
  have hfile : (exec startupStep bootedKernel leavesFile).map (fun k =>
      ((k.pcbArray 3).fdArray 2, (startupStep k startShell).isSome)) =
        some ({ freeDescriptor with inodeNum := 0 }, true) := by
    decide +kernel
  obtain ⟨s, hs, hvalues⟩ := Option.map_eq_some_iff.mp hstart
  obtain ⟨k₁, hrun₁, hvalues₁⟩ := Option.map_eq_some_iff.mp hnothing
  obtain ⟨k₂, hrun₂, hvalues₂⟩ := Option.map_eq_some_iff.mp hfile
  simp only [Prod.mk.injEq] at hvalues hvalues₁ hvalues₂
  obtain ⟨hcurr, hparent, hopens⟩ := hvalues
  obtain ⟨hleft₁, hspawn, hnext₁⟩ := hvalues₁
  obtain ⟨hleft₂, hnext₂⟩ := hvalues₂
  obtain ⟨k₁', hstep₁⟩ := Option.isSome_iff_exists.mp hnext₁
  obtain ⟨k₂', hstep₂⟩ := Option.isSome_iff_exists.mp hnext₂
  -- the states agree when process 3 has opened the file, and when it has halted
  have hagree : Kernel.AgreeBut (· = 3) k₁ k₂ := by
    rw [leavesNothing, exec_cons_of_step hs, exec_singleton] at hrun₁
    rw [leavesFile, exec_cons_of_step hs] at hrun₂
    obtain ⟨s₂, hopen, hhalt⟩ := exec_cons_iff.mp hrun₂
    rw [exec_singleton] at hhalt
    have hopened := Kernel.AgreeBut.of_open hopens (startupStep_eq_some hopen).2
    obtain ⟨r₁, hr₁, rfl⟩ := Option.map_eq_some_iff.mp (startupStep_eq_some hrun₁).2
    obtain ⟨r₂, hr₂, rfl⟩ := Option.map_eq_some_iff.mp (startupStep_eq_some hhalt).2
    have hhalted := hopened.halt (by rw [hcurr, hparent]; decide) hr₁ hr₂
    rwa [hcurr] at hhalted
  have hleft : (k₁.pcbArray 3).fdArray 2 ≠ (k₂.pcbArray 3).fdArray 2 := by
    rw [hleft₁, hleft₂]
    decide
  exact ⟨k₁, k₂, k₁', k₂', hrun₁, hrun₂, hleft, hstep₁, hstep₂,
    pid_reuse_of_runs (reached_of_bootedKernel hrun₁) (reached_of_bootedKernel hrun₂) hagree
      (show k₁.StartsIn 3 startShell from hspawn) hstep₁ hstep₂⟩

end LinuxLikeOs
