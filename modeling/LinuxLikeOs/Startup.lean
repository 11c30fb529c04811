import LinuxLikeOs.ProcessRuns

/-!
# Start-up

From power-on, the timer starts one shell after the other: one tick starts the shell of terminal
`shell_tid`, the next one goes on to the next terminal.

- `ProcessState.Starting`: the first shells run, each on its terminal
- `startupStep`: the kernel from power-on, where system calls are made by programs
- `startup_safe_iff`: the start-up is safe exactly if no program executes another one meanwhile
- `Kernel.Started`: what holds in every state after such a start-up
-/

namespace LinuxLikeOs

open Library

/-! ## The process table during start-up -/

namespace ProcessState

/-- A program that starts while `shell_tid` is at most 2. -/
def bootShell (s : ProcessState) (p : Nat) : ProcessState :=
  { s.enter p with
    processArray := Function.update s.processArray p 1
    parentPid := Function.update s.parentPid p p
    terminalNumber := Function.update s.terminalNumber p s.shellTid
    curPid := Function.update s.curPid s.shellTid p
    currParentPid := p
    vidPage := vidPageEntry (drawingPage s.display s.vidBuf s.shellTid) }

/-- The shells of the first `m` terminals run, each in the process with the number of its
    terminal, and nothing else; the last one is the running process. -/
structure Starting (s : ProcessState) (m : Nat) : Prop where
  low : s.shellTid ≤ m
  high : m ≤ s.shellTid + 1
  bounded : m ≤ terminalTotalNum
  curPid : ∀ t < terminalTotalNum, s.curPid t = if t < m then (t : Int) else -1
  array : ∀ p < maxProcessNum, s.processArray p = if p < m then 1 else 0
  shells : ∀ t < m, s.parentPid t = t ∧ s.terminalNumber t = t
  running : s.currPid = m - 1
  parent : s.currParentPid = m - 1
  active : s.activeTid = m - 1

namespace Starting

variable {s : ProcessState} {m : Nat}

/-- The timer starts the next shell. -/
theorem bootShell (h : s.Starting m) (htid : s.shellTid = m) (hm : m < terminalTotalNum)
    (own : Nat → Context) :
    ({ s with activeTid := m, own := own }.bootShell m).Starting (m + 1) := by
  -- only terminal `m` and process `m` are new
  have hnext : ∀ {t : Nat}, t ≠ m → (t < m + 1 ↔ t < m) := by omega
  constructor
  case low => exact htid ▸ Nat.le_succ s.shellTid
  case high => exact Nat.succ_le_succ (Nat.le_of_eq htid.symm)
  case bounded => exact hm
  case curPid =>
    intro t ht
    simp only [ProcessState.bootShell, htid]
    by_cases heq : t = m
    · subst heq
      rw [Function.update_self, if_pos (Nat.lt_succ_self t)]
    · rw [Function.update_of_ne heq, h.curPid t ht]
      simp only [hnext heq]
  case array =>
    intro p hp
    simp only [ProcessState.bootShell]
    by_cases heq : p = m
    · subst heq
      rw [Function.update_self, if_pos (Nat.lt_succ_self p)]
    · rw [Function.update_of_ne heq, h.array p hp]
      simp only [hnext heq]
  case shells =>
    intro t ht
    simp only [ProcessState.bootShell, htid]
    by_cases heq : t = m
    · subst heq
      exact ⟨Function.update_self .., Function.update_self ..⟩
    · obtain ⟨hparent, hterminal⟩ := h.shells t ((hnext heq).mp ht)
      exact ⟨(Function.update_of_ne heq ..).trans hparent,
        (Function.update_of_ne heq ..).trans hterminal⟩
  case running | parent | active => exact (Nat.add_sub_cancel m 1).symm

/-- The timer goes on to the next terminal. -/
theorem next (h : s.Starting m) (htid : s.shellTid + 1 = m) :
    { s with activeTid := s.shellTid, shellTid := s.shellTid + 1 }.Starting m where
  low := Nat.le_of_eq htid
  high := Nat.le_succ_of_le (Nat.le_of_eq htid.symm)
  bounded := h.bounded
  curPid := h.curPid
  array := h.array
  shells := h.shells
  running := h.running
  parent := h.parent
  active := Nat.eq_sub_of_add_eq htid

/-- The running shell halts and starts again. -/
theorem restart (h : s.Starting m) (hm : 0 < m) : (s.apply .restart).Starting m := by
  have hrun := h.running
  have hlast : s.currPid < m := by omega
  have hcurr : s.currPid < terminalTotalNum := Nat.lt_of_lt_of_le hlast h.bounded
  obtain ⟨hparent, hterminal⟩ := h.shells s.currPid hlast
  constructor
  case low => exact h.low
  case high => exact h.high
  case bounded => exact h.bounded
  case curPid =>
    -- the shell writes what is there already
    have hself : Function.update s.curPid s.currPid (s.currPid : Int) = s.curPid :=
      Function.update_eq_self_iff.mpr (by rw [h.curPid _ hcurr, if_pos hlast])
    simp only [apply, hself]
    exact h.curPid
  case array =>
    have hself : Function.update s.processArray s.currPid 1 = s.processArray :=
      Function.update_eq_self_iff.mpr
        (by rw [h.array _ (Nat.lt_trans hcurr (by decide)), if_pos hlast])
    simp only [apply, hself]
    exact h.array
  case shells =>
    have hparents : Function.update s.parentPid s.currPid s.currPid = s.parentPid :=
      Function.update_eq_self_iff.mpr hparent.symm
    have hterminals : Function.update s.terminalNumber s.currPid s.currPid = s.terminalNumber :=
      Function.update_eq_self_iff.mpr hterminal.symm
    simp only [apply, hparents, hterminals]
    exact h.shells
  case running => exact h.running
  case parent => exact h.running
  case active => exact h.active

/-- The other fields. -/
theorem congr (h : s.Starting m) {display frame vidPage : Nat} {esp0 : Int} :
    { s with display := display, frame := frame, vidPage := vidPage, esp0 := esp0 }.Starting m where
  low := h.low
  high := h.high
  bounded := h.bounded
  curPid := h.curPid
  array := h.array
  shells := h.shells
  running := h.running
  parent := h.parent
  active := h.active

/-- All shells run. -/
theorem treeInv (h : s.Starting m) (hboot : 2 < s.shellTid) :
    s.TreeInv Fin.val fun t => [t.val] := by
  -- `shell_tid` has passed all terminals, so each has its shell
  have hall : m = terminalTotalNum := by
    have hlow := h.low
    have hbound := h.bounded
    simp only [terminalTotalNum] at hbound ⊢
    omega
  subst hall
  refine treeInv_of_shells (fun t ht => ?_) (fun p hp hge => ?_) ?_ ?_ ?_
  · obtain ⟨hparent, hterminal⟩ := h.shells t ht
    refine ⟨(h.curPid t ht).trans (if_pos ht), ?_, hparent, hterminal⟩
    rw [h.array t (Nat.lt_trans ht (by decide)), if_pos ht]
  · rw [h.array p hp, if_neg (Nat.not_lt.mpr hge)]
  · rw [h.active]
    decide
  · rw [h.running, h.active]
  · rw [h.parent, h.running]

end Starting

end ProcessState

/-! ## The kernel during start-up -/

namespace Kernel

/-- `execute`, while `shell_tid` is at most 2. -/
theorem processes_bootExecute {k : Kernel} (hboot : k.shellTid ≤ 2) {command : Option CString}
    {stack : Buffer} {p : Nat} (hspawn : k.spawned command stack = some p) (regs : Context) :
    (k.execute command stack regs).2.processes = k.processes.bootShell p := by
  rcases k.execute_cases command stack regs with ⟨hnone, -⟩ | ⟨q, args, hsome, -, -, heq⟩
  · rw [hspawn] at hnone
    cases hnone
  · obtain rfl : p = q := Option.some.inj (hspawn.symm.trans hsome)
    -- the branch for `shell_tid <= 2` makes the process its own parent
    let forked : Kernel :=
      { k with
        processArray := Function.update k.processArray p 1
        currParentPid := p
        currPid := p }
    have hentered : (k.enterChild p).processes =
        { forked.processes with
          curPid := Function.update k.processes.curPid k.shellTid p
          terminalNumber := Function.update k.processes.terminalNumber p k.shellTid } := by
      rw [enterChild]
      simp only [if_neg (show ¬ k.shellTid > 2 from Nat.not_lt.mpr hboot)]
      rw [processes_setTerminalNumber]
      have hset := processes_setCurPid forked k.shellTid p
      exact congrArg (fun s : ProcessState =>
        { s with terminalNumber := Function.update s.terminalNumber p k.shellTid }) hset
    obtain ⟨-, hcurr, -⟩ := k.enterChild_frame p
    have hparent : (k.enterChild p).currParentPid = p :=
      congrArg ProcessState.currParentPid hentered
    rw [heq, processes_startProgram, hentered, hcurr, hparent, ite_self]
    refine ProcessState.ext rfl rfl rfl rfl rfl rfl rfl rfl rfl rfl rfl rfl rfl rfl ?_
    exact congrArg (fun t => vidPageEntry (drawingPage k.tty.curDisplayTid
      k.processes.vidBuf t)) (Function.update_self ..)

/-- The shell gets the first free process. -/
theorem spawned_shell {k : Kernel} (hshell : k.ShellStarts) {m : Nat} (hm : m < maxProcessNum)
    (harray : ∀ p < maxProcessNum, k.processArray p = if p < m then 1 else 0) (stack : Buffer) :
    k.spawned (some shellName) stack = some m := by
  have hword : (parseCommand shellName).1 = shellName := rfl
  have hcheck : ¬ k.checkExecutable (parseCommand shellName).1 stack = false := by
    rw [hword, hshell stack]
    decide
  have hfirst : ((List.range maxProcessNum).find? fun i => k.processArray i = 0) = some m := by
    rw [List.find?_range_eq_some]
    refine ⟨decide_eq_true ?_, List.mem_range.mpr hm, fun j hj => ?_⟩
    · exact (harray m hm).trans (if_neg (Nat.lt_irrefl m))
    · rw [harray j (Nat.lt_trans hj hm), if_pos hj]
      decide
  simp only [spawned, Option.bind_some, if_neg hcheck, createProcess, hfirst, Option.map_some]

/-- `execute("shell")` for the next terminal. -/
theorem starting_bootExecute {k left : Kernel} {m : Nat} {own : Nat → Context}
    (h : k.processes.Starting m) (htid : k.shellTid = m) (hm : m < terminalTotalNum)
    (hleft : left.processes = { k.processes with activeTid := m, own := own })
    (hshell : k.ShellStarts) (stack : Buffer) (regs : Context) :
    (left.execute (some shellName) stack regs).2.image = k.image ∧
      (left.execute (some shellName) stack regs).2.processes.Starting (m + 1) := by
  have himage : left.image = k.image := congrArg ProcessState.image hleft
  have harray : left.processArray = k.processArray := congrArg ProcessState.processArray hleft
  have hboot : left.shellTid ≤ 2 := by
    rw [show left.shellTid = k.shellTid from congrArg ProcessState.shellTid hleft, htid]
    exact Nat.le_of_lt_succ hm
  -- the check is about the image alone, and process `m` is the lowest free one
  have hspawn : left.spawned (some shellName) stack = some m := by
    refine spawned_shell ?_ (Nat.lt_trans hm (by decide)) ?_ stack
    · exact fun buf => (checkExecutable_image himage shellName buf).trans (hshell buf)
    · rw [harray]
      exact h.array
  have hstarted := processes_bootExecute hboot hspawn regs
  rw [hleft] at hstarted
  refine ⟨congrArg ProcessState.image hstarted, ?_⟩
  rw [hstarted]
  exact h.bootShell htid hm own

/-- **A tick during start-up** starts the shell of a terminal that has none, or goes on to the
    next terminal. -/
theorem starting_pitHandler {k : Kernel} (hshell : k.ShellStarts) (hboot : k.shellTid ≤ 2)
    {m : Nat} (h : k.processes.Starting m) (stack : Buffer) (regs : Context) :
    (k.pitHandler stack regs).image = k.image ∧
      (k.pitHandler stack regs).processes.Starting (k.shellTid + 1) := by
  have htid : k.shellTid < terminalTotalNum := Nat.lt_succ_of_le hboot
  -- `shell_tid` is `m`, or `m - 1` right after shell `m - 1` has been started
  have hcur : (k.tty.terminals k.shellTid).curPid = if k.shellTid < m then (k.shellTid : Int)
      else -1 := h.curPid k.shellTid htid
  have hlow : k.shellTid ≤ m := h.low
  have hhigh : m ≤ k.shellTid + 1 := h.high
  rw [pitHandler_boot hboot]
  by_cases hnew : k.shellTid = m
  · -- no shell on this terminal yet
    have hnone : (k.tty.terminals k.shellTid).curPid = -1 := by
      rw [hcur, if_neg (Nat.not_lt.mpr (Nat.le_of_eq hnew.symm))]
    have hchosen : k.chooseShell.processes = { k.processes with activeTid := m } := by
      rw [← hnew]
      rfl
    -- the first shell has no process to save, the other two save the one before them
    by_cases hfirst : k.shellTid = 0
    · rw [if_pos ⟨hnone, hfirst⟩]
      have hstarted := starting_bootExecute h hnew (hnew ▸ htid) hchosen
        hshell stack regs
      rw [← hnew] at hstarted
      exact hstarted
    · rw [if_neg fun hboth => hfirst hboth.2, if_pos hnone]
      have hleft := processes_setOwn k.chooseShell ((k.shellTid : Int) - 1).toNat regs
      rw [hchosen] at hleft
      have hstarted := starting_bootExecute h hnew (hnew ▸ htid) hleft hshell stack regs
      rw [← hnew] at hstarted
      exact hstarted
  · -- the shell of this terminal runs already
    have hsome : (k.tty.terminals k.shellTid).curPid ≠ -1 := by
      rw [hcur, if_pos (by omega)]
      omega
    rw [if_neg fun hboth => hsome hboth.1, if_neg hsome]
    have hm : k.shellTid + 1 = m := by omega
    exact ⟨rfl, hm ▸ h.next hm⟩

end Kernel

/-! ## Runs from power-on -/

/-- The system calls. -/
def KernelEvent.IsSystemCall : KernelEvent → Prop
  | .execute .. | .halt .. | .read .. | .write .. | .open _ | .close _ | .getargs .. | .vidmap _ =>
    True
  | .tick .. | .key _ | .rtcInterrupt | .switch _ => False

instance : DecidablePred KernelEvent.IsSystemCall
  | .execute .. | .halt .. | .read .. | .write .. | .open _ | .close _ | .getargs .. | .vidmap _ =>
    isTrue trivial
  | .tick .. | .key _ | .rtcInterrupt | .switch _ => isFalse id

/-- One event of the kernel from power-on: a system call is made by a program. -/
def startupStep (k : Kernel) (e : KernelEvent) : Option Kernel :=
  if e.IsSystemCall ∧ k.processArray k.currPid = 0 then none else kernelStep k e

theorem startupStep_eq_some {k k' : Kernel} {e : KernelEvent} (h : startupStep k e = some k') :
    (e.IsSystemCall → k.processArray k.currPid ≠ 0) ∧ kernelStep k e = some k' := by
  unfold startupStep at h
  by_cases hidle : e.IsSystemCall ∧ k.processArray k.currPid = 0
  · rw [if_pos hidle] at h
    cases h
  · rw [if_neg hidle] at h
    exact ⟨fun hcall hzero => hidle ⟨hcall, hzero⟩, h⟩

namespace Kernel

/-- Process `t` is the root shell of terminal `t`: the processes of the terminal go back to it, it
    is its own parent, and `restart_shell` starts it on this terminal again. -/
structure RootShell (k : Kernel) (t : Nat) : Prop where
  chain : k.processes.OnChain t t
  live : k.processArray t = 1
  parent : (k.pcbArray t).parentPid = t
  terminal : (k.pcbArray t).terminalNumber = t

/-- The running process `p` is a child of process `c`, in its place on its terminal. -/
structure ChildOf (k : Kernel) (p c : Nat) : Prop where
  running : k.currPid = p
  caller : k.currParentPid = c
  parent : (k.pcbArray p).parentPid = c
  terminal : (k.pcbArray p).terminalNumber = (k.pcbArray c).terminalNumber
  place : (k.tty.terminals (k.pcbArray c).terminalNumber).curPid = p

/-- What an event of the start-up has to guarantee. -/
structure StartsSafely (k : Kernel) (e : KernelEvent) (k' : Kernel) : Prop where
  shells : ∀ t < terminalTotalNum,
    t < k'.shellTid ∨ (k'.tty.terminals t).curPid ≠ -1 → k'.RootShell t
  kept : ∀ t < terminalTotalNum, (k'.tty.terminals t).curPid ≠ (k.tty.terminals t).curPid →
    (k.tty.terminals t).curPid = -1 ∨ (k.tty.terminals t).curPid = k.currPid
  child : ∀ command stack regs p, e = .execute command stack regs →
    k.spawned command stack = some p → k'.ChildOf p k.currPid

/-- The events until `shell_tid` reaches 3 are safe. -/
def StartupSafe (k : Kernel) (e : KernelEvent) : Prop :=
  k.shellTid ≤ 2 → ∀ k', kernelStep k e = some k' → StartsSafely k e k'

/-- No program starts another one before `shell_tid` reaches 3. -/
def NoEarlyProgram (k : Kernel) : KernelEvent → Prop
  | .execute command stack _ => k.shellTid ≤ 2 → k.spawned command stack = none
  | _ => True

/-- The start-up goes on, or is over. -/
def Started (k : Kernel) : Prop :=
  k.ShellStarts ∧ (∃ m, k.processes.Starting m) ∨ k.Settled

theorem started_powerOn {img : Image} (h : img.HoldsShell) : (powerOn img).Started := by
  refine .inl ⟨shellStarts_of_holdsShell h, 0, ?_⟩
  constructor
  case low | high | bounded => exact Nat.zero_le _
  case curPid =>
    show ∀ t < terminalTotalNum,
      ((initTerminal zeroTty).terminals t).curPid = if t < 0 then (t : Int) else -1
    decide
  case array => exact fun p _ => rfl
  case shells => exact fun t ht => absurd ht (Nat.not_lt_zero t)
  case running | parent | active => rfl

/-- While `shell_tid` is at most 2, the start-up goes on. -/
theorem Started.starting {k : Kernel} (h : k.Started) (hboot : k.shellTid ≤ 2) :
    k.ShellStarts ∧ ∃ m, k.processes.Starting m := by
  rcases h with hstarting | hsettled
  · exact hstarting
  · exact absurd hsettled.boot (Nat.not_lt.mpr hboot)

/-- When `shell_tid` has reached 3, it is over. -/
theorem Started.settled {k : Kernel} (h : k.Started) (hboot : 2 < k.shellTid) : k.Settled := by
  rcases h with ⟨hshell, m, hstarting⟩ | hsettled
  · exact ⟨hboot, hshell, _, _, hstarting.treeInv hboot⟩
  · exact hsettled

/-- The events other than ticks and `execute` keep the shells that run. -/
theorem starting_of_not {k k' : Kernel} {e : KernelEvent} (hshell : k.ShellStarts) {m : Nat}
    (h : k.processes.Starting m) (he : ¬ e.LooksAtShellTid)
    (hcall : e.IsSystemCall → k.processArray k.currPid ≠ 0) (hstep : kernelStep k e = some k') :
    k'.image = k.image ∧ k'.processes.Starting m := by
  have hrefines := kernelStep_processes_of_not he hshell hstep
  have himage : (k.processes.apply (k.processAction e)).image = k.image := by
    cases k.processAction e <;> rfl
  refine ⟨(congrArg ProcessState.image hrefines).trans himage, ?_⟩
  rw [hrefines]
  cases e with
  | tick | execute => exact absurd trivial he
  | halt exitCode stack regs =>
    -- a program runs, so it is the last shell
    have hpos : 0 < m := by
      refine Nat.pos_of_ne_zero fun hzero => hcall trivial ?_
      subst hzero
      have hrun : k.currPid = 0 := h.running
      rw [hrun]
      exact h.array 0 (by decide)
    have hroot : k.currPid = k.currParentPid := h.running.trans h.parent.symm
    simp only [processAction, if_pos hroot]
    exact h.restart hpos
  | key code =>
    simp only [processAction]
    split
    · split_ifs
      · exact h
      · exact h.congr
    · exact h
  | switch n =>
    simp only [processAction]
    split_ifs
    · exact h
    · exact h.congr
  | vidmap screenStart =>
    simp only [processAction]
    split_ifs
    · exact h
    · exact h.congr
  | rtcInterrupt | read | write | «open» | close | getargs => exact h

/-- **One event of a quiet start-up**: the shells that run afterwards are those that ran, or one
    more. -/
theorem starting_step {k k' : Kernel} {e : KernelEvent} (hshell : k.ShellStarts)
    (hboot : k.shellTid ≤ 2) {m : Nat} (h : k.processes.Starting m) (hquiet : k.NoEarlyProgram e)
    (hstep : startupStep k e = some k') :
    k'.image = k.image ∧ ∃ m', m ≤ m' ∧ k'.processes.Starting m' := by
  obtain ⟨hcall, hkernel⟩ := startupStep_eq_some hstep
  -- only a tick and `execute` look at `shell_tid`
  by_cases hlooks : e.LooksAtShellTid
  · cases e with
    | tick stack regs =>
      obtain rfl := Option.some.inj hkernel
      obtain ⟨himage, hnext⟩ := starting_pitHandler hshell hboot h stack regs
      exact ⟨himage, _, h.high, hnext⟩
    | execute command stack regs =>
      obtain rfl := Option.some.inj hkernel
      -- `execute` by hand is refused, as `NoEarlyProgram` says
      rcases k.execute_cases command stack regs with ⟨-, heq⟩ | ⟨p, -, hsome, -⟩
      · rw [heq]
        exact ⟨rfl, m, Nat.le_refl m, h⟩
      · rw [hquiet hboot] at hsome
        cases hsome
    | key | rtcInterrupt | switch | halt | read | write | «open» | close | getargs | vidmap =>
      exact hlooks.elim
  · obtain ⟨himage, hsame⟩ := starting_of_not hshell h hlooks hcall hkernel
    exact ⟨himage, m, Nat.le_refl m, hsame⟩

/-- Every event of a start-up in which no program starts another one, and every event after
    it. -/
theorem Started.step {k k' : Kernel} {e : KernelEvent} (h : k.Started)
    (hquiet : k.NoEarlyProgram e) (hstep : startupStep k e = some k') : k'.Started := by
  by_cases hboot : k.shellTid ≤ 2
  · obtain ⟨hshell, m, hstarting⟩ := h.starting hboot
    obtain ⟨himage, m', -, hnext⟩ := starting_step hshell hboot hstarting hquiet hstep
    exact .inl ⟨fun stack => (checkExecutable_image himage shellName stack).trans (hshell stack),
      m', hnext⟩
  · exact .inr ((h.settled (Nat.lt_of_not_le hboot)).step (startupStep_eq_some hstep).2)

/-- Once a process exists, the running process is one: all system calls are made by programs. -/
theorem Started.startupStep_eq {k : Kernel} (h : k.Started) {p : Nat} (hp : p < maxProcessNum)
    (hlive : k.processArray p ≠ 0) (e : KernelEvent) : startupStep k e = kernelStep k e := by
  -- the running number is in use: it is a base shell just started, or on the chain of one
  have hruns : k.processArray k.currPid ≠ 0 := by
    rcases h with ⟨-, m, hstarting⟩ | hsettled
    · have hin : p < m := by
        by_contra hlate
        exact hlive ((hstarting.array p hp).trans (if_neg hlate))
      have hcurr : k.currPid = m - 1 := hstarting.running
      have hbound : m ≤ terminalTotalNum := hstarting.bounded
      have hused : k.processArray (m - 1) = 1 :=
        (hstarting.array (m - 1) (by simp only [terminalTotalNum, maxProcessNum] at *; omega)).trans
          (if_pos (by omega))
      rw [hcurr, hused]
      decide
    · obtain ⟨top, procs, htree⟩ := hsettled.tree
      have hshape := htree.processTree
      have hchain : k.processes.OnChain k.activeTid k.currPid :=
        ⟨k.currPid, hshape.running, 0, rfl⟩
      have hused : k.processArray k.currPid = 1 :=
        (hshape.live k.currPid (hshape.bounded _ hshape.active _ hchain)).mpr
          ⟨_, hshape.active, hchain⟩
      rw [hused]
      decide
  exact if_neg fun hidle => hruns hidle.2

/-- A shell that runs is the root shell of its terminal. -/
theorem rootShell_of_starting {k : Kernel} {m : Nat} (h : k.processes.Starting m) {t : Nat}
    (ht : t < m) : k.RootShell t := by
  have hterminal : t < terminalTotalNum := Nat.lt_of_lt_of_le ht h.bounded
  obtain ⟨hparent, hnumber⟩ := h.shells t ht
  constructor
  case chain => exact ⟨t, (h.curPid t hterminal).trans (if_pos ht), 0, rfl⟩
  case live => exact (h.array t (Nat.lt_trans hterminal (by decide))).trans (if_pos ht)
  case parent => exact hparent
  case terminal => exact hnumber

/-- **An event of the start-up is safe** exactly if it is no program that starts another one. -/
theorem Started.safe_iff {k k' : Kernel} {e : KernelEvent} (h : k.Started)
    (hstep : startupStep k e = some k') : k.StartupSafe e ↔ k.NoEarlyProgram e := by
  obtain ⟨hcall, hkernel⟩ := startupStep_eq_some hstep
  constructor
  · intro hsafe
    cases e with
    | execute command stack regs =>
      intro hboot
      cases hspawn : k.spawned command stack with
      | none => rfl
      | some p =>
        -- the new process is its own parent
        have hchild := (hsafe hboot k' hkernel).child command stack regs p rfl hspawn
        have hstarted := processes_bootExecute hboot hspawn regs
        rw [Option.some.inj hkernel] at hstarted
        have hparent : (k'.pcbArray p).parentPid = p :=
          (congrFun (congrArg ProcessState.parentPid hstarted) p).trans (Function.update_self ..)
        have hself : p = k.currPid := hparent.symm.trans hchild.parent
        rcases k.execute_cases command stack regs with ⟨hnone, -⟩ | ⟨q, -, hsome, -, hfree, -⟩
        · rw [hspawn] at hnone
          cases hnone
        · obtain rfl : p = q := Option.some.inj (hspawn.symm.trans hsome)
          rw [hself] at hfree
          exact absurd hfree (hcall trivial)
    | _ => trivial
  · -- without another program, the shells are those that the timer has started
    intro hquiet hboot k'' hk''
    obtain rfl := Option.some.inj (hkernel.symm.trans hk'')
    obtain ⟨hshell, m, hstarting⟩ := h.starting hboot
    obtain ⟨-, m', hle, hnext⟩ := starting_step hshell hboot hstarting hquiet hstep
    constructor
    case shells =>
      intro t ht hrun
      refine rootShell_of_starting hnext ?_
      have hcur : (k'.tty.terminals t).curPid = if t < m' then (t : Int) else -1 :=
        hnext.curPid t ht
      rcases hrun with hpast | hrun
      · exact Nat.lt_of_lt_of_le hpast hnext.low
      · by_contra hlate
        exact hrun (hcur.trans (if_neg hlate))
    case kept =>
      intro t ht hchanged
      have hbefore : (k.tty.terminals t).curPid = if t < m then (t : Int) else -1 :=
        hstarting.curPid t ht
      have hafter : (k'.tty.terminals t).curPid = if t < m' then (t : Int) else -1 :=
        hnext.curPid t ht
      -- a terminal whose shell ran before keeps it
      by_cases hold : t < m
      · rw [hbefore, hafter, if_pos hold, if_pos (Nat.lt_of_lt_of_le hold hle)] at hchanged
        exact absurd rfl hchanged
      · exact .inl (hbefore.trans (if_neg hold))
    case child =>
      rintro command stack regs p rfl hspawn
      rw [hquiet hboot] at hspawn
      cases hspawn

end Kernel

/-- **Start-up**: in a run from power-on, everything until `shell_tid` reaches 3 is safe exactly if
    no program starts another one meanwhile. -/
theorem startup_safe_iff {img : Image} (h : img.HoldsShell) (es : List KernelEvent) :
    EachStep startupStep Kernel.StartupSafe (Kernel.powerOn img) es ↔
      EachStep startupStep Kernel.NoEarlyProgram (Kernel.powerOn img) es := by
  refine eachStep_iff_eachStep (E := fun _ => True) (J := Kernel.Started) ?_ ?_
    (Kernel.started_powerOn h) fun _ _ => trivial
  · exact fun s e s' hs _ hquiet hstep => hs.step hquiet hstep
  · exact fun s e s' hs _ hstep => hs.safe_iff hstep

/-- The first shell starts a program before the next tick. -/
def earlyShell : List KernelEvent :=
  [.tick (fun _ => 0) ⟨0, 0⟩, .execute (some shellName) (fun _ => 0) ⟨0, 0⟩]

theorem startup_safe_iff_early_shell :
    EachStep startupStep Kernel.StartupSafe (Kernel.powerOn shellImage) earlyShell ↔
      EachStep startupStep Kernel.NoEarlyProgram (Kernel.powerOn shellImage) earlyShell :=
  startup_safe_iff holdsShell_shellImage earlyShell

/-- Its program is no child of it, but takes its terminal and is its own parent. -/
theorem early_program_is_root :
    ¬ EachStep startupStep Kernel.StartupSafe (Kernel.powerOn shellImage) earlyShell := by
  intro hsafe
  -- the first tick starts process 0, and then process 0 runs a shell before the second tick
  let k₁ := (Kernel.powerOn shellImage).pitHandler (fun _ => 0) ⟨0, 0⟩
  let k₂ := (k₁.execute (some shellName) (fun _ => 0) ⟨0, 0⟩).2
  have hruns : k₁.processArray k₁.currPid ≠ 0 := by decide +kernel
  have hfirst : startupStep (Kernel.powerOn shellImage) (.tick (fun _ => 0) ⟨0, 0⟩) = some k₁ :=
    rfl
  have hsecond : startupStep k₁ (.execute (some shellName) (fun _ => 0) ⟨0, 0⟩) = some k₂ :=
    if_neg fun hidle => hruns hidle.2
  have hspawn : k₁.spawned (some shellName) (fun _ => 0) = some 1 := by decide +kernel
  -- its child is its own parent, where `StartupSafe` would have process 0
  have hparent : (k₂.pcbArray 1).parentPid = 1 := by decide +kernel
  have hcaller : k₁.currPid = 0 := by decide +kernel
  have hchild := (((hsafe k₁ hfirst).2 k₂ hsecond).1 (by decide +kernel) k₂ rfl).child
    (some shellName) (fun _ => 0) ⟨0, 0⟩ 1 rfl hspawn
  have hzero := hchild.parent
  rw [hparent, hcaller] at hzero
  exact absurd hzero (by decide)

end LinuxLikeOs
