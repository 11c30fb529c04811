import LinuxLikeOs.Paging
import LinuxLikeOs.RunningContext
import LinuxLikeOs.Startup
import LinuxLikeOs.VideoPage

/-!
# The address space

What an access means in every state that a run from power-on reaches.

- `Kernel.WellMapped`: the mappings of the running process, kept by every event
- `addressSpace`: what a program and the supervisor can reach
- `WellMapped.translate_eq`: the tables mean just that, entry by entry
- `address_space_of_run`: the tables of every reachable state
-/

namespace LinuxLikeOs

open Library

/-! ## The mappings of the running process -/

/-- An entry of the user video page that shows a text page. -/
def IsTextEntry (entry : Nat) : Prop := ∃ base ∈ textBases, entry = base ||| readP ||| user

namespace ProcessState

/-- The user video page is as `paging_init` has left it, or shows a text page. -/
def VidPageOk (s : ProcessState) : Prop :=
  s.vidPage = (0 <<< 12 ||| readAttr) ∨ IsTextEntry s.vidPage

/-- The page of a terminal is a text page, whether or not it is displayed. -/
theorem isTextEntry_drawingPage {s : ProcessState} (hpages : s.PagesOk) {t : Nat}
    (ht : t < terminalTotalNum) :
    IsTextEntry (vidPageEntry (drawingPage s.display s.vidBuf t)) := by
  refine ⟨_, List.mem_map_of_mem ?_, rfl⟩
  unfold drawingPage
  split_ifs
  · exact List.mem_cons_self
  · rw [hpages t ht]
    refine List.mem_cons_of_mem _ ?_
    simp only [terminalTotalNum] at ht
    obtain rfl | rfl | rfl : t = 0 ∨ t = 1 ∨ t = 2 := by omega
    all_goals simp [terminalPage]

/-- The terminals of the running process that an action uses exist. -/
structure OnTerminal (s : ProcessState) : Prop where
  terminal : s.terminalNumber s.currPid < terminalTotalNum
  root : s.currPid = s.currParentPid → s.currPid < terminalTotalNum

/-- **Every action** shows a text page or leaves the user video page as it is. -/
theorem VidPageOk.apply {s : ProcessState} (h : s.VidPageOk) (hpages : s.PagesOk)
    (hterm : s.OnTerminal) {a : ProcessAction} (ha : s.Enabled a) : (s.apply a).VidPageOk := by
  have hvideo : IsTextEntry (vidPageEntry video) := ⟨_, List.mem_cons_self, rfl⟩
  cases a with
  -- the page for drawing is video memory or the buffer page of a terminal, both text pages
  | tick regs => exact .inr (isTextEntry_drawingPage hpages (Nat.mod_lt _ (by decide)))
  | spawn p => exact .inr (isTextEntry_drawingPage hpages hterm.terminal)
  | restart => exact .inr (isTextEntry_drawingPage hpages (hterm.root ha))
  -- `halt` leaves the page of the child in place
  | exit => exact h
  | vidmap => exact .inr hvideo
  | other => exact h
  | switch t =>
    refine .inr ?_
    -- `terminal_switch` compares the process with that of the new terminal
    show IsTextEntry (vidPageEntry (if (s.currPid : Int) = s.curPid t then video
      else s.vidBuf (s.terminalNumber s.currPid)))
    split_ifs
    · exact hvideo
    · -- the buffer page, also where the terminal is the displayed one
      have hbuf := isTextEntry_drawingPage (s := { s with display := terminalTotalNum }) hpages
        hterm.terminal
      rwa [drawingPage, if_neg (Nat.ne_of_lt hterm.terminal)] at hbuf

end ProcessState

namespace Kernel

/-- No process has been started. -/
structure Unstarted (k : Kernel) : Prop where
  starting : k.processes.Starting 0
  terminal : k.processes.terminalNumber 0 = 0
  frame : k.processes.frame = readAttr

/-- A process runs, on its own frame and kernel stack. -/
structure Running (k : Kernel) : Prop where
  live : k.processArray k.currPid = 1
  context : k.processes.OnOwnStack

/-- What every event after `entry` keeps. -/
structure WellMapped (k : Kernel) : Prop where
  started : k.Started
  pages : k.processes.PagesOk
  vidPage : k.processes.VidPageOk
  phase : k.Unstarted ∨ k.Running

/-- The running process of a settled kernel is in use. -/
theorem Settled.live {k : Kernel} (h : k.Settled) : k.processArray k.currPid = 1 := by
  obtain ⟨top, procs, htree⟩ := h.tree
  have hshape := htree.processTree
  have hchain : k.processes.OnChain k.activeTid k.currPid := ⟨k.currPid, hshape.running, 0, rfl⟩
  exact (hshape.live k.currPid (hshape.bounded _ hshape.active _ hchain)).mpr
    ⟨_, hshape.active, hchain⟩

/-- It runs on the active terminal. -/
theorem Settled.onTerminal {k : Kernel} (h : k.Settled) : k.processes.OnTerminal := by
  obtain ⟨top, procs, htree⟩ := h.tree
  have hactive := htree.processTree.active
  refine ⟨?_, fun hroot => ?_⟩
  · rw [htree.terminal_running]
    exact hactive
  · rw [htree.root_eq hroot]
    exact hactive

end Kernel

/-- The shell that was started last runs on its terminal. -/
theorem ProcessState.Starting.onTerminal {s : ProcessState} {m : Nat} (h : s.Starting m)
    (hm : 0 < m) : s.OnTerminal ∧ s.processArray s.currPid = 1 := by
  have hrun := h.running
  have hbound := h.bounded
  have hlast : s.currPid < m := by omega
  have hcurr : s.currPid < terminalTotalNum := Nat.lt_of_lt_of_le hlast hbound
  refine ⟨⟨?_, fun _ => hcurr⟩, ?_⟩
  · rw [(h.shells s.currPid hlast).2]
    exact hcurr
  · rw [h.array s.currPid (Nat.lt_trans hcurr (by decide)), if_pos hlast]

namespace Kernel

/-- **A tick during start-up**, on the process table. -/
theorem processes_bootTick {k : Kernel} (hshell : k.ShellStarts) (hboot : k.shellTid ≤ 2) {m : Nat}
    (h : k.processes.Starting m) (stack : Buffer) (regs : Context) :
    (k.pitHandler stack regs).processes =
        { k.processes with activeTid := k.shellTid, shellTid := k.shellTid + 1 } ∧ 0 < m ∨
      ∃ own, (k.pitHandler stack regs).processes =
        { k.processes with activeTid := m, own := own }.bootShell m := by
  have htid : k.shellTid < terminalTotalNum := Nat.lt_succ_of_le hboot
  have hcur : (k.tty.terminals k.shellTid).curPid = if k.shellTid < m then (k.shellTid : Int)
      else -1 := h.curPid k.shellTid htid
  have hlow : k.shellTid ≤ m := h.low
  -- `execute("shell")` with the registers of the last shell saved or not
  have hexecute : ∀ {left : Kernel} {own : Nat → Context}, k.shellTid = m →
      left.processes = { k.processes with activeTid := m, own := own } →
      (left.execute (some shellName) stack regs).2.processes =
        { k.processes with activeTid := m, own := own }.bootShell m := by
    intro left own hnew hleft
    have hspawn : left.spawned (some shellName) stack = some m := by
      refine spawned_shell (fun buf => ?_) (hnew ▸ Nat.lt_trans htid (by decide)) ?_ stack
      · exact (checkExecutable_image (congrArg ProcessState.image hleft) shellName buf).trans
          (hshell buf)
      · rw [show left.processArray = k.processArray from congrArg ProcessState.processArray hleft]
        exact h.array
    have hlate : left.shellTid ≤ 2 :=
      (show left.shellTid = k.shellTid from congrArg ProcessState.shellTid hleft) ▸ hboot
    rw [processes_bootExecute hlate hspawn, hleft]
  rw [pitHandler_boot hboot]
  by_cases hnew : k.shellTid = m
  · have hnone : (k.tty.terminals k.shellTid).curPid = -1 := by
      rw [hcur, if_neg (Nat.not_lt.mpr (Nat.le_of_eq hnew.symm))]
    have hchosen : k.chooseShell.processes = { k.processes with activeTid := m } := by
      rw [← hnew]
      rfl
    by_cases hfirst : k.shellTid = 0
    · rw [if_pos ⟨hnone, hfirst⟩]
      exact .inr ⟨_, hexecute hnew hchosen⟩
    · have hleft := processes_setOwn k.chooseShell ((k.shellTid : Int) - 1).toNat regs
      rw [hchosen] at hleft
      rw [if_neg fun hboth => hfirst hboth.2, if_pos hnone]
      exact .inr ⟨_, hexecute hnew hleft⟩
  · have hsome : (k.tty.terminals k.shellTid).curPid ≠ -1 := by
      rw [hcur, if_pos (by omega)]
      omega
    rw [if_neg fun hboth => hsome hboth.1, if_neg hsome]
    exact .inl ⟨rfl, by omega⟩

namespace WellMapped

variable {k k' : Kernel}

/-- While nothing has been started, process 0 is the running process, and free. -/
theorem idle_free (h : k.Unstarted) : k.processArray k.currPid = 0 := by
  have hrun : k.currPid = 0 := h.starting.running
  rw [hrun]
  exact h.starting.array 0 (by decide)

theorem running (h : k.WellMapped) (hlive : k.processArray k.currPid ≠ 0) : k.Running :=
  h.phase.resolve_left fun hidle => hlive (idle_free hidle)

theorem onTerminal (h : k.WellMapped) : k.processes.OnTerminal := by
  -- before the first shell the running number is 0, and terminal 0 is shown
  rcases h.phase with hidle | hrunning
  · have hrun : k.processes.currPid = 0 := hidle.starting.running
    refine ⟨?_, fun _ => ?_⟩
    · rw [hrun, hidle.terminal]
      decide
    · rw [hrun]
      decide
  · rcases h.started with ⟨-, m, hm⟩ | hsettled
    · -- `m` shells have been started, and at least one of them since a process is running
      refine (hm.onTerminal (Nat.pos_of_ne_zero fun hzero => ?_)).1
      -- with no shell started, process 0 would still be free
      subst hzero
      have hrun : k.currPid = 0 := hm.running
      have hfree : k.processArray k.currPid = 0 := hrun ▸ hm.array 0 (by decide)
      exact absurd (hfree.symm.trans hrunning.live) (by decide)
    · exact hsettled.onTerminal

/-- An action of the running process or of the kernel. -/
theorem apply (h : k.WellMapped) (hrunning : k.Running) {a : ProcessAction}
    (ha : k.processes.Enabled a) (hrefines : k'.processes = k.processes.apply a)
    (hstarted : k'.Started) (hlive : k'.processArray k'.currPid = 1) : k'.WellMapped where
  started := hstarted
  -- no action moves a buffer page
  pages := by
    rw [hrefines]
    exact fun t ht => (congrFun (k.processes.vidBuf_apply a) t).trans (h.pages t ht)
  vidPage := by
    rw [hrefines]
    exact h.vidPage.apply h.pages h.onTerminal ha
  phase := by
    -- the running process has its own frame after every action
    refine .inr ⟨hlive, ?_⟩
    rw [hrefines]
    exact hrunning.context.apply a

/-- An event before the first shell: only the display can change. -/
theorem idleStep (h : k.WellMapped) (hidle : k.Unstarted) {e : KernelEvent}
    (hcall : ¬ e.IsSystemCall) (hlooks : ¬ e.LooksAtShellTid) (hshell : k.ShellStarts)
    (hstep : kernelStep k e = some k') (hstarted : k'.Started) : k'.WellMapped := by
  have hrefines := kernelStep_processes_of_not hlooks hshell hstep
  -- before the first shell the kernel only switches terminals
  have haction : k.processAction e = .other ∨ ∃ t, k.processAction e = .switch t := by
    cases e with
    | tick => exact absurd trivial hlooks
    | key code =>
      simp only [processAction]
      split
      · split_ifs
        · exact .inl rfl
        · exact .inr ⟨_, rfl⟩
      · exact .inl rfl
    | rtcInterrupt => exact .inl rfl
    | switch n =>
      simp only [processAction]
      split_ifs
      · exact .inl rfl
      · exact .inr ⟨_, rfl⟩
    | execute | halt | read | write | «open» | close | getargs | vidmap =>
      exact absurd trivial hcall
  refine ⟨hstarted, ?_, ?_, .inl ?_⟩
  · -- buffer pages, the page for drawing and the state before the first shell, one by one
    rw [hrefines]
    exact fun t ht => (congrFun (k.processes.vidBuf_apply _) t).trans (h.pages t ht)
  · rw [hrefines]
    exact h.vidPage.apply h.pages h.onTerminal (k.processAction_enabled e)
  · obtain haction | ⟨t, haction⟩ := haction
    all_goals rw [haction] at hrefines
    · exact ⟨hrefines ▸ hidle.starting, hrefines ▸ hidle.terminal, hrefines ▸ hidle.frame⟩
    · refine ⟨?_, hrefines ▸ hidle.terminal, hrefines ▸ hidle.frame⟩
      rw [hrefines]
      exact hidle.starting.congr

/-- **Every event** of a start-up in which no program starts another one, and every event after
    it. -/
theorem step {e : KernelEvent} (h : k.WellMapped) (hquiet : k.NoEarlyProgram e)
    (hstep : startupStep k e = some k') : k'.WellMapped := by
  obtain ⟨hcall, hkernel⟩ := startupStep_eq_some hstep
  have hstarted := h.started.step hquiet hstep
  -- the first ticks start the base shells; after that the table only changes by actions
  by_cases hboot : k.shellTid ≤ 2
  · obtain ⟨hshell, m, hm⟩ := h.started.starting hboot
    by_cases hlooks : e.LooksAtShellTid
    · cases e with
      | tick stack regs =>
        obtain rfl := Option.some.inj hkernel
        rcases processes_bootTick hshell hboot hm stack regs with ⟨hnext, hpos⟩ | ⟨own, hnew⟩
        · -- on to the next terminal
          have hlive : k.processArray k.currPid = 1 := (hm.onTerminal hpos).2
          have hrunning := h.running (by rw [hlive]; decide)
          refine ⟨hstarted, ?_, ?_, .inr ⟨?_, ?_⟩⟩
          · exact hnext ▸ h.pages
          · exact hnext ▸ h.vidPage
          · show (k.pitHandler stack regs).processes.processArray
              (k.pitHandler stack regs).processes.currPid = 1
            rw [hnext]
            exact hlive
          · exact hnext ▸ hrunning.context
        · -- a shell on a terminal that has none
          have htid : k.shellTid < terminalTotalNum := Nat.lt_succ_of_le hboot
          refine ⟨hstarted, ?_, .inr ?_, .inr ⟨?_, ?_⟩⟩
          · exact hnew ▸ h.pages
          · rw [hnew]
            exact ProcessState.isTextEntry_drawingPage h.pages htid
          · show (k.pitHandler stack regs).processes.processArray
              (k.pitHandler stack regs).processes.currPid = 1
            rw [hnew]
            exact Function.update_self ..
          · rw [hnew]
            exact ⟨rfl, rfl⟩
      | execute command stack regs =>
        obtain rfl := Option.some.inj hkernel
        rw [execute_of_spawned_none (hquiet hboot)]
        exact h
      | key | rtcInterrupt | switch | halt | read | write | «open» | close | getargs | vidmap =>
        exact hlooks.elim
    · by_cases hidle : k.processArray k.currPid = 0
      · -- an interrupt before the first shell
        have hphase := h.phase.resolve_right fun hrunning =>
          absurd (hidle.symm.trans hrunning.live) (by decide)
        exact h.idleStep hphase (fun he => hcall he hidle) hlooks hshell hkernel hstarted
      · -- between two base shells: any event that does not look at `shell_tid`
        obtain ⟨-, hsame⟩ := starting_of_not hshell hm hlooks hcall hkernel
        have hpos : 0 < m := by
          refine Nat.pos_of_ne_zero fun hzero => hidle ?_
          subst hzero
          have hrun : k.currPid = 0 := hm.running
          exact hrun ▸ hm.array 0 (by decide)
        exact h.apply (h.running hidle) (k.processAction_enabled e)
          (kernelStep_processes_of_not hlooks hshell hkernel) hstarted (hsame.onTerminal hpos).2
  · -- the base shells run: the refinement of the process table does the rest
    have hsettled := h.started.settled (Nat.lt_of_not_le hboot)
    have hlive : k.processArray k.currPid ≠ 0 := by
      rw [hsettled.live]
      decide
    exact h.apply (h.running hlive) (k.processAction_enabled e)
      (kernelStep_processes hsettled.boot hsettled.shell hkernel) hstarted
      (hsettled.step hkernel).live

theorem entry (a : TableAddresses) {img : Image} (hshell : img.HoldsShell) :
    (Kernel.entry a img).WellMapped := by
  have hzero : (Kernel.entry a img).processes.Starting 0 := by
    constructor
    case low | high | bounded => exact Nat.zero_le _
    case curPid =>
      show ∀ t < terminalTotalNum,
        ((initTerminal zeroTty).terminals t).curPid = if t < 0 then (t : Int) else -1
      decide
    case array => exact fun p _ => rfl
    case shells => exact fun t ht => absurd ht (Nat.not_lt_zero t)
    case running | parent | active => rfl
  -- no process, no page for programs to draw on, every terminal with its own buffer page
  refine ⟨.inl ⟨shellStarts_of_holdsShell hshell, 0, hzero⟩, fun t ht => ?_, .inl rfl,
    .inl ⟨hzero, rfl, rfl⟩⟩
  show ((initTerminal zeroTty).terminals t).vidBuf = terminalPage t
  simp only [initTerminal, if_pos ht]
  rfl

/-- What is drawn does not matter. -/
theorem withScreen (h : k.WellMapped) (s : Screen) :
    { k with tty := { k.tty with screen := s } }.WellMapped where
  started := h.started.imp id fun hs => ⟨hs.boot, hs.shell, hs.tree⟩
  pages := h.pages
  vidPage := h.vidPage
  phase := h.phase.imp (fun hu => ⟨hu.starting, hu.terminal, hu.frame⟩)
    fun hr => ⟨hr.live, hr.context⟩

end WellMapped

end Kernel

/-! ## The address space of the running process -/

/-- What an access means: a program has the 4 MB from 128 MB on, in the frame `program`, and one
    page at 160 MB, at `page`; the supervisor has the kernel's 4 MB and the text pages where they
    are, besides. -/
def addressSpace (program page : Option Nat) (a : Access) (addr : Nat) : Option Nat :=
  if programImage ≤ addr ∧ addr < oneThirtyTwoMB then program.map (· + (addr - programImage))
  else if vidDirectoryIndex * fourMB ≤ addr ∧ addr < vidDirectoryIndex * fourMB + 2 ^ 12 then
    page.map (· + (addr - vidDirectoryIndex * fourMB))
  else if a.user = false ∧
      (fourMB ≤ addr ∧ addr < eightMB ∨ addr / 2 ^ 12 * 2 ^ 12 ∈ textBases) then some addr
  else none

/-- The frame of the running process, if one has been started. -/
def Kernel.programFrame (k : Kernel) : Option Nat :=
  if k.processArray k.currPid = 0 then none else some (processFrame k.currPid)

/-- Bit 0 of the attributes decides what the supervisor may do, bit 2 keeps programs out. -/
theorem admits_attrs (a : Access) :
    ¬ Admits readAttr a ∧ (Admits readP a ↔ a.user = false) ∧ Admits (readP ||| user) a ∧
      (Admits (msize ||| readP) a ↔ a.user = false) ∧ Admits (readP ||| msize ||| user) a := by
  obtain ⟨user, store⟩ := a
  cases user <;> cases store <;> decide

/-- The attributes of a program's entry. -/
theorem frameEntry_eq (physicalMem : Nat) :
    frameEntry physicalMem = physicalMem ||| (readP ||| msize ||| user) := by
  simp only [frameEntry, Nat.or_assoc]

namespace Kernel

variable {a : TableAddresses} {img : Image} {k : Kernel}

/-- The 4 MB from 128 MB on. -/
theorem WellMapped.translate_program (h : k.WellMapped) (acc : Access) {addr : Nat}
    (haddr : addr / 2 ^ 22 = programImage / fourMB) :
    translate (k.pageTables a) acc addr = k.programFrame.map (· + addr % 2 ^ 22) := by
  obtain ⟨hread, -, -, -, hprogram⟩ := admits_attrs acc
  -- before the first shell the entry of the program area does not admit any access
  rcases h.phase with hidle | hrunning
  · have hentry : (k.pageTables a).directory (addr / 2 ^ 22) = readAttr := haddr ▸ hidle.frame
    rw [translate_refused (hentry ▸ hread), programFrame, if_pos (WellMapped.idle_free hidle)]
    rfl
  · -- after that it holds the frame of the running process
    have hentry : (k.pageTables a).directory (addr / 2 ^ 22) =
        processFrame k.currPid ||| (readP ||| msize ||| user) := by
      have hframe : k.pageDirectory (programImage / fourMB) = frameEntry (processFrame k.currPid) :=
        hrunning.context.1
      rw [haddr, ← frameEntry_eq]
      exact hframe
    have haligned : 2 ^ 22 ∣ processFrame k.currPid := by
      refine ⟨2 + k.currPid, ?_⟩
      simp only [processFrame, eightMB, fourMB]
      omega
    have hlive : k.processArray k.currPid ≠ 0 := by
      rw [hrunning.live]
      decide
    rw [translate_large hentry haligned (by decide) (by decide), if_pos hprogram, programFrame,
      if_neg hlive, Option.map_some]

/-- The 4 MB from 160 MB on: one page, or none. -/
theorem WellMapped.translate_video (h : k.WellMapped) (hmaps : (Kernel.entry a img).Remaps k) :
    ∃ page : Option Nat, (∀ base ∈ page, base ∈ textBases) ∧
      ∀ acc addr, addr / 2 ^ 22 = vidDirectoryIndex →
        translate (k.pageTables a) acc addr =
          if addr % 2 ^ 22 < 2 ^ 12 then page.map (· + addr % 2 ^ 12) else none := by
  rcases hmaps.vidEntry with hunset | hset
  · -- nothing has been mapped at 160 MB yet
    refine ⟨none, fun base hbase => absurd hbase (by simp), fun acc addr haddr => ?_⟩
    have hentry : (k.pageTables a).directory (addr / 2 ^ 22) = readAttr := haddr ▸ hunset
    rw [translate_refused (hentry ▸ (admits_attrs acc).1)]
    simp
  · have hdirectory : ∀ addr, addr / 2 ^ 22 = vidDirectoryIndex →
        (k.pageTables a).directory (addr / 2 ^ 22) = a.vidPageTable ||| (readP ||| user) := by
      intro addr haddr
      rw [haddr, ← Nat.or_assoc]
      exact hset
    have htable : (k.pageTables a).table a.vidPageTable = k.vidPageTable := if_pos rfl
    -- the entries behind the first one are those of `paging_init`
    have hrest : ∀ acc addr, addr / 2 ^ 22 = vidDirectoryIndex → ¬ addr % 2 ^ 22 < 2 ^ 12 →
        translate (k.pageTables a) acc addr = none := by
      intro acc addr haddr hbehind
      have hpage : (k.pageTables a).table a.vidPageTable (addr / 2 ^ 12 % 2 ^ 10) =
          2 ^ 12 * (addr / 2 ^ 12 % 2 ^ 10) ||| readAttr := by
        have hnext : addr / 2 ^ 12 % 2 ^ 10 ≠ 0 := by omega
        rw [htable, hmaps.table _ hnext, Nat.mul_comm, ← Nat.shiftLeft_eq]
        rfl
      rw [translate_small (hdirectory addr haddr) a.vidPageTable_aligned (by decide) (by decide)
        hpage (Nat.dvd_mul_right ..) (by decide), if_neg fun hboth => (admits_attrs acc).1 hboth.2]
    rcases h.vidPage with hfirst | ⟨base, hbase, hfirst⟩
    · refine ⟨none, fun base hbase => absurd hbase (by simp), fun acc addr haddr => ?_⟩
      by_cases hin : addr % 2 ^ 22 < 2 ^ 12
      · have hpage : (k.pageTables a).table a.vidPageTable (addr / 2 ^ 12 % 2 ^ 10) =
            0 ||| readAttr := by
          have hindex : addr / 2 ^ 12 % 2 ^ 10 = 0 := by omega
          rw [htable, hindex]
          exact hfirst
        rw [translate_small (hdirectory addr haddr) a.vidPageTable_aligned (by decide)
          (by decide) hpage (Nat.dvd_zero _) (by decide),
          if_neg fun hboth => (admits_attrs acc).1 hboth.2, if_pos hin]
        rfl
      · rw [hrest acc addr haddr hin, if_neg hin]
    · refine ⟨some base, fun b hb => Option.some.inj hb ▸ hbase, fun acc addr haddr => ?_⟩
      by_cases hin : addr % 2 ^ 22 < 2 ^ 12
      · have hpage : (k.pageTables a).table a.vidPageTable (addr / 2 ^ 12 % 2 ^ 10) =
            base ||| (readP ||| user) := by
          have hindex : addr / 2 ^ 12 % 2 ^ 10 = 0 := by omega
          rw [htable, hindex, ← Nat.or_assoc]
          exact hfirst
        have haligned : 2 ^ 12 ∣ base := (show ∀ b ∈ textBases, 2 ^ 12 ∣ b by decide) base hbase
        have huser := (admits_attrs acc).2.2.1
        rw [translate_small (hdirectory addr haddr) a.vidPageTable_aligned (by decide)
          (by decide) hpage haligned (by decide), if_pos ⟨huser, huser⟩, if_pos hin]
        rfl
      · rw [hrest acc addr haddr hin, if_neg hin]

/-- The other entries of the directory: the first page table, and the kernel's own page. -/
theorem Remaps.translate_kernel (hmaps : (Kernel.entry a img).Remaps k) (acc : Access) {addr : Nat}
    (hprogram : addr / 2 ^ 22 ≠ programImage / fourMB)
    (hvideo : addr / 2 ^ 22 ≠ vidDirectoryIndex) :
    translate (k.pageTables a) acc addr =
      if acc.user = false ∧
          (fourMB ≤ addr ∧ addr < eightMB ∨ addr / 2 ^ 12 * 2 ^ 12 ∈ textBases) then some addr
      else none := by
  obtain ⟨hread, hreadP, -, hlarge, -⟩ := admits_attrs acc
  have hsame : (k.pageTables a).directory (addr / 2 ^ 22) =
      (pagingInit a).pageDirectory (addr / 2 ^ 22) := hmaps.directory _ hprogram hvideo
  have htext : addr / 2 ^ 12 * 2 ^ 12 ∈ textBases → addr / 2 ^ 22 = 0 := by
    intro hmem
    have hlow : ∀ b ∈ textBases, b < 2 ^ 22 := by decide
    have hbase := hlow _ hmem
    omega
  -- 4 to 8 MB is the kernel's page: mapped to itself, and for the kernel only
  by_cases hone : addr / 2 ^ 22 = 1
  · have hentry : (k.pageTables a).directory (addr / 2 ^ 22) = fourMB ||| (msize ||| readP) := by
      rw [hsame, hone]
      rfl
    have hin : fourMB ≤ addr ∧ addr < eightMB := by
      simp only [fourMB, eightMB]
      omega
    have hidentity : fourMB + addr % 2 ^ 22 = addr := by
      simp only [fourMB]
      omega
    rw [translate_large hentry (by decide) (by decide) (by decide), hidentity]
    by_cases huser : acc.user = false
    · rw [if_pos (hlarge.mpr huser), if_pos ⟨huser, .inl hin⟩]
    · rw [if_neg fun hadmits => huser (hlarge.mp hadmits), if_neg fun hboth => huser hboth.1]
  have hout : ¬ (fourMB ≤ addr ∧ addr < eightMB) := by
    simp only [fourMB, eightMB]
    omega
  -- 0 to 4 MB goes through the page table, which has the text pages present
  by_cases hzero : addr / 2 ^ 22 = 0
  · have hentry : (k.pageTables a).directory (addr / 2 ^ 22) = a.pageTable ||| readP := by
      rw [hsame, hzero]
      rfl
    have hindex : addr / 2 ^ 12 % 2 ^ 10 = addr / 2 ^ 12 := by omega
    have hpage : (k.pageTables a).table a.pageTable (addr / 2 ^ 12 % 2 ^ 10) =
        addr / 2 ^ 12 * 2 ^ 12 |||
          if addr / 2 ^ 12 * 2 ^ 12 ∈ textBases then readP else readAttr := by
      have htable : (k.pageTables a).table a.pageTable =
          (pagingInit a).terminalMapping.pageTable :=
        (if_neg a.distinct).trans (if_pos rfl)
      rw [htable, hindex, terminalMapping_pageTable]
    have hattrs : (if addr / 2 ^ 12 * 2 ^ 12 ∈ textBases then readP else readAttr) < 2 ^ 12 := by
      split_ifs <;> decide
    have hidentity : addr / 2 ^ 12 * 2 ^ 12 + addr % 2 ^ 12 = addr := by omega
    rw [translate_small hentry a.pageTable_aligned (by decide) (by decide) hpage
      (Nat.dvd_mul_left ..) hattrs, hidentity]
    -- a text page is mapped to itself, any other page is refused
    by_cases hmem : addr / 2 ^ 12 * 2 ^ 12 ∈ textBases
    · simp only [hmem, if_true, hreadP, and_self, or_true, and_true]
    · simp only [hmem, if_false, hread, and_false, hout, or_self]
  · -- the directory has no other entry
    have hentry : (k.pageTables a).directory (addr / 2 ^ 22) = readAttr := by
      rw [hsame]
      show Function.update (Function.update (fun _ => readAttr) 0 _) 1 _ _ = _
      rw [Function.update_of_ne hone, Function.update_of_ne hzero]
    rw [translate_refused (hentry ▸ hread), if_neg]
    exact fun hboth => hboth.2.elim hout fun hmem => hzero (htext hmem)

/-- The tables of a well-mapped kernel. -/
theorem WellMapped.translate_eq (h : k.WellMapped) (hmaps : (Kernel.entry a img).Remaps k) :
    ∃ page : Option Nat, (∀ base ∈ page, base ∈ textBases) ∧
      ∀ acc addr, translate (k.pageTables a) acc addr =
        addressSpace k.programFrame page acc addr := by
  obtain ⟨page, hpage, hvideo⟩ := h.translate_video hmaps
  refine ⟨page, hpage, fun acc addr => ?_⟩
  unfold addressSpace
  -- the program area
  by_cases hprogram : addr / 2 ^ 22 = programImage / fourMB
  · have hin : programImage ≤ addr ∧ addr < oneThirtyTwoMB := by
      simp only [programImage, fourMB, oneThirtyTwoMB] at *
      omega
    have hoffset : addr % 2 ^ 22 = addr - programImage := by
      simp only [programImage, fourMB] at *
      omega
    rw [h.translate_program acc hprogram, if_pos hin, hoffset]
  have hout : ¬ (programImage ≤ addr ∧ addr < oneThirtyTwoMB) := by
    simp only [programImage, fourMB, oneThirtyTwoMB] at *
    omega
  rw [if_neg hout]
  -- the area of `vidmap`: its first page if there is one, nothing behind it
  by_cases hvid : addr / 2 ^ 22 = vidDirectoryIndex
  · rw [hvideo acc addr hvid]
    by_cases hin : addr % 2 ^ 22 < 2 ^ 12
    · have hfirst : vidDirectoryIndex * fourMB ≤ addr ∧
          addr < vidDirectoryIndex * fourMB + 2 ^ 12 := by
        simp only [vidDirectoryIndex, fourMB] at *
        omega
      have hoffset : addr % 2 ^ 12 = addr - vidDirectoryIndex * fourMB := by
        simp only [vidDirectoryIndex, fourMB] at *
        omega
      rw [if_pos hin, if_pos hfirst, hoffset]
    · have hbehind : ¬ (vidDirectoryIndex * fourMB ≤ addr ∧
          addr < vidDirectoryIndex * fourMB + 2 ^ 12) := by
        simp only [vidDirectoryIndex, fourMB] at *
        omega
      -- text pages lie far below, so the kernel's own rule gives nothing there either
      have hlow : ∀ b ∈ textBases, b < fourMB := by decide
      have hnone : ¬ (fourMB ≤ addr ∧ addr < eightMB ∨ addr / 2 ^ 12 * 2 ^ 12 ∈ textBases) := by
        rintro (hkernel | hmem)
        · simp only [vidDirectoryIndex, fourMB, eightMB] at *
          omega
        · have hbase := hlow _ hmem
          simp only [vidDirectoryIndex, fourMB] at *
          omega
      rw [if_neg hin, if_neg hbehind, if_neg fun hboth => hnone hboth.2]
  · -- everything else is as paging_init left it
    have hbehind : ¬ (vidDirectoryIndex * fourMB ≤ addr ∧
        addr < vidDirectoryIndex * fourMB + 2 ^ 12) := by
      simp only [vidDirectoryIndex, fourMB] at *
      omega
    rw [hmaps.translate_kernel acc hprogram hvid, if_neg hbehind]

end Kernel

/-- A run keeps the tables well mapped. -/
theorem wellMapped_of_run {a : TableAddresses} {img : Image} (hshell : img.HoldsShell)
    {es : List KernelEvent} (hquiet : EachStep startupStep Kernel.NoEarlyProgram (.entry a img) es)
    {k : Kernel} (hrun : exec startupStep (.entry a img) es = some k) :
    k.WellMapped ∧ (Kernel.entry a img).Remaps k := by
  refine exec_invariant_of_eachStep (I := fun k => k.WellMapped ∧ (Kernel.entry a img).Remaps k)
    (fun k e k' h hC hstep => ⟨h.1.step hC hstep, ?_⟩) ⟨.entry a hshell, .refl _⟩ hquiet hrun
  exact h.2.trans (kernelStep_remaps (startupStep_eq_some hstep).2)

/-- **The address space** in every state that a run from power-on reaches: a program reaches its own
    frame and one text page, and nothing else; the supervisor reaches the kernel and the text pages,
    besides, and never the frame of another process. -/
theorem address_space_of_run {a : TableAddresses} {img : Image} (hshell : img.HoldsShell)
    {es : List KernelEvent} (hquiet : EachStep startupStep Kernel.NoEarlyProgram (.entry a img) es)
    {k : Kernel} (hrun : exec startupStep (.entry a img) es = some k) :
    ∃ page : Option Nat, (∀ base ∈ page, base ∈ textBases) ∧
      ∀ acc addr, translate (k.pageTables a) acc addr =
        addressSpace k.programFrame page acc addr := by
  obtain ⟨hmapped, hmaps⟩ := wellMapped_of_run hshell hquiet hrun
  exact hmapped.translate_eq hmaps

/-- Two tables in the kernel's own page. -/
def sampleTables : TableAddresses :=
  ⟨0x402000, 0x403000, by decide, by decide, by decide⟩

/-- The first shell starts, calls `vidmap` and leaves the display to terminal 1. -/
theorem address_space_of_run_first_shell :
    ∃ k, exec startupStep (Kernel.entry sampleTables shellImage)
        [.tick (fun _ => 0) ⟨0, 0⟩, .vidmap 0x8000000, .switch 1] = some k ∧
      ∃ page : Option Nat, (∀ base ∈ page, base ∈ textBases) ∧
        ∀ acc addr, translate (k.pageTables sampleTables) acc addr =
          addressSpace k.programFrame page acc addr := by
  obtain ⟨k, hrun⟩ := Option.isSome_iff_exists.mp (show (exec startupStep
    (Kernel.entry sampleTables shellImage)
    [.tick (fun _ => 0) ⟨0, 0⟩, .vidmap 0x8000000, .switch 1]).isSome = true by decide +kernel)
  have hquiet : EachStep startupStep Kernel.NoEarlyProgram (Kernel.entry sampleTables shellImage)
      [.tick (fun _ => 0) ⟨0, 0⟩, .vidmap 0x8000000, .switch 1] :=
    fun _ _ => ⟨trivial, fun _ _ => ⟨trivial, fun _ _ => ⟨trivial, trivial⟩⟩⟩
  exact ⟨k, hrun, address_space_of_run holdsShell_shellImage hquiet hrun⟩

end LinuxLikeOs
