import LinuxLikeOs.Library.ParentStacks
import LinuxLikeOs.Library.Trace
import LinuxLikeOs.Processes

/-!
# The process tree

Every terminal has a stack of processes: the one that runs or waits for its time slice, its
parent, and so on down to the root shell.

- `ProcessState.TreeInv`: the stacks behind the process table
- `TreeInv.apply`: every action keeps them
- `ProcessState.ProcessTree`: what they mean for `process_array`, `parent_pid`,
  `terminal_number` and the running process
-/

namespace LinuxLikeOs

open Library

namespace ProcessState

/-! ## The invariant -/

/-- The process table describes one stack of processes for each terminal; the running process
    is the top of the active one. -/
structure TreeInv (s : ProcessState) (top : Fin terminalTotalNum → Nat)
    (stack : Fin terminalTotalNum → List Nat) : Prop where
  paths : Stacks s.parentPid Fin.val top stack
  cur : ∀ t : Fin terminalTotalNum, s.curPid t = top t
  array : ∀ p < maxProcessNum, s.processArray p = 0 ∨ s.processArray p = 1
  live : ∀ p < maxProcessNum, s.processArray p = 1 ↔ ∃ t, p ∈ stack t
  bounded : ∀ t, ∀ p ∈ stack t, p < maxProcessNum
  terminal : ∀ t, ∀ p ∈ stack t, s.terminalNumber p = t
  running : ∃ t : Fin terminalTotalNum, s.activeTid = t ∧ s.currPid = top t
  parent : s.currParentPid = s.parentPid s.currPid

/-- The actions that the code takes in a state: a new process gets a free number, only a root
    shell is restarted, and only the three terminals are shown. -/
def Enabled (s : ProcessState) : ProcessAction → Prop
  | .spawn p => p < maxProcessNum ∧ s.processArray p = 0
  | .exit => s.currPid ≠ s.currParentPid
  | .restart => s.currPid = s.currParentPid
  | .switch t => t < terminalTotalNum
  | .tick _ | .vidmap | .other => True

namespace TreeInv

variable {s : ProcessState} {top : Fin terminalTotalNum → Nat}
  {stack : Fin terminalTotalNum → List Nat}

/-- The top of a stack is on it. -/
theorem top_mem (h : s.TreeInv top stack) (t : Fin terminalTotalNum) : top t ∈ stack t :=
  (h.paths.climbs t).start_mem

/-- A free process number is on no stack. -/
theorem free_not_mem (h : s.TreeInv top stack) {p : Nat} (hp : p < maxProcessNum)
    (hfree : s.processArray p = 0) (t : Fin terminalTotalNum) : p ∉ stack t := by
  intro hmem
  have hlive := (h.live p hp).mpr ⟨t, hmem⟩
  rw [hfree] at hlive
  exact absurd hlive (by decide)

/-- The running process is on the stack of its terminal. -/
theorem terminal_running (h : s.TreeInv top stack) : s.terminalNumber s.currPid = s.activeTid := by
  obtain ⟨t, hactive, hcurr⟩ := h.running
  rw [hactive, hcurr]
  exact h.terminal t _ (h.top_mem t)

/-- So is its parent. -/
theorem terminal_parent (h : s.TreeInv top stack) :
    s.terminalNumber s.currParentPid = s.activeTid := by
  obtain ⟨t, hactive, hcurr⟩ := h.running
  have hreach : s.currParentPid ∈ stack t := by
    rw [(h.paths.climbs t).mem_iff]
    exact ⟨1, by rw [h.parent, hcurr]; rfl⟩
  rw [hactive]
  exact h.terminal t _ hreach

/-- A running process that is its own parent is the root shell of its terminal. -/
theorem root_eq (h : s.TreeInv top stack) (hroot : s.currPid = s.currParentPid) :
    s.currPid = s.activeTid := by
  obtain ⟨t, hactive, hcurr⟩ := h.running
  have hself : s.parentPid s.currPid = s.currPid := h.parent.symm.trans hroot.symm
  have hclimb := h.paths.climbs t
  rw [← hcurr] at hclimb
  exact (hclimb.eq_root hself).trans hactive.symm

/-- Storing the process of one terminal. -/
private theorem cur_update (h : s.TreeInv top stack) (t : Fin terminalTotalNum) (p : Nat)
    (u : Fin terminalTotalNum) :
    Function.update s.curPid t (p : Int) u = (Function.update top t p u : Nat) := by
  by_cases hu : u = t
  · subst hu
    rw [Function.update_self, Function.update_self]
  · rw [Function.update_of_ne (fun heq => hu (Fin.ext heq)), Function.update_of_ne hu]
    exact h.cur u

/-- The stacks depend on the process table and the running process only. -/
private theorem congr {s' : ProcessState} (h : s.TreeInv top stack)
    (hparents : s'.parentPid = s.parentPid) (hcurs : s'.curPid = s.curPid)
    (harray : s'.processArray = s.processArray) (hterms : s'.terminalNumber = s.terminalNumber)
    (hactive : s'.activeTid = s.activeTid) (hcurr : s'.currPid = s.currPid)
    (hparent : s'.currParentPid = s.currParentPid) : s'.TreeInv top stack := by
  constructor
  case paths => rw [hparents]; exact h.paths
  case cur => rw [hcurs]; exact h.cur
  case array => rw [harray]; exact h.array
  case live => rw [harray]; exact h.live
  case bounded => exact h.bounded
  case terminal => rw [hterms]; exact h.terminal
  case running => rw [hactive, hcurr]; exact h.running
  case parent => rw [hparent, hparents, hcurr]; exact h.parent

/-- The stacks do not depend on what is displayed or mapped. -/
private theorem withMaps (h : s.TreeInv top stack) (display frame vidPage : Nat) (esp0 : Int) :
    { s with
      display := display, frame := frame, vidPage := vidPage, esp0 := esp0 }.TreeInv top stack :=
  h.congr rfl rfl rfl rfl rfl rfl rfl

/-! ## The actions -/

/-- A tick runs the top of the next stack. -/
private theorem tick (h : s.TreeInv top stack) (regs : Context) :
    (s.apply (.tick regs)).TreeInv top stack := by
  have hnext : (s.activeTid + 1) % terminalTotalNum < terminalTotalNum :=
    Nat.mod_lt _ (by decide)
  have hcur := h.cur ⟨_, hnext⟩
  refine ⟨h.paths, h.cur, h.array, h.live, h.bounded, h.terminal, ⟨⟨_, hnext⟩, rfl, ?_⟩, rfl⟩
  show (s.curPid ((s.activeTid + 1) % terminalTotalNum)).toNat = _
  rw [hcur]
  rfl

/-- A new process goes on top of the active stack. -/
private theorem spawn (h : s.TreeInv top stack) {p : Nat} (hp : p < maxProcessNum)
    (hfree : s.processArray p = 0) :
    ∃ top stack, (s.apply (.spawn p)).TreeInv top stack := by
  obtain ⟨t, hactive, hcurr⟩ := h.running
  have hnot := h.free_not_mem hp hfree
  -- number 0 is the root shell of terminal 0 and never free
  have hzero : p ≠ 0 := by
    rintro rfl
    exact hnot ⟨0, by decide⟩ (h.paths.climbs _).root_mem
  have hterm : s.terminalNumber s.currPid = t := h.terminal_running.trans hactive
  refine ⟨Function.update top t p, Function.update stack t (p :: stack t), ?_⟩
  -- the new stacks hold `p` besides what they held
  have hmem : ∀ {u q}, q ∈ Function.update stack t (p :: stack t) u ↔
      (q = p ∧ u = t) ∨ q ∈ stack u := by
    intro u q
    by_cases hu : u = t
    · subst hu
      rw [Function.update_self, List.mem_cons]
      exact or_congr_left ⟨fun heq => ⟨heq, rfl⟩, And.left⟩
    · rw [Function.update_of_ne hu]
      exact (or_iff_right fun hboth => hu hboth.2).symm
  constructor
  case paths =>
    have hpush := h.paths.push t hnot
    simpa only [apply, hzero, if_false, hcurr] using hpush
  case cur =>
    simpa only [apply, hterm] using h.cur_update t p
  case array =>
    intro q hq
    by_cases hqp : q = p
    · exact .inr (hqp ▸ Function.update_self ..)
    · simpa only [apply, Function.update_of_ne hqp] using h.array q hq
  case live =>
    intro q hq
    by_cases hqp : q = p
    · subst hqp
      exact iff_of_true (Function.update_self ..) ⟨t, hmem.mpr (.inl ⟨rfl, rfl⟩)⟩
    · simp only [apply, Function.update_of_ne hqp, hmem, hqp, false_and, false_or]
      exact h.live q hq
  case bounded =>
    intro u q hq
    rcases hmem.mp hq with ⟨rfl, -⟩ | hold
    · exact hp
    · exact h.bounded u q hold
  case terminal =>
    intro u q hq
    rcases hmem.mp hq with ⟨rfl, rfl⟩ | hold
    · exact (Function.update_self ..).trans hterm
    · have hqp : q ≠ p := fun heq => hnot u (heq ▸ hold)
      simpa only [apply, Function.update_of_ne hqp] using h.terminal u q hold
  case running =>
    refine ⟨t, hactive, ?_⟩
    show p = Function.update top t p t
    rw [Function.update_self]
  case parent =>
    simp only [apply, enter, Function.update_self, if_neg hzero]

/-- A process that is no root leaves the active stack to its parent. -/
private theorem exit (h : s.TreeInv top stack) (hparent : s.currPid ≠ s.currParentPid) :
    ∃ top stack, (s.apply .exit).TreeInv top stack := by
  obtain ⟨t, hactive, hcurr⟩ := h.running
  have hup : s.parentPid (top t) = s.currParentPid := by rw [h.parent, hcurr]
  have hne : s.parentPid (top t) ≠ top t := by
    rw [hup, ← hcurr]
    exact hparent.symm
  obtain ⟨rest, hstack, hnot, hpop⟩ := h.paths.pop t hne 0
  rw [hup] at hpop
  refine ⟨Function.update top t s.currParentPid, Function.update stack t rest, ?_⟩
  -- the process that ends was on no other stack, and only once on its own
  have hsub : ∀ {u q}, q ∈ Function.update stack t rest u ↔ q ≠ top t ∧ q ∈ stack u := by
    intro u q
    by_cases hu : u = t
    · subst hu
      rw [Function.update_self, hstack, List.mem_cons]
      constructor
      · exact fun hq => ⟨fun heq => hnot (heq ▸ hq), .inr hq⟩
      · rintro ⟨hq, heq | hq'⟩
        · exact absurd heq hq
        · exact hq'
    · rw [Function.update_of_ne hu]
      refine ⟨fun hq => ⟨fun heq => hu ?_, hq⟩, And.right⟩
      exact h.paths.disjoint u t _ (heq ▸ hq) (h.top_mem t)
  -- the parent is looked up behind the wiped PCB, but it is another process
  have hterm : Function.update s.terminalNumber (top t) 255 s.currParentPid = t := by
    have hq : s.currParentPid ≠ top t := hup ▸ hne
    rw [Function.update_of_ne hq, h.terminal_parent, hactive]
  constructor
  case paths =>
    simpa only [apply, hcurr] using hpop
  case cur =>
    simpa only [apply, hcurr, hterm] using h.cur_update t s.currParentPid
  case array =>
    intro q hq
    by_cases hqp : q = s.currPid
    · exact .inl (hqp ▸ Function.update_self ..)
    · simpa only [apply, Function.update_of_ne hqp] using h.array q hq
  case live =>
    intro q hq
    by_cases hqp : q = top t
    · refine iff_of_false (fun h1 => ?_) fun hex => hex.elim fun _ hu => (hsub.mp hu).1 hqp
      simp only [apply, hcurr, hqp, Function.update_self] at h1
      exact absurd h1 (by decide)
    · simp only [apply, hcurr, Function.update_of_ne hqp, hsub, ne_eq, hqp, not_false_iff,
        true_and]
      exact h.live q hq
  case bounded =>
    exact fun u q hq => h.bounded u q (hsub.mp hq).2
  case terminal =>
    intro u q hq
    obtain ⟨hqp, hold⟩ := hsub.mp hq
    simpa only [apply, hcurr, Function.update_of_ne hqp] using h.terminal u q hold
  case running =>
    refine ⟨t, hactive, ?_⟩
    show s.currParentPid = Function.update top t s.currParentPid t
    rw [Function.update_self]
  case parent => rfl

/-- A root shell takes its own place again. -/
private theorem restart (h : s.TreeInv top stack) (hroot : s.currPid = s.currParentPid) :
    (s.apply .restart).TreeInv top stack := by
  obtain ⟨t, hactive, hcurr⟩ := h.running
  have hself : s.parentPid s.currPid = s.currPid := h.parent.symm.trans hroot.symm
  have hpid : s.currPid = t := (h.root_eq hroot).trans hactive
  have hmem : s.currPid ∈ stack t := hcurr ▸ h.top_mem t
  have hterm : s.terminalNumber s.currPid = s.currPid := (h.terminal t _ hmem).trans hpid.symm
  have hlive : s.processArray s.currPid = 1 := (h.live _ (h.bounded t _ hmem)).mpr ⟨t, hmem⟩
  have hcur : s.curPid s.currPid = s.currPid := by
    rw [hpid, h.cur t, ← hcurr, hpid]
  -- every field gets the value that it has
  let again : ProcessState :=
    { s with
      processArray := Function.update s.processArray s.currPid 1
      parentPid := Function.update s.parentPid s.currPid s.currPid
      terminalNumber := Function.update s.terminalNumber s.currPid s.currPid
      curPid := Function.update s.curPid s.currPid s.currPid
      currParentPid := s.currPid }
  have hagain : again.TreeInv top stack :=
    h.congr (Function.update_eq_self_iff.mpr hself.symm)
      (Function.update_eq_self_iff.mpr hcur.symm) (Function.update_eq_self_iff.mpr hlive.symm)
      (Function.update_eq_self_iff.mpr hterm.symm) rfl rfl hroot
  exact hagain.withMaps s.display _ _ _

/-- **Every action keeps the stacks.** -/
theorem apply {a : ProcessAction} (h : s.TreeInv top stack) (ha : s.Enabled a) :
    ∃ top stack, (s.apply a).TreeInv top stack := by
  cases a with
  | tick regs => exact ⟨top, stack, h.tick regs⟩
  | spawn p => exact h.spawn ha.1 ha.2
  | exit => exact h.exit ha
  | restart => exact ⟨top, stack, h.restart ha⟩
  | switch t => exact ⟨top, stack, h.withMaps t s.frame _ s.esp0⟩
  | vidmap => exact ⟨top, stack, h.withMaps s.display s.frame _ s.esp0⟩
  | other => exact ⟨top, stack, h⟩

end TreeInv

/-! ## What the stacks mean -/

/-- `p` is on the `parent_pid` chain from the process of terminal `t`. -/
def OnChain (s : ProcessState) (t p : Nat) : Prop :=
  ∃ start : Nat, s.curPid t = start ∧ ∃ n, s.parentPid^[n] start = p

/-- **The process tree**: exactly the processes on the chains of the terminals are in use,
    every chain ends at the root shell of its terminal, no process is on two chains, all carry
    the number of their terminal, and the running process is the one of the active terminal. -/
structure ProcessTree (s : ProcessState) : Prop where
  live : ∀ p < maxProcessNum, s.processArray p = 1 ↔ ∃ t < terminalTotalNum, s.OnChain t p
  bounded : ∀ t < terminalTotalNum, ∀ p, s.OnChain t p → p < maxProcessNum
  rooted : ∀ t < terminalTotalNum, s.OnChain t t ∧ s.parentPid t = t
  disjoint : ∀ t < terminalTotalNum, ∀ u < terminalTotalNum, ∀ p,
    s.OnChain t p → s.OnChain u p → t = u
  terminal : ∀ t < terminalTotalNum, ∀ p, s.OnChain t p → s.terminalNumber p = t
  active : s.activeTid < terminalTotalNum
  running : s.curPid s.activeTid = s.currPid
  parent : s.currParentPid = s.parentPid s.currPid

namespace TreeInv

variable {s : ProcessState} {top : Fin terminalTotalNum → Nat}
  {stack : Fin terminalTotalNum → List Nat}

/-- The stack of a terminal holds the processes on its chain. -/
theorem onChain_iff (h : s.TreeInv top stack) (t : Fin terminalTotalNum) (p : Nat) :
    s.OnChain t p ↔ p ∈ stack t := by
  rw [(h.paths.climbs t).mem_iff]
  constructor
  · rintro ⟨start, hstart, hreach⟩
    obtain rfl : start = top t := Int.ofNat.inj (hstart.symm.trans (h.cur t))
    exact hreach
  · exact fun hreach => ⟨top t, h.cur t, hreach⟩

/-- The stacks make a process tree. -/
theorem processTree (h : s.TreeInv top stack) : s.ProcessTree := by
  obtain ⟨t, hactive, hcurr⟩ := h.running
  constructor
  case live =>
    -- each field of the tree is one of the paths from the top of a stack to its root
    intro p hp
    rw [h.live p hp]
    constructor
    · rintro ⟨t, hmem⟩
      exact ⟨t, t.isLt, (h.onChain_iff t p).mpr hmem⟩
    · rintro ⟨t, ht, hchain⟩
      exact ⟨⟨t, ht⟩, (h.onChain_iff ⟨t, ht⟩ p).mp hchain⟩
  case bounded =>
    exact fun t ht p hp => h.bounded ⟨t, ht⟩ p ((h.onChain_iff ⟨t, ht⟩ p).mp hp)
  case rooted =>
    intro t ht
    have hclimb := h.paths.climbs ⟨t, ht⟩
    exact ⟨(h.onChain_iff ⟨t, ht⟩ t).mpr hclimb.root_mem, hclimb.parent_root⟩
  case disjoint =>
    intro t ht u hu p hp hq
    have heq := h.paths.disjoint ⟨t, ht⟩ ⟨u, hu⟩ p ((h.onChain_iff ⟨t, ht⟩ p).mp hp)
      ((h.onChain_iff ⟨u, hu⟩ p).mp hq)
    exact congrArg Fin.val heq
  case terminal =>
    exact fun t ht p hp => h.terminal ⟨t, ht⟩ p ((h.onChain_iff ⟨t, ht⟩ p).mp hp)
  case active => exact hactive ▸ t.isLt
  case running => rw [hactive, hcurr, h.cur t]
  case parent => exact h.parent

end TreeInv

/-- The first state: every root shell alone on its terminal, `t` running. -/
theorem treeInv_of_shells {s : ProcessState}
    (hshells : ∀ t < terminalTotalNum, s.curPid t = t ∧ s.processArray t = 1 ∧
      s.parentPid t = t ∧ s.terminalNumber t = t)
    (hfree : ∀ p < maxProcessNum, terminalTotalNum ≤ p → s.processArray p = 0)
    (hactive : s.activeTid < terminalTotalNum) (hcurr : s.currPid = s.activeTid)
    (hparent : s.currParentPid = s.currPid) : s.TreeInv Fin.val fun t => [t.val] := by
  -- the processes on the stacks are the three shells
  have hmem : ∀ {p : Nat}, (∃ t : Fin terminalTotalNum, p ∈ [t.val]) ↔ p < terminalTotalNum := by
    intro p
    constructor
    · rintro ⟨t, ht⟩
      exact List.mem_singleton.mp ht ▸ t.isLt
    · exact fun hp => ⟨⟨p, hp⟩, List.mem_singleton_self p⟩
  constructor
  case paths =>
    refine ⟨fun t => .root (hshells t t.isLt).2.2.1, fun t u p ht hu => ?_⟩
    exact Fin.ext ((List.mem_singleton.mp ht).symm.trans (List.mem_singleton.mp hu))
  case cur => exact fun t => (hshells t t.isLt).1
  case array =>
    intro p hp
    by_cases ht : p < terminalTotalNum
    · exact .inr (hshells p ht).2.1
    · exact .inl (hfree p hp (Nat.le_of_not_lt ht))
  case live =>
    intro p hp
    rw [hmem]
    by_cases ht : p < terminalTotalNum
    · exact iff_of_true (hshells p ht).2.1 ht
    · refine iff_of_false (fun hone => ?_) ht
      rw [hfree p hp (Nat.le_of_not_lt ht)] at hone
      exact absurd hone (by decide)
  case bounded =>
    intro t p hp
    obtain rfl := List.mem_singleton.mp hp
    exact Nat.lt_trans t.isLt (by decide)
  case terminal =>
    intro t p hp
    obtain rfl := List.mem_singleton.mp hp
    exact (hshells t t.isLt).2.2.2
  case running => exact ⟨⟨s.activeTid, hactive⟩, rfl, hcurr⟩
  case parent => rw [hparent, hcurr, (hshells _ hactive).2.2.1]

end ProcessState

end LinuxLikeOs
