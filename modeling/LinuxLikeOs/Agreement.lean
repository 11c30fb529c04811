import LinuxLikeOs.Devices

/-!
# States that agree

Two kernel states agree when they have the same terminals, processes and file system and, but for
some hidden PCBs, the same PCBs.  What only the hardware reads (page tables, registers, the TSS)
may differ, and so may the index of the next directory entry.

- `Pcb.Same`, `Kernel.AgreeBut`: the relations
- `SysResult.Alike`: results that a program cannot tell apart
- one lemma for each function of the kernel: states that agree go on to agree
- `kernelStep_same`: so does every event
-/

namespace LinuxLikeOs

open Library

/-! ## The relations -/

/-- Two PCBs with the same fields.  The registers that `process_switch` saves do not count, nor
    does what lies behind the end of the two arrays. -/
structure Pcb.Same (a b : Pcb) : Prop where
  pid : a.pid = b.pid
  parentPid : a.parentPid = b.parentPid
  fdArray : ∀ i < maximumOpenFiles, a.fdArray i = b.fdArray i
  saved : a.saved = b.saved
  argsBuf : ∀ i < maximumCommandLength, a.argsBuf i = b.argsBuf i
  terminalNumber : a.terminalNumber = b.terminalNumber
  rtcfreq : a.rtcfreq = b.rtcfreq
  rtcCounter : a.rtcCounter = b.rtcCounter

/-- What `fd_array[i]` reads, also behind the end of the table. -/
theorem Pcb.Same.slot {a b : Pcb} (h : a.Same b) (i : Nat) : a.slot i = b.slot i := by
  unfold Pcb.slot
  by_cases hi : i < maximumOpenFiles
  · rw [if_pos hi, if_pos hi, h.fdArray i hi]
  · have hword (n : Nat) (hn : n + 3 < maximumCommandLength) :
        littleEndian a.argsBuf n = littleEndian b.argsBuf n := by
      simp only [littleEndian, h.argsBuf n (by omega), h.argsBuf (n + 1) (by omega),
        h.argsBuf (n + 2) (by omega), h.argsBuf (n + 3) hn]
    rw [if_neg hi, if_neg hi, h.saved, hword 0 (by decide), hword 4 (by decide)]

namespace Kernel

/-- The states agree, but for the PCBs that `hidden` names. -/
structure AgreeBut (hidden : Nat → Prop) (k₁ k₂ : Kernel) : Prop where
  tty : k₁.tty = k₂.tty
  processArray : k₁.processArray = k₂.processArray
  currPid : k₁.currPid = k₂.currPid
  currParentPid : k₁.currParentPid = k₂.currParentPid
  activeTid : k₁.activeTid = k₂.activeTid
  shellTid : k₁.shellTid = k₂.shellTid
  image : k₁.image = k₂.image
  pcb : ∀ q, ¬ hidden q → (k₁.pcbArray q).Same (k₂.pcbArray q)

/-- The states agree in all PCBs. -/
abbrev Same (k₁ k₂ : Kernel) : Prop := AgreeBut (fun _ => False) k₁ k₂

end Kernel

/-- Two outcomes of a call: both return, and leave states that agree, or both wait, or both call
    through a pointer that is no table.  If `known` holds, they return the same. -/
inductive SysResult.Alike (known : Prop) : SysResult → SysResult → Prop
  | ret {v₁ v₂ : Int} {b₁ b₂ : Option Buffer} {k₁ k₂ : Kernel}
      (hvalue : known → v₁ = v₂ ∧ b₁ = b₂) (hk : k₁.Same k₂) :
      Alike known (.ret v₁ b₁ k₁) (.ret v₂ b₂ k₂)
  | blocked : Alike known .blocked .blocked
  | wild : Alike known .wild .wild

namespace SysResult

/-- The same result. -/
theorem alike_ret {known : Prop} {v : Int} {b : Option Buffer} {k₁ k₂ : Kernel}
    (hk : k₁.Same k₂) : Alike known (.ret v b k₁) (.ret v b k₂) :=
  .ret (fun _ => ⟨rfl, rfl⟩) hk

theorem Alike.of_imp {known known' : Prop} {r₁ r₂ : SysResult} (h : Alike known r₁ r₂)
    (himp : known' → known) : Alike known' r₁ r₂ := by
  cases h with
  | ret hvalue hk => exact .ret (fun h => hvalue (himp h)) hk
  | blocked => exact .blocked
  | wild => exact .wild

/-- Calls through the same pointer. -/
theorem alike_call {known : Prop} {f : FuncPointer} {entry₁ entry₂ : FileOperation → SysResult}
    (h : ∀ ops, f = .table ops → Alike known (entry₁ ops) (entry₂ ops)) :
    Alike known (f.call entry₁) (f.call entry₂) := by
  cases f with
  | table ops => exact h ops rfl
  | null | address => exact .wild

/-- The states that the calls leave. -/
theorem Alike.kernel? {known : Prop} {r₁ r₂ : SysResult} (h : Alike known r₁ r₂) :
    Option.Rel Kernel.Same r₁.kernel? r₂.kernel? := by
  cases h with
  | ret _ hk => exact .some hk
  | blocked | wild => exact .none

end SysResult

namespace Kernel

namespace AgreeBut

variable {hidden : Nat → Prop} {k₁ k₂ : Kernel}

theorem refl (k : Kernel) : AgreeBut hidden k k where
  tty := rfl
  processArray := rfl
  currPid := rfl
  currParentPid := rfl
  activeTid := rfl
  shellTid := rfl
  image := rfl
  pcb _ _ := ⟨rfl, rfl, fun _ _ => rfl, rfl, fun _ _ => rfl, rfl, rfl, rfl⟩

/-! ## Setters -/

/-- A hidden PCB may change in any way; the others have to change alike. -/
theorem modifyPcb (h : AgreeBut hidden k₁ k₂) (p : Nat) {f g : Pcb → Pcb}
    (hfg : ¬ hidden p → (k₁.pcbArray p).Same (k₂.pcbArray p) →
      (f (k₁.pcbArray p)).Same (g (k₂.pcbArray p))) :
    AgreeBut hidden (k₁.modifyPcb p f) (k₂.modifyPcb p g) where
  tty := h.tty
  processArray := h.processArray
  currPid := h.currPid
  currParentPid := h.currParentPid
  activeTid := h.activeTid
  shellTid := h.shellTid
  image := h.image
  pcb q hq := by
    -- the entry written is hidden or alike after the write, the others are untouched
    by_cases hqp : q = p
    · subst hqp
      rw [pcbArray_modifyPcb_self, pcbArray_modifyPcb_self]
      exact hfg hq (h.pcb q hq)
    · rw [pcbArray_modifyPcb_of_ne k₁ hqp, pcbArray_modifyPcb_of_ne k₂ hqp]
      exact h.pcb q hq

/-- One side may change a hidden PCB. -/
theorem modifyPcb_right (h : AgreeBut hidden k₁ k₂) {p : Nat} (hp : hidden p) (f : Pcb → Pcb) :
    AgreeBut hidden k₁ (k₂.modifyPcb p f) :=
  { h with
    pcb := fun q hq => by
      have hqp : q ≠ p := fun heq => hq (heq.symm ▸ hp)
      rw [pcbArray_modifyPcb_of_ne k₂ hqp]
      exact h.pcb q hq }

theorem modifyFd (h : AgreeBut hidden k₁ k₂) (p i : Nat) (f : FileDescriptor → FileDescriptor) :
    AgreeBut hidden (k₁.modifyFd p i f) (k₂.modifyFd p i f) := by
  refine h.modifyPcb p fun _ hpcb => { hpcb with fdArray := fun j hj => ?_ }
  dsimp only
  by_cases hji : j = i
  · subst hji
    rw [Function.update_self, Function.update_self, hpcb.fdArray j hj]
  · rw [Function.update_of_ne hji, Function.update_of_ne hji, hpcb.fdArray j hj]

theorem setTerminalNumber (h : AgreeBut hidden k₁ k₂) (p t : Nat) :
    AgreeBut hidden (k₁.modifyPcb p fun pcb => { pcb with terminalNumber := t })
      (k₂.modifyPcb p fun pcb => { pcb with terminalNumber := t }) :=
  h.modifyPcb p fun _ hpcb => { hpcb with terminalNumber := rfl }

theorem setRtcfreq (h : AgreeBut hidden k₁ k₂) (p : Nat) (i : Int) :
    AgreeBut hidden (k₁.modifyPcb p fun pcb => { pcb with rtcfreq := i })
      (k₂.modifyPcb p fun pcb => { pcb with rtcfreq := i }) :=
  h.modifyPcb p fun _ hpcb => { hpcb with rtcfreq := rfl }

/-- The registers that `process_switch` saves do not count. -/
theorem setOwn (h : AgreeBut hidden k₁ k₂) (p : Nat) (regs : Context) :
    AgreeBut hidden (k₁.modifyPcb p fun pcb => { pcb with own := regs })
      (k₂.modifyPcb p fun pcb => { pcb with own := regs }) :=
  h.modifyPcb p fun _ hpcb => { hpcb with }

/-- The terminals. -/
theorem withTty (h : AgreeBut hidden k₁ k₂) (tty : Tty) :
    AgreeBut hidden { k₁ with tty := tty } { k₂ with tty := tty } :=
  { h with tty := rfl }

theorem setCurPid (h : AgreeBut hidden k₁ k₂) (t pid : Nat) :
    AgreeBut hidden (k₁.setCurPid t pid) (k₂.setCurPid t pid) := by
  unfold Kernel.setCurPid
  rw [h.tty]
  exact h.withTty _

theorem printf (h : AgreeBut hidden k₁ k₂) (text : List UInt8) :
    AgreeBut hidden (k₁.printf text) (k₂.printf text) := by
  unfold Kernel.printf
  rw [h.tty]
  exact h.withTty _

/-- The running process, which has parent `parent`. -/
theorem enter (h : AgreeBut hidden k₁ k₂) (p parent : Nat) :
    AgreeBut hidden { k₁ with currParentPid := parent, currPid := p }
      { k₂ with currParentPid := parent, currPid := p } :=
  { h with currPid := rfl, currParentPid := rfl }

/-- The process table. -/
theorem withProcess (h : AgreeBut hidden k₁ k₂) (p : Nat) (i : Int) :
    AgreeBut hidden { k₁ with processArray := Function.update k₁.processArray p i }
      { k₂ with processArray := Function.update k₂.processArray p i } :=
  { h with processArray := congrArg (fun a => Function.update a p i) h.processArray }

/-! ## Mappings -/

theorem mapProcess (h : AgreeBut hidden k₁ k₂) (virtualMem m₁ m₂ : Nat) :
    AgreeBut hidden (k₁.mapProcess virtualMem m₁) (k₂.mapProcess virtualMem m₂) :=
  { h with }

theorem vidRemapping (h : AgreeBut hidden k₁ k₂) (m₁ m₂ : Int) :
    AgreeBut hidden (k₁.vidRemapping m₁) (k₂.vidRemapping m₂) :=
  { h with }

theorem mapVideo (h : AgreeBut hidden k₁ k₂) : AgreeBut hidden k₁.mapVideo k₂.mapVideo := by
  unfold Kernel.mapVideo
  split_ifs <;> exact h.vidRemapping ..

theorem vidmap (h : AgreeBut hidden k₁ k₂) (screenStart : UInt32) :
    AgreeBut hidden (k₁.vidmap screenStart).2 (k₂.vidmap screenStart).2 := by
  unfold Kernel.vidmap
  split_ifs
  · exact h
  · exact h
  · exact h.vidRemapping ..

/-! ## Interrupts -/

theorem rtcHandler (h : AgreeBut hidden k₁ k₂) : AgreeBut hidden k₁.rtcHandler k₂.rtcHandler where
  tty := h.tty
  processArray := h.processArray
  currPid := h.currPid
  currParentPid := h.currParentPid
  activeTid := h.activeTid
  shellTid := h.shellTid
  image := h.image
  pcb q hq := by
    have hpcb := h.pcb q hq
    -- the same processes are live and count, so the counters go on alike
    simp only [Kernel.rtcHandler, h.processArray, hpcb.rtcfreq]
    split_ifs
    · exact
        { hpcb with
          rtcfreq := rfl
          rtcCounter := congrArg (fun i => toInt32 (i + 1)) hpcb.rtcCounter }
    · exact hpcb

theorem terminalSwitch (h : AgreeBut hidden k₁ k₂) (n : Int) :
    AgreeBut hidden (k₁.terminalSwitch n).2 (k₂.terminalSwitch n).2 := by
  unfold Kernel.terminalSwitch
  rw [h.tty]
  split_ifs
  · exact h
  · exact h
  · dsimp only
    split_ifs <;> exact (h.withTty _).vidRemapping ..

theorem keyboardHandler (h : AgreeBut hidden k₁ k₂) (code : UInt8) :
    AgreeBut hidden (k₁.keyboardHandler code) (k₂.keyboardHandler code) := by
  unfold Kernel.keyboardHandler
  rw [h.tty]
  dsimp only
  split
  · exact (h.withTty _).terminalSwitch _
  · exact h.withTty _

/-! ## Programs that open files, start and end -/

/-- An `open` that reaches a table changes no PCB but the one of the process that calls. -/
theorem of_open {k k' : Kernel} {filename : Option CString} {ops : FileOperation}
    (hops : k.openedTable filename = some ops) (h : (k.open filename).kernel? = some k') :
    AgreeBut (· = k.currPid) k k' := by
  obtain ⟨name, entry, fd, rfl, hin, hout, hentry, hfree, htable⟩ := openedTable_eq_some hops
  rw [open_eq_entry hin hout hentry hfree htable] at h
  obtain rfl := Option.some.inj h
  have hself : AgreeBut (· = k.currPid) k k := refl k
  have hbound : AgreeBut (· = k.currPid) k (k.modifyFd k.currPid fd (bindDentry entry)) :=
    hself.modifyPcb_right rfl _
  generalize k.modifyFd k.currPid fd (bindDentry entry) = bound at hbound
  -- the entry writes the rate of the process, the global index or nothing
  have hopened : AgreeBut (· = k.currPid) k (ops.open bound (some name)).2 := by
    cases ops with
    | rtc =>
      simp only [FileOperation.open, rtcOpen]
      exact hbound.modifyPcb_right hbound.currPid.symm _
    | file =>
      simp only [FileOperation.open, fileOpen]
      split
      · exact hbound
      · exact { hbound with }
    | dir => exact { hbound with }
    | stdinOp | stdoutOp => exact hbound
  exact hopened.modifyPcb_right rfl _

/-- The executable is read from the image. -/
theorem checkExecutable (h : AgreeBut hidden k₁ k₂) (fileName : CString) (stack : Buffer) :
    k₁.checkExecutable fileName stack = k₂.checkExecutable fileName stack :=
  checkExecutable_image h.image fileName stack

/-- `execute` gives both programs the same process. -/
theorem spawned (h : AgreeBut hidden k₁ k₂) (command : Option CString) (stack : Buffer) :
    k₁.spawned command stack = k₂.spawned command stack :=
  spawned_congr h.image h.processArray command stack

/-- The terminal of the parent has to agree when the child takes its place. -/
theorem enterChild (h : AgreeBut hidden k₁ k₂) (p : Nat)
    (hparent : 2 < k₁.shellTid → ¬ hidden k₁.currPid) :
    AgreeBut hidden (k₁.enterChild p) (k₂.enterChild p) := by
  -- the three parts of `enterChild`: the process table, the terminal, the child's PCB
  let forked (k : Kernel) : Kernel :=
    { k with
      processArray := Function.update k.processArray p 1
      currParentPid := k.currPid
      currPid := p }
  have heq (k : Kernel) : k.enterChild p =
      if k.shellTid > 2 then
        ((forked k).setCurPid (k.pcbArray k.currPid).terminalNumber p).modifyPcb p fun pcb =>
          { pcb with terminalNumber := (k.pcbArray k.currPid).terminalNumber }
      else
        ({ (forked k).setCurPid k.shellTid p with currParentPid := p }).modifyPcb p fun pcb =>
          { pcb with terminalNumber := k.shellTid } := rfl
  -- the two parts that both branches share
  have hforked : AgreeBut hidden (forked k₁) (forked k₂) := by
    simp only [forked, h.currPid]
    exact (h.withProcess p 1).enter p _
  rw [heq, heq, ← h.shellTid]
  split_ifs with hboot
  · -- after booting the child inherits the terminal of its parent, which is not hidden
    rw [← h.currPid, ← (h.pcb k₁.currPid (hparent hboot)).terminalNumber]
    exact (hforked.setCurPid _ p).setTerminalNumber p _
  · exact ((hforked.setCurPid k₁.shellTid p).enter p p).setTerminalNumber p _

theorem enterShell (h : AgreeBut hidden k₁ k₂) (pid : Nat) :
    AgreeBut hidden (k₁.enterShell pid) (k₂.enterShell pid) :=
  (((h.withProcess pid 1).enter pid pid).setCurPid pid pid).setTerminalNumber pid pid

theorem startProgram (h : AgreeBut hidden k₁ k₂) (args : CString) (regs : Context) :
    AgreeBut hidden (k₁.startProgram args regs) (k₂.startProgram args regs) := by
  let bound (k : Kernel) := (k.bindNewPcb k.currPid k.currParentPid).modifyPcb k.currPid
    fun pcb => { pcb with saved := regs }
  let mapped (k : Kernel) := ((bound k).mapProcess programImage (processFrame k.currPid)).mapVideo
  let filled (k : Kernel) := (mapped k).modifyPcb k.currPid fun pcb =>
    { pcb with
      fdArray := fun i => if i < maximumOpenFiles then freeDescriptor else pcb.fdArray i
      argsBuf := strncpy pcb.argsBuf args.byte maximumCommandLength }
  have hbound : AgreeBut hidden (bound k₁) (bound k₂) := by
    simp only [bound, h.currPid, h.currParentPid]
    refine AgreeBut.modifyPcb (h.modifyPcb _ fun _ hpcb => ?_) _ fun _ hpcb => ?_
    · exact { hpcb with pid := rfl, parentPid := rfl }
    · exact { hpcb with saved := rfl }
  have hmapped : AgreeBut hidden (mapped k₁) (mapped k₂) := (hbound.mapProcess ..).mapVideo
  -- the loops write the two arrays up to their ends
  have hfilled : AgreeBut hidden (filled k₁) (filled k₂) := by
    simp only [filled, h.currPid]
    refine hmapped.modifyPcb _ fun _ hpcb => { hpcb with fdArray := ?_, argsBuf := ?_ }
    · intro i hi
      dsimp only
      rw [if_pos hi, if_pos hi]
    · intro i hi
      dsimp only
      rw [strncpy, strncpy, if_pos hi, if_pos hi]
  have hopen : AgreeBut hidden (filled k₁).openStdin (filled k₂).openStdin := by
    unfold openStdin
    rw [hfilled.currPid]
    exact hfilled.modifyFd ..
  have hstarted : AgreeBut hidden (filled k₁).openStdin.openStdout
      (filled k₂).openStdin.openStdout := by
    unfold openStdout
    rw [hopen.currPid]
    exact hopen.modifyFd ..
  exact { hstarted with }

/-- **A new program** does not depend on what its process left behind, but for the RTC. -/
theorem pcb_started (h : AgreeBut hidden k₁ k₂)
    (hterminal : (k₁.pcbArray k₁.currPid).terminalNumber = (k₂.pcbArray k₁.currPid).terminalNumber)
    (hrtcfreq : (k₁.pcbArray k₁.currPid).rtcfreq = (k₂.pcbArray k₁.currPid).rtcfreq)
    (hrtcCounter : (k₁.pcbArray k₁.currPid).rtcCounter = (k₂.pcbArray k₁.currPid).rtcCounter)
    (args : CString) (regs : Context) :
    ((k₁.startProgram args regs).pcbArray k₁.currPid).Same
      ((k₂.startProgram args regs).pcbArray k₁.currPid) := by
  have htable₁ := (pcbArray_startProgram k₁ args regs).1
  have htable₂ := (pcbArray_startProgram k₂ args regs).1
  have hpcb₁ := pcb_startProgram k₁ args regs
  have hpcb₂ := pcb_startProgram k₂ args regs
  rw [← h.currPid] at htable₂ hpcb₂
  constructor
  -- everything but the terminal and the RTC is written by the start of the program
  case fdArray => exact fun i hi => (htable₁ i hi).trans (htable₂ i hi).symm
  all_goals rw [hpcb₁, hpcb₂]
  case parentPid => rw [h.currParentPid]
  case argsBuf =>
    intro i hi
    dsimp only
    rw [strncpy, strncpy, if_pos hi, if_pos hi]
  case terminalNumber => exact hterminal
  case rtcfreq => exact hrtcfreq
  case rtcCounter => exact hrtcCounter

/-- The process that halts may have any PCB. -/
theorem closePcb (h : AgreeBut (· = k₁.currPid) k₁ k₂) {c₁ c₂ : Kernel}
    (hclose₁ : k₁.closePcb k₁.currPid = some c₁) (hclose₂ : k₂.closePcb k₂.currPid = some c₂) :
    AgreeBut (· = k₁.currPid) c₁ c₂ := by
  -- `closePcb` writes only the PCB of the process, and that one is hidden
  obtain ⟨fds₁, rfl⟩ := closePcb_eq hclose₁
  obtain ⟨fds₂, rfl⟩ := closePcb_eq hclose₂
  constructor
  case tty => exact h.tty
  case processArray =>
    show Function.update k₁.processArray k₁.currPid 0 = Function.update k₂.processArray k₂.currPid 0
    rw [h.processArray, h.currPid]
  case currPid => exact h.currPid
  case currParentPid => exact h.currParentPid
  case activeTid => exact h.activeTid
  case shellTid => exact h.shellTid
  case image => exact h.image
  case pcb =>
    intro q hq
    rw [pcbArray_modifyPcb_of_ne _ hq, pcbArray_modifyPcb_of_ne _ (h.currPid ▸ hq)]
    exact h.pcb q hq

/-- The parent that runs again must not be hidden. -/
theorem resumeParent (h : AgreeBut hidden k₁ k₂) (hparent : ¬ hidden k₁.currParentPid)
    (saved₁ saved₂ : Context) :
    AgreeBut hidden (k₁.resumeParent saved₁) (k₂.resumeParent saved₂) := by
  -- first back to the parent, then the parent's terminal
  let back (k : Kernel) : Kernel :=
    { k with currParentPid := (k.pcbArray k.currParentPid).parentPid, currPid := k.currParentPid }
  have hpcb := h.pcb k₁.currParentPid hparent
  have hback : AgreeBut hidden (back k₁) (back k₂) := by
    simp only [back, ← h.currParentPid, hpcb.parentPid]
    exact h.enter _ _
  have hplace : AgreeBut hidden
      ((back k₁).setCurPid (back k₁).currPcb.terminalNumber (back k₁).currPid)
      ((back k₂).setCurPid (back k₂).currPcb.terminalNumber (back k₂).currPid) := by
    have hterminal : (back k₁).currPcb.terminalNumber = (back k₂).currPcb.terminalNumber := by
      rw [currPcb, currPcb, ← hback.currPid]
      exact hpcb.terminalNumber
    rw [hterminal, hback.currPid]
    exact hback.setCurPid _ _
  exact { hplace with }

/-- **A process that halts** leaves nothing behind but its PCB. -/
theorem halt (h : AgreeBut (· = k₁.currPid) k₁ k₂) (hchild : k₁.currParentPid ≠ k₁.currPid)
    {exitCode : UInt8} {stack : Buffer} {regs : Context} {r₁ r₂ : Outcome × Kernel}
    (hr₁ : k₁.halt exitCode stack regs = some r₁) (hr₂ : k₂.halt exitCode stack regs = some r₂) :
    AgreeBut (· = k₁.currPid) r₁.2 r₂.2 := by
  have hchild₂ : ¬ k₂.currPid = k₂.currParentPid := by
    rw [← h.currPid, ← h.currParentPid]
    exact fun heq => hchild heq.symm
  -- a process with a parent of its own does not start a shell again
  obtain ⟨c₁, hclose₁, ⟨hroot, -⟩ | ⟨-, rfl⟩⟩ := halt_cases hr₁
  · exact absurd hroot.symm hchild
  obtain ⟨c₂, hclose₂, ⟨hroot, -⟩ | ⟨-, rfl⟩⟩ := halt_cases hr₂
  · exact absurd hroot hchild₂
  have hparent : c₁.currParentPid = k₁.currParentPid := by
    obtain ⟨fds, rfl⟩ := closePcb_eq hclose₁
    rfl
  exact (h.closePcb hclose₁ hclose₂).resumeParent (fun heq => hchild (hparent.symm.trans heq)) _ _

/-- The hidden PCBs are found to agree. -/
theorem same (h : AgreeBut hidden k₁ k₂)
    (hpcb : ∀ q, hidden q → (k₁.pcbArray q).Same (k₂.pcbArray q)) : k₁.Same k₂ :=
  { h with
    pcb := fun q _ => by
      by_cases hq : hidden q
      · exact hpcb q hq
      · exact h.pcb q hq }

/-- The terminal of the new process. -/
private theorem pcb_enterChild (k : Kernel) (p : Nat) :
    (k.enterChild p).pcbArray p =
      { k.pcbArray p with
        terminalNumber :=
          if k.shellTid > 2 then (k.pcbArray k.currPid).terminalNumber else k.shellTid } := by
  unfold Kernel.enterChild
  dsimp only
  split_ifs
  · exact pcbArray_modifyPcb_self ..
  · exact pcbArray_modifyPcb_self ..

/-- **`execute`** leaves states that agree in all PCBs, if the process that it takes is the only
    one that is hidden. -/
theorem execute (h : AgreeBut hidden k₁ k₂) {command : CString} {stack : Buffer} {p : Nat}
    (hspawn : k₁.spawned (some command) stack = some p) (hhidden : ∀ q, hidden q → q = p)
    (hparent : 2 < k₁.shellTid → ¬ hidden k₁.currPid)
    (hrtcfreq : (k₁.pcbArray p).rtcfreq = (k₂.pcbArray p).rtcfreq)
    (hrtcCounter : (k₁.pcbArray p).rtcCounter = (k₂.pcbArray p).rtcCounter) (regs : Context) :
    (k₁.execute (some command) stack regs).2.Same (k₂.execute (some command) stack regs).2 := by
  -- the child is entered in both kernels, and only its own PCB may differ
  have hentered := h.enterChild p hparent
  have hcurr : (k₁.enterChild p).currPid = p := (k₁.enterChild_frame p).2.1
  rw [(execute_of_spawned hspawn regs).2,
    (execute_of_spawned ((h.spawned ..).symm.trans hspawn) regs).2]
  -- `startProgram` overwrites what differs in it but the RTC fields and the terminal
  refine (hentered.startProgram _ regs).same fun q hq => ?_
  obtain rfl := hhidden q hq
  have hstarted := hentered.pcb_started
  rw [hcurr, pcb_enterChild, pcb_enterChild] at hstarted
  refine hstarted ?_ hrtcfreq hrtcCounter _ regs
  dsimp only
  rw [h.shellTid]
  -- the terminal is the parent's, or the one being booted
  split_ifs with hboot
  · rw [← h.currPid]
    exact (h.pcb k₁.currPid (hparent (h.shellTid ▸ hboot))).terminalNumber
  · rfl

end AgreeBut

namespace Same

variable {k₁ k₂ : Kernel}

theorem execute (h : k₁.Same k₂) (command : Option CString) (stack : Buffer) (regs : Context) :
    (k₁.execute command stack regs).2.Same (k₂.execute command stack regs).2 := by
  cases hspawn : k₁.spawned command stack with
  | none =>
    rw [execute_of_spawned_none hspawn,
      execute_of_spawned_none ((h.spawned command stack).symm.trans hspawn)]
    exact h
  | some p =>
    obtain ⟨command, rfl, -⟩ := Option.bind_eq_some_iff.mp hspawn
    exact AgreeBut.execute h hspawn (fun _ => False.elim) (fun _ => id)
      (h.pcb p id).rtcfreq (h.pcb p id).rtcCounter regs

/-- The entries `close` of the operation tables. -/
theorem closeEntry (h : k₁.Same k₂) (ops : FileOperation) (fd : Nat) :
    (ops.close k₁ fd).1 = (ops.close k₂ fd).1 ∧
      (ops.close k₁ fd).2.Same (ops.close k₂ fd).2 := by
  cases ops with
  | rtc =>
    refine ⟨rfl, ?_⟩
    simp only [FileOperation.close, rtcClose, h.currPid]
    exact h.modifyPcb _ fun _ hpcb => { hpcb with rtcfreq := rfl, rtcCounter := rfl }
  | file | dir | stdinOp | stdoutOp => exact ⟨rfl, h⟩

/-- One turn of the loop in `close_pcb`. -/
theorem closePcbFd (h : k₁.Same k₂) (pid : Nat) {i : Nat} (hi : i < maximumOpenFiles) :
    Option.Rel Same (closePcbFd pid k₁ i) (closePcbFd pid k₂ i) := by
  unfold Kernel.closePcbFd
  rw [(h.pcb pid id).fdArray i hi]
  dsimp only
  split_ifs
  · cases ((k₂.pcbArray pid).fdArray i).funcPointer with
    | table ops => exact .some ((h.closeEntry ops i).2.modifyFd ..)
    | null | address => exact .none
  · exact .some (h.modifyFd ..)

theorem closePcb (h : k₁.Same k₂) (pid : Nat) :
    Option.Rel Same (k₁.closePcb pid) (k₂.closePcb pid) := by
  have hturns : ∀ i ∈ List.range maximumOpenFiles, ∀ k₁ k₂ : Kernel, k₁.Same k₂ →
      Option.Rel Same (Kernel.closePcbFd pid k₁ i) (Kernel.closePcbFd pid k₂ i) :=
    fun i hi _ _ hk => closePcbFd hk pid (List.mem_range.mp hi)
  refine rel_foldlM hturns ((AgreeBut.withProcess h pid 0).modifyPcb pid fun _ hpcb => ?_)
  exact
    { hpcb with pid := rfl, parentPid := rfl, terminalNumber := rfl, rtcfreq := rfl,
                rtcCounter := rfl }

theorem currPcb (h : k₁.Same k₂) : k₁.currPcb.Same k₂.currPcb := by
  unfold Kernel.currPcb
  rw [h.currPid]
  exact h.pcb k₂.currPid id

theorem halt (h : k₁.Same k₂) (exitCode : UInt8) (stack : Buffer) (regs : Context) :
    Option.Rel Same ((k₁.halt exitCode stack regs).map Prod.snd)
      ((k₂.halt exitCode stack regs).map Prod.snd) := by
  have hclose := closePcb h k₁.currPid
  unfold Kernel.halt
  rw [← h.currPid]
  -- either both runs close the descriptors or both get stuck
  generalize k₁.closePcb k₁.currPid = closed₁, k₂.closePcb k₁.currPid = closed₂ at hclose
  cases hclose with
  | none => exact .none
  | some hk =>
    simp only [Option.map_some, ← hk.currPid, ← hk.currParentPid]
    refine .some ?_
    split_ifs
    · -- a root shell: it starts again if it passes the checks
      unfold Kernel.restartShell
      rw [hk.checkExecutable]
      split_ifs
      · exact hk.resumeParent id _ _
      · exact (AgreeBut.enterShell hk _).startProgram _ regs
    · exact hk.resumeParent id _ _

theorem runNext (h : k₁.Same k₂) (t : Nat) : (k₁.runNext t).Same (k₂.runNext t) := by
  let chosen (k : Kernel) : Kernel := { k with nextSchedTid := t }
  let viewed (k : Kernel) :=
    if k.tty.curDisplayTid = t then (chosen k).vidMapping
    else (chosen k).vidRemapping (k.tty.terminals t).vidBuf
  -- the page tables differ, but no program sees them
  have hviewed : Same (viewed k₁) (viewed k₂) := by
    simp only [viewed, h.tty]
    split_ifs
    · exact { h with }
    · exact { h with }
  have hnext : (viewed k₁).nextSchedTid = (viewed k₂).nextSchedTid := by
    simp only [viewed, h.tty]
    split_ifs
    · rfl
    · rfl
  have hparent (k : Kernel) : (k.runNext t).currParentPid =
      (k.pcbArray (k.tty.terminals t).curPid.toNat).parentPid :=
    congrArg (fun pcbs => (pcbs (k.tty.terminals t).curPid.toNat).parentPid) (k.pcbArray_runNext t)
  exact
    { hviewed with
      currPid := congrArg (fun tty => (tty.terminals t).curPid.toNat) h.tty
      currParentPid := by
        rw [hparent, hparent, h.tty]
        exact (h.pcb _ id).parentPid
      activeTid := hnext }

/-- **A tick**: the next shell, the next terminal of the start-up, or the next process. -/
theorem pitHandler (h : k₁.Same k₂) (stack : Buffer) (regs : Context) :
    (k₁.pitHandler stack regs).Same (k₂.pitHandler stack regs) := by
  by_cases hboot : k₁.shellTid ≤ 2
  · have hchosen : k₁.chooseShell.Same k₂.chooseShell := { h with activeTid := h.shellTid }
    rw [pitHandler_boot hboot, pitHandler_boot (h.shellTid ▸ hboot), h.tty, h.shellTid]
    split_ifs
    · exact execute hchosen ..
    · exact execute (hchosen.setOwn _ regs) ..
    · exact { hchosen with shellTid := rfl }
  · have hlate : 2 < k₁.shellTid := Nat.lt_of_not_le hboot
    rw [pitHandler_eq hlate, pitHandler_eq (h.shellTid ▸ hlate), ← h.activeTid, ← h.currPid]
    exact { (runNext h _).setOwn k₁.currPid regs with }

/-! ## Calls on files -/

/-- The entries `open` of the operation tables. -/
theorem openEntry (h : k₁.Same k₂) (ops : FileOperation) (filename : Option CString) :
    (ops.open k₁ filename).1 = (ops.open k₂ filename).1 ∧
      (ops.open k₁ filename).2.Same (ops.open k₂ filename).2 := by
  cases ops with
  | rtc =>
    -- `rtc_open` sets the rate of the caller to the same value
    refine ⟨rfl, ?_⟩
    simp only [FileOperation.open, rtcOpen, h.currPid]
    exact AgreeBut.setRtcfreq h ..
  | file =>
    -- `file_open` looks the name up in the same image
    simp only [FileOperation.open, fileOpen, h.image]
    cases k₂.image.readDentryByName filename with
    | none => exact ⟨rfl, h⟩
    | some dentry => exact ⟨rfl, { h with image := rfl }⟩
  | dir =>
    simp only [FileOperation.open, dirOpen, h.image]
    exact ⟨trivial, { h with image := rfl }⟩
  | stdinOp | stdoutOp => exact ⟨rfl, h⟩

/-- `dir_read` looks at the index, and changes nothing but the index. -/
theorem dirRead (h : k₁.Same k₂) (buf : Option Buffer) (nbytes : Int) :
    SysResult.Alike (k₁.dirReadnum = k₂.dirReadnum) (k₁.dirRead buf nbytes)
      (k₂.dirRead buf nbytes) := by
  -- with the same index both read the same entry
  by_cases hindex : k₁.dirReadnum = k₂.dirReadnum
  · unfold Kernel.dirRead
    rw [h.image, hindex]
    split
    · exact SysResult.alike_ret h
    · split_ifs
      · exact SysResult.alike_ret h
      · split
        · exact SysResult.alike_ret h
        · exact SysResult.alike_ret { h with image := rfl }
  · -- with another index the results differ, but the index is all that changes
    have hret (k : Kernel) :
        ∃ v b n, k.dirRead buf nbytes = .ret v b { k with dirReadnum := n } := by
      unfold Kernel.dirRead
      split
      · exact ⟨_, _, k.dirReadnum, rfl⟩
      · split_ifs
        · exact ⟨_, _, k.dirReadnum, rfl⟩
        · split
          · exact ⟨_, _, k.dirReadnum, rfl⟩
          · exact ⟨_, _, _, rfl⟩
    obtain ⟨v₁, b₁, n₁, heq₁⟩ := hret k₁
    obtain ⟨v₂, b₂, n₂, heq₂⟩ := hret k₂
    rw [heq₁, heq₂]
    exact .ret (fun hsame => absurd hsame hindex) { h with }

/-- The entries `read` of the operation tables. -/
theorem readEntry (h : k₁.Same k₂) (ops : FileOperation) (fd : Nat) (buf : Option Buffer)
    (nbytes : Int) :
    SysResult.Alike (k₁.dirReadnum = k₂.dirReadnum ∨ ops ≠ .dir) (ops.read k₁ fd buf nbytes)
      (ops.read k₂ fd buf nbytes) := by
  cases ops with
  | rtc =>
    -- the state `rtc_read` looks at is in the PCB, which is alike
    simp only [FileOperation.read, Kernel.rtcRead, (currPcb h).rtcfreq, (currPcb h).rtcCounter,
      h.currPid]
    split_ifs
    · exact .blocked
    · exact SysResult.alike_ret (h.modifyPcb _ fun _ hpcb => { hpcb with rtcCounter := rfl })
  | file =>
    simp only [FileOperation.read, fileRead, (currPcb h).slot fd, h.image, h.currPid]
    exact SysResult.alike_ret (h.modifyFd ..)
  -- only `dir_read` looks at the index, which is a global of the kernel
  | dir => exact (dirRead h buf nbytes).of_imp fun hknown => hknown.resolve_right fun hne => hne rfl
  | stdinOp =>
    simp only [FileOperation.read, h.tty, (currPcb h).terminalNumber]
    cases terminalRead k₂.tty k₂.currPcb.terminalNumber buf nbytes with
    | none => exact .blocked
    | some r => exact SysResult.alike_ret (h.withTty _)
  | stdoutOp => exact SysResult.alike_ret h

/-- The entries `write` of the operation tables. -/
theorem writeEntry (h : k₁.Same k₂) (ops : FileOperation) (buf : Option Buffer) (nbytes : Int) :
    SysResult.Alike True (ops.write k₁ buf nbytes) (ops.write k₂ buf nbytes) := by
  cases ops with
  | rtc =>
    simp only [FileOperation.write, Kernel.rtcWrite, h.currPid]
    cases buf with
    | none => exact SysResult.alike_ret h
    | some buf =>
      dsimp only
      split_ifs
      · exact SysResult.alike_ret h
      · exact SysResult.alike_ret h
      · exact SysResult.alike_ret (AgreeBut.setRtcfreq h ..)
  | stdoutOp =>
    simp only [FileOperation.write, h.tty, (currPcb h).terminalNumber]
    exact SysResult.alike_ret (h.withTty _)
  | file | dir | stdinOp => exact SysResult.alike_ret h

/-- **`read`** returns the same, unless it reads a directory with another index. -/
theorem read (h : k₁.Same k₂) (fd : Int) (buf : Option Buffer) (nbytes : Int) :
    SysResult.Alike (k₁.dirReadnum = k₂.dirReadnum ∨ k₁.calledTable fd buf.isNone ≠ some .dir)
      (k₁.read fd buf nbytes) (k₂.read fd buf nbytes) := by
  unfold Kernel.read Kernel.calledTable
  rw [(currPcb h).slot]
  split_ifs
  · exact SysResult.alike_ret h
  · refine SysResult.alike_call fun ops hops => (readEntry h ops _ buf nbytes).of_imp ?_
    rw [hops]
    exact Or.imp_right fun hne hdir => hne (congrArg some hdir)

theorem write (h : k₁.Same k₂) (fd : Int) (buf : Option Buffer) (nbytes : Int) :
    SysResult.Alike True (k₁.write fd buf nbytes) (k₂.write fd buf nbytes) := by
  unfold Kernel.write
  rw [(currPcb h).slot]
  split_ifs
  · exact SysResult.alike_ret h
  · exact SysResult.alike_call fun ops _ => writeEntry h ops buf nbytes

theorem close (h : k₁.Same k₂) (fd : Int) :
    SysResult.Alike True (k₁.close fd) (k₂.close fd) := by
  unfold Kernel.close
  rw [(currPcb h).slot]
  split_ifs
  · exact SysResult.alike_ret h
  · refine SysResult.alike_call fun ops _ => ?_
    obtain ⟨hvalue, hclosed⟩ := closeEntry h ops fd.toNat
    dsimp only
    rw [hvalue, hclosed.currPid]
    split_ifs
    · exact SysResult.alike_ret (hclosed.modifyFd ..)
    · exact SysResult.alike_ret hclosed

theorem lowestFree (h : k₁.Same k₂) : k₁.lowestFree = k₂.lowestFree := by
  have htable (i : Nat) (hi : i < maximumOpenFiles) : k₁.files.table i = k₂.files.table i :=
    (currPcb h).fdArray i hi
  refine Option.ext fun fd => ?_
  rw [lowestFree_eq_some_iff, lowestFree_eq_some_iff]
  refine and_congr_right fun _ => and_congr_right fun hfd => ?_
  rw [htable fd hfd]
  refine and_congr_right fun _ => forall_congr' fun i => forall_congr' fun _ => ?_
  exact forall_congr' fun hi => by rw [htable i (Nat.lt_trans hi hfd)]

theorem «open» (h : k₁.Same k₂) (filename : Option CString) :
    SysResult.Alike True (k₁.open filename) (k₂.open filename) := by
  unfold Kernel.open openStdin openStdout
  rw [h.image, lowestFree h, h.currPid]
  cases filename with
  | none => exact SysResult.alike_ret (h.printf _)
  | some name =>
    dsimp only
    split_ifs
    · exact SysResult.alike_ret (h.modifyFd ..)
    · exact SysResult.alike_ret (h.modifyFd ..)
    · split
      · exact SysResult.alike_ret (h.printf _)
      · split
        · exact SysResult.alike_ret h
        · next dentry _ _ fd hfree =>
          -- the descriptor is bound first, then opened
          have hbound := h.modifyFd k₂.currPid fd (bindDentry dentry)
          have hfd : fd < maximumOpenFiles := (lowestFree_eq_some_iff.mp hfree).2.1
          rw [(currPcb hbound).fdArray fd hfd]
          refine SysResult.alike_call fun ops _ => ?_
          obtain ⟨hvalue, hopened⟩ := openEntry hbound ops (some name)
          rw [hvalue, hopened.currPid]
          split_ifs
          · exact SysResult.alike_ret (hopened.modifyFd ..)
          · exact SysResult.alike_ret (hopened.modifyFd ..)

/-! ## The devices -/

theorem calledTable (h : k₁.Same k₂) (fd : Int) (noBuffer : Bool) :
    k₁.calledTable fd noBuffer = k₂.calledTable fd noBuffer := by
  unfold Kernel.calledTable
  rw [(currPcb h).slot]

theorem openedTable (h : k₁.Same k₂) (filename : Option CString) :
    k₁.openedTable filename = k₂.openedTable filename := by
  unfold Kernel.openedTable
  rw [h.image, lowestFree h]
  cases hfree : k₂.lowestFree with
  | none => rfl
  | some fd =>
    simp only [Option.bind_some, (currPcb h).fdArray fd (lowestFree_eq_some_iff.mp hfree).2.1]

/-- An event does the same to the devices. -/
theorem deviceAction (h : k₁.Same k₂) (e : KernelEvent) :
    k₁.deviceAction e = k₂.deviceAction e := by
  cases e with
  | rtcInterrupt => exact congrArg DeviceAction.interrupt h.processArray
  | halt => exact congrArg DeviceAction.resetRtc h.currPid
  | read | write | close =>
    simp only [Kernel.deviceAction, calledTable h, h.currPid, h.image]
  | «open» => simp only [Kernel.deviceAction, openedTable h, h.currPid]
  | tick | key | switch | execute | getargs | vidmap => rfl

end Same

end Kernel

/-- **Every event** happens in both states or in neither, and the states go on to agree. -/
theorem kernelStep_same {k₁ k₂ : Kernel} (h : k₁.Same k₂) (e : KernelEvent) :
    Option.Rel Kernel.Same (kernelStep k₁ e) (kernelStep k₂ e) := by
  -- no event looks at the index but a read of a directory, so all steps agree
  cases e with
  | tick stack regs => exact .some (Kernel.Same.pitHandler h stack regs)
  | key code => exact .some (h.keyboardHandler code)
  | rtcInterrupt => exact .some h.rtcHandler
  | switch n => exact .some (h.terminalSwitch n)
  | execute command stack regs => exact .some (Kernel.Same.execute h command stack regs)
  | halt exitCode stack regs => exact Kernel.Same.halt h exitCode stack regs
  | read fd buf nbytes => exact (Kernel.Same.read h fd buf nbytes).kernel?
  | write fd buf nbytes => exact (Kernel.Same.write h fd buf nbytes).kernel?
  | «open» filename => exact (Kernel.Same.open h filename).kernel?
  | close fd => exact (Kernel.Same.close h fd).kernel?
  | getargs => exact .some h
  | vidmap screenStart => exact .some (h.vidmap screenStart)

end LinuxLikeOs
