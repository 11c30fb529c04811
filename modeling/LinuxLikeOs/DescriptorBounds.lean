import LinuxLikeOs.ProcessRuns

/-!
# Descriptor bounds

`read`, `write` and `close` compare the descriptor with `Maximum_open_files`, the size of the
table: one number too many passes.

- `Kernel.checkedIndex`: the index of `fd_array` that a call looks at
- `descriptor_bounds_iff`: the calls stay in the table exactly for the other numbers
- `refusesOutside_iff`: what lies behind the table decides whether they refuse that one
-/

namespace LinuxLikeOs

open Library

namespace Kernel

/-! ## The index that a call looks at -/

/-- The index of `fd_array` that the guard of `read`, `write` and `close` reads the flags of;
    `none` when a condition before it holds already.  `close` has no buffer to check. -/
def checkedIndex (fd : Int) (noBuffer : Bool) : Option Nat :=
  if ¬ fdPasses fd ∨ noBuffer = true then none else some fd.toNat

/-- The rest of a call: refuse an index that is not in use, call through the others. -/
def dispatch (k : Kernel) (buf : Option Buffer) (entry : Nat → FileOperation → SysResult) :
    Option Nat → SysResult
  | none => .ret (-1) buf k
  | some i =>
    if (k.currPcb.slot i).flags = notUse then .ret (-1) buf k
    else (k.currPcb.slot i).funcPointer.call (entry i)

/-- The guard, split at the flags. -/
private theorem guard_eq (k : Kernel) (fd : Int) (noBuffer : Bool) (buf : Option Buffer)
    (entry : Nat → FileOperation → SysResult) :
    (if ¬ fdPasses fd ∨ noBuffer = true ∨ (k.currPcb.slot fd.toNat).flags = notUse then
      SysResult.ret (-1) buf k
    else (k.currPcb.slot fd.toNat).funcPointer.call (entry fd.toNat)) =
      k.dispatch buf entry (checkedIndex fd noBuffer) := by
  unfold checkedIndex
  -- what is tested before the table is looked at, and the flags behind it
  by_cases hfirst : ¬ fdPasses fd ∨ noBuffer = true
  · rw [if_pos hfirst, if_pos (hfirst.elim .inl fun h => .inr (.inl h))]
    rfl
  · rw [if_neg hfirst]
    have hor : (¬ fdPasses fd ∨ noBuffer = true ∨ (k.currPcb.slot fd.toNat).flags = notUse) ↔
        (k.currPcb.slot fd.toNat).flags = notUse := by
      rw [← or_assoc]
      exact or_iff_right hfirst
    simp only [hor, dispatch]

/-- `read` looks at one index and calls through it. -/
theorem read_eq (k : Kernel) (fd : Int) (buf : Option Buffer) (nbytes : Int) :
    k.read fd buf nbytes =
      k.dispatch buf (fun i ops => ops.read k i buf nbytes) (checkedIndex fd buf.isNone) :=
  k.guard_eq fd buf.isNone buf fun i ops => ops.read k i buf nbytes

theorem write_eq (k : Kernel) (fd : Int) (buf : Option Buffer) (nbytes : Int) :
    k.write fd buf nbytes =
      k.dispatch buf (fun _ ops => ops.write k buf nbytes) (checkedIndex fd buf.isNone) :=
  k.guard_eq fd buf.isNone buf fun _ ops => ops.write k buf nbytes

/-- What `close` does through a table. -/
def closeEntry (k : Kernel) (i : Nat) (ops : FileOperation) : SysResult :=
  let (value, k) := ops.close k i
  if value = 0 then .ret 0 none (k.modifyFd k.currPid i fun _ => freeDescriptor)
  else .ret (-1) none k

theorem close_eq (k : Kernel) (fd : Int) :
    k.close fd = k.dispatch none k.closeEntry (checkedIndex fd false) := by
  have hguard := k.guard_eq fd false none k.closeEntry
  simp only [Bool.false_eq_true, false_or] at hguard
  exact hguard

/-! ## The numbers outside the table -/

/-- Outside the table the calls return -1, change nothing and call through no pointer. -/
def RefusesOutside (k : Kernel) (fd : Int) (buf : Option Buffer) (nbytes : Int) : Prop :=
  ¬ (0 ≤ fd ∧ fd < maximumOpenFiles) →
    k.read fd buf nbytes = .ret (-1) buf k ∧ k.write fd buf nbytes = .ret (-1) buf k ∧
      k.close fd = .ret (-1) none k

/-- Every index that the calls look at is in the table. -/
def IndexInTable (fd : Int) (buf : Option Buffer) : Prop :=
  ∀ i, checkedIndex fd buf.isNone = some i ∨ checkedIndex fd false = some i →
    i < maximumOpenFiles

/-- A number outside the table passes the comparisons only if it is its size. -/
theorem fdPasses_outside_iff {fd : Int} (h : ¬ (0 ≤ fd ∧ fd < maximumOpenFiles)) :
    fdPasses fd ↔ fd = maximumOpenFiles := by
  simp only [fdPasses, minimumOpenFiles, maximumOpenFiles] at *
  omega

/-- A number that does not pass is refused. -/
private theorem checkedIndex_eq_none {fd : Int} (h : ¬ fdPasses fd) (noBuffer : Bool) :
    checkedIndex fd noBuffer = none := if_pos (.inl h)

/-- **The refusals**: outside the table the three calls refuse every number but its size, and
    that one exactly if the word behind the table that they take for its flags is 0. -/
theorem refusesOutside_iff (k : Kernel) (fd : Int) (buf : Option Buffer) (nbytes : Int) :
    k.RefusesOutside fd buf nbytes ↔
      fd ≠ maximumOpenFiles ∨ (k.currPcb.slot maximumOpenFiles).flags = notUse := by
  by_cases hfd : fd = maximumOpenFiles
  · subst hfd
    have hindex : checkedIndex (maximumOpenFiles : Int) false = some maximumOpenFiles := rfl
    have hread : ∀ b : Bool, checkedIndex (maximumOpenFiles : Int) b = none ∨
        checkedIndex (maximumOpenFiles : Int) b = some maximumOpenFiles := by decide
    have houtside : ¬ (0 ≤ (maximumOpenFiles : Int) ∧
        (maximumOpenFiles : Int) < maximumOpenFiles) := by decide
    constructor
    · intro hrefuses
      have hclose := (hrefuses houtside).2.2
      rw [close_eq, hindex] at hclose
      by_contra hflags
      rw [dispatch, if_neg fun h => hflags (.inr h)] at hclose
      -- in use, so `close` calls through the pointer behind the table
      rw [Pcb.call_slot_outside _ (Nat.lt_irrefl _)] at hclose
      cases hclose
    · rintro (hne | hflags) -
      · exact absurd rfl hne
      · have hrefuse : ∀ buf entry, ∀ i, i = none ∨ i = some maximumOpenFiles →
            k.dispatch buf entry i = .ret (-1) buf k := by
          rintro buf entry i (rfl | rfl)
          · rfl
          · exact if_pos hflags
        rw [read_eq, write_eq, close_eq]
        exact ⟨hrefuse _ _ _ (hread _), hrefuse _ _ _ (hread _), hrefuse _ _ _ (hread _)⟩
  · refine iff_of_true (fun houtside => ?_) (.inl hfd)
    have hnot : ¬ fdPasses fd := fun h => hfd ((fdPasses_outside_iff houtside).mp h)
    rw [read_eq, write_eq, close_eq, checkedIndex_eq_none hnot, checkedIndex_eq_none hnot]
    exact ⟨rfl, rfl, rfl⟩

/-- **The bounds** hold for every number but the size of the table. -/
theorem descriptor_bounds_iff (k : Kernel) (fd : Int) (buf : Option Buffer) (nbytes : Int) :
    k.RefusesOutside fd buf nbytes ∧ IndexInTable fd buf ↔ fd ≠ maximumOpenFiles := by
  constructor
  · rintro ⟨-, hindex⟩ rfl
    exact absurd (hindex maximumOpenFiles (.inr rfl)) (Nat.lt_irrefl _)
  · intro hfd
    refine ⟨(k.refusesOutside_iff fd buf nbytes).mpr (.inl hfd), fun i hi => ?_⟩
    -- the test lets 0 to 8 pass, and the table has entries 0 to 7
    have hchecked : ∀ b, checkedIndex fd b = some i → i < maximumOpenFiles := by
      intro b hb
      unfold checkedIndex at hb
      split_ifs at hb with hfirst
      have hpass : fdPasses fd := by
        by_contra hnot
        exact hfirst (.inl hnot)
      obtain rfl := Option.some.inj hb
      simp only [fdPasses, minimumOpenFiles, maximumOpenFiles] at *
      omega
    exact hi.elim (hchecked _) (hchecked _)

/-- The command line `shell frame0.txt`. -/
def shellFrame0 : CString :=
  ⟨[115, 104, 101, 108, 108, 32, 102, 114, 97, 109, 101, 48, 46, 116, 120, 116], by decide⟩

/-- A program that a shell has started with the argument `frame0.txt`. -/
def shellWithArgument : Kernel :=
  (bootedKernel.execute (some shellFrame0) (fun _ => 0) ⟨0x7fbf00, 0x7fbf10⟩).2

/-- It reads from descriptor 8: the letters `e0.t` of its argument stand for the flags and the
    stack register that `execute` saved for the table. -/
theorem read_eight_calls_saved_esp :
    exec kernelStep bootedKernel
        [.execute (some shellFrame0) (fun _ => 0) ⟨0x7fbf00, 0x7fbf10⟩] =
      some shellWithArgument ∧
      (shellWithArgument.currPcb.slot 8).funcPointer = .address 0x7fbf00 ∧
      shellWithArgument.read 8 (some fun _ => 0) 4 = .wild ∧
      ¬ (shellWithArgument.RefusesOutside 8 (some fun _ => 0) 4 ∧
        IndexInTable 8 (some fun _ => 0)) := by
  -- entry 8 is the word of the PCB behind the table, where `execute` saves the stack pointer
  have hptr : (shellWithArgument.currPcb.slot 8).funcPointer = .address 0x7fbf00 := by
    decide +kernel
  have hflags : ¬ (shellWithArgument.currPcb.slot 8).flags = notUse := by decide +kernel
  have hindex : checkedIndex 8 (Option.isNone (some fun _ => 0 : Option Buffer)) = some 8 := by
    decide
  have hwild : shellWithArgument.read 8 (some fun _ => 0) 4 = .wild := by
    rw [read_eq, hindex, dispatch, if_neg hflags]
    exact Pcb.call_slot_outside _ (by decide) _
  refine ⟨rfl, hptr, hwild, fun hbounds => ?_⟩
  have hrefused := (hbounds.1 (by decide)).1
  rw [hwild] at hrefused
  cases hrefused

end Kernel

end LinuxLikeOs
