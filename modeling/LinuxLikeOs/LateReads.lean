import LinuxLikeOs.VirtualRtc

/-!
# Late reads of the RTC

`rtc_counter` is a signed word that `rtc_handler` increments and nothing bounds, so that it becomes
negative if a process waits long enough before it reads.

- `RtcRun.late_read_iff`: after how many interrupts a read returns at once
- `RtcRun.exec_interrupts`: a run of interrupts of any length
-/

namespace LinuxLikeOs

open Library

/-- The target is reached by the counter, modulo its range, as long as that is not negative. -/
theorem le_toInt32_iff {target : Int} (htarget : 0 < target) (n : Nat) :
    target ≤ Kernel.toInt32 n ↔ target ≤ (n % 2 ^ 32 : Nat) ∧ n % 2 ^ 32 < 2 ^ 31 := by
  unfold Kernel.toInt32
  omega

namespace RtcRun

/-- **A read** returns at once exactly if the interrupts since the last one, modulo the range of the
    counter, make up a tick and do not reach its sign bit. -/
theorem late_read_iff {p : Nat} (hp : p < maxProcessNum) {s : RtcRun} (hs : s.Reached p)
    (hruns : s.Runs p) {fd : Int} {buf : Option Buffer}
    (hrtc : s.kernel.calledTable fd buf.isNone = some .rtc) (nbytes : Int) :
    (s.kernel.read fd buf nbytes).value? = some 0 ↔
      Kernel.maxFreq / (RtcView.ofLog s.log).freq ≤
          ((RtcView.ofLog s.log).ticks % 2 ^ 32 : Nat) ∧
        (RtcView.ofLog s.log).ticks % 2 ^ 32 < 2 ^ 31 := by
  have hok := hs.ok hp
  obtain ⟨rfl, hlive⟩ := hruns
  obtain ⟨⟨-, -, hin⟩, huse, hptr⟩ := Kernel.calledTable_eq_some hrtc
  have hopen : (RtcView.ofLog s.log).opened = true :=
    (hok.table hlive).held.mpr ⟨_, hin, huse, hptr⟩
  have hagrees := hok.agrees
  rw [RtcView.Agrees, if_pos hopen] at hagrees
  -- what the counter holds decides, and the log says what it holds
  rw [hok.read_value ⟨rfl, hlive⟩ hrtc nbytes, readValue,
    ← le_toInt32_iff (RtcView.maxFreq_div_pos hagrees.1)]
  split_ifs with hwaits
  · exact iff_of_false (by simp) (Int.not_le.mpr hwaits)
  · exact iff_of_true rfl (Int.not_lt.mp hwaits)

/-- A read that reaches the RTC returns a value or waits. -/
theorem read_eq_blocked {k : Kernel} {fd : Int} {buf : Option Buffer} {nbytes : Int}
    (hrtc : k.calledTable fd buf.isNone = some .rtc) (h : (k.read fd buf nbytes).value? = none) :
    k.read fd buf nbytes = .blocked := by
  rw [read_eq hrtc] at h ⊢
  split_ifs at h ⊢ with hwaits
  · rfl
  · cases h

/-! ## Waiting for any time -/

/-- Other kernel states with the same descriptors give the same tables. -/
theorem calledTable_of_files {k k' : Kernel} (hfiles : k'.files = k.files) {fd : Int}
    {noBuffer : Bool} {ops : FileOperation} (h : k.calledTable fd noBuffer = some ops) :
    k'.calledTable fd noBuffer = some ops := by
  obtain ⟨⟨hpass, hbuffer, hin⟩, huse, hptr⟩ := Kernel.calledTable_eq_some h
  have hslot : k'.currPcb.slot fd.toNat = k'.files.table fd.toNat := Kernel.slot_eq k' hin
  have hguard : ¬ (¬ Kernel.fdPasses fd ∨ noBuffer = true ∨
      (k'.currPcb.slot fd.toNat).flags = notUse) := by
    rw [hslot, hfiles, hbuffer]
    exact fun hrefused => hrefused.elim (fun h => h hpass) fun h => h.elim Bool.noConfusion huse
  rw [Kernel.calledTable, if_neg hguard, hslot, hfiles, hptr]
  rfl

/-- One interrupt, seen by a process. -/
theorem step_interrupt {p : Nat} {s : RtcRun} (hlive : s.kernel.processArray p ≠ 0) :
    rtcStep p s .rtcInterrupt = some ⟨s.kernel.rtcHandler, s.log ++ [.interrupt]⟩ := by
  have hgoes : ¬ (s.kernel.processArray p = 0 ∨
      KernelEvent.rtcInterrupt.IsHalt ∧ p = s.kernel.currPid) :=
    not_or.mpr ⟨hlive, fun hhalt => hhalt.1⟩
  have hstep : startupStep s.kernel .rtcInterrupt = some s.kernel.rtcHandler :=
    if_neg fun hcall => hcall.1
  rw [rtcStep, hstep, Option.map_some, if_neg hgoes]
  rfl

/-- Interrupts change no descriptor, and the log counts them. -/
theorem exec_interrupts {p : Nat} (n : Nat) {s : RtcRun} (hlive : s.kernel.processArray p ≠ 0) :
    ∃ s', exec (rtcStep p) s (List.replicate n .rtcInterrupt) = some s' ∧
      s'.kernel.files = s.kernel.files ∧ s'.log = s.log ++ List.replicate n .interrupt := by
  induction n generalizing s with
  | zero => exact ⟨s, rfl, rfl, (List.append_nil _).symm⟩
  | succ n ih =>
    have hfiles := s.kernel.files_rtcHandler
    have hlive' : s.kernel.rtcHandler.processArray p ≠ 0 := hlive
    obtain ⟨s', hrun, hsame, hlog⟩ := ih (s := ⟨s.kernel.rtcHandler, s.log ++ [.interrupt]⟩) hlive'
    refine ⟨s', ?_, hsame.trans hfiles, ?_⟩
    · rw [List.replicate_succ, exec_cons_of_step (step_interrupt hlive), hrun]
    · rw [hlog, List.replicate_succ, List.append_assoc, List.singleton_append]

/-- The interrupts at the end of a log. -/
theorem ofLog_interrupts (log : List RtcEvent) (n : Nat) :
    RtcView.ofLog (log ++ List.replicate n .interrupt) =
      { RtcView.ofLog log with ticks := (RtcView.ofLog log).ticks + n } := by
  induction n with
  | zero =>
    rw [List.replicate_zero, List.append_nil]
    rfl
  | succ n ih =>
    have hlast := RtcView.ofLog_append (log ++ List.replicate n .interrupt) (some .interrupt)
    rw [Option.toList_some, List.append_assoc, ← List.replicate_succ'] at hlast
    rw [hlast, ih]
    rfl

end RtcRun

/-- The first shell opens the RTC. -/
def openSession : List KernelEvent := [.tick (fun _ => 0) ⟨0, 0⟩, .open (some rtcName)]

/-- Then it waits for `n` interrupts. -/
theorem waits_reached (n : Nat) :
    ∃ s : RtcRun, s.Reached 0 ∧ s.Runs 0 ∧ s.kernel.calledTable 2 false = some .rtc ∧
      RtcView.ofLog s.log = ⟨true, 2, n⟩ := by
  -- a session that has opened the RTC and not read it yet
  have hopened : ((exec (rtcStep 0) ⟨Kernel.powerOn rtcImage, []⟩ openSession).map fun s =>
      (s.log, s.kernel.currPid, s.kernel.processArray 0, s.kernel.calledTable 2 false)) =
        some ([.open], 0, 1, some .rtc) := by decide +kernel
  obtain ⟨s, hrun, hvalues⟩ := Option.map_eq_some_iff.mp hopened
  obtain ⟨hlog, hcurr, hlive, hrtc⟩ : _ ∧ _ ∧ _ ∧ _ := by simpa only [Prod.mk.injEq] using hvalues
  have hlive' : s.kernel.processArray 0 ≠ 0 := by
    rw [hlive]
    decide
  -- then `n` interrupts, none of which opens another descriptor
  obtain ⟨s', hwaits, hfiles, hlog'⟩ := RtcRun.exec_interrupts (p := 0) n hlive'
  have hone : EachStep (rtcStep 0) (OneRtc 0) s (List.replicate n .rtcInterrupt) :=
    eachStep_of_invariant (I := fun _ => True) (C := fun _ e => e = .rtcInterrupt)
      (fun _ _ _ _ _ _ => trivial) (fun _ _ _ _ he _ => he ▸ trivial) trivial
      (eachStep_of_forall fun _ he => List.eq_of_mem_replicate he)
  have hopens : EachStep (rtcStep 0) (OneRtc 0) ⟨Kernel.powerOn rtcImage, []⟩ openSession := by
    decide +kernel
  refine ⟨s', ⟨rtcImage, openSession ++ List.replicate n .rtcInterrupt, hopens.append hrun hone,
    (exec_append hrun _).trans hwaits⟩, ⟨?_, ?_⟩, RtcRun.calledTable_of_files hfiles hrtc, ?_⟩
  · exact hcurr.symm.trans (congrArg FileState.currPid hfiles).symm
  · exact (congrFun (congrArg FileState.processArray hfiles) 0).trans_ne hlive'
  · rw [hlog', RtcRun.ofLog_interrupts, hlog]
    simp only [RtcView.ofLog, List.foldl_cons, List.foldl_nil, RtcView.apply, Nat.zero_add,
      Kernel.defaultFreq]

theorem late_read_iff_waits :
    ∃ s : RtcRun, RtcView.ofLog s.log = ⟨true, 2, 600⟩ ∧
      ((s.kernel.read 2 (some fun _ => 0) 4).value? = some 0 ↔
        Kernel.maxFreq / (RtcView.ofLog s.log).freq ≤
            ((RtcView.ofLog s.log).ticks % 2 ^ 32 : Nat) ∧
          (RtcView.ofLog s.log).ticks % 2 ^ 32 < 2 ^ 31) := by
  obtain ⟨s, hs, hruns, hrtc, hview⟩ := waits_reached 600
  exact ⟨s, hview, RtcRun.late_read_iff (by decide) hs hruns hrtc 4⟩

/-- After 2^31 interrupts, far more than the 512 of a tick, the counter is negative and the read
    waits. -/
theorem late_read_waits :
    ∃ s : RtcRun, s.Reached 0 ∧ s.Runs 0 ∧ s.kernel.calledTable 2 false = some .rtc ∧
      RtcView.ofLog s.log = ⟨true, 2, 2 ^ 31⟩ ∧
      s.kernel.read 2 (some fun _ => 0) 4 = .blocked := by
  obtain ⟨s, hs, hruns, hrtc, hview⟩ := waits_reached (2 ^ 31)
  refine ⟨s, hs, hruns, hrtc, hview, ?_⟩
  have hwaits : s.readValue = none := by
    rw [RtcRun.readValue, hview]
    exact if_pos (by decide)
  have hvalue := (hs.ok (by decide)).read_value hruns
    (show s.kernel.calledTable 2 (some fun _ => 0 : Option Buffer).isNone = some .rtc from hrtc) 4
  exact RtcRun.read_eq_blocked hrtc (hvalue.trans hwaits)

end LinuxLikeOs
