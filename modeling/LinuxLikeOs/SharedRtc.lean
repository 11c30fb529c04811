import LinuxLikeOs.VirtualRtc

/-!
# Several descriptors of the RTC

The rate and the counter stand in the PCB, so that all RTC descriptors of a process are the one
virtual RTC of the process.

- `SharedRtc`: what a process with any number of RTC descriptors knows of its RTC
- `RtcRun.SharedLaws`: what an operation through one of them does to the others
- `shared_rtc_of_run`: the laws hold in every run
-/

namespace LinuxLikeOs

open Library

/-! ## What sets the rate -/

/-- The calls that set the rate of the process. -/
def RtcEvent.SetsRate : RtcEvent → Prop
  | .open | .close => True
  | .write freq nbytes => RtcView.Accepts freq nbytes
  | .interrupt | .read => False

theorem RtcFields.observe_rtcfreq {f : RtcFields} {x : Option RtcEvent}
    (h : ∀ y, x = some y → ¬ y.SetsRate) : (f.observe x).rtcfreq = f.rtcfreq := by
  cases x with
  | none => rfl
  | some x =>
    cases x with
    | interrupt | read => rfl
    | «open» | close => exact absurd trivial (h _ rfl)
    | write freq nbytes => exact congrArg RtcFields.rtcfreq (if_neg (h _ rfl))

/-! ## What a process knows of its RTC -/

/-- The frequency last set, by an open or an accepted write, through any descriptor of the RTC since
    one was last closed; and the interrupts since then or since the last read, whichever is
    later.  A second open goes on counting. -/
structure SharedRtc where
  freq : Option Int
  ticks : Nat

namespace SharedRtc

/-- Before the RTC is opened, and when one of its descriptors has been closed. -/
def unset : SharedRtc := ⟨none, 0⟩

/-- A frequency is set. -/
def set (v : SharedRtc) (freq : Int) : SharedRtc :=
  ⟨some freq, if v.freq = none then 0 else v.ticks⟩

/-- What an event tells, through whatever descriptor. -/
def apply (v : SharedRtc) : RtcEvent → SharedRtc
  | .interrupt => { v with ticks := v.ticks + 1 }
  | .open => v.set Kernel.defaultFreq
  | .read => { v with ticks := 0 }
  | .write freq nbytes => if RtcView.Accepts freq nbytes then v.set freq else v
  | .close => unset

/-- What a log tells. -/
def ofLog (log : List RtcEvent) : SharedRtc := log.foldl apply unset

/-- What an event tells that may be none of the process. -/
def observe (v : SharedRtc) : Option RtcEvent → SharedRtc
  | some x => v.apply x
  | none => v

theorem ofLog_append (log : List RtcEvent) (x : Option RtcEvent) :
    ofLog (log ++ x.toList) = (ofLog log).observe x := by
  cases x with
  | none => rw [Option.toList_none, List.append_nil, observe]
  | some x => exact List.foldl_append

/-- The fields of the PCB that go with it. -/
def Agrees (v : SharedRtc) (f : RtcFields) : Prop :=
  match v.freq with
  | none => f = ⟨0, 0⟩
  | some freq => (∃ i < 10, freq = 2 ^ (i + 1)) ∧ f.rtcfreq = Kernel.maxFreq / freq ∧
      f.rtcCounter = Kernel.toInt32 v.ticks

variable {v : SharedRtc} {f : RtcFields}

theorem agrees_unset : unset.Agrees ⟨0, 0⟩ := rfl

/-- Without one, nothing is counted. -/
theorem agrees_of_none (hfreq : v.freq = none) : v.Agrees f ↔ f = ⟨0, 0⟩ := by
  rw [Agrees, hfreq]

/-- With a frequency, the counter holds the interrupts as an `int32_t`. -/
theorem agrees_of_freq {freq : Int} (hfreq : v.freq = some freq) :
    v.Agrees f ↔ (∃ i < 10, freq = 2 ^ (i + 1)) ∧ f.rtcfreq = Kernel.maxFreq / freq ∧
      f.rtcCounter = Kernel.toInt32 v.ticks := by
  rw [Agrees, hfreq]

/-- Setting a rate leaves the counter. -/
theorem Agrees.set (h : v.Agrees f) {freq : Int} (hfreq : ∃ i < 10, freq = 2 ^ (i + 1)) :
    (v.set freq).Agrees { f with rtcfreq := Kernel.maxFreq / freq } := by
  refine (agrees_of_freq rfl).mpr ⟨hfreq, rfl, ?_⟩
  cases hold : v.freq with
  | none =>
    -- the counter stands at 0 as long as there is no rate
    rw [agrees_of_none hold] at h
    subst h
    simp only [SharedRtc.set, hold, if_true]
    exact RtcView.toInt32_zero.symm
  | some old =>
    -- the next tick of the new rate has begun at the old one
    simp only [SharedRtc.set, hold, if_neg (Option.some_ne_none old)]
    exact ((agrees_of_freq hold).mp h).2.2

/-- The interrupt handler counts if there is a rate. -/
theorem Agrees.interrupt (h : v.Agrees f) : (v.apply .interrupt).Agrees (f.apply .interrupt) := by
  cases hfreq : v.freq with
  | none =>
    rw [agrees_of_none hfreq] at h
    subst h
    exact (agrees_of_none (v := v.apply .interrupt) hfreq).mpr rfl
  | some freq =>
    obtain ⟨hvalid, hrate, hcounter⟩ := (agrees_of_freq hfreq).mp h
    have hpos : f.rtcfreq ≠ 0 := hrate ▸ Int.ne_of_gt (RtcView.maxFreq_div_pos hvalid)
    have hcounter' : (f.apply .interrupt).rtcCounter = Kernel.toInt32 (f.rtcCounter + 1) :=
      if_pos hpos
    refine (agrees_of_freq (v := v.apply .interrupt) hfreq).mpr ⟨hvalid, hrate, ?_⟩
    rw [hcounter', hcounter]
    exact RtcView.toInt32_succ v.ticks

/-- A read leaves the rate. -/
theorem Agrees.read (h : v.Agrees f) : (v.apply .read).Agrees (f.apply .read) := by
  cases hfreq : v.freq with
  | none =>
    rw [agrees_of_none hfreq] at h
    subst h
    exact (agrees_of_none (v := v.apply .read) hfreq).mpr rfl
  | some freq =>
    obtain ⟨hvalid, hrate, -⟩ := (agrees_of_freq hfreq).mp h
    exact (agrees_of_freq (v := v.apply .read) hfreq).mpr
      ⟨hvalid, hrate, RtcView.toInt32_zero.symm⟩

/-- An event through any descriptor keeps the fields in step. -/
theorem Agrees.observe (h : v.Agrees f) (x : Option RtcEvent) :
    (v.observe x).Agrees (f.observe x) := by
  cases x with
  | none => exact h
  | some x =>
    cases x with
    | interrupt => exact h.interrupt
    | «open» => exact h.set ⟨0, by decide, rfl⟩
    | read => exact h.read
    | write freq nbytes =>
      -- an accepted write sets the rate for all descriptors of the process
      simp only [SharedRtc.observe, SharedRtc.apply, RtcFields.observe, RtcFields.apply]
      by_cases haccepts : RtcView.Accepts freq nbytes
      · rw [if_pos haccepts, if_pos haccepts]
        exact h.set haccepts.2
      · rw [if_neg haccepts, if_neg haccepts]
        exact h
    | close => exact agrees_unset

end SharedRtc

/-! ## The kernel with the log of a process -/

namespace RtcRun

/-- The PCB of process `p` is what its log tells, whatever descriptors it holds. -/
structure SharedOk (p : Nat) (s : RtcRun) : Prop where
  free : s.kernel.processArray p = 0 → s.log = []
  agrees : (SharedRtc.ofLog s.log).Agrees (s.kernel.devices.rtc p)

/-- **Every event keeps the PCB in step with the log.** -/
theorem SharedOk.step {p : Nat} (hp : p < maxProcessNum) {s s' : RtcRun} (h : s.SharedOk p)
    {e : KernelEvent} (hstep : rtcStep p s e = some s') : s'.SharedOk p := by
  have hidle : s.kernel.processArray p = 0 → s.kernel.devices.rtc p = ⟨0, 0⟩ := by
    intro hfree
    have hunset := h.agrees
    rw [h.free hfree] at hunset
    exact hunset
  obtain ⟨-, ⟨-, hlog, hfields⟩ | ⟨-, hlive', hlog, hfields⟩⟩ := rtcStep_cases hp hidle hstep
  · -- a new log: the process number is free, or the process ends
    refine ⟨fun _ => hlog, ?_⟩
    rw [hlog, hfields]
    exact SharedRtc.agrees_unset
  · refine ⟨fun hfree => absurd hfree hlive', ?_⟩
    rw [hlog, hfields, SharedRtc.ofLog_append]
    exact h.agrees.observe _

/-- A state that a run from power-on leads to, whatever process `p` opens. -/
def SharedReached (p : Nat) (s : RtcRun) : Prop :=
  ∃ img es, exec (rtcStep p) ⟨Kernel.powerOn img, []⟩ es = some s

theorem SharedReached.ok {p : Nat} (hp : p < maxProcessNum) {s : RtcRun}
    (h : s.SharedReached p) : s.SharedOk p := by
  obtain ⟨img, es, hrun⟩ := h
  have hstart : SharedOk p ⟨Kernel.powerOn img, []⟩ := ⟨fun _ => rfl, SharedRtc.agrees_unset⟩
  exact exec_invariant (fun _ _ _ h hstep => h.step hp hstep) hstart hrun

/-! ## The laws -/

/-- The frequency that was last set through any descriptor of the RTC of process `p`, if none has
    been closed since, is the one of them all: a read through any of them returns only after the
    interrupts of one tick, and only an open, an accepted write or a close changes the rate. -/
structure SharedLaws (p : Nat) (s : RtcRun) : Prop where
  rate : ∀ freq, (SharedRtc.ofLog s.log).freq = some freq →
    (s.kernel.pcbArray p).rtcfreq = Kernel.maxFreq / freq
  notEarly : ∀ freq fd buf nbytes value out k', (SharedRtc.ofLog s.log).freq = some freq →
    s.kernel.calledTable fd buf.isNone = some .rtc →
      s.kernel.read fd buf nbytes = .ret value out k' →
        Kernel.maxFreq / freq ≤ (SharedRtc.ofLog s.log).ticks
  keepsRate : ∀ e k', kernelStep s.kernel e = some k' → ¬ e.IsHalt →
    (∀ x, s.kernel.rtcEvent p e = some x → ¬ x.SetsRate) →
      (k'.pcbArray p).rtcfreq = (s.kernel.pcbArray p).rtcfreq

/-- A read that returns has found the counter at the rate. -/
theorem rate_le_of_read {k k' : Kernel} {fd : Int} {buf out : Option Buffer} {nbytes value : Int}
    (hrtc : k.calledTable fd buf.isNone = some .rtc)
    (hread : k.read fd buf nbytes = .ret value out k') :
    k.currPcb.rtcfreq ≤ k.currPcb.rtcCounter := by
  by_contra hwaits
  rw [read_eq hrtc, if_pos (Int.not_le.mp hwaits)] at hread
  cases hread

theorem SharedOk.laws {p : Nat} (hp : p < maxProcessNum) {s : RtcRun} (h : s.SharedOk p)
    (hruns : s.Runs p) : s.SharedLaws p := by
  constructor
  case rate => exact fun freq hfreq => ((SharedRtc.agrees_of_freq hfreq).mp h.agrees).2.1
  case notEarly =>
    intro freq fd buf nbytes value out k' hfreq hrtc hread
    obtain ⟨-, hrate, hcounter⟩ := (SharedRtc.agrees_of_freq hfreq).mp h.agrees
    obtain ⟨rfl, -⟩ := hruns
    have hreached := rate_le_of_read hrtc hread
    -- the counter may have wrapped around, but is never ahead of the interrupts
    calc Kernel.maxFreq / freq = s.kernel.currPcb.rtcfreq := hrate.symm
      _ ≤ s.kernel.currPcb.rtcCounter := hreached
      _ = Kernel.toInt32 (SharedRtc.ofLog s.log).ticks := hcounter
      _ ≤ (SharedRtc.ofLog s.log).ticks := RtcView.toInt32_le _
  case keepsRate =>
    intro e k' hstep hgoes hkeeps
    have hfields : k'.devices.rtc p = (s.kernel.devices.rtc p).observe (s.kernel.rtcEvent p e) := by
      rw [kernelStep_devices hstep, rtc_apply hp hruns.2 fun _ => hgoes]
    exact (congrArg RtcFields.rtcfreq hfields).trans (RtcFields.observe_rtcfreq hkeeps)

end RtcRun

/-- **The RTC of a process with several descriptors**: in every state that a run from power-on leads
    to, the running process has one virtual RTC, which all its descriptors share. -/
theorem shared_rtc_of_run {p : Nat} (hp : p < maxProcessNum) {s : RtcRun}
    (hs : s.SharedReached p) (hruns : s.Runs p) : s.SharedLaws p :=
  (hs.ok hp).laws hp hruns

/-- The first shell opens the RTC twice, sets it to 1024 Hz through the first descriptor, and reads
    through the second after one interrupt. -/
def twoDescriptors : List KernelEvent :=
  [.tick (fun _ => 0) ⟨0, 0⟩, .open (some rtcName), .open (some rtcName),
    .write 2 (some fun i => if i = 1 then 4 else 0) 4, .rtcInterrupt, .read 3 (some fun _ => 0) 4]

theorem shared_rtc_of_run_twoDescriptors :
    ∃ s, exec (rtcStep 0) ⟨Kernel.powerOn rtcImage, []⟩ twoDescriptors = some s ∧
      s.log = [.open, .open, .write 1024 4, .interrupt, .read] ∧ s.SharedLaws 0 := by
  have hlog : ((exec (rtcStep 0) ⟨Kernel.powerOn rtcImage, []⟩ twoDescriptors).map fun s =>
      (s.log, s.kernel.currPid, s.kernel.processArray 0)) =
        some ([.open, .open, .write 1024 4, .interrupt, .read], 0, 1) := by decide +kernel
  obtain ⟨s, hrun, hvalues⟩ := Option.map_eq_some_iff.mp hlog
  obtain ⟨hs, hcurr, hlive⟩ : _ ∧ _ ∧ _ := by simpa only [Prod.mk.injEq] using hvalues
  exact ⟨s, hrun, hs, shared_rtc_of_run (by decide) ⟨rtcImage, twoDescriptors, hrun⟩
    ⟨hcurr.symm, by rw [hlive]; decide⟩⟩

/-! ## An RTC for each descriptor -/

/-- An interrupt, or a call through descriptor `fd`. -/
def KernelEvent.Through (k : Kernel) (fd : Nat) : KernelEvent → Prop
  | .rtcInterrupt => True
  | .open _ => k.lowestFree = some fd
  | .read i .. | .write i .. | .close i => i = fd
  | .tick .. | .key _ | .switch _ | .execute .. | .halt .. | .getargs .. | .vidmap _ => False

instance (k : Kernel) (fd : Nat) : DecidablePred (KernelEvent.Through k fd)
  | .rtcInterrupt => isTrue trivial
  | .open _ => inferInstanceAs (Decidable (k.lowestFree = some fd))
  | .read i .. | .write i .. | .close i => inferInstanceAs (Decidable (i = fd))
  | .tick .. | .key _ | .switch _ | .execute .. | .halt .. | .getargs .. | .vidmap _ => isFalse id

/-- One event, with the log of what process `p` does through descriptor `fd`. -/
def descriptorStep (p fd : Nat) (s : RtcRun) (e : KernelEvent) : Option RtcRun :=
  (rtcStep p s e).map fun s' => if e.Through s.kernel fd then s' else { s' with log := s.log }

/-- What holds of a descriptor that no other one disturbs: the rate is the one set through it, and a
    read returns only after the interrupts of one tick since the last one through it. -/
structure RtcRun.Undisturbed (p fd : Nat) (s : RtcRun) : Prop where
  rate : (s.kernel.pcbArray p).rtcfreq = Kernel.maxFreq / (RtcView.ofLog s.log).freq
  notEarly : ∀ buf nbytes value out k', s.kernel.calledTable fd buf.isNone = some .rtc →
    s.kernel.read fd buf nbytes = .ret value out k' →
      Kernel.maxFreq / (RtcView.ofLog s.log).freq ≤ (RtcView.ofLog s.log).ticks

theorem RtcRun.not_undisturbed {p fd : Nat} {s : RtcRun} {buf : Buffer} {nbytes value : Int}
    (hrtc : s.kernel.calledTable fd false = some .rtc)
    (hread : (s.kernel.read fd (some buf) nbytes).value? = some value)
    (hearly : (RtcView.ofLog s.log).ticks < Kernel.maxFreq / (RtcView.ofLog s.log).freq) :
    ¬ s.Undisturbed p fd := by
  intro h
  obtain ⟨out, k', hret⟩ := SysResult.eq_ret_of_value? hread
  exact absurd (h.notEarly (some buf) _ _ _ _ hrtc hret) (Int.not_le.mpr hearly)

/-- A session that ends before a tick of descriptor 3, but not before a read through it returns. -/
theorem disturbed_of_session {es : List KernelEvent} {log : List RtcEvent} {rate : Int}
    (hvalues : ((exec (descriptorStep 0 3) ⟨Kernel.powerOn rtcImage, []⟩ es).map fun s =>
      (s.log, s.kernel.currPid, s.kernel.processArray 0, (s.kernel.pcbArray 0).rtcfreq)) =
        some (log, 0, 1, rate))
    (hread : ((exec (descriptorStep 0 3) ⟨Kernel.powerOn rtcImage, []⟩ es).map fun s =>
      (s.kernel.calledTable 3 false, (s.kernel.read 3 (some fun _ => 0) 4).value?)) =
        some (some .rtc, some 0))
    (hearly : (RtcView.ofLog log).ticks < Kernel.maxFreq / (RtcView.ofLog log).freq) :
    ∃ s, exec (descriptorStep 0 3) ⟨Kernel.powerOn rtcImage, []⟩ es = some s ∧ s.Runs 0 ∧
      s.log = log ∧ (s.kernel.pcbArray 0).rtcfreq = rate ∧ ¬ s.Undisturbed 0 3 := by
  -- the state at the end of the session, with the values computed above
  obtain ⟨s, hrun, hvalues⟩ := Option.map_eq_some_iff.mp hvalues
  obtain ⟨hlog, hcurr, hlive, hrate⟩ : _ ∧ _ ∧ _ ∧ _ := by
    simpa only [Prod.mk.injEq] using hvalues
  rw [hrun, Option.map_some] at hread
  obtain ⟨hrtc, hvalue⟩ := Prod.mk.inj (Option.some.inj hread)
  refine ⟨s, hrun, ⟨hcurr.symm, by rw [hlive]; decide⟩, hlog, hrate, ?_⟩
  exact RtcRun.not_undisturbed hrtc hvalue (by rw [hlog]; exact hearly)

/-- The first shell opens the RTC twice and asks for 2 Hz through the second descriptor. -/
def twoHertz : List KernelEvent :=
  [.tick (fun _ => 0) ⟨0, 0⟩, .open (some rtcName), .open (some rtcName),
    .write 3 (some fun i => if i = 0 then 2 else 0) 4]

/-- After a write of 1024 Hz through the first descriptor a read through the second, which was set
    to 2 Hz, returns after one interrupt; after a close of the first one it returns at once. -/
theorem descriptors_disturb :
    (∃ s, exec (descriptorStep 0 3) ⟨Kernel.powerOn rtcImage, []⟩ (twoHertz ++
        [.write 2 (some fun i => if i = 1 then 4 else 0) 4, .rtcInterrupt]) = some s ∧
      s.Runs 0 ∧ s.log = [.open, .write 2 4, .interrupt] ∧
      (s.kernel.pcbArray 0).rtcfreq = 1 ∧ ¬ s.Undisturbed 0 3) ∧
    ∃ s, exec (descriptorStep 0 3) ⟨Kernel.powerOn rtcImage, []⟩ (twoHertz ++ [.close 2]) = some s ∧
      s.Runs 0 ∧ s.log = [.open, .write 2 4] ∧
      (s.kernel.pcbArray 0).rtcfreq = 0 ∧ ¬ s.Undisturbed 0 3 := by
  constructor
  · exact disturbed_of_session (by decide +kernel) (by decide +kernel) (by decide)
  · exact disturbed_of_session (by decide +kernel) (by decide +kernel) (by decide)

end LinuxLikeOs
