import LinuxLikeOs.DescriptorCalls
import LinuxLikeOs.Devices
import LinuxLikeOs.Startup

/-!
# The virtual RTC

Every process counts the RTC interrupts that its next read waits for in its PCB.

- `RtcView`: what a process knows of its RTC from its own calls and the interrupts
- `rtcStep`: one event of the kernel from power-on, with the log of one process
- `RtcRun.Ok`: the PCB agrees with the view, in every state
- `virtual_rtc_of_run`: no read returns early, `rtc_write` accepts the ten frequencies, and the
  outcomes are a function of the log
-/

namespace LinuxLikeOs

open Library

/-! ## What a process knows of its RTC -/

/-- An RTC interrupt, or a call of the process that reaches the RTC.  A read is recorded when it
    returns. -/
inductive RtcEvent where
  | interrupt
  | «open»
  | read
  | write (freq nbytes : Int)
  | close
  deriving DecidableEq

/-- Whether the RTC is open, the last frequency that `rtc_write` has accepted since then, and the
    interrupts since the open or the last read, whichever is later. -/
structure RtcView where
  opened : Bool
  freq : Int
  ticks : Nat

namespace RtcView

/-- Before the RTC is opened. -/
def closed : RtcView := ⟨false, Kernel.defaultFreq, 0⟩

/-- Four bytes with a power of two from 2 to 1024. -/
def Accepts (freq nbytes : Int) : Prop := nbytes = 4 ∧ ∃ i < 10, freq = 2 ^ (i + 1)

instance (freq nbytes : Int) : Decidable (Accepts freq nbytes) :=
  inferInstanceAs (Decidable (nbytes = 4 ∧ ∃ i < 10, freq = 2 ^ (i + 1)))

/-- What an event tells. -/
def apply (v : RtcView) : RtcEvent → RtcView
  | .interrupt => { v with ticks := v.ticks + 1 }
  | .open => ⟨true, Kernel.defaultFreq, 0⟩
  | .read => { v with ticks := 0 }
  | .write freq nbytes => if Accepts freq nbytes then { v with freq := freq } else v
  | .close => closed

/-- What a log tells. -/
def ofLog (log : List RtcEvent) : RtcView := log.foldl apply closed

/-- What an event tells that may be none of the process. -/
def observe (v : RtcView) : Option RtcEvent → RtcView
  | some x => v.apply x
  | none => v

theorem ofLog_append (log : List RtcEvent) (x : Option RtcEvent) :
    ofLog (log ++ x.toList) = (ofLog log).observe x := by
  cases x with
  | none => rw [Option.toList_none, List.append_nil, observe]
  | some x => exact List.foldl_append

/-- `freq_to_rate` knows the ten frequencies. -/
theorem freqToRate_ne_iff (freq : Int) :
    Kernel.freqToRate freq ≠ -1 ↔ ∃ i < 10, freq = 2 ^ (i + 1) := by
  constructor
  · intro h
    by_contra hnone
    have hne (i : Nat) (hi : i < 10) : ¬ freq = 2 ^ (i + 1) := fun heq => hnone ⟨i, hi, heq⟩
    -- every comparison fails
    have h2 : ¬ freq = 2 := hne 0 (by decide)
    have h4 : ¬ freq = 4 := hne 1 (by decide)
    have h8 : ¬ freq = 8 := hne 2 (by decide)
    have h16 : ¬ freq = 16 := hne 3 (by decide)
    have h32 : ¬ freq = 32 := hne 4 (by decide)
    have h64 : ¬ freq = 64 := hne 5 (by decide)
    have h128 : ¬ freq = 128 := hne 6 (by decide)
    have h256 : ¬ freq = 256 := hne 7 (by decide)
    have h512 : ¬ freq = 512 := hne 8 (by decide)
    have h1024 : ¬ freq = 1024 := hne 9 (by decide)
    refine h ?_
    rw [Kernel.freqToRate, if_neg h2, if_neg h4, if_neg h8, if_neg h16, if_neg h32, if_neg h64,
      if_neg h128, if_neg h256, if_neg h512, if_neg h1024]
  · rintro ⟨i, hi, rfl⟩
    have hall : ∀ i < 10, Kernel.freqToRate (2 ^ (i + 1)) ≠ -1 := by decide
    exact hall i hi

/-- The check of `rtc_write`. -/
theorem accepts_iff (freq nbytes : Int) :
    Accepts freq nbytes ↔ ¬ (nbytes ≠ 4 ∨ Kernel.freqToRate freq = -1) := by
  rw [not_or, not_not, ← ne_eq, freqToRate_ne_iff]
  rfl

/-! ## What the PCB holds -/

/-- The fields of the PCB that go with a view: the counter holds the interrupts as an `int32_t`,
    and both are 0 while the RTC is closed. -/
def Agrees (v : RtcView) (rtcfreq rtcCounter : Int) : Prop :=
  if v.opened = true then
    (∃ i < 10, v.freq = 2 ^ (i + 1)) ∧ rtcfreq = Kernel.maxFreq / v.freq ∧
      rtcCounter = Kernel.toInt32 v.ticks
  else rtcfreq = 0 ∧ rtcCounter = 0

theorem toInt32_zero : Kernel.toInt32 (0 : Nat) = 0 := by
  unfold Kernel.toInt32
  omega

theorem toInt32_succ (n : Nat) :
    Kernel.toInt32 (Kernel.toInt32 n + 1) = Kernel.toInt32 (n + 1 : Nat) := by
  unfold Kernel.toInt32
  omega

/-- A counter that wraps around is never ahead. -/
theorem toInt32_le (n : Nat) : Kernel.toInt32 n ≤ n := by
  unfold Kernel.toInt32
  omega

/-- The number of interrupts for one tick is never 0. -/
theorem maxFreq_div_pos {freq : Int} (h : ∃ i < 10, freq = 2 ^ (i + 1)) :
    0 < Kernel.maxFreq / freq := by
  obtain ⟨i, hi, rfl⟩ := h
  have hall : ∀ i < 10, 0 < Kernel.maxFreq / 2 ^ (i + 1) := by decide
  exact hall i hi

variable {v : RtcView} {rtcfreq rtcCounter : Int}

theorem agrees_closed : closed.Agrees 0 0 := ⟨rfl, rfl⟩

/-- The interrupt handler counts for the processes with a rate. -/
theorem Agrees.interrupt (h : v.Agrees rtcfreq rtcCounter) :
    (v.apply .interrupt).Agrees rtcfreq
      (if rtcfreq ≠ 0 then Kernel.toInt32 (rtcCounter + 1) else rtcCounter) := by
  unfold Agrees at h ⊢
  by_cases hopen : v.opened = true
  · rw [if_pos hopen] at h
    obtain ⟨hfreq, hrate, hcounter⟩ := h
    have hpos : rtcfreq ≠ 0 := hrate ▸ Int.ne_of_gt (maxFreq_div_pos hfreq)
    rw [if_pos (show (v.apply .interrupt).opened = true from hopen), if_pos hpos, hcounter]
    exact ⟨hfreq, hrate, toInt32_succ v.ticks⟩
  · rw [if_neg hopen] at h
    obtain ⟨rfl, rfl⟩ := h
    rw [if_neg (show ¬ (v.apply .interrupt).opened = true from hopen), if_neg (by decide)]
    exact ⟨rfl, rfl⟩

/-- `rtc_open` leaves the counter, which is 0 while the RTC is closed. -/
theorem Agrees.open (h : v.Agrees rtcfreq rtcCounter) (hclosed : v.opened = false) :
    (v.apply .open).Agrees (Kernel.maxFreq / Kernel.defaultFreq) rtcCounter := by
  rw [Agrees, if_neg (by rw [hclosed]; decide)] at h
  rw [h.2]
  exact ⟨⟨0, by decide, rfl⟩, rfl, toInt32_zero.symm⟩

theorem Agrees.read (h : v.Agrees rtcfreq rtcCounter) : (v.apply .read).Agrees rtcfreq 0 := by
  unfold Agrees at h ⊢
  by_cases hopen : v.opened = true
  · rw [if_pos hopen] at h
    rw [if_pos (show (v.apply .read).opened = true from hopen)]
    exact ⟨h.1, h.2.1, toInt32_zero.symm⟩
  · rw [if_neg hopen] at h
    rw [if_neg (show ¬ (v.apply .read).opened = true from hopen)]
    exact ⟨h.1, rfl⟩

theorem Agrees.write (h : v.Agrees rtcfreq rtcCounter) (hopen : v.opened = true)
    {freq nbytes : Int} (haccepts : Accepts freq nbytes) :
    (v.apply (.write freq nbytes)).Agrees (Kernel.maxFreq / freq) rtcCounter := by
  rw [Agrees, if_pos hopen] at h
  rw [apply, if_pos haccepts, Agrees, if_pos hopen]
  exact ⟨haccepts.2, rfl, h.2.2⟩

end RtcView

/-! ## The fields of the PCB -/

/-- `rtcfreq` and `rtc_counter` of a process. -/
structure RtcFields where
  rtcfreq : Int
  rtcCounter : Int

namespace RtcFields

/-- What an event of its process does to the fields. -/
def apply (f : RtcFields) : RtcEvent → RtcFields
  | .interrupt =>
    { f with
      rtcCounter := if f.rtcfreq ≠ 0 then Kernel.toInt32 (f.rtcCounter + 1) else f.rtcCounter }
  | .open => { f with rtcfreq := Kernel.maxFreq / Kernel.defaultFreq }
  | .read => { f with rtcCounter := 0 }
  | .write freq nbytes =>
    if RtcView.Accepts freq nbytes then { f with rtcfreq := Kernel.maxFreq / freq } else f
  | .close => ⟨0, 0⟩

/-- The same for an event that may be none of the process. -/
def observe (f : RtcFields) : Option RtcEvent → RtcFields
  | some x => f.apply x
  | none => f

end RtcFields

/-- The RTC fields of process `p`. -/
def DeviceState.rtc (s : DeviceState) (p : Nat) : RtcFields := ⟨s.rtcfreq p, s.rtcCounter p⟩

/-- An event keeps the fields in step with the view, if the RTC is opened only while it is closed
    and written only while it is open. -/
theorem RtcView.Agrees.observe {v : RtcView} {f : RtcFields}
    (h : v.Agrees f.rtcfreq f.rtcCounter) {x : Option RtcEvent}
    (hopen : x = some .open → v.opened = false)
    (hwrite : ∀ freq nbytes, x = some (.write freq nbytes) → v.opened = true) :
    (v.observe x).Agrees (f.observe x).rtcfreq (f.observe x).rtcCounter := by
  cases x with
  | none => exact h
  | some x =>
    cases x with
    | interrupt => exact h.interrupt
    | «open» => exact h.open (hopen rfl)
    | read => exact h.read
    | write freq nbytes =>
      -- a refused write changes neither the view nor the fields
      simp only [RtcView.observe, RtcFields.observe, RtcFields.apply]
      by_cases haccepts : RtcView.Accepts freq nbytes
      · rw [if_pos haccepts]
        exact h.write (hwrite freq nbytes rfl) haccepts
      · rw [if_neg haccepts, RtcView.apply, if_neg haccepts]
        exact h
    | close => exact RtcView.agrees_closed

/-! ## The descriptor of the RTC -/

/-- A descriptor in use for the RTC. -/
def FileDescriptor.IsRtc (d : FileDescriptor) : Prop :=
  d.flags ≠ notUse ∧ d.funcPointer = .table .rtc

instance (d : FileDescriptor) : Decidable d.IsRtc :=
  inferInstanceAs (Decidable (d.flags ≠ notUse ∧ d.funcPointer = .table .rtc))

theorem not_isRtc_freeDescriptor : ¬ freeDescriptor.IsRtc := by decide

/-- At most one descriptor is open on the RTC, and one is exactly if the RTC is open. -/
structure RtcTable (table : Nat → FileDescriptor) (opened : Bool) : Prop where
  low : ∀ i < maximumOpenFiles, (table i).IsRtc → 2 ≤ i
  unique : ∀ i < maximumOpenFiles, ∀ j < maximumOpenFiles,
    (table i).IsRtc → (table j).IsRtc → i = j
  held : opened = true ↔ ∃ i < maximumOpenFiles, (table i).IsRtc

namespace RtcTable

variable {table : Nat → FileDescriptor} {opened : Bool}

/-- The table of a program that starts. -/
theorem start (h : ∀ i < maximumOpenFiles, table i = startDescriptor i) : RtcTable table false := by
  have hnone : ∀ i < maximumOpenFiles, ¬ (table i).IsRtc := by
    intro i hi
    rw [h i hi]
    have hall : ∀ i < maximumOpenFiles, ¬ (startDescriptor i).IsRtc := by decide
    exact hall i hi
  constructor
  case low => exact fun i hi hrtc => absurd hrtc (hnone i hi)
  case unique => exact fun i hi j hj hrtc => absurd hrtc (hnone i hi)
  case held => exact ⟨Bool.noConfusion, fun ⟨i, hi, hrtc⟩ => absurd hrtc (hnone i hi)⟩

/-- Storing a descriptor that is not one for the RTC, like the one that was there. -/
theorem store (h : RtcTable table opened) {fd : Nat} {d : FileDescriptor}
    (hd : d.IsRtc ↔ (table fd).IsRtc) : RtcTable (Function.update table fd d) opened := by
  -- an RTC entry is replaced by an RTC entry, any other by any other
  have hsame : ∀ i, (Function.update table fd d i).IsRtc ↔ (table i).IsRtc := by
    intro i
    by_cases hi : i = fd
    · subst hi
      rw [Function.update_self]
      exact hd
    · rw [Function.update_of_ne hi]
  constructor
  case low => exact fun i hi hrtc => h.low i hi ((hsame i).mp hrtc)
  case unique =>
    exact fun i hi j hj hri hrj => h.unique i hi j hj ((hsame i).mp hri) ((hsame j).mp hrj)
  case held =>
    simp only [hsame]
    exact h.held

/-- Opening the RTC, when no descriptor is open on it. -/
theorem «open» (hnone : ∀ i < maximumOpenFiles, ¬ (table i).IsRtc) {fd : Nat} (hlow : 2 ≤ fd)
    (hfd : fd < maximumOpenFiles) {d : FileDescriptor} (hd : d.IsRtc) :
    RtcTable (Function.update table fd d) true := by
  -- the new entry is the only RTC entry
  have honly : ∀ i < maximumOpenFiles, (Function.update table fd d i).IsRtc → i = fd := by
    intro i hi hrtc
    by_contra hne
    rw [Function.update_of_ne hne] at hrtc
    exact hnone i hi hrtc
  constructor
  case low => exact fun i hi hrtc => honly i hi hrtc ▸ hlow
  case unique =>
    exact fun i hi j hj hri hrj => (honly i hi hri).trans (honly j hj hrj).symm
  case held =>
    refine iff_of_true rfl ⟨fd, hfd, ?_⟩
    rw [Function.update_self]
    exact hd

/-- Closing the descriptor of the RTC. -/
theorem close (h : RtcTable table opened) {fd : Nat} (hfd : fd < maximumOpenFiles)
    (hrtc : (table fd).IsRtc) : RtcTable (Function.update table fd freeDescriptor) false := by
  have hnone : ∀ i < maximumOpenFiles, ¬ (Function.update table fd freeDescriptor i).IsRtc := by
    intro i hi hri
    by_cases hne : i = fd
    · subst hne
      rw [Function.update_self] at hri
      exact not_isRtc_freeDescriptor hri
    · rw [Function.update_of_ne hne] at hri
      exact hne (h.unique i hi fd hfd hri hrtc)
  constructor
  case low => exact fun i hi hri => absurd hri (hnone i hi)
  case unique => exact fun i hi j hj hri => absurd hri (hnone i hi)
  case held => exact ⟨Bool.noConfusion, fun ⟨i, hi, hri⟩ => absurd hri (hnone i hi)⟩

end RtcTable

/-! ## The kernel with the log of a process -/

namespace Kernel

/-- What an event tells process `p` of its RTC. -/
def rtcEvent (k : Kernel) (p : Nat) : KernelEvent → Option RtcEvent
  | .rtcInterrupt => some .interrupt
  | .open filename =>
    if p = k.currPid ∧ k.openedTable filename = some .rtc then some .open else none
  | .read fd buf _ =>
    if p = k.currPid ∧ k.calledTable fd buf.isNone = some .rtc then some .read else none
  | .write fd (some buf) nbytes =>
    if p = k.currPid ∧ k.calledTable fd false = some .rtc then
      some (.write (asInt32 (littleEndian buf 0)) nbytes)
    else none
  | .close fd => if p = k.currPid ∧ k.calledTable fd false = some .rtc then some .close else none
  | .tick .. | .key _ | .switch _ | .execute .. | .halt .. | .write _ none _ | .getargs ..
  | .vidmap _ => none

end Kernel

/-- A kernel with the log of one process number: what the process that has it now knows of its
    RTC. -/
structure RtcRun where
  kernel : Kernel
  log : List RtcEvent

instance : DecidablePred KernelEvent.IsHalt
  | .halt .. => isTrue trivial
  | .tick .. | .key _ | .rtcInterrupt | .switch _ | .execute .. | .read .. | .write .. | .open _
  | .close _ | .getargs .. | .vidmap _ => isFalse id

/-- One event of the kernel from power-on, with the log of process `p`; it begins when the process
    starts. -/
def rtcStep (p : Nat) (s : RtcRun) (e : KernelEvent) : Option RtcRun :=
  (startupStep s.kernel e).map fun k' =>
    { kernel := k'
      log :=
        if s.kernel.processArray p = 0 ∨ e.IsHalt ∧ p = s.kernel.currPid then []
        else s.log ++ (s.kernel.rtcEvent p e).toList }

/-- Process `p` opens the RTC only when it holds no descriptor of it. -/
def OneRtc (p : Nat) (s : RtcRun) : KernelEvent → Prop
  | .open filename => p = s.kernel.currPid → s.kernel.openedTable filename = some .rtc →
    ∀ i < maximumOpenFiles, ¬ (s.kernel.files.tables p i).IsRtc
  | _ => True

instance (p : Nat) (s : RtcRun) : DecidablePred (OneRtc p s)
  | .open filename => inferInstanceAs (Decidable (p = s.kernel.currPid →
    s.kernel.openedTable filename = some .rtc →
      ∀ i < maximumOpenFiles, ¬ (s.kernel.files.tables p i).IsRtc))
  | .tick .. | .key _ | .rtcInterrupt | .switch _ | .execute .. | .halt .. | .read .. | .write ..
  | .close _ | .getargs .. | .vidmap _ => isTrue trivial

/-! ## One event -/

namespace RtcRun

/-- Other processes, and the other events of a process, leave its RTC alone. -/
theorem devices_other {k : Kernel} {e : KernelEvent} {p : Nat}
    (hother : p = k.currPid → ¬ e.IsFileCall ∧ ¬ e.IsHalt)
    (hint : e = .rtcInterrupt → k.processArray p = 0) :
    (k.devices.apply (k.deviceAction e)).rtcfreq p = k.devices.rtcfreq p ∧
      (k.devices.apply (k.deviceAction e)).rtcCounter p = k.devices.rtcCounter p := by
  -- a call of another process does not write the fields of `p`
  have hne (he : e.IsFileCall ∨ e.IsHalt) : p ≠ k.currPid := fun hp =>
    he.elim (hother hp).1 (hother hp).2
  cases e with
  | rtcInterrupt =>
    -- the interrupt counts in live processes only
    refine ⟨rfl, if_neg fun hcounts => ?_⟩
    exact hcounts.2.1 (hint rfl)
  | halt =>
    have hp := hne (.inr trivial)
    exact ⟨Function.update_of_ne hp .., Function.update_of_ne hp ..⟩
  | read fd buf nbytes =>
    simp only [Kernel.deviceAction]
    split
    · exact ⟨rfl, Function.update_of_ne (hne (.inl trivial)) ..⟩
    · exact ⟨rfl, rfl⟩
    · exact ⟨rfl, rfl⟩
  | write fd buf nbytes =>
    simp only [Kernel.deviceAction]
    split
    · cases buf with
      | none => exact ⟨rfl, rfl⟩
      | some buf =>
        simp only [Kernel.rtcWriteAction]
        split_ifs
        · exact ⟨rfl, rfl⟩
        · exact ⟨Function.update_of_ne (hne (.inl trivial)) .., rfl⟩
    · exact ⟨rfl, rfl⟩
  | «open» filename =>
    -- `open` sets the rate of the caller alone, and `close` clears its fields alone
    simp only [Kernel.deviceAction]
    split
    · exact ⟨Function.update_of_ne (hne (.inl trivial)) .., rfl⟩
    · exact ⟨rfl, rfl⟩
    · exact ⟨rfl, rfl⟩
  | close fd =>
    simp only [Kernel.deviceAction]
    split
    · have hp := hne (.inl trivial)
      exact ⟨Function.update_of_ne hp .., Function.update_of_ne hp ..⟩
    · exact ⟨rfl, rfl⟩
  | tick | key | switch | execute | getargs | vidmap => exact ⟨rfl, rfl⟩

/-- The calls of other processes are none of the log. -/
theorem rtcEvent_other {k : Kernel} {e : KernelEvent} {p : Nat}
    (hother : p = k.currPid → ¬ e.IsFileCall) (hint : e ≠ .rtcInterrupt) :
    k.rtcEvent p e = none := by
  cases e with
  | rtcInterrupt => exact absurd rfl hint
  | read | «open» | close => exact if_neg fun h => hother h.1 trivial
  | write fd buf nbytes =>
    cases buf with
    | none => rfl
    | some buf => exact if_neg fun h => hother h.1 trivial
  | tick | key | switch | execute | halt | getargs | vidmap => rfl

/-- `rtc_read` resets the counter. -/
private theorem rtc_apply_read (k : Kernel) (fd : Int) (buf : Option Buffer) (nbytes : Int) :
    (k.devices.apply (k.deviceAction (.read fd buf nbytes))).rtc k.currPid =
      (k.devices.rtc k.currPid).observe (k.rtcEvent k.currPid (.read fd buf nbytes)) := by
  simp only [Kernel.deviceAction, Kernel.rtcEvent, true_and]
  by_cases hrtc : k.calledTable fd buf.isNone = some .rtc
  · simp only [hrtc, if_true]
    exact congrArg (RtcFields.mk _) (Function.update_self ..)
  · rw [if_neg hrtc]
    split
    · exact absurd ‹_› hrtc
    · rfl
    · rfl

/-- `rtc_write` sets the rate, or refuses other counts and rates and changes nothing then. -/
private theorem rtc_apply_write (k : Kernel) (fd : Int) (buf : Option Buffer) (nbytes : Int) :
    (k.devices.apply (k.deviceAction (.write fd buf nbytes))).rtc k.currPid =
      (k.devices.rtc k.currPid).observe (k.rtcEvent k.currPid (.write fd buf nbytes)) := by
  cases buf with
  | none =>
    -- a write through NULL is refused before the driver looks at anything
    simp only [Kernel.deviceAction, Kernel.rtcWriteAction]
    split <;> rfl
  | some buf =>
    simp only [Kernel.deviceAction, Kernel.rtcEvent, Option.isNone_some, true_and]
    -- the driver is the RTC's, and accepts the rate or not
    by_cases hrtc : k.calledTable fd false = some .rtc
    · simp only [hrtc, if_true, Kernel.rtcWriteAction, RtcFields.observe, RtcFields.apply]
      by_cases haccepts : RtcView.Accepts (asInt32 (littleEndian buf 0)) nbytes
      · rw [if_neg ((RtcView.accepts_iff ..).mp haccepts), if_pos haccepts]
        exact congrArg (RtcFields.mk · _) (Function.update_self ..)
      · rw [if_pos (not_not.mp fun hnot => haccepts ((RtcView.accepts_iff ..).mpr hnot)),
          if_neg haccepts]
        rfl
    · rw [if_neg hrtc]
      -- any other driver leaves the RTC fields
      split
      · exact absurd ‹_› hrtc
      · rfl

/-- `rtc_open` sets the default rate. -/
private theorem rtc_apply_open (k : Kernel) (filename : Option CString) :
    (k.devices.apply (k.deviceAction (.open filename))).rtc k.currPid =
      (k.devices.rtc k.currPid).observe (k.rtcEvent k.currPid (.open filename)) := by
  simp only [Kernel.deviceAction, Kernel.rtcEvent, true_and]
  by_cases hrtc : k.openedTable filename = some .rtc
  · simp only [hrtc, if_true]
    exact congrArg (RtcFields.mk · _) (Function.update_self ..)
  · rw [if_neg hrtc]
    split
    · exact absurd ‹_› hrtc
    · rfl
    · rfl

/-- `rtc_close` resets both fields. -/
private theorem rtc_apply_close (k : Kernel) (fd : Int) :
    (k.devices.apply (k.deviceAction (.close fd))).rtc k.currPid =
      (k.devices.rtc k.currPid).observe (k.rtcEvent k.currPid (.close fd)) := by
  simp only [Kernel.deviceAction, Kernel.rtcEvent, true_and]
  by_cases hrtc : k.calledTable fd false = some .rtc
  · simp only [hrtc, if_true]
    exact congrArg₂ RtcFields.mk (Function.update_self ..) (Function.update_self ..)
  · rw [if_neg hrtc]
    split
    · exact absurd ‹_› hrtc
    · rfl

/-- **Refinement**: the RTC fields of a process that goes on follow what the events tell it. -/
theorem rtc_apply {k : Kernel} {p : Nat} (hp : p < maxProcessNum) (hlive : k.processArray p ≠ 0)
    {e : KernelEvent} (hgoes : p = k.currPid → ¬ e.IsHalt) :
    (k.devices.apply (k.deviceAction e)).rtc p = (k.devices.rtc p).observe (k.rtcEvent p e) := by
  by_cases hown : p = k.currPid ∧ e.IsFileCall
  · obtain ⟨rfl, he⟩ := hown
    cases e with
    | read fd buf nbytes => exact rtc_apply_read k fd buf nbytes
    | write fd buf nbytes => exact rtc_apply_write k fd buf nbytes
    | «open» filename => exact rtc_apply_open k filename
    | close fd => exact rtc_apply_close k fd
    | tick | key | rtcInterrupt | switch | execute | halt | getargs | vidmap => exact he.elim
  · have hother : p = k.currPid → ¬ e.IsFileCall := fun hcurr he => hown ⟨hcurr, he⟩
    by_cases hint : e = .rtcInterrupt
    · subst hint
      -- `rtc_handler` counts for this process, which is in use
      refine congrArg (RtcFields.mk _) (if_congr ⟨fun h => h.2.2, fun h => ⟨hp, hlive, h⟩⟩ rfl rfl)
    · obtain ⟨hfreq, hcounter⟩ := devices_other (k := k) (e := e)
        (fun hcurr => ⟨hother hcurr, hgoes hcurr⟩) fun h => absurd h hint
      rw [rtcEvent_other hother hint, DeviceState.rtc, hfreq, hcounter]
      rfl

end RtcRun

/-- The PCB and the descriptors of process `p` are what a view tells. -/
structure ShowsRtc (p : Nat) (k : Kernel) (v : RtcView) : Prop where
  agrees : v.Agrees (k.devices.rtcfreq p) (k.devices.rtcCounter p)
  table : RtcTable (k.files.tables p) v.opened

namespace ShowsRtc

variable {k k' : Kernel} {v : RtcView}

/-- A read moves the position of its descriptor at most. -/
private theorem table_read (h : RtcTable (k.files.tables k.currPid) v.opened) {fd : Int}
    {buf : Option Buffer} {nbytes : Int} (hstep : kernelStep k (.read fd buf nbytes) = some k') :
    RtcTable (k'.files.tables k.currPid)
      (v.observe (k.rtcEvent k.currPid (.read fd buf nbytes))).opened := by
  have hopened : (v.observe (k.rtcEvent k.currPid (.read fd buf nbytes))).opened = v.opened := by
    simp only [Kernel.rtcEvent]
    split_ifs <;> rfl
  rw [hopened]
  rcases Kernel.kernel?_guarded hstep with ⟨-, rfl⟩ | ⟨ops, -, hentry⟩
  · exact h
  · obtain ⟨pos, hfiles⟩ := Kernel.files_readEntry ops k _ _ _ k' hentry
    rw [Kernel.tables_of_setFd hfiles]
    exact h.store Iff.rfl

private theorem table_write (h : RtcTable (k.files.tables k.currPid) v.opened) {fd : Int}
    {buf : Option Buffer} {nbytes : Int} (hstep : kernelStep k (.write fd buf nbytes) = some k') :
    RtcTable (k'.files.tables k.currPid)
      (v.observe (k.rtcEvent k.currPid (.write fd buf nbytes))).opened := by
  -- a write opens and closes nothing
  have hopened : (v.observe (k.rtcEvent k.currPid (.write fd buf nbytes))).opened = v.opened := by
    cases buf with
    | none => rfl
    | some buf =>
      simp only [Kernel.rtcEvent]
      split_ifs
      · simp only [RtcView.observe, RtcView.apply]
        split_ifs <;> rfl
      · rfl
  rw [hopened]
  rcases Kernel.kernel?_guarded hstep with ⟨-, rfl⟩ | ⟨ops, -, hentry⟩
  · exact h
  · rw [Kernel.files_writeEntry ops k _ _ k' hentry]
    exact h

/-- An `open`, which finds no descriptor open on the RTC if it is for the RTC. -/
private theorem table_open (h : RtcTable (k.files.tables k.currPid) v.opened)
    {filename : Option CString}
    (hone : k.openedTable filename = some .rtc →
      ∀ i < maximumOpenFiles, ¬ (k.files.tables k.currPid i).IsRtc)
    (hstep : kernelStep k (.open filename) = some k') :
    RtcTable (k'.files.tables k.currPid)
      (v.observe (k.rtcEvent k.currPid (.open filename))).opened := by
  simp only [Kernel.rtcEvent, true_and]
  cases hops : k.openedTable filename with
  | none =>
    obtain ⟨i, d, hfiles, hi, hd⟩ := Kernel.open_of_openedTable_none hops hstep
    -- the first two descriptors are never open on the RTC
    have hold : ¬ (k.files.table i).IsRtc := fun hrtc =>
      absurd (h.low i (Nat.lt_trans hi (by decide)) hrtc) (Nat.not_le.mpr hi)
    have hnew : ¬ d.IsRtc := by
      rcases hd with rfl | hd | hd
      · exact hold
      · exact fun hrtc => FileOperation.noConfusion (FuncPointer.table.inj (hd.symm.trans hrtc.2))
      · exact fun hrtc => FileOperation.noConfusion (FuncPointer.table.inj (hd.symm.trans hrtc.2))
    rw [if_neg (Option.some_ne_none _).symm, Kernel.tables_of_setFd hfiles]
    exact h.store (iff_of_false hnew hold)
  | some ops =>
    obtain ⟨fd, d, hfiles, ⟨hlow, hin⟩, hfree, hflags, hptr⟩ :=
      Kernel.open_of_openedTable hops hstep
    rw [Kernel.tables_of_setFd hfiles]
    by_cases hrtc : ops = .rtc
    · subst hrtc
      have huse : d.flags ≠ notUse := by
        rw [hflags]
        decide
      rw [if_pos rfl]
      exact .open (hone hops) hlow hin ⟨huse, hptr⟩
    · rw [if_neg fun heq => hrtc (Option.some.inj heq)]
      refine h.store (iff_of_false (fun hnew => ?_) fun hold => hold.1 hfree)
      exact hrtc (FuncPointer.table.inj (hptr.symm.trans hnew.2))

private theorem table_close (h : RtcTable (k.files.tables k.currPid) v.opened) {fd : Int}
    (hstep : kernelStep k (.close fd) = some k') :
    RtcTable (k'.files.tables k.currPid)
      (v.observe (k.rtcEvent k.currPid (.close fd))).opened := by
  simp only [Kernel.rtcEvent, true_and]
  rcases Kernel.close_guarded hstep with ⟨hnone, rfl⟩ | ⟨ops, hops, hclosed⟩
  · rw [hnone, if_neg (Option.some_ne_none _).symm]
    exact h
  obtain ⟨⟨-, -, hin⟩, huse, hptr⟩ := Kernel.calledTable_eq_some hops
  by_cases hrtc : ops = .rtc
  · subst hrtc
    have hzero : (FileOperation.rtc.close k fd.toNat).1 = 0 := rfl
    -- `rtc_close` never fails
    have hfiles : k'.files = k.files.setFd fd.toNat freeDescriptor := by
      rw [hclosed, if_pos hzero, Kernel.files_modifyFd, Kernel.files_closeEntry]
    rw [if_pos hops, Kernel.tables_of_setFd hfiles]
    exact h.close hin ⟨huse, hptr⟩
  · have hold : ¬ (k.files.table fd.toNat).IsRtc := fun hold =>
      hrtc (FuncPointer.table.inj (hptr.symm.trans hold.2))
    rw [if_neg fun heq => hrtc (Option.some.inj (hops.symm.trans heq))]
    rcases k.files_close fd k' hstep with hfiles | hfiles
    · rw [hfiles]
      exact h
    · rw [Kernel.tables_of_setFd hfiles]
      exact h.store (iff_of_false not_isRtc_freeDescriptor hold)

/-- The events that are an open of the RTC, or a write to it, for a process. -/
private theorem rtcEvent_eq_open {p : Nat} {e : KernelEvent} (h : k.rtcEvent p e = some .open) :
    ∃ filename, e = .open filename ∧ p = k.currPid ∧ k.openedTable filename = some .rtc := by
  cases e with
  | «open» filename =>
    obtain ⟨hops, -⟩ := Option.ite_none_right_eq_some.mp h
    exact ⟨filename, rfl, hops⟩
  | read | close => cases (Option.ite_none_right_eq_some.mp h).2
  | write fd buf nbytes =>
    cases buf with
    | none => cases h
    | some buf => cases (Option.ite_none_right_eq_some.mp h).2
  | tick | key | rtcInterrupt | switch | execute | halt | getargs | vidmap => cases h

private theorem rtcEvent_eq_write {p : Nat} {e : KernelEvent} {freq nbytes : Int}
    (h : k.rtcEvent p e = some (.write freq nbytes)) :
    ∃ fd, p = k.currPid ∧ k.calledTable fd false = some .rtc := by
  cases e with
  | write fd buf nbytes =>
    cases buf with
    | none => cases h
    | some buf => exact ⟨fd, (Option.ite_none_right_eq_some.mp h).1⟩
  | read | «open» | close => cases (Option.ite_none_right_eq_some.mp h).2
  | tick | key | rtcInterrupt | switch | execute | halt | getargs | vidmap => cases h

/-- The descriptors of a process that goes on. -/
private theorem table_step {p : Nat} (h : ShowsRtc p k v) (hlive : k.processArray p ≠ 0)
    {e : KernelEvent} (hgoes : p = k.currPid → ¬ e.IsHalt)
    (hone : ∀ filename, e = .open filename → p = k.currPid →
      k.openedTable filename = some .rtc → ∀ i < maximumOpenFiles, ¬ (k.files.tables p i).IsRtc)
    (hstep : kernelStep k e = some k') :
    RtcTable (k'.files.tables p) (v.observe (k.rtcEvent p e)).opened := by
  -- the calls that write the table of `p`
  by_cases hown : p = k.currPid ∧ e.IsFileCall
  · obtain ⟨rfl, he⟩ := hown
    cases e with
    | read => exact table_read h.table hstep
    | write => exact table_write h.table hstep
    | «open» filename => exact table_open h.table (hone filename rfl rfl) hstep
    | close => exact table_close h.table hstep
    | tick | key | rtcInterrupt | switch | execute | halt | getargs | vidmap => exact he.elim
  · -- an event of another process, an interrupt, or a call that is not on files
    have hother : p = k.currPid → ¬ e.IsFileCall := fun hcurr he => hown ⟨hcurr, he⟩
    have hkeeps := kernelStep_keepsTable hlive (fun hcurr => ⟨hother hcurr, hgoes hcurr⟩) hstep
    have htable : k'.files.tables p = k.files.tables p := hkeeps.table
    rw [htable]
    by_cases hint : e = .rtcInterrupt
    · subst hint
      exact h.table
    · rw [RtcRun.rtcEvent_other hother hint]
      exact h.table

/-- A process that goes on. -/
private theorem step {p : Nat} (hp : p < maxProcessNum) (h : ShowsRtc p k v)
    (hlive : k.processArray p ≠ 0) {e : KernelEvent} (hgoes : p = k.currPid → ¬ e.IsHalt)
    (hone : ∀ filename, e = .open filename → p = k.currPid →
      k.openedTable filename = some .rtc → ∀ i < maximumOpenFiles, ¬ (k.files.tables p i).IsRtc)
    (hstep : kernelStep k e = some k') :
    ShowsRtc p k' (v.observe (k.rtcEvent p e)) := by
  refine ⟨?_, h.table_step hlive hgoes hone hstep⟩
  -- the process holds no descriptor of the RTC when it opens it, and one when it writes
  have hopen : k.rtcEvent p e = some .open → v.opened = false := by
    intro hevent
    obtain ⟨filename, rfl, hcurr, hops⟩ := rtcEvent_eq_open hevent
    refine eq_false_of_ne_true fun hheld => ?_
    obtain ⟨i, hi, hrtc⟩ := h.table.held.mp hheld
    exact hone filename rfl hcurr hops i hi hrtc
  have hwrite : ∀ freq nbytes, k.rtcEvent p e = some (.write freq nbytes) → v.opened = true := by
    intro freq nbytes hevent
    obtain ⟨fd, rfl, hops⟩ := rtcEvent_eq_write hevent
    obtain ⟨⟨-, -, hin⟩, huse, hptr⟩ := Kernel.calledTable_eq_some hops
    exact h.table.held.mpr ⟨_, hin, huse, hptr⟩
  have hagrees := RtcView.Agrees.observe (f := k.devices.rtc p) h.agrees hopen hwrite
  rw [← RtcRun.rtc_apply hp hlive hgoes, ← kernelStep_devices hstep] at hagrees
  exact hagrees

end ShowsRtc

namespace RtcRun

/-- The PCB and the descriptors of process `p` are what its log tells. -/
structure Ok (p : Nat) (s : RtcRun) : Prop where
  free : s.kernel.processArray p = 0 → s.log = []
  agrees : (RtcView.ofLog s.log).Agrees (s.kernel.devices.rtcfreq p)
    (s.kernel.devices.rtcCounter p)
  table : s.kernel.processArray p ≠ 0 →
    RtcTable (s.kernel.files.tables p) (RtcView.ofLog s.log).opened

/-- A call on files is a system call, and so is `halt`. -/
theorem isSystemCall {e : KernelEvent} (he : e.IsFileCall ∨ e.IsHalt) :
    e.IsSystemCall := by
  cases e with
  | execute | halt | read | write | «open» | close | getargs | vidmap => trivial
  | tick | key | rtcInterrupt | switch => exact he.elim id id

/-- A process number without a process, or whose process ends, gets its RTC fields reset. -/
theorem devices_reset {k : Kernel} {e : KernelEvent} {p : Nat}
    (hreset : k.processArray p = 0 ∨ e.IsHalt ∧ p = k.currPid)
    (hcall : e.IsSystemCall → k.processArray k.currPid ≠ 0)
    (hzero : k.processArray p = 0 → k.devices.rtcfreq p = 0 ∧ k.devices.rtcCounter p = 0) :
    (k.devices.apply (k.deviceAction e)).rtcfreq p = 0 ∧
      (k.devices.apply (k.deviceAction e)).rtcCounter p = 0 := by
  by_cases hend : e.IsHalt ∧ p = k.currPid
  · obtain ⟨he, rfl⟩ := hend
    cases e with
    | halt => exact ⟨Function.update_self .., Function.update_self ..⟩
    | tick | key | rtcInterrupt | switch | execute | read | write | «open» | close | getargs
    | vidmap => exact he.elim
  · have hfree := hreset.resolve_right hend
    -- a number without a process makes no calls
    have hidle : ¬ (p = k.currPid ∧ (e.IsFileCall ∨ e.IsHalt)) := by
      rintro ⟨rfl, he⟩
      exact hcall (isSystemCall he) hfree
    obtain ⟨hfreq, hcounter⟩ := devices_other (k := k) (e := e)
      (fun hp => ⟨fun he => hidle ⟨hp, .inl he⟩, fun he => hidle ⟨hp, .inr he⟩⟩) fun _ => hfree
    rw [hfreq, hcounter]
    exact hzero hfree

/-- The process number is free, or its process ends. -/
def Resets (p : Nat) (s : RtcRun) (e : KernelEvent) : Prop :=
  s.kernel.processArray p = 0 ∨ e.IsHalt ∧ p = s.kernel.currPid

/-- What a step does to the log and the RTC fields of a process number: both are new, or its process
    goes on and they follow the event. -/
theorem rtcStep_cases {p : Nat} (hp : p < maxProcessNum) {s s' : RtcRun} {e : KernelEvent}
    (hidle : s.kernel.processArray p = 0 → s.kernel.devices.rtc p = ⟨0, 0⟩)
    (hstep : rtcStep p s e = some s') :
    kernelStep s.kernel e = some s'.kernel ∧
      (Resets p s e ∧ s'.log = [] ∧ s'.kernel.devices.rtc p = ⟨0, 0⟩ ∨
        ¬ Resets p s e ∧ s'.kernel.processArray p ≠ 0 ∧
          s'.log = s.log ++ (s.kernel.rtcEvent p e).toList ∧
          s'.kernel.devices.rtc p = (s.kernel.devices.rtc p).observe (s.kernel.rtcEvent p e)) := by
  obtain ⟨k', hk', rfl⟩ := Option.map_eq_some_iff.mp hstep
  obtain ⟨hcall, hkernel⟩ := startupStep_eq_some hk'
  have hdevices := kernelStep_devices hkernel
  refine ⟨hkernel, ?_⟩
  -- the events that set the fields of `p` to zero, or one that its log records
  by_cases hreset : Resets p s e
  · obtain ⟨hfreq, hcounter⟩ := devices_reset hreset hcall fun hfree =>
      RtcFields.mk.inj (hidle hfree)
    refine .inl ⟨hreset, if_pos hreset, ?_⟩
    rw [hdevices, DeviceState.rtc, hfreq, hcounter]
  · obtain ⟨hlive, hgoes⟩ := not_or.mp hreset
    refine .inr ⟨hreset, Kernel.live_of_step hlive hgoes hkernel, if_neg hreset, ?_⟩
    rw [hdevices]
    exact rtc_apply hp hlive fun hcurr he => hgoes ⟨he, hcurr⟩

/-- **Every event keeps the PCB in step with the log.** -/
theorem Ok.step {p : Nat} (hp : p < maxProcessNum) {s s' : RtcRun} (h : s.Ok p) {e : KernelEvent}
    (hone : OneRtc p s e) (hstep : rtcStep p s e = some s') : s'.Ok p := by
  -- a number that is not in use has both fields zero
  have hidle : s.kernel.processArray p = 0 → s.kernel.devices.rtc p = ⟨0, 0⟩ := by
    intro hfree
    have hclosed := h.agrees
    rw [h.free hfree] at hclosed
    exact congrArg₂ RtcFields.mk hclosed.1 hclosed.2
  -- a process that starts begins with an empty log, the others go on with theirs
  obtain ⟨hkernel, ⟨hreset, hlog, hfields⟩ | ⟨hgoes, hlive', hlog, -⟩⟩ :=
    rtcStep_cases hp hidle hstep
  · obtain ⟨hfreq, hcounter⟩ := RtcFields.mk.inj hfields
    constructor
    case free => exact fun _ => hlog
    case agrees =>
      rw [hlog, hfreq, hcounter]
      exact RtcView.agrees_closed
    case table =>
      intro hlive
      rw [hlog]
      exact .start (kernelStep_freshTable hreset hkernel hlive)
  · obtain ⟨hlive, hgoes⟩ := not_or.mp hgoes
    have hshows : ShowsRtc p s.kernel (RtcView.ofLog s.log) := ⟨h.agrees, h.table hlive⟩
    have hafter := hshows.step hp hlive (fun hcurr he => hgoes ⟨he, hcurr⟩)
      (fun filename he => by subst he; exact hone) hkernel
    constructor
    case free => exact fun hfree => absurd hfree hlive'
    case agrees =>
      rw [hlog, RtcView.ofLog_append]
      exact hafter.agrees
    case table =>
      intro _
      rw [hlog, RtcView.ofLog_append]
      exact hafter.table

/-- A state that a run from power-on leads to, in which process `p` has held at most one descriptor
    of the RTC at any time. -/
def Reached (p : Nat) (s : RtcRun) : Prop :=
  ∃ img es, EachStep (rtcStep p) (OneRtc p) ⟨Kernel.powerOn img, []⟩ es ∧
    exec (rtcStep p) ⟨Kernel.powerOn img, []⟩ es = some s

/-- Process `p` is the running process. -/
def Runs (p : Nat) (s : RtcRun) : Prop :=
  p = s.kernel.currPid ∧ s.kernel.processArray p ≠ 0

theorem Reached.ok {p : Nat} (hp : p < maxProcessNum) {s : RtcRun} (h : s.Reached p) : s.Ok p := by
  obtain ⟨img, es, hone, hrun⟩ := h
  have hstart : Ok p ⟨Kernel.powerOn img, []⟩ :=
    ⟨fun _ => rfl, RtcView.agrees_closed, fun hlive => absurd rfl hlive⟩
  exact exec_invariant_of_eachStep (fun _ _ _ h hc hstep => h.step hp hc hstep) hstart hone hrun

/-! ## The outcomes of the calls -/

/-- A read that reaches the RTC. -/
theorem read_eq {k : Kernel} {fd : Int} {buf : Option Buffer}
    (hrtc : k.calledTable fd buf.isNone = some .rtc) (nbytes : Int) :
    k.read fd buf nbytes =
      if k.currPcb.rtcfreq > k.currPcb.rtcCounter then .blocked
      else .ret 0 buf (k.modifyPcb k.currPid fun pcb => { pcb with rtcCounter := 0 }) := by
  have hread : k.read fd buf nbytes = FileOperation.rtc.read k fd.toNat buf nbytes :=
    Kernel.call_of_calledTable hrtc buf fun ops => ops.read k fd.toNat buf nbytes
  rw [hread, FileOperation.read, Kernel.rtcRead]
  split_ifs <;> rfl

/-- The value of a read that reaches the RTC, by the log; `none` while it waits. -/
def readValue (s : RtcRun) : Option Int :=
  if Kernel.maxFreq / (RtcView.ofLog s.log).freq > Kernel.toInt32 (RtcView.ofLog s.log).ticks then
    none
  else some 0

theorem Ok.read_value {p : Nat} {s : RtcRun} (h : s.Ok p) (hruns : s.Runs p) {fd : Int}
    {buf : Option Buffer} (hrtc : s.kernel.calledTable fd buf.isNone = some .rtc) (nbytes : Int) :
    (s.kernel.read fd buf nbytes).value? = s.readValue := by
  obtain ⟨rfl, hlive⟩ := hruns
  obtain ⟨⟨-, -, hin⟩, huse, hptr⟩ := Kernel.calledTable_eq_some hrtc
  have hopen : (RtcView.ofLog s.log).opened = true :=
    (h.table hlive).held.mpr ⟨_, hin, huse, hptr⟩
  have hagrees := h.agrees
  rw [RtcView.Agrees, if_pos hopen] at hagrees
  obtain ⟨-, hfreq, hcounter⟩ := hagrees
  have hpcb : s.kernel.currPcb.rtcfreq = s.kernel.devices.rtcfreq s.kernel.currPid ∧
      s.kernel.currPcb.rtcCounter = s.kernel.devices.rtcCounter s.kernel.currPid := ⟨rfl, rfl⟩
  rw [read_eq hrtc, hpcb.1, hpcb.2, hfreq, hcounter, readValue]
  split_ifs <;> rfl

/-- A write that reaches the RTC. -/
theorem write_eq {k : Kernel} {fd : Int} {buf : Buffer}
    (hrtc : k.calledTable fd false = some .rtc) (nbytes : Int) :
    k.write fd (some buf) nbytes =
      if RtcView.Accepts (asInt32 (littleEndian buf 0)) nbytes then
        .ret 0 (some buf) (k.modifyPcb k.currPid fun pcb =>
          { pcb with rtcfreq := Kernel.maxFreq / asInt32 (littleEndian buf 0) })
      else .ret (-1) (some buf) k := by
  have hwrite : k.write fd (some buf) nbytes = FileOperation.rtc.write k (some buf) nbytes :=
    Kernel.call_of_calledTable hrtc (some buf) fun ops => ops.write k (some buf) nbytes
  rw [hwrite, FileOperation.write]
  simp only [Kernel.rtcWrite]
  -- `Accepts` says at once what `rtc_write` tests in two steps
  by_cases haccepts : RtcView.Accepts (asInt32 (littleEndian buf 0)) nbytes
  · obtain ⟨hbytes, hrate⟩ := not_or.mp ((RtcView.accepts_iff ..).mp haccepts)
    rw [if_pos haccepts, if_neg hbytes, if_neg hrate]
  · rw [if_neg haccepts]
    rcases not_not.mp fun hnot => haccepts ((RtcView.accepts_iff ..).mpr hnot) with hbytes | hrate
    · rw [if_pos hbytes]
    · rw [if_pos hrate, ite_self]

/-- What the calls of process `p` on its RTC do: a read returns only after the interrupts that
    make up one tick, and a write succeeds exactly for the ten frequencies, else the rate stays. -/
structure Laws (p : Nat) (s : RtcRun) : Prop where
  notEarly : ∀ fd buf nbytes value out k', s.kernel.calledTable fd buf.isNone = some .rtc →
    s.kernel.read fd buf nbytes = .ret value out k' →
      Kernel.maxFreq / (RtcView.ofLog s.log).freq ≤ (RtcView.ofLog s.log).ticks
  accepted : ∀ fd buf nbytes, s.kernel.calledTable fd false = some .rtc →
    RtcView.Accepts (asInt32 (littleEndian buf 0)) nbytes →
      ∃ k', s.kernel.write fd (some buf) nbytes = .ret 0 (some buf) k' ∧
        (k'.pcbArray p).rtcfreq = Kernel.maxFreq / asInt32 (littleEndian buf 0)
  refused : ∀ fd buf nbytes, s.kernel.calledTable fd false = some .rtc →
    ¬ RtcView.Accepts (asInt32 (littleEndian buf 0)) nbytes →
      s.kernel.write fd (some buf) nbytes = .ret (-1) (some buf) s.kernel

/-- The calls on the RTC have the same outcome in both states: they wait or return alike, with the
    same value. -/
structure SameOutcomes (s s' : RtcRun) : Prop where
  read : ∀ fd buf nbytes fd' buf' nbytes', s.kernel.calledTable fd buf.isNone = some .rtc →
    s'.kernel.calledTable fd' buf'.isNone = some .rtc →
      (s.kernel.read fd buf nbytes).value? = (s'.kernel.read fd' buf' nbytes').value?
  write : ∀ fd buf fd' buf' nbytes, s.kernel.calledTable fd false = some .rtc →
    s'.kernel.calledTable fd' false = some .rtc → littleEndian buf 0 = littleEndian buf' 0 →
      (s.kernel.write fd (some buf) nbytes).value? = (s'.kernel.write fd' (some buf') nbytes).value?

theorem Ok.laws {p : Nat} {s : RtcRun} (h : s.Ok p) (hruns : s.Runs p) : s.Laws p := by
  constructor
  case notEarly =>
    -- what was counted is the number of interrupts, wrapped to a signed word
    intro fd buf nbytes value out k' hrtc hread
    have hvalue := h.read_value hruns hrtc nbytes
    rw [hread, readValue] at hvalue
    split_ifs at hvalue with hearly
    · cases hvalue
    · exact Int.le_trans (Int.not_lt.mp hearly) (RtcView.toInt32_le _)
  case accepted =>
    -- an accepted write sets the rate, a refused one sets nothing
    intro fd buf nbytes hrtc haccepts
    refine ⟨_, (write_eq hrtc nbytes).trans (if_pos haccepts), ?_⟩
    rw [hruns.1, Kernel.pcbArray_modifyPcb_self]
  case refused =>
    exact fun fd buf nbytes hrtc haccepts => (write_eq hrtc nbytes).trans (if_neg haccepts)

theorem Ok.sameOutcomes {p p' : Nat} {s s' : RtcRun} (h : s.Ok p) (hruns : s.Runs p)
    (h' : s'.Ok p') (hruns' : s'.Runs p') (hlog : s'.log = s.log) : s.SameOutcomes s' := by
  constructor
  case read =>
    intro fd buf nbytes fd' buf' nbytes' hrtc hrtc'
    rw [h.read_value hruns hrtc, h'.read_value hruns' hrtc', readValue, readValue, hlog]
  case write =>
    intro fd buf fd' buf' nbytes hrtc hrtc' hfreq
    rw [write_eq hrtc, write_eq hrtc', hfreq]
    split_ifs <;> rfl

end RtcRun

/-- **The virtual RTC**: in every state that a run from power-on leads to, the calls of the running
    process on its RTC follow the laws; and in two such states, of two runs with other processes
    and other calls of theirs, they have the same outcome if the logs are the same. -/
theorem virtual_rtc_of_run {p : Nat} (hp : p < maxProcessNum) {s : RtcRun} (hs : s.Reached p)
    (hruns : s.Runs p) :
    s.Laws p ∧ ∀ p' s', p' < maxProcessNum → RtcRun.Reached p' s' → s'.Runs p' →
      s'.log = s.log → s.SameOutcomes s' :=
  ⟨(hs.ok hp).laws hruns, fun _ _ hp' hs' hruns' hlog =>
    (hs.ok hp).sameOutcomes hruns (hs'.ok hp') hruns' hlog⟩

/-- `rtc` -/
def rtcName : CString := ⟨[114, 116, 99], by decide⟩

/-- An image with a shell and an RTC. -/
def rtcImage : Image where
  bytes a :=
    if a = 0 then 2
    else if a = 4 ∨ a = 8 then 1
    else if 64 ≤ a ∧ a < 96 then shellName.byte (a - 64)
    else if a = 96 then 2
    else if 128 ≤ a ∧ a < 160 then rtcName.byte (a - 128)
    else if a = 4096 then 4
    else if 8192 ≤ a ∧ a < 8196 then elfMagic.byte (a - 8192)
    else 0

/-- The first shell opens the RTC, sets it to 1024 Hz, waits for a tick and asks for 3 Hz. -/
def rtcSession : List KernelEvent :=
  [.tick (fun _ => 0) ⟨0, 0⟩, .open (some rtcName),
    .write 2 (some fun i => if i = 1 then 4 else 0) 4, .rtcInterrupt, .read 2 (some fun _ => 0) 4,
    .write 2 (some fun i => if i = 0 then 3 else 0) 4]

theorem virtual_rtc_of_run_session :
    ∃ s, exec (rtcStep 0) ⟨Kernel.powerOn rtcImage, []⟩ rtcSession = some s ∧
      s.log = [.open, .write 1024 4, .interrupt, .read, .write 3 4] ∧ s.Laws 0 ∧
      ∀ p' s', p' < maxProcessNum → RtcRun.Reached p' s' → s'.Runs p' →
        s'.log = s.log → s.SameOutcomes s' := by
  have hlog : ((exec (rtcStep 0) ⟨Kernel.powerOn rtcImage, []⟩ rtcSession).map fun s =>
      (s.log, s.kernel.currPid, s.kernel.processArray 0)) =
        some ([.open, .write 1024 4, .interrupt, .read, .write 3 4], 0, 1) := by decide +kernel
  obtain ⟨s, hrun, hvalues⟩ := Option.map_eq_some_iff.mp hlog
  obtain ⟨hs, hcurr, hlive⟩ : _ ∧ _ ∧ _ := by simpa only [Prod.mk.injEq] using hvalues
  have hreached : s.Reached 0 := ⟨rtcImage, rtcSession, by decide +kernel, hrun⟩
  exact ⟨s, hrun, hs, virtual_rtc_of_run (by decide) hreached
    ⟨hcurr.symm, by rw [hlive]; decide⟩⟩

end LinuxLikeOs
