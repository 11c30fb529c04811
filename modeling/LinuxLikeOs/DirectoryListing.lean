import LinuxLikeOs.Devices
import LinuxLikeOs.DirectoryNames
import LinuxLikeOs.SequentialRead

/-!
# Listing a directory

The index of the entry that `dir_read` returns next is a global: `dir_open` sets it to 0 and
every read on any directory descriptor advances it.

- `Kernel.read_directory`: one read, by the global index
- `listingStep`: one event, with the number of directory reads since a directory was opened last
  and the number of reads on one descriptor
- `directory_listing_of_run`: as long as these two agree, the descriptor lists the directory
-/

namespace LinuxLikeOs

open Library

/-! ## The length of a name -/

namespace Dentry

/-- `strlen` stops at the first zero of the entry. -/
theorem nameLength_stop (d : Dentry) :
    (∀ i < Kernel.nameLength d, d.bytes i ≠ 0) ∧
      (Kernel.nameLength d < 64 → d.bytes (Kernel.nameLength d) = 0) :=
  (getD_find?_range_spec 64 fun i => d.bytes i = 0).2

/-- `strlen` finds the end of the name, or runs on behind a name that fills its field. -/
theorem nameLength_spec (d : Dentry) :
    Kernel.nameLength d = d.nameEnd ∨
      d.nameEnd = maximumFilenameLength ∧ maximumFilenameLength ≤ Kernel.nameLength d := by
  obtain ⟨hle, hchars, hend⟩ := d.nameEnd_spec
  obtain ⟨hnonzero, hstop⟩ := d.nameLength_stop
  have hfield : maximumFilenameLength = 32 := rfl
  -- no terminator comes before the end of the name
  have hlow : d.nameEnd ≤ Kernel.nameLength d :=
    Nat.le_of_not_lt fun hlt => hchars _ hlt (hstop (by omega))
  by_cases hshort : d.nameEnd < maximumFilenameLength
  · exact .inl (Nat.le_antisymm (Nat.le_of_not_lt fun hlt => hnonzero _ hlt (hend hshort)) hlow)
  · have hfull : d.nameEnd = maximumFilenameLength := Nat.le_antisymm hle (Nat.le_of_not_lt hshort)
    exact .inr ⟨hfull, hfull ▸ hlow⟩

/-- The name as `strncpy` copies it. -/
theorem map_strncpy_filename (d : Dentry) (buf : Buffer) (n : Nat) :
    (List.range (min n d.name.length)).map (strncpy buf d.filename n) = d.name.take n := by
  obtain ⟨-, hchars, -⟩ := d.nameEnd_spec
  refine List.ext_getElem? fun i => ?_
  -- the letters of the name, and nothing behind them
  by_cases hi : i < min n d.name.length
  · obtain ⟨hin, hname⟩ := Nat.lt_min.mp hi
    rw [length_name] at hname
    have hcopied : strncpy buf d.filename n i = d.filename i := by
      rw [strncpy, if_pos hin, if_pos fun j hj => hchars j (Nat.lt_of_le_of_lt hj hname)]
    rw [List.getElem?_map, List.getElem?_range hi, Option.map_some, hcopied,
      List.getElem?_take_of_lt hin, name, List.getElem?_map, List.getElem?_range hname,
      Option.map_some]
  · rw [List.getElem?_eq_none
        (by rw [List.length_map, List.length_range]; exact Nat.le_of_not_lt hi),
      List.getElem?_eq_none (by rw [List.length_take]; exact Nat.le_of_not_lt hi)]

end Dentry

/-! ## One read -/

namespace Kernel

/-- Descriptor `fd` of process `p` is open on a directory. -/
structure OpenDirectory (k : Kernel) (p fd : Nat) : Prop where
  flags : (k.files.tables p fd).flags = inUse
  operations : (k.files.tables p fd).funcPointer = .table .dir

/-- A read with a buffer from an open directory is `dir_read`. -/
theorem OpenDirectory.read_eq {k : Kernel} {fd : Nat} (h : k.OpenDirectory k.currPid fd)
    (hfd : fd < maximumOpenFiles) (buf : Buffer) (nbytes : Int) :
    k.read fd (some buf) nbytes = k.dirRead (some buf) nbytes :=
  Kernel.read_of_table hfd h.flags h.operations buf nbytes

/-- The read of a directory returns the name of entry `i`, cut to `nbytes`; behind the last entry
    it returns 0. -/
def ReturnsEntry (k : Kernel) (fd : Nat) (buf : Buffer) (nbytes : Int) (i : Nat) : Prop :=
  if i < k.image.numDentry.toNat then
    ∃ out k', k.read fd (some buf) nbytes =
        .ret (min nbytes.toNat (k.image.dentry i).name.length : Nat) (some out) k' ∧
      (List.range (min nbytes.toNat (k.image.dentry i).name.length)).map out =
        (k.image.dentry i).name.take nbytes.toNat
  else ∃ k', k.read fd (some buf) nbytes = .ret 0 (some buf) k'

/-- The value of such a read. -/
theorem ReturnsEntry.value?_eq {k : Kernel} {fd : Nat} {buf : Buffer} {nbytes : Int} {i : Nat}
    (h : k.ReturnsEntry fd buf nbytes i) (hi : i < k.image.numDentry.toNat) :
    (k.read fd (some buf) nbytes).value? =
      some (min nbytes.toNat (k.image.dentry i).name.length : Nat) := by
  rw [ReturnsEntry, if_pos hi] at h
  obtain ⟨out, k', hread, -⟩ := h
  rw [hread]
  rfl

/-- **One read** returns the entry at the global index, if the request does not go beyond a name
    that fills its field. -/
theorem read_directory {k : Kernel} {fd : Nat} (h : k.OpenDirectory k.currPid fd)
    (hfd : fd < maximumOpenFiles) (buf : Buffer) {nbytes : Int} (h0 : 0 < nbytes)
    (hn : nbytes < 2 ^ 31)
    (hname : k.dirReadnum < k.image.numDentry.toNat → nbytes ≤ maximumFilenameLength ∨
      nameLength (k.image.dentry k.dirReadnum) ≤ maximumFilenameLength) :
    k.ReturnsEntry fd buf nbytes k.dirReadnum := by
  have hread := h.read_eq hfd buf nbytes
  unfold ReturnsEntry
  by_cases hend : k.dirReadnum ≥ k.image.numDentry.toNat
  · rw [if_neg (Nat.not_lt.mpr hend)]
    exact ⟨k, by rw [hread, dirRead, if_pos hend]⟩
  · have hin := Nat.lt_of_not_le hend
    rw [if_pos hin]
    refine ⟨strncpy buf (k.image.dentry k.dirReadnum).filename (ofInt32 nbytes).toNat,
      { k with dirReadnum := k.dirReadnum + 1 }, ?_, ?_⟩
    · -- `dir_read` counts the letters itself, up to what was asked for
      have hvalue : (if nbytes ≤ nameLength (k.image.dentry k.dirReadnum) then nbytes
          else (nameLength (k.image.dentry k.dirReadnum) : Int)) =
            (min nbytes.toNat (k.image.dentry k.dirReadnum).name.length : Nat) := by
        have hcount := hname hin
        have hspec := (k.image.dentry k.dirReadnum).nameLength_spec
        rw [Dentry.length_name]
        split_ifs <;> omega
      rw [hread, dirRead, if_neg hend, Image.readDentryByIndex, if_neg hend]
      simp only [hvalue]
    · rw [toNat_ofInt32 (Int.le_of_lt h0) hn]
      exact Dentry.map_strncpy_filename ..

end Kernel

/-! ## The kernel with the counts of the reads -/

/-- A kernel with the number of directory reads, on all descriptors, since a directory was opened
    last, and the number of reads on one of them since it was opened. -/
structure Listing where
  kernel : Kernel
  listed : Nat
  count : Nat

/-- A read from descriptor `fd`. -/
def KernelEvent.IsReadOf (fd : Nat) : KernelEvent → Prop
  | .read fd' _ _ => fd' = fd
  | _ => False

instance (fd : Nat) (e : KernelEvent) : Decidable (e.IsReadOf fd) := by
  unfold KernelEvent.IsReadOf
  split <;> infer_instance

/-- Record the directory reads, and the reads of process `p` from descriptor `fd`. -/
def Listing.record (p fd : Nat) (s : Listing) (k' : Kernel) (e : KernelEvent) : Listing where
  kernel := k'
  listed :=
    match s.kernel.deviceAction e with
    | .openDir => 0
    | .readDir _ => s.listed + 1
    | _ => s.listed
  count := if p = s.kernel.currPid ∧ e.IsReadOf fd then s.count + 1 else s.count

/-- One event of the kernel, with the record of the reads. -/
def listingStep (p fd : Nat) (s : Listing) (e : KernelEvent) : Option Listing :=
  (kernelStep s.kernel e).map fun k' => s.record p fd k' e

/-- Process `p` goes on, does not close descriptor `fd`, and reads from it with a buffer and a
    positive count. -/
def KeepsListing (p fd : Nat) (s : Listing) (e : KernelEvent) : Prop :=
  p = s.kernel.currPid →
    match e with
    | .halt .. => False
    | .close fd' => fd' ≠ fd
    | .read fd' buf nbytes => fd' = fd → buf.isSome = true ∧ 0 < nbytes ∧ nbytes < 2 ^ 31
    | _ => True

/-- A read of process `p` from `fd` finds the counts in step, and a request that does not go
    beyond a name that fills its field. -/
def InStep (p fd : Nat) (s : Listing) : KernelEvent → Prop
  | .read fd' _ nbytes => p = s.kernel.currPid → fd' = fd →
    min s.listed s.kernel.image.numDentry.toNat = min s.count s.kernel.image.numDentry.toNat ∧
      (s.count < s.kernel.image.numDentry.toNat → nbytes ≤ maximumFilenameLength ∨
        Kernel.nameLength (s.kernel.image.dentry s.count) ≤ maximumFilenameLength)
  | _ => True

instance (p fd : Nat) (s : Listing) : ∀ e, Decidable (InStep p fd s e)
  | .read fd' _ nbytes => inferInstanceAs (Decidable (p = s.kernel.currPid → fd' = fd →
    min s.listed s.kernel.image.numDentry.toNat = min s.count s.kernel.image.numDentry.toNat ∧
      (s.count < s.kernel.image.numDentry.toNat → nbytes ≤ maximumFilenameLength ∨
        Kernel.nameLength (s.kernel.image.dentry s.count) ≤ maximumFilenameLength)))
  | .tick .. | .key _ | .rtcInterrupt | .switch _ | .execute .. | .halt .. | .write .. | .open _
  | .close _ | .getargs .. | .vidmap _ => isTrue trivial

/-- A read of process `p` from `fd` returns the entry whose number is the count of the reads
    before it. -/
def ReturnsNext (p fd : Nat) (s : Listing) : KernelEvent → Prop
  | .read fd' (some buf) nbytes => p = s.kernel.currPid → fd' = fd →
    s.kernel.ReturnsEntry fd buf nbytes s.count
  | _ => True

namespace Listing

/-- The descriptor is open on the directory, and the global index is the number of directory
    reads. -/
structure Ok (p fd : Nat) (s : Listing) : Prop where
  live : s.kernel.processArray p ≠ 0
  descriptor : s.kernel.OpenDirectory p fd
  cursor : s.kernel.dirReadnum = min s.listed s.kernel.image.numDentry.toNat

/-- The directory reads of an event are reads of the image. -/
private theorem deviceAction_readDir {k : Kernel} {e : KernelEvent} {n : Nat}
    (h : k.deviceAction e = .readDir n) : n = k.image.numDentry.toNat := by
  -- only `dir_read` counts the index up, and up to the number of entries
  cases e with
  | read fd buf nbytes =>
    simp only [Kernel.deviceAction] at h
    split at h
    · cases h
    · exact (DeviceAction.readDir.inj h).symm
    · cases h
  | write fd buf nbytes =>
    simp only [Kernel.deviceAction, Kernel.rtcWriteAction] at h
    split at h
    · split at h
      · cases h
      · split_ifs at h
    · cases h
  | «open» | close =>
    simp only [Kernel.deviceAction] at h
    split at h <;> cases h
  | tick | key | rtcInterrupt | switch | execute | halt | getargs | vidmap => cases h

variable {p fd : Nat} {s s' : Listing}

/-- **Every event keeps the index** in step with the directory reads. -/
theorem Ok.step (h : s.Ok p fd) (hlow : 2 ≤ fd) {e : KernelEvent} (hkeeps : KeepsListing p fd s e)
    (hstep : listingStep p fd s e = some s') : s'.Ok p fd := by
  obtain ⟨k', hk', rfl⟩ := Option.map_eq_some_iff.mp hstep
  have huse : (s.kernel.files.tables p fd).flags ≠ notUse := by
    rw [h.descriptor.flags]
    decide
  -- the process neither ends nor closes the descriptor
  have hopen : p = s.kernel.currPid → ¬ e.IsHalt ∧ ∀ fd' : Int, e = .close fd' → fd' ≠ fd := by
    intro hp
    have hkeep := hkeeps hp
    cases e with
    | halt => exact hkeep.elim
    | close fd' =>
      refine ⟨id, fun fd'' heq => ?_⟩
      obtain rfl := KernelEvent.close.inj heq
      exact hkeep
    | _ => exact ⟨id, fun _ heq => KernelEvent.noConfusion heq⟩
  obtain ⟨himage, hlive, pos, htable⟩ := kernelStep_keepsDescriptor h.live hlow huse hopen hk'
  have hdevices := congrArg DeviceState.dirReadnum (kernelStep_devices hk')
  constructor
  case live => exact hlive.trans_ne h.live
  case descriptor =>
    exact ⟨(congrArg FileDescriptor.flags htable).trans h.descriptor.flags,
      (congrArg FileDescriptor.funcPointer htable).trans h.descriptor.operations⟩
  case cursor =>
    have hcursor := h.cursor
    simp only [record, himage]
    cases haction : s.kernel.deviceAction e with
    | openDir =>
      rw [haction] at hdevices
      exact hdevices.trans (Nat.zero_min _).symm
    | readDir n =>
      rw [haction] at hdevices
      obtain rfl := deviceAction_readDir haction
      refine hdevices.trans ?_
      show (if s.kernel.dirReadnum ≥ s.kernel.image.numDentry.toNat then s.kernel.dirReadnum
        else s.kernel.dirReadnum + 1) = min (s.listed + 1) s.kernel.image.numDentry.toNat
      -- the index and the number of reads reach the end of the directory together
      split_ifs with hend
      · have hlisted : s.kernel.image.numDentry.toNat ≤ s.listed := by omega
        rw [hcursor, Nat.min_eq_right hlisted, Nat.min_eq_right (Nat.le_succ_of_le hlisted)]
      · have hlisted : s.listed < s.kernel.image.numDentry.toNat := by omega
        rw [hcursor, Nat.min_eq_left (Nat.le_of_lt hlisted), Nat.min_eq_left hlisted]
    | interrupt | openRtc | readRtc | writeRtc | resetRtc | other =>
      rw [haction] at hdevices
      exact hdevices.trans hcursor

/-- A read that finds the counts in step returns the next entry. -/
theorem Ok.returnsNext (h : s.Ok p fd) (hfd : fd < maximumOpenFiles) {e : KernelEvent}
    (hkeeps : KeepsListing p fd s e) (hin : InStep p fd s e) : ReturnsNext p fd s e := by
  cases e with
  | read fd' buf nbytes =>
    cases buf with
    | none => trivial
    | some buf =>
      intro hp hsame
      obtain ⟨-, h0, hn⟩ := hkeeps hp hsame
      obtain ⟨hcounts, hname⟩ := hin hp hsame
      have hdescriptor := h.descriptor
      rw [hp] at hdescriptor
      have hcursor := h.cursor
      -- the global index is the number of reads on this descriptor
      by_cases hleft : s.count < s.kernel.image.numDentry.toNat
      · have hindex : s.kernel.dirReadnum = s.count := by omega
        have hread := Kernel.read_directory hdescriptor hfd buf h0 hn
          (by rw [hindex]; exact hname)
        rwa [hindex] at hread
      · -- both are behind the last entry
        have hend : ¬ s.kernel.dirReadnum < s.kernel.image.numDentry.toNat := by omega
        have hread := Kernel.read_directory hdescriptor hfd buf h0 hn fun h => absurd h hend
        rw [Kernel.ReturnsEntry, if_neg hend] at hread
        rw [Kernel.ReturnsEntry, if_neg hleft]
        exact hread
  | _ => trivial

end Listing

/-! ## From the call of `open` on -/

/-- An `open` that succeeds on a directory binds a descriptor from 2 on and starts the listing. -/
theorem Kernel.open_directory {k₀ k : Kernel} {filename : Option CString} {entry : Dentry}
    {fd : Nat} (hname : ¬ Kernel.StdioName filename)
    (hentry : k₀.image.readDentryByName filename = some entry)
    (hdir : entry.filetype = directoryFiletype) (hopen : k₀.open filename = .ret fd none k) :
    2 ≤ fd ∧ fd < maximumOpenFiles ∧ k.processArray = k₀.processArray ∧
      k.OpenDirectory k₀.currPid fd ∧ k.dirReadnum = 0 := by
  have hops : operationsOf entry.filetype = some .dir := by
    rw [hdir]
    decide
  obtain ⟨⟨hlow, hlt⟩, hfree, hfiles⟩ := files_of_open hname hentry hops hopen
  have hptr := bindDentry_funcPointer hops (k₀.files.table fd)
  have htable : k.files.tables k₀.currPid fd = openedDescriptor entry (k₀.files.table fd) :=
    (congrFun (tables_of_setFd hfiles) fd).trans (Function.update_self ..)
  -- opening a directory is what sets the index back to 0
  have haction : k₀.deviceAction (.open filename) = .openDir := by
    cases filename with
    | none => cases hentry
    | some name =>
      have hstd := not_or.mpr (Kernel.not_stdioName hname)
      have hopened : k₀.openedTable (some name) = some .dir := by
        simp only [openedTable, Option.bind_some, if_neg hstd, hentry, hfree]
        exact congrArg table? hptr
      simp only [deviceAction, hopened]
  have hdevices : k.devices = k₀.devices.apply (k₀.deviceAction (.open filename)) :=
    devices_open (by rw [hopen]; rfl)
  rw [haction] at hdevices
  refine ⟨hlow, hlt, congrArg FileState.processArray hfiles, ⟨?_, ?_⟩,
    congrArg DeviceState.dirReadnum hdevices⟩
  · rw [htable]
    rfl
  · rw [htable]
    exact hptr

/-- **Listing a directory**: from the call of `open` on, as long as the process goes on and keeps
    the descriptor open, its reads return the names of the entries one after the other and then 0,
    if each of them finds that the directory reads on all descriptors since a directory was opened
    last are as many as its own. -/
theorem directory_listing_of_run {k₀ k : Kernel} {filename : Option CString} {entry : Dentry}
    {fd : Nat} (hlive : k₀.processArray k₀.currPid ≠ 0) (hname : ¬ Kernel.StdioName filename)
    (hentry : k₀.image.readDentryByName filename = some entry)
    (hdir : entry.filetype = directoryFiletype) (hopen : k₀.open filename = .ret fd none k)
    {es : List KernelEvent}
    (hkeeps : EachStep (listingStep k₀.currPid fd) (KeepsListing k₀.currPid fd) ⟨k, 0, 0⟩ es)
    (hin : EachStep (listingStep k₀.currPid fd) (InStep k₀.currPid fd) ⟨k, 0, 0⟩ es) :
    EachStep (listingStep k₀.currPid fd) (ReturnsNext k₀.currPid fd) ⟨k, 0, 0⟩ es := by
  obtain ⟨hlow, hfd, harray, hdescriptor, hcursor⟩ := Kernel.open_directory hname hentry hdir hopen
  -- right after `open` no entry has been read
  have hstart : Listing.Ok k₀.currPid fd ⟨k, 0, 0⟩ := by
    refine ⟨?_, hdescriptor, hcursor.trans (Nat.zero_min _).symm⟩
    rw [harray]
    exact hlive
  exact eachStep_of_invariant (fun _ _ _ h hc hstep => Listing.Ok.step h hlow hc.1 hstep)
    (fun _ _ _ h hc _ => h.returnsNext hfd hc.1 hc.2) hstart (hkeeps.and hin)

theorem not_stdioName_dotName : ¬ Kernel.StdioName (some dotName) := by
  rintro ⟨name, heq, hstd⟩
  obtain rfl := Option.some.inj heq
  exact absurd hstd (by decide)

/-- The last root shell, after it has opened `.` once and twice. -/
def openedDot : Kernel := (sampleKernel.open (some dotName)).kernel?.getD sampleKernel
def openedDotTwice : Kernel := (openedDot.open (some dotName)).kernel?.getD openedDot

/-- Opening `.` on a free descriptor. -/
theorem open_dotName (k : Kernel) (fd : Nat)
    (htype : (k.image.readDentryByName (some dotName)).map Dentry.filetype =
      some directoryFiletype) (hfree : k.lowestFree = some fd) :
    ∃ entry, k.image.readDentryByName (some dotName) = some entry ∧
      entry.filetype = directoryFiletype ∧
      k.open (some dotName) = .ret fd none ((k.open (some dotName)).kernel?.getD k) := by
  obtain ⟨entry, hentry, hdir⟩ := Option.map_eq_some_iff.mp htype
  obtain ⟨hin, hout⟩ := Kernel.not_stdioName not_stdioName_dotName
  have hops : operationsOf entry.filetype = some .dir := by
    rw [hdir]
    decide
  exact ⟨entry, hentry, hdir,
    Kernel.open_eq_ret hin hout hentry hfree (Kernel.bindDentry_funcPointer hops _)⟩

/-- Two reads of the listing. -/
theorem directory_listing_of_run_dot :
    EachStep (listingStep sampleKernel.currPid 2) (ReturnsNext sampleKernel.currPid 2)
      ⟨openedDot, 0, 0⟩ [.read 2 (some fun _ => 0) 32, .read 2 (some fun _ => 0) 32] := by
  obtain ⟨entry, hentry, hdir, hopen⟩ := open_dotName sampleKernel 2
    (by decide +kernel) (by decide +kernel)
  exact directory_listing_of_run (by decide +kernel) not_stdioName_dotName hentry hdir hopen
    (by simp [EachStep, KeepsListing]) (by decide +kernel)

/-- A read of the first descriptor between the second `open` and its first read: that read
    returns the five characters of the second entry instead of the one of the first. -/
theorem directory_listing_skips_entry :
    ∃ entry, openedDot.image.readDentryByName (some dotName) = some entry ∧
      entry.filetype = directoryFiletype ∧
      openedDot.open (some dotName) = .ret (3 : Nat) none openedDotTwice ∧
      EachStep (listingStep openedDot.currPid 3) (KeepsListing openedDot.currPid 3)
        ⟨openedDotTwice, 0, 0⟩
        [.read 2 (some fun _ => 0) 33, .read (3 : Nat) (some fun _ => 0) 33] ∧
      ¬ EachStep (listingStep openedDot.currPid 3) (ReturnsNext openedDot.currPid 3)
        ⟨openedDotTwice, 0, 0⟩
        [.read 2 (some fun _ => 0) 33, .read (3 : Nat) (some fun _ => 0) 33] := by
  obtain ⟨entry, hentry, hdir, hopen⟩ := open_dotName openedDot 3
    (by decide +kernel) (by decide +kernel)
  refine ⟨entry, hentry, hdir, hopen, by simp [EachStep, KeepsListing], fun hnext => ?_⟩
  -- a read through descriptor 2 before the first one through descriptor 3
  have hfirst : (listingStep openedDot.currPid 3 ⟨openedDotTwice, 0, 0⟩
      (.read 2 (some fun _ => 0) 33)).map (fun s =>
        (decide (openedDot.currPid = s.kernel.currPid ∧ s.count < s.kernel.image.numDentry.toNat),
          (s.kernel.read (3 : Nat) (some fun _ => 0) 33).value?,
          (s.kernel.image.dentry s.count).name.length)) = some (true, some 5, 1) := by
    decide +kernel
  obtain ⟨s, hs, hvalues⟩ := Option.map_eq_some_iff.mp hfirst
  obtain ⟨hhere, hvalue, hlength⟩ : _ ∧ _ ∧ _ := by simpa only [Prod.mk.injEq] using hvalues
  obtain ⟨hcurr, hcount⟩ := of_decide_eq_true hhere
  obtain ⟨out, k', hread⟩ := SysResult.eq_ret_of_value? hvalue
  -- which therefore returns the second name, and not the first
  have hsecond : listingStep openedDot.currPid 3 s (.read (3 : Nat) (some fun _ => 0) 33) =
      some (s.record openedDot.currPid 3 k' (.read (3 : Nat) (some fun _ => 0) 33)) := by
    rw [listingStep, kernelStep, hread]
    rfl
  have hentry := (((hnext s hs).2 _ hsecond).1 hcurr rfl).value?_eq hcount
  rw [hvalue, hlength] at hentry
  exact absurd hentry (by decide)

end LinuxLikeOs
