import LinuxLikeOs.DescriptorCalls

/-!
# Sequential reads

The reads from one descriptor of a regular file deliver the contents of the file, one piece
behind the other, whatever happens in between.

- `Kernel.read_regular`: one read, by the position of the descriptor
- `readingStep`: one event, with the bytes that the descriptor has delivered
- `sequential_read_of_run`: what was delivered is the start of the file
-/

namespace LinuxLikeOs

open Library

/-! ## One read -/

/-- The descriptor of a regular file. -/
def regularDescriptor (inode position : UInt32) : FileDescriptor :=
  ⟨.table .file, inode, position, inUse⟩

/-- A count that is not negative, as the `uint32_t` that `read_data` gets. -/
theorem toNat_ofInt32 {n : Int} (h0 : 0 ≤ n) (hn : n < 2 ^ 31) : (ofInt32 n).toNat = n.toNat := by
  have hmod : n % 2 ^ 32 = n := Int.emod_eq_of_lt h0 (by omega)
  rw [ofInt32, hmod, UInt32.toNat_ofNat']
  exact Nat.mod_eq_of_lt (by omega)

namespace Kernel

/-- **One read** of a regular file, from a position in the file: it delivers what is left of the
    request, moves the position behind it and touches no other cell of the buffer. -/
theorem read_regular {k : Kernel} {fd : Nat} (hfd : fd < maximumOpenFiles) {inode pos : UInt32}
    (hd : k.files.table fd = regularDescriptor inode pos) (hgood : k.image.GoodInode inode)
    (hpos : pos.toNat ≤ (k.image.inodeLength inode).toNat) (buf : Buffer) {n : Int} (h0 : 0 ≤ n)
    (hn : n < 2 ^ 31) :
    let count := min n.toNat ((k.image.inodeLength inode).toNat - pos.toNat)
    ∃ k', k.read fd (some buf) n = .ret count (some (copyRange buf 0 count fun j =>
        k.image.fileByte inode (pos.toNat + j))) k' ∧
      k'.files = k.files.setFd fd (regularDescriptor inode (pos + ofInt32 count)) := by
  intro count
  have hslot : k.currPcb.slot fd = regularDescriptor inode pos := (slot_eq k hfd).trans hd
  have hlength := hgood.length
  -- the position does not pass the end, and files are far shorter than 2 ^ 32
  have hwrap : pos.toNat + (ofInt32 n).toNat < 2 ^ 32 := by
    rw [toNat_ofInt32 h0 hn]
    simp only [blockSize] at hlength
    omega
  have hread := Image.readData_eq hgood hpos buf hwrap
  rw [toNat_ofInt32 h0 hn, Image.readCount, if_pos hpos] at hread
  -- an entry with the table of files leads to `file_read`
  have hcall : k.read fd (some buf) n = k.fileRead fd (some buf) n :=
    Kernel.read_of_table hfd (congrArg FileDescriptor.flags hd)
      (congrArg FileDescriptor.funcPointer hd) buf n
  refine ⟨k.modifyFd k.currPid fd fun d =>
    -- the bytes come from `read_data`, and the position moves by what it returned
    { d with filePosition := d.filePosition + ofInt32 count }, ?_, ?_⟩
  · rw [hcall, fileRead, hslot]
    simp only [regularDescriptor, hread]
    rfl
  · rw [files_modifyFd, hd]
    rfl

end Kernel

/-! ## The kernel with what a descriptor has delivered -/

/-- The bytes that a call has delivered: as many cells of the buffer as it returned. -/
def SysResult.delivered : SysResult → List UInt8
  | .ret value (some buf) _ => (List.range value.toNat).map buf
  | .ret _ none _ | .blocked | .wild => []

/-- A kernel with the sum of the counts that one descriptor was asked for, and the bytes that it
    has delivered. -/
structure Reading where
  kernel : Kernel
  requested : Nat
  delivered : List UInt8

/-- Record the reads of process `p` from descriptor `fd`. -/
def Reading.record (p fd : Nat) (s : Reading) (k' : Kernel) : KernelEvent → Reading
  | .read fd' buf nbytes =>
    if p = s.kernel.currPid ∧ fd' = fd then
      { kernel := k'
        requested := s.requested + nbytes.toNat
        delivered := s.delivered ++ (s.kernel.read fd' buf nbytes).delivered }
    else { s with kernel := k' }
  | _ => { s with kernel := k' }

/-- One event of the kernel, with the record of the reads. -/
def readingStep (p fd : Nat) (s : Reading) (e : KernelEvent) : Option Reading :=
  (kernelStep s.kernel e).map fun k' => s.record p fd k' e

/-- Process `p` goes on, does not close descriptor `fd`, and reads from it with a buffer and a
    count that is not negative. -/
def KeepsReading (p fd : Nat) (s : Reading) (e : KernelEvent) : Prop :=
  p = s.kernel.currPid →
    match e with
    | .halt .. => False
    | .close fd' => fd' ≠ fd
    | .read fd' buf nbytes => fd' = fd → buf.isSome = true ∧ 0 ≤ nbytes ∧ nbytes < 2 ^ 31
    | _ => True

namespace Reading

/-- The descriptor stands behind what was delivered, and that is the start of the file. -/
structure Ok (p fd : Nat) (img : Image) (inode : UInt32) (s : Reading) : Prop where
  live : s.kernel.processArray p ≠ 0
  image : s.kernel.image = img
  descriptor : ∃ pos : UInt32, s.kernel.files.tables p fd = regularDescriptor inode pos ∧
    pos.toNat = min s.requested (img.inodeLength inode).toNat
  delivered : s.delivered = (img.contents inode).take s.requested

variable {p fd : Nat} {img : Image} {inode : UInt32} {s s' : Reading}

/-- The next piece of a list, cut at its end. -/
private theorem take_append_piece (l : List UInt8) (r n : Nat) :
    l.take r ++ (l.drop (min r l.length)).take (min n (l.length - min r l.length)) =
      l.take (r + n) := by
  rw [List.take_add]
  congr 1
  -- behind the end there is nothing left to take
  by_cases hr : r ≤ l.length
  · rw [Nat.min_eq_left hr, ← List.length_drop, ← List.take_eq_take_min]
  · have hle : l.length ≤ r := Nat.le_of_not_le hr
    rw [Nat.min_eq_right hle, List.drop_of_length_le (Nat.le_refl _),
      List.drop_of_length_le hle, List.take_nil, List.take_nil]

/-- A recorded read goes on where the last one ended. -/
theorem Ok.read (h : s.Ok s.kernel.currPid fd img inode) (hfd : fd < maximumOpenFiles)
    (hgood : img.GoodInode inode) {buf : Option Buffer} {nbytes : Int} (hbuf : buf.isSome = true)
    (h0 : 0 ≤ nbytes) (hn : nbytes < 2 ^ 31) {k' : Kernel}
    (hstep : kernelStep s.kernel (.read fd buf nbytes) = some k') :
    Ok s.kernel.currPid fd img inode
      { kernel := k'
        requested := s.requested + nbytes.toNat
        delivered := s.delivered ++ (s.kernel.read fd buf nbytes).delivered } := by
  obtain ⟨hlive, rfl, ⟨pos, hd, hpos⟩, hdelivered⟩ := h
  obtain ⟨buf, rfl⟩ := Option.isSome_iff_exists.mp hbuf
  have hle : pos.toNat ≤ (s.kernel.image.inodeLength inode).toNat := by
    rw [hpos]
    exact Nat.min_le_right ..
  obtain ⟨k₁, hread, hfiles⟩ := Kernel.read_regular hfd hd hgood hle buf h0 hn
  obtain rfl : k₁ = k' := by
    rw [kernelStep, hread] at hstep
    exact Option.some.inj hstep
  obtain ⟨length, hlength⟩ : ∃ n, n = (s.kernel.image.inodeLength inode).toNat := ⟨_, rfl⟩
  obtain ⟨count, hcount⟩ : ∃ c, c = min nbytes.toNat (length - pos.toNat) := ⟨_, rfl⟩
  rw [← hlength] at hle hpos hread hfiles
  rw [← hcount] at hread hfiles
  -- the count that `read` adds to the position is no negative int
  have hsmall : length < 2 ^ 31 := by
    have hbound := hgood.length
    simp only [← hlength, blockSize] at hbound
    omega
  constructor
  case live => exact (congrFun (congrArg FileState.processArray hfiles) _).trans_ne hlive
  case image => exact congrArg FileState.image hfiles
  case descriptor =>
    refine ⟨pos + ofInt32 count, ?_, ?_⟩
    · exact (congrFun (Kernel.tables_of_setFd hfiles) fd).trans (Function.update_self ..)
    · have hmoved : (ofInt32 count).toNat = count := toNat_ofInt32 (by omega) (by omega)
      rw [UInt32.toNat_add, hmoved, ← hlength]
      dsimp only
      omega
  case delivered =>
    have hbytes : (s.kernel.read fd (some buf) nbytes).delivered =
        ((s.kernel.image.contents inode).drop pos.toNat).take count := by
      rw [hread, SysResult.delivered, Int.toNat_natCast, map_copyRange,
        Image.slice_eq _ _ (by omega)]
    dsimp only
    rw [hbytes, hdelivered, hcount, hpos, hlength, ← Image.length_contents]
    exact take_append_piece ..

/-- **Every event keeps the descriptor behind what it has delivered.** -/
theorem Ok.step (h : s.Ok p fd img inode) (hlow : 2 ≤ fd) (hfd : fd < maximumOpenFiles)
    (hgood : img.GoodInode inode) {e : KernelEvent} (hkeeps : KeepsReading p fd s e)
    (hstep : readingStep p fd s e = some s') : s'.Ok p fd img inode := by
  obtain ⟨k', hk', rfl⟩ := Option.map_eq_some_iff.mp hstep
  obtain ⟨pos, hd, hpos⟩ := h.descriptor
  -- a read of the reader through `fd`, which the ghosts record
  by_cases hread : p = s.kernel.currPid ∧ ∃ buf nbytes, e = .read fd buf nbytes
  · obtain ⟨rfl, buf, nbytes, rfl⟩ := hread
    obtain ⟨hbuf, h0, hn⟩ := hkeeps rfl rfl
    rw [record, if_pos ⟨rfl, rfl⟩]
    exact h.read hfd hgood hbuf h0 hn hk'
  · -- no other event is recorded, or touches the descriptor
    have huse : (s.kernel.files.tables p fd).flags ≠ notUse := by
      rw [hd]
      exact fun hfree => absurd (show inUse = notUse from hfree) (by decide)
    have hgoes (hp : p = s.kernel.currPid) : ¬ e.IsHalt := by
      have hkeep := hkeeps hp
      cases e with
      | halt => exact hkeep.elim
      | _ => exact id
    have hother (hp : p = s.kernel.currPid) (fd' : Int) (heq : fd' = fd) :
        e ≠ .close fd' ∧ ∀ buf nbytes, e ≠ .read fd' buf nbytes := by
      constructor
      · rintro rfl
        exact hkeeps hp heq
      · rintro buf nbytes rfl
        exact hread ⟨hp, buf, nbytes, by rw [heq]⟩
    obtain ⟨himage, hlive, htable⟩ := kernelStep_keepsUnread h.live hlow huse hgoes hother hk'
    have hrecord : s.record p fd k' e = { s with kernel := k' } := by
      cases e with
      | read fd' buf nbytes =>
        exact if_neg fun hboth => hread ⟨hboth.1, buf, nbytes, by rw [hboth.2]⟩
      | _ => rfl
    rw [hrecord]
    constructor
    case live => exact hlive.trans_ne h.live
    case image => exact himage.trans h.image
    case descriptor => exact ⟨pos, htable.trans hd, hpos⟩
    case delivered => exact h.delivered

end Reading

/-! ## From the call of `open` on -/

/-- An `open` that succeeds on a regular file binds a descriptor from 2 on, at position 0. -/
theorem Kernel.open_regular {k₀ k : Kernel} {filename : Option CString} {entry : Dentry}
    {fd : Nat} (hname : ¬ Kernel.StdioName filename)
    (hentry : k₀.image.readDentryByName filename = some entry)
    (hregular : entry.filetype = regularFiletype) (hopen : k₀.open filename = .ret fd none k) :
    2 ≤ fd ∧ fd < maximumOpenFiles ∧
      k.files = k₀.files.setFd fd (regularDescriptor entry.numInode 0) := by
  have hrtc : regularFiletype ≠ rtcFiletype := by decide
  have hdir : regularFiletype ≠ directoryFiletype := by decide
  -- type 2 is the type of a regular file
  have hops : operationsOf entry.filetype = some .file := by
    rw [hregular]
    decide
  obtain ⟨⟨hlow, hlt⟩, -, hfiles⟩ := files_of_open hname hentry hops hopen
  refine ⟨hlow, hlt, ?_⟩
  rw [hfiles]
  congr 1
  simp only [openedDescriptor, bindDentry, hregular, if_neg hrtc, if_neg hdir, if_true,
    regularDescriptor]

/-- The next read from `fd` returns the number of bytes that it delivers, all that are left of
    `contents` up to its count, and touches no other cell of the buffer. -/
def Reading.NextRead (fd : Nat) (contents : List UInt8) (s : Reading) : Prop :=
  ∀ (buf : Buffer) (n : Int), 0 ≤ n → n < 2 ^ 31 → ∃ (count : Nat) (out : Buffer) (k' : Kernel),
    s.kernel.read fd (some buf) n = .ret count (some out) k' ∧
      count = min n.toNat (contents.length - s.delivered.length) ∧
      (List.range count).map out = (contents.drop s.delivered.length).take count ∧
      ∀ j, count ≤ j → out j = buf j

/-- **Sequential reads**: from the call of `open` on, as long as the process goes on and keeps the
    descriptor open, what the descriptor has delivered is the start of the file, as long as all
    the counts together, and the next read goes on from there. -/
theorem sequential_read_of_run {k₀ k : Kernel} {filename : Option CString} {entry : Dentry}
    {fd : Nat} (hlive : k₀.processArray k₀.currPid ≠ 0) (hname : ¬ Kernel.StdioName filename)
    (hentry : k₀.image.readDentryByName filename = some entry)
    (hregular : entry.filetype = regularFiletype) (hgood : k₀.image.GoodInode entry.numInode)
    (hopen : k₀.open filename = .ret fd none k) {es : List KernelEvent} {s : Reading}
    (hkeeps : EachStep (readingStep k₀.currPid fd) (KeepsReading k₀.currPid fd) ⟨k, 0, []⟩ es)
    (hrun : exec (readingStep k₀.currPid fd) ⟨k, 0, []⟩ es = some s) :
    s.delivered = (k₀.image.contents entry.numInode).take s.requested ∧
      (s.kernel.currPid = k₀.currPid →
        s.NextRead fd (k₀.image.contents entry.numInode)) := by
  obtain ⟨hlow, hfd, hfiles⟩ := Kernel.open_regular hname hentry hregular hopen
  have htable := Kernel.tables_of_setFd hfiles
  -- right after `open` nothing is requested and the position is 0
  have hstart : Reading.Ok k₀.currPid fd k₀.image entry.numInode ⟨k, 0, []⟩ := by
    refine ⟨(congrFun (congrArg FileState.processArray hfiles) _).trans_ne hlive,
      congrArg FileState.image hfiles, ⟨0, ?_, ?_⟩, rfl⟩
    · exact (congrFun htable fd).trans (Function.update_self ..)
    · exact (Nat.zero_min _).symm
  -- every event keeps the invariant, so it holds at the end of the run
  have hok : s.Ok k₀.currPid fd k₀.image entry.numInode := exec_invariant_of_eachStep
    (fun _ _ _ h hc hstep => Reading.Ok.step h hlow hfd hgood hc hstep) hstart hkeeps hrun
  refine ⟨hok.delivered, fun hcurr buf n h0 hn => ?_⟩
  -- the next read starts at the position, which is what was delivered so far
  obtain ⟨pos, hd, hpos⟩ := hok.descriptor
  have hlength : s.delivered.length = pos.toNat := by
    rw [hok.delivered, List.length_take, Image.length_contents, hpos]
  rw [← hcurr] at hd
  have hgood' := hgood
  rw [← hok.image] at hgood' hpos
  obtain ⟨k', hread, -⟩ := Kernel.read_regular hfd hd hgood' (hpos ▸ Nat.min_le_right ..) buf h0 hn
  refine ⟨_, _, k', hread, ?_, ?_, fun j hj => if_neg (by omega)⟩
  · rw [Image.length_contents, hlength, hok.image]
  · -- what it stores is the next piece of the contents
    rw [map_copyRange, hlength, ← hok.image, Image.slice_eq]
    rw [hpos]
    omega

/-- The shell with its own file open. -/
def openedShell : Kernel := (startedShell.open (some shellName)).kernel?.getD startedShell

/-- It reads three bytes, opens the file again, reads a byte from there, is switched out and in,
    and reads three bytes more. -/
def shellReads : List KernelEvent :=
  let tick := KernelEvent.tick (fun _ => 0) ⟨0, 0⟩
  [.read 2 (some fun _ => 0) 3, .open (some shellName), .read 3 (some fun _ => 0) 1, tick, tick,
    tick, .read 2 (some fun _ => 0) 3]

/-- Six bytes were asked for; the file has four. -/
theorem sequential_read_of_run_shell :
    ∃ s, exec (readingStep startedShell.currPid 2) ⟨openedShell, 0, []⟩ shellReads = some s ∧
      s.requested = 6 ∧
      s.delivered = (startedShell.image.contents (shellImage.dentry 0).numInode).take s.requested ∧
      (s.kernel.currPid = startedShell.currPid →
        s.NextRead 2 (startedShell.image.contents (shellImage.dentry 0).numInode)) := by
  have hname : ¬ Kernel.StdioName (some shellName) := by
    rintro ⟨name, heq, hstd⟩
    obtain rfl := Option.some.inj heq
    exact absurd hstd (by decide)
  have hentry : startedShell.image.readDentryByName (some shellName) = some (shellImage.dentry 0) :=
    readDentryByName_shellImage
  have hfile : (shellImage.dentry 0).filetype = regularFiletype := by decide +kernel
  have hopen : startedShell.open (some shellName) = .ret (2 : Nat) none openedShell := by
    have hops : operationsOf (shellImage.dentry 0).filetype = some .file := by decide +kernel
    obtain ⟨hin, hout⟩ := Kernel.not_stdioName hname
    exact Kernel.open_eq_ret hin hout hentry
      (show startedShell.lowestFree = some 2 by decide +kernel)
      (Kernel.bindDentry_funcPointer hops _)
  have hkeeps : EachStep (readingStep startedShell.currPid 2) (KeepsReading startedShell.currPid 2)
      ⟨openedShell, 0, []⟩ shellReads := by
    simp [shellReads, EachStep, KeepsReading]
  -- the reads ask for six bytes in all
  obtain ⟨s, hrun⟩ := Option.isSome_iff_exists.mp (show (exec
    (readingStep startedShell.currPid 2) ⟨openedShell, 0, []⟩ shellReads).isSome = true by
      decide +kernel)
  have hsum : ((exec (readingStep startedShell.currPid 2) ⟨openedShell, 0, []⟩ shellReads).map
      Reading.requested) = some 6 := by decide +kernel
  rw [hrun] at hsum
  have hlive : startedShell.processArray startedShell.currPid ≠ 0 := by decide +kernel
  exact ⟨s, hrun, Option.some.inj hsum, sequential_read_of_run hlive hname hentry hfile
    goodInode_shellImage hopen hkeeps hrun⟩

end LinuxLikeOs
