import Mathlib.Data.List.Find
import LinuxLikeOs.Library.Dialogue
import LinuxLikeOs.Arguments
import LinuxLikeOs.DirectoryListing
import LinuxLikeOs.KernelConsole
import LinuxLikeOs.ProcessCalls
import LinuxLikeOs.Startup

/-!
# A user program and the kernel

What a program sees of the kernel that runs it together with other programs: its arguments, its open
files and what it has written.

- `Kernel.call`: a system call that returns to the program
- `userHost`: the kernel with a program of process `p`, as a host of its calls
- `Session`, `Session.answer`: the machine that the program sees
- `userHost_simulates`: it answers as the kernel does, whatever the other programs do
-/

namespace LinuxLikeOs

open Library

/-! ## The kernel as a host of calls -/

theorem KernelEvent.IsFileCall.isSystemCall {e : KernelEvent} (h : e.IsFileCall) :
    e.IsSystemCall := by
  cases e with
  | read | write | «open» | close => trivial
  | _ => exact h.elim

theorem KernelEvent.IsHalt.isSystemCall {e : KernelEvent} (h : e.IsHalt) : e.IsSystemCall := by
  cases e with
  | halt => trivial
  | _ => exact h.elim

/-- What a system call gives back: its value and the caller's buffer. -/
abbrev Reply := Int × Option Buffer

def SysResult.reply? : SysResult → Option (Reply × Kernel)
  | .ret value buf k => some ((value, buf), k)
  | .blocked | .wild => none

/-- A system call that returns; `none` while it waits. -/
def Kernel.call (k : Kernel) : KernelEvent → Option (Reply × Kernel)
  | .read fd buf nbytes => (k.read fd buf nbytes).reply?
  | .write fd buf nbytes => (k.write fd buf nbytes).reply?
  | .open filename => (k.open filename).reply?
  | .close fd => (k.close fd).reply?
  | .getargs buf nbytes => some (k.getargs buf nbytes, k)
  | .vidmap screenStart => some (((k.vidmap screenStart).1, none), (k.vidmap screenStart).2)
  | .execute .. | .halt .. | .tick .. | .key _ | .rtcInterrupt | .switch _ => none

theorem SysResult.kernel?_of_reply? {r : SysResult} {reply : Reply} {k' : Kernel}
    (h : r.reply? = some (reply, k')) : r.kernel? = some k' := by
  cases r with
  | ret value buf k =>
    obtain rfl := (Prod.mk.inj (Option.some.inj h)).2
    rfl
  | blocked | wild => cases h

/-- Such a call is an event of the kernel. -/
theorem kernelStep_of_call {k k' : Kernel} {e : KernelEvent} {reply : Reply}
    (h : k.call e = some (reply, k')) : kernelStep k e = some k' := by
  cases e with
  | read | write | «open» | close => exact SysResult.kernel?_of_reply? h
  | getargs | vidmap =>
    obtain rfl := (Prod.mk.inj (Option.some.inj h)).2
    rfl
  | execute | halt | tick | key | rtcInterrupt | switch => cases h

/-- The bytes that a console event writes for a program. -/
def ConsoleEvent.written : ConsoleEvent → List UInt8
  | .tty (.write _ (some buf) nbytes) => (List.range nbytes.toNat).map buf
  | _ => []

/-- The bytes that an event writes to the terminal of the running program. -/
def Kernel.written (k : Kernel) (e : KernelEvent) : List UInt8 :=
  (consoleEvents k e).flatMap ConsoleEvent.written

/-- An event that opens or reads a directory. -/
def Kernel.ListsDirectory (k : Kernel) (e : KernelEvent) : Prop :=
  (k.devices.apply (k.deviceAction e)).dirReadnum ≠ k.devices.dirReadnum

instance (k : Kernel) (e : KernelEvent) : Decidable (k.ListsDirectory e) :=
  inferInstanceAs (Decidable (_ ≠ _))

/-- A kernel with what one of its programs has written to the terminal. -/
structure UserRun where
  kernel : Kernel
  output : List UInt8

/-- The kernel and a program that runs as process `p`.  With `alone` no other program moves on the
    index of the directory. -/
def userHost (p : Nat) (alone : Bool) : Host UserRun KernelEvent KernelEvent Reply where
  step x e :=
    if p = x.kernel.currPid ∧ e.IsSystemCall ∨ alone = true ∧ x.kernel.ListsDirectory e then none
    else (kernelStep x.kernel e).map fun k => { x with kernel := k }
  ready x := p = x.kernel.currPid
  perform x e :=
    if p = x.kernel.currPid then
      (x.kernel.call e).map fun y => (y.1, ⟨y.2, x.output ++ x.kernel.written e⟩)
    else none

/-! ## What the program sees -/

/-- What a name stands for. -/
inductive Found where
  | nothing
  | file (contents : List UInt8)
  | directory
deriving DecidableEq

/-- An open file: a regular one with what is left to read, or the directory. -/
inductive Handle where
  | file (rest : List UInt8)
  | directory

/-- The files of the system as far as they are known, the program's arguments and open files, the
    names that reading the directory will still return, and the output. -/
structure Session where
  disk : CString → Option Found
  entries : Option (List CString)
  args : Buffer
  handles : Nat → Option Handle
  listing : Option (List CString)
  output : List UInt8

namespace Session

/-- The descriptor that `open` takes. -/
def lowestFree (s : Session) : Option Nat :=
  (List.range maximumOpenFiles).find? fun fd => 2 ≤ fd ∧ (s.handles fd).isNone = true

theorem two_le_of_lowestFree (s : Session) {fd : Nat} (h : s.lowestFree = some fd) : 2 ≤ fd := by
  rw [lowestFree] at h
  have hfound := List.find?_some h
  exact (of_decide_eq_true hfound).1

/-- Open a file. -/
def bindHandle (s : Session) (h : Handle) (listing : Option (List CString)) : Reply × Session :=
  match s.lowestFree with
  | none => ((-1, none), s)
  | some fd =>
    ((fd, none), { s with handles := Function.update s.handles fd (some h), listing := listing })

/-- The answer to a read from descriptor `fd`. -/
def answerRead (s : Session) (fd : Nat) (buf : Buffer) (nbytes : Nat) : Option (Reply × Session) :=
  match s.handles fd with
  | none => none
  | some (.file rest) =>
    let count := min nbytes rest.length
    some ((count, some (copyRange buf 0 count fun i => rest.getD i 0)),
      { s with handles := Function.update s.handles fd (some (.file (rest.drop count))) })
  | some .directory =>
    if nbytes ≤ maximumFilenameLength then
      match s.listing with
      | none => none
      | some [] => some ((0, some buf), s)
      | some (name :: names) =>
        some (((min nbytes name.strlen : Nat), some (strncpy buf name.byte nbytes)),
          { s with listing := some names })
    else none

/-- The answers to the calls that depend on nothing else; `none` for all others. -/
def answer (s : Session) : KernelEvent → Option (Reply × Session)
  | .getargs (some buf) nbytes =>
    some (if s.args 0 = 0 then (-1, some buf)
      else (0, some (strncpy buf s.args (ofInt32 nbytes).toNat)), s)
  | .open (some name) =>
    match s.disk name with
    | none => none
    | some .nothing => some ((-1, none), s)
    | some (.file contents) => some (s.bindHandle (.file contents) s.listing)
    | some .directory => some (s.bindHandle .directory s.entries)
  | .read fd (some buf) nbytes =>
    if 2 ≤ fd ∧ fd < maximumOpenFiles ∧ 0 < nbytes ∧ nbytes < 2 ^ 31 then
      s.answerRead fd.toNat buf nbytes.toNat
    else none
  | .write fd (some buf) nbytes =>
    if fd = stdoutFd then
      some ((nbytes.toNat, some buf),
        { s with output := s.output ++ (List.range nbytes.toNat).map buf })
    else none
  | .close fd =>
    if 2 ≤ fd ∧ fd < maximumOpenFiles ∧ (s.handles fd.toNat).isSome = true then
      some ((0, none), { s with handles := Function.update s.handles fd.toNat none })
    else none
  | _ => none

end Session

/-- The names of the directory. -/
def Image.names (img : Image) : List CString :=
  (List.range img.numDentry.toNat).map fun i => (img.dentry i).nameString

/-- The name stands for this in the image. -/
def Image.Describes (img : Image) (name : CString) : Found → Prop
  | .nothing => img.readDentryByName (some name) = none
  | .file contents => ∃ entry, img.readDentryByName (some name) = some entry ∧
      entry.filetype = regularFiletype ∧ img.GoodInode entry.numInode ∧
      img.contents entry.numInode = contents
  | .directory => ∃ entry, img.readDentryByName (some name) = some entry ∧
      entry.filetype = directoryFiletype

/-- A descriptor and what the program sees of it. -/
def Image.Stores (img : Image) (d : FileDescriptor) : Option Handle → Prop
  | none => d.flags = notUse
  | some (.file rest) => ∃ inode pos, d = regularDescriptor inode pos ∧ img.GoodInode inode ∧
      pos.toNat ≤ (img.inodeLength inode).toNat ∧ rest = (img.contents inode).drop pos.toNat
  | some .directory => d.flags = inUse ∧ d.funcPointer = .table .dir

/-- What the program of process `p` sees of the kernel. -/
structure Sees (p : Nat) (alone : Bool) (s : Session) (x : UserRun) : Prop where
  settled : x.kernel.Settled
  live : x.kernel.processArray p ≠ 0
  stdout : (x.kernel.files.tables p stdoutFd).flags = inUse ∧
    (x.kernel.files.tables p stdoutFd).funcPointer = .table .stdoutOp
  handles : ∀ fd, 2 ≤ fd → fd < maximumOpenFiles →
    x.kernel.image.Stores (x.kernel.files.tables p fd) (s.handles fd)
  args : (x.kernel.pcbArray p).argsBuf = s.args
  disk : ∀ name found, s.disk name = some found →
    ¬ Kernel.StdioName (some name) ∧ x.kernel.image.Describes name found
  entries : ∀ names, s.entries = some names → alone = true ∧ names = x.kernel.image.names
  listing : ∀ names, s.listing = some names →
    alone = true ∧ names = x.kernel.image.names.drop x.kernel.dirReadnum
  output : x.output = s.output

/-- Inside of its field a name is copied like a string. -/
theorem Dentry.strncpy_nameString (d : Dentry) (buf : Buffer) {n : Nat}
    (hn : n ≤ maximumFilenameLength) :
    strncpy buf d.filename n = strncpy buf d.nameString.byte n := by
  obtain ⟨-, hchars, hend⟩ := d.nameEnd_spec
  have hlen : d.nameString.strlen = d.nameEnd := d.length_name
  have hbyte : ∀ i < d.nameEnd, d.nameString.byte i = d.filename i := by
    intro i hi
    rw [CString.byte, List.getD_eq_getElem?_getD, show d.nameString.chars = d.name from rfl,
      Dentry.name, List.getElem?_map, List.getElem?_range hi]
    rfl
  funext i
  simp only [strncpy]
  -- the two copies stop at the same place: the first zero of the field, or its end
  split_ifs with hi hleft hright hright
  · -- both copy byte `i`, which lies in front of the zero
    refine (hbyte i (Nat.lt_of_not_le fun hge => hleft d.nameEnd hge (hend (by omega)))).symm
  · refine absurd ?_ hright
    intro j hj
    have hlt : j < d.nameEnd :=
      Nat.lt_of_not_le fun hge => hleft d.nameEnd (by omega) (hend (by omega))
    rw [hbyte j hlt]
    exact hchars j hlt
  · -- a zero of the padded name ends the field as well
    refine absurd ?_ hleft
    intro j hj
    have hlt : j < d.nameEnd := by
      rw [← hlen]
      exact Nat.lt_of_not_le fun hge => hright j hj (d.nameString.byte_of_le hge)
    exact hchars j hlt
  · rfl
  · rfl

namespace Sees

variable {p : Nat} {alone : Bool} {s s' : Session} {x x' : UserRun}

/-! ## The others -/

/-- **What the others do** does not show. -/
theorem other (h : Sees p alone s x) {e : KernelEvent}
    (hstep : (userHost p alone).step x e = some x') : Sees p alone s x' := by
  simp only [userHost] at hstep
  split_ifs at hstep with hguard
  obtain ⟨k', hk', rfl⟩ := Option.map_eq_some_iff.mp hstep
  obtain ⟨hcall, hlists⟩ := not_or.mp hguard
  -- what the guard has kept out: a call of `p`, and a directory read that would move its listing
  have hnotCall (hp : p = x.kernel.currPid) : ¬ e.IsSystemCall := fun he => hcall ⟨hp, he⟩
  have htable := kernelStep_keepsTable h.live
    (fun hp => ⟨fun he => hnotCall hp he.isSystemCall, fun he => hnotCall hp he.isSystemCall⟩) hk'
  -- the fields of the session follow what this event leaves alone
  constructor
  case settled => exact h.settled.step hk'
  case live => exact htable.live.trans_ne h.live
  case stdout =>
    show (k'.files.tables p stdoutFd).flags = _ ∧ _
    rw [show k'.files.tables p = x.kernel.files.tables p from htable.table]
    exact h.stdout
  case handles =>
    intro fd hlow hin
    show k'.image.Stores (k'.files.tables p fd) _
    rw [show k'.files.tables p = x.kernel.files.tables p from htable.table, htable.image]
    exact h.handles fd hlow hin
  case args =>
    refine Eq.trans ?_ h.args
    -- the argument buffer is in the PCB of `p`, which a tick of `p` writes its registers to
    by_cases htick : p = x.kernel.currPid ∧ e.IsTick
    · -- the processor is taken from the program
      obtain ⟨rfl, he⟩ := htick
      cases e with
      | tick stack regs =>
        obtain rfl := Option.some.inj hk'
        show ((x.kernel.pitHandler stack regs).pcbArray x.kernel.currPid).argsBuf = _
        rw [Kernel.pcbArray_pitHandler h.settled.boot, Kernel.pcbArray_modifyPcb_self]
      | _ => exact he.elim
    · obtain ⟨n, hn⟩ := (Kernel.kernelStep_keepsPcb h.settled.boot h.live
        (fun hp => ⟨fun he => hnotCall hp he.isSystemCall, fun he => hnotCall hp he.isSystemCall,
          fun he => htick ⟨hp, he⟩⟩) hk').pcb
      show (k'.pcbArray p).argsBuf = _
      rw [hn]
  case disk =>
    show ∀ name found, s.disk name = some found → _ ∧ k'.image.Describes name found
    rw [htable.image]
    exact h.disk
  case entries =>
    show ∀ names, s.entries = some names → alone = true ∧ names = k'.image.names
    rw [htable.image]
    exact h.entries
  case listing =>
    intro names hnames
    obtain ⟨halone, heq⟩ := h.listing names hnames
    have hindex : k'.dirReadnum = x.kernel.dirReadnum := by
      -- the shared read position has not moved, since nobody but `p` lists the directory
      have hdevices := congrArg DeviceState.dirReadnum (kernelStep_devices hk')
      refine hdevices.trans (Classical.byContradiction fun hne => ?_)
      exact hlists ⟨halone, hne⟩
    refine ⟨halone, ?_⟩
    show names = k'.image.names.drop k'.dirReadnum
    rw [htable.image, hindex]
    exact heq
  case output => exact h.output

/-! ## The calls of the program -/

theorem perform_eq (hp : p = x.kernel.currPid) {e : KernelEvent} {r : Reply} {k' : Kernel}
    (hcall : x.kernel.call e = some (r, k')) :
    (userHost p alone).perform x e = some (r, ⟨k', x.output ++ x.kernel.written e⟩) := by
  show (if p = x.kernel.currPid then _ else _) = _
  rw [if_pos hp, hcall]
  rfl

/-- What a call on files has to do for the session behind it. -/
theorem after (h : Sees p alone s x) {e : KernelEvent} {r : Reply} {k' : Kernel}
    (hcall : x.kernel.call e = some (r, k')) (he : e.IsFileCall) {handles : Nat → Option Handle}
    {listing : Option (List CString)} {output : List UInt8}
    (hstdout : k'.files.tables p stdoutFd = x.kernel.files.tables p stdoutFd)
    (hhandles : ∀ fd, 2 ≤ fd → fd < maximumOpenFiles →
      x.kernel.image.Stores (k'.files.tables p fd) (handles fd))
    (hlisting : ∀ names, listing = some names →
      alone = true ∧ names = x.kernel.image.names.drop k'.dirReadnum)
    (houtput : output = s.output ++ x.kernel.written e) :
    Sees p alone { s with handles := handles, listing := listing, output := output }
      ⟨k', x.output ++ x.kernel.written e⟩ := by
  have hstep := kernelStep_of_call hcall
  -- a file call changes one descriptor of `p`, and neither the image nor who is alive
  obtain ⟨i, d, hfiles⟩ := kernelStep_fileCall he hstep
  have himage : k'.image = x.kernel.image := congrArg FileState.image hfiles
  have harray : k'.processArray = x.kernel.processArray :=
    congrArg FileState.processArray hfiles
  constructor
  case settled => exact h.settled.step hstep
  case live => exact (congrFun harray p).trans_ne h.live
  case stdout =>
    show (k'.files.tables p stdoutFd).flags = _ ∧ _
    rw [hstdout]
    exact h.stdout
  case handles =>
    show ∀ fd, 2 ≤ fd → fd < maximumOpenFiles → k'.image.Stores (k'.files.tables p fd) _
    rw [himage]
    exact hhandles
  case args => exact ((Kernel.callFrame_fileCall he hstep).argsBuf p).trans h.args
  case disk =>
    show ∀ name found, s.disk name = some found → _ ∧ k'.image.Describes name found
    rw [himage]
    exact h.disk
  case entries =>
    show ∀ names, s.entries = some names → alone = true ∧ names = k'.image.names
    rw [himage]
    exact h.entries
  case listing =>
    show ∀ names, listing = some names → alone = true ∧ names = k'.image.names.drop k'.dirReadnum
    rw [himage]
    exact hlisting
  case output =>
    rw [houtput, ← h.output]

/-- Storing a descriptor that the program sees as `handle`. -/
theorem stores_setFd (h : Sees p alone s x) (hp : p = x.kernel.currPid) {k' : Kernel} {fd : Nat}
    {d : FileDescriptor} (hlow : 2 ≤ fd) (hfiles : k'.files = x.kernel.files.setFd fd d)
    {handle : Option Handle} (hd : x.kernel.image.Stores d handle) :
    k'.files.tables p stdoutFd = x.kernel.files.tables p stdoutFd ∧
      ∀ i, 2 ≤ i → i < maximumOpenFiles →
        x.kernel.image.Stores (k'.files.tables p i) (Function.update s.handles fd handle i) := by
  have htable : k'.files.tables p = Function.update (x.kernel.files.tables p) fd d := by
    rw [hp]
    exact Kernel.tables_of_setFd hfiles
  constructor
  · -- descriptor 1 is below those that `open` hands out
    rw [htable, Function.update_of_ne]
    simp only [stdoutFd]
    omega
  · intro i hi hin
    rw [htable]
    by_cases heq : i = fd
    · rw [heq, Function.update_self, Function.update_self]
      exact hd
    · rw [Function.update_of_ne heq, Function.update_of_ne heq]
      exact h.handles i hi hin

/-- Only `write` writes. -/
theorem written_eq_nil {k : Kernel} {e : KernelEvent} (he : ∀ fd buf n, e ≠ .write fd buf n) :
    k.written e = [] := by
  cases e with
  | write fd buf n => exact absurd rfl (he fd buf n)
  | read fd buf n =>
    simp only [Kernel.written, Kernel.consoleEvents]
    split_ifs <;> rfl
  | «open» filename =>
    rw [Kernel.written, Kernel.consoleEvents, List.flatMap_map]
    exact List.flatMap_eq_nil_iff.mpr fun _ _ => rfl
  | tick | key | rtcInterrupt | switch | execute | halt | close | getargs | vidmap => rfl

/-- `getargs`. -/
theorem own_getargs (h : Sees p alone s x) (hp : p = x.kernel.currPid) {buf : Buffer}
    {nbytes : Int} {r : Reply} (hanswer : s.answer (.getargs (some buf) nbytes) = some (r, s')) :
    ∃ x', (userHost p alone).perform x (.getargs (some buf) nbytes) = some (r, x') ∧
      Sees p alone s' x' := by
  obtain ⟨rfl, rfl⟩ := Prod.mk.inj (Option.some.inj hanswer)
  have hargs : x.kernel.currPcb.argsBuf = s.args := by
    rw [← h.args, hp]
    rfl
  have hcall : x.kernel.call (.getargs (some buf) nbytes) = some (if s.args 0 = 0 then
      (-1, some buf) else (0, some (strncpy buf s.args (ofInt32 nbytes).toNat)), x.kernel) := by
    rw [← hargs]
    rfl
  refine ⟨_, perform_eq hp hcall, ?_⟩
  rw [written_eq_nil (by intros; exact KernelEvent.noConfusion), List.append_nil]
  exact h

theorem value_terminalWrite (tty : Tty) (t : Nat) (buf : Buffer) (nbytes : Int) :
    (terminalWrite tty t (some buf) nbytes).1 = nbytes.toNat := by
  simp only [terminalWrite]
  split_ifs <;> rfl

/-- `write` to the terminal. -/
theorem own_write (h : Sees p alone s x) (hp : p = x.kernel.currPid) {fd : Int} {buf : Buffer}
    {nbytes : Int} {r : Reply} (hanswer : s.answer (.write fd (some buf) nbytes) = some (r, s')) :
    ∃ x', (userHost p alone).perform x (.write fd (some buf) nbytes) = some (r, x') ∧
      Sees p alone s' x' := by
  simp only [Session.answer] at hanswer
  split_ifs at hanswer with hfd
  -- a session writes through descriptor 1 only
  obtain ⟨rfl, rfl⟩ := Prod.mk.inj (Option.some.inj hanswer)
  subst hfd
  have hslot : x.kernel.currPcb.slot stdoutFd = x.kernel.files.tables p stdoutFd := by
    rw [hp]
    exact Kernel.slot_eq _ (by decide)
  have hreaches : x.kernel.Reaches stdoutFd (some buf) .stdoutOp := by
    refine ⟨fun hrefused => ?_, ?_⟩
    · -- the descriptor of stdout passes the guard of `write`
      rw [Int.toNat_natCast, hslot, h.stdout.1] at hrefused
      exact hrefused.elim (fun hfd => hfd (by decide)) fun hnot =>
        hnot.elim Bool.noConfusion (by decide)
    · rw [Int.toNat_natCast, hslot]
      exact h.stdout.2
  let out := terminalWrite x.kernel.tty x.kernel.currPcb.terminalNumber (some buf) nbytes
  let k' : Kernel := { x.kernel with tty := out.2 }
  have hwrite : x.kernel.write stdoutFd (some buf) nbytes = .ret nbytes.toNat (some buf) k' := by
    rw [Kernel.write, if_neg hreaches.1, hreaches.2]
    show SysResult.ret out.1 (some buf) k' = _
    rw [show out.1 = nbytes.toNat from value_terminalWrite ..]
  have hcall : x.kernel.call (.write stdoutFd (some buf) nbytes) =
      some (((nbytes.toNat : Int), some buf), k') := congrArg SysResult.reply? hwrite
  -- the console gets the bytes of the buffer, one write event for them
  have hwritten : x.kernel.written (.write stdoutFd (some buf) nbytes) =
      (List.range nbytes.toNat).map buf := by
    rw [Kernel.written, Kernel.consoleEvents, if_pos hreaches]
    exact List.append_nil _
  refine ⟨_, perform_eq hp hcall, ?_⟩
  refine h.after hcall trivial rfl h.handles h.listing ?_
  rw [hwritten]

/-- A name that the program knows is not taken for a device. -/
theorem not_stdio (h : Sees p alone s x) {name : CString} {found : Found}
    (hname : s.disk name = some found) : ¬ strncmp name.byte stdinName.byte 5 = 0 ∧
      ¬ strncmp name.byte stdoutName.byte 6 = 0 :=
  Kernel.not_stdioName (h.disk name found hname).1

/-- The program knows which descriptor is the lowest free one. -/
theorem lowestFree_eq (h : Sees p alone s x) (hp : p = x.kernel.currPid) :
    x.kernel.lowestFree = s.lowestFree := by
  rw [Kernel.lowestFree, Session.lowestFree]
  -- the two searches agree at each descriptor: a handle is there exactly if its flags say so
  refine List.find?_congr fun fd hfd => decide_eq_decide.mpr (and_congr_right fun hlow => ?_)
  have hstores := h.handles fd hlow (List.mem_range.mp hfd)
  have htable : x.kernel.currPcb.fdArray fd = x.kernel.files.tables p fd := by
    rw [hp]
    rfl
  have huse : ¬ inUse = notUse := by decide
  rw [htable]
  cases hhandle : s.handles fd with
  | none =>
    rw [hhandle] at hstores
    exact iff_of_true hstores rfl
  | some handle =>
    rw [hhandle] at hstores
    refine iff_of_false ?_ Bool.noConfusion
    cases handle with
    | file rest =>
      obtain ⟨inode, pos, hd, -⟩ := hstores
      rw [hd]
      exact huse
    | directory =>
      rw [hstores.1]
      exact huse

/-- `open` of a name that is not there. -/
theorem open_nothing (h : Sees p alone s x) {name : CString} (hname : s.disk name = some .nothing) :
    x.kernel.open (some name) = .ret (-1) none (x.kernel.printf fileMissingText) := by
  obtain ⟨hin, hout⟩ := h.not_stdio hname
  have hmissing : x.kernel.image.readDentryByName (some name) = none := (h.disk name _ hname).2
  simp only [Kernel.open, if_neg hin, if_neg hout, hmissing]

/-- `open` without a free descriptor. -/
theorem open_full (h : Sees p alone s x) (hp : p = x.kernel.currPid) {name : CString}
    {found : Found} (hname : s.disk name = some found) {entry : Dentry}
    (hentry : x.kernel.image.readDentryByName (some name) = some entry)
    (hfull : s.lowestFree = none) : x.kernel.open (some name) = .ret (-1) none x.kernel := by
  obtain ⟨hin, hout⟩ := h.not_stdio hname
  have hnone : x.kernel.lowestFree = none := (h.lowestFree_eq hp).trans hfull
  simp only [Kernel.open, if_neg hin, if_neg hout, hentry, hnone]

/-- `open` of a known name on a free descriptor. -/
theorem open_found (h : Sees p alone s x) (hp : p = x.kernel.currPid) {name : CString}
    {found : Found} (hname : s.disk name = some found) {entry : Dentry}
    (hentry : x.kernel.image.readDentryByName (some name) = some entry) {ops : FileOperation}
    (hops : operationsOf entry.filetype = some ops) {fd : Nat} (hfree : s.lowestFree = some fd) :
    ∃ k', x.kernel.open (some name) = .ret fd none k' ∧
      k'.files = x.kernel.files.setFd fd (Kernel.openedDescriptor entry (x.kernel.files.table fd)) ∧
      k'.dirReadnum = if ops = .dir then 0 else x.kernel.dirReadnum := by
  obtain ⟨hin, hout⟩ := h.not_stdio hname
  have hlowest : x.kernel.lowestFree = some fd := (h.lowestFree_eq hp).trans hfree
  have htable := Kernel.bindDentry_funcPointer hops (x.kernel.files.table fd)
  have hopen := Kernel.open_eq_entry hin hout hentry hlowest htable
  refine ⟨_, hopen, ?_, ?_⟩
  · -- the state of the files is that of the general lemma on `open`
    obtain ⟨k', hopen', hfiles⟩ := Kernel.open_eq hin hout hentry hlowest htable
    rw [hopen] at hopen'
    obtain rfl := (SysResult.ret.inj hopen').2.2
    exact hfiles
  · -- only `dir_open` sets the read position back
    cases ops with
    | file =>
      show (Kernel.fileOpen _ _).2.dirReadnum = _
      unfold Kernel.fileOpen
      split <;> rfl
    | dir | rtc | stdinOp | stdoutOp => rfl

/-- Opening binds the descriptor that the session binds. -/
theorem open_binds (h : Sees p alone s x) (hp : p = x.kernel.currPid) {name : CString}
    {found : Found} (hname : s.disk name = some found) {entry : Dentry}
    (hentry : x.kernel.image.readDentryByName (some name) = some entry) {ops : FileOperation}
    (hops : operationsOf entry.filetype = some ops) {handle : Handle}
    (hstores : ∀ d, x.kernel.image.Stores (Kernel.openedDescriptor entry d) (some handle))
    {listing : Option (List CString)}
    (hlisting : ∀ names, listing = some names → alone = true ∧
      names = x.kernel.image.names.drop (if ops = .dir then 0 else x.kernel.dirReadnum)) :
    ∃ x', (userHost p alone).perform x (.open (some name)) =
        some ((s.bindHandle handle listing).1, x') ∧
      Sees p alone (s.bindHandle handle listing).2 x' := by
  have hwritten : x.kernel.written (.open (some name)) = [] :=
    written_eq_nil (by intros; exact KernelEvent.noConfusion)
  -- without a free descriptor `open` returns -1 and changes nothing
  cases hfree : s.lowestFree with
  | none =>
    have hcall : x.kernel.call (.open (some name)) = some ((-1, none), x.kernel) :=
      congrArg SysResult.reply? (h.open_full hp hname hentry hfree)
    simp only [Session.bindHandle, hfree]
    refine ⟨_, perform_eq hp hcall, ?_⟩
    rw [hwritten, List.append_nil]
    exact h
  | some fd =>
    obtain ⟨k', hopen, hfiles, hindex⟩ := h.open_found hp hname hentry hops hfree
    have hcall : x.kernel.call (.open (some name)) = some (((fd : Int), none), k') :=
      congrArg SysResult.reply? hopen
    -- otherwise it binds the lowest free one, which is not stdin or stdout
    have hlow := s.two_le_of_lowestFree hfree
    obtain ⟨hstdout, hhandles⟩ := h.stores_setFd hp hlow hfiles (hstores _)
    simp only [Session.bindHandle, hfree]
    refine ⟨_, perform_eq hp hcall, h.after hcall trivial hstdout hhandles ?_ ?_⟩
    · rw [hindex]
      exact hlisting
    · rw [hwritten, List.append_nil]

/-- `open`. -/
theorem own_open (h : Sees p alone s x) (hp : p = x.kernel.currPid) {name : CString} {r : Reply}
    (hanswer : s.answer (.open (some name)) = some (r, s')) :
    ∃ x', (userHost p alone).perform x (.open (some name)) = some (r, x') ∧
      Sees p alone s' x' := by
  simp only [Session.answer] at hanswer
  -- by what the session expects under the name
  cases hname : s.disk name with
  | none =>
    rw [hname] at hanswer
    cases hanswer
  | some found =>
    rw [hname] at hanswer
    have hdescribes := (h.disk name found hname).2
    cases found with
    | nothing =>
      -- no entry: the kernel prints its message on the screen, which is no write of `p`
      obtain ⟨rfl, rfl⟩ := Prod.mk.inj (Option.some.inj hanswer)
      have hcall : x.kernel.call (.open (some name)) =
          some ((-1, none), x.kernel.printf fileMissingText) :=
        congrArg SysResult.reply? (h.open_nothing hname)
      refine ⟨_, perform_eq hp hcall, h.after hcall trivial rfl h.handles h.listing ?_⟩
      rw [written_eq_nil (by intros; exact KernelEvent.noConfusion), List.append_nil]
    | file contents =>
      obtain ⟨rfl, rfl⟩ := Prod.mk.inj (Option.some.inj hanswer)
      obtain ⟨entry, hentry, hregular, hgood, hcontents⟩ := hdescribes
      have hops : operationsOf entry.filetype = some .file := by
        rw [hregular]
        decide
      refine h.open_binds hp hname hentry hops (fun d => ?_) h.listing
      have hrtc : ¬ regularFiletype = rtcFiletype := by decide
      have hdir : ¬ regularFiletype = directoryFiletype := by decide
      refine ⟨entry.numInode, 0, ?_, hgood, Nat.zero_le _, ?_⟩
      · simp only [Kernel.openedDescriptor, Kernel.bindDentry, hregular, if_neg hrtc, if_neg hdir,
          if_true, regularDescriptor]
      · exact hcontents.symm
    | directory =>
      obtain ⟨rfl, rfl⟩ := Prod.mk.inj (Option.some.inj hanswer)
      obtain ⟨entry, hentry, hdir⟩ := hdescribes
      have hops : operationsOf entry.filetype = some .dir := by
        rw [hdir]
        decide
      refine h.open_binds hp hname hentry hops (fun d => ?_) h.entries
      exact ⟨rfl, Kernel.bindDentry_funcPointer hops d⟩

/-- `read` of a regular file. -/
theorem read_file (h : Sees p alone s x) (hp : p = x.kernel.currPid) {fd : Nat} (hlow : 2 ≤ fd)
    (hfd : fd < maximumOpenFiles) {rest : List UInt8} (hhandle : s.handles fd = some (.file rest))
    (buf : Buffer) {nbytes : Int} (h0 : 0 < nbytes) (hn : nbytes < 2 ^ 31) :
    ∃ k', x.kernel.read fd (some buf) nbytes = .ret (min nbytes.toNat rest.length : Nat)
        (some (copyRange buf 0 (min nbytes.toNat rest.length) fun i => rest.getD i 0)) k' ∧
      k'.dirReadnum = x.kernel.dirReadnum ∧ ∃ d, k'.files = x.kernel.files.setFd fd d ∧
        x.kernel.image.Stores d (some (.file (rest.drop (min nbytes.toNat rest.length)))) := by
  have hstores := h.handles fd hlow hfd
  rw [hhandle] at hstores
  obtain ⟨inode, pos, hd, hgood, hpos, hrest⟩ := hstores
  have htable : x.kernel.files.table fd = regularDescriptor inode pos := by
    rw [← hd, hp]
    rfl
  have hlen : rest.length = (x.kernel.image.inodeLength inode).toNat - pos.toNat := by
    rw [hrest, List.length_drop, Image.length_contents]
  obtain ⟨count, hcount⟩ : ∃ c, c = min nbytes.toNat rest.length := ⟨_, rfl⟩
  have hlength := hgood.length
  simp only [blockSize] at hlength
  obtain ⟨k', hread, hfiles⟩ :=
    Kernel.read_regular hfd htable hgood hpos buf (Int.le_of_lt h0) hn
  rw [← hlen, ← hcount] at hread hfiles
  rw [← hcount]
  refine ⟨k', ?_, ?_, _, hfiles, inode, _, rfl, hgood, ?_, ?_⟩
  · rw [hread]
    congr 2
    refine copyRange_congr fun j hj => ?_
    rw [hrest, List.getD_eq_getElem?_getD, List.getElem?_drop, Image.contents_eq,
      List.getElem?_map, List.getElem?_range (by omega)]
    rfl
  · have hcall := Kernel.read_of_table hfd (congrArg FileDescriptor.flags htable)
      (congrArg FileDescriptor.funcPointer htable) buf nbytes
    obtain rfl := (SysResult.ret.inj (hcall.symm.trans hread)).2.2
    rfl
  · have hmoved : (ofInt32 count).toNat = count := toNat_ofInt32 (by omega) (by omega)
    rw [UInt32.toNat_add, hmoved]
    omega
  · have hmoved : (ofInt32 count).toNat = count := toNat_ofInt32 (by omega) (by omega)
    rw [hrest, List.drop_drop, UInt32.toNat_add, hmoved, Nat.mod_eq_of_lt (by omega)]

/-- `read` of the directory. -/
theorem read_directory (h : Sees p alone s x) (hp : p = x.kernel.currPid) {fd : Nat}
    (hlow : 2 ≤ fd) (hfd : fd < maximumOpenFiles) (hhandle : s.handles fd = some .directory)
    {names : List CString} (hlisting : s.listing = some names) (buf : Buffer) {nbytes : Int}
    (h0 : 0 < nbytes) (hn : nbytes.toNat ≤ maximumFilenameLength) :
    match names with
    | [] => x.kernel.read fd (some buf) nbytes = .ret 0 (some buf) x.kernel
    | name :: _ => x.kernel.read fd (some buf) nbytes =
        .ret (min nbytes.toNat name.strlen : Nat) (some (strncpy buf name.byte nbytes.toNat))
          { x.kernel with dirReadnum := x.kernel.dirReadnum + 1 } := by
  have hstores := h.handles fd hlow hfd
  -- the descriptor is open and its table is that of directories
  rw [hhandle] at hstores
  have hopen : x.kernel.OpenDirectory x.kernel.currPid fd := by
    rw [← hp]
    exact ⟨hstores.1, hstores.2⟩
  have hnames := (h.listing names hlisting).2
  have hcount : (ofInt32 nbytes).toNat = nbytes.toNat :=
    toNat_ofInt32 (Int.le_of_lt h0) (by simp only [maximumFilenameLength] at hn; omega)
  rw [hopen.read_eq hfd, Kernel.dirRead]
  cases names with
  | nil =>
    -- behind the last name: the index has reached the number of entries
    have hend : x.kernel.image.names.length ≤ x.kernel.dirReadnum :=
      List.drop_eq_nil_iff.mp hnames.symm
    rw [Image.names, List.length_map, List.length_range] at hend
    exact if_pos hend
  | cons name rest =>
    -- the next name of the listing is the entry at the index
    have hentry : x.kernel.image.names[x.kernel.dirReadnum]? = some name := by
      have hfirst := congrArg List.head? hnames
      rw [List.head?_drop] at hfirst
      exact hfirst.symm
    obtain ⟨hin, hname⟩ := List.getElem?_eq_some_iff.mp hentry
    rw [Image.names, List.length_map, List.length_range] at hin
    simp only [Image.names, List.getElem_map, List.getElem_range] at hname
    -- the length that the code returns is that of the name, up to the limit
    have hvalue : (if nbytes ≤ Kernel.nameLength (x.kernel.image.dentry x.kernel.dirReadnum) then
        nbytes else (Kernel.nameLength (x.kernel.image.dentry x.kernel.dirReadnum) : Int)) =
          (min nbytes.toNat name.strlen : Nat) := by
      have hspec := (x.kernel.image.dentry x.kernel.dirReadnum).nameLength_spec
      rw [← hname, show (Dentry.nameString _).strlen = _ from Dentry.length_name _]
      split_ifs <;> omega
    rw [if_neg (Nat.not_le.mpr hin), Image.readDentryByIndex, if_neg (Nat.not_le.mpr hin)]
    simp only [hvalue, hcount]
    rw [Dentry.strncpy_nameString _ _ hn, hname]

/-- `read`. -/
theorem own_read (h : Sees p alone s x) (hp : p = x.kernel.currPid) {fd : Int} {buf : Buffer}
    {nbytes : Int} {r : Reply} (hanswer : s.answer (.read fd (some buf) nbytes) = some (r, s')) :
    ∃ x', (userHost p alone).perform x (.read fd (some buf) nbytes) = some (r, x') ∧
      Sees p alone s' x' := by
  simp only [Session.answer] at hanswer
  split_ifs at hanswer with hguard
  -- a session reads from the descriptors that it has opened
  obtain ⟨hlow, hfd, h0, hn⟩ := hguard
  obtain ⟨fd, rfl⟩ := Int.eq_ofNat_of_zero_le (show 0 ≤ fd by omega)
  have hlow' : 2 ≤ fd := by omega
  have hfd' : fd < maximumOpenFiles := by omega
  rw [Int.toNat_natCast] at hanswer
  have hwritten : x.kernel.written (.read fd (some buf) nbytes) = [] :=
    written_eq_nil (by intros; exact KernelEvent.noConfusion)
  simp only [Session.answerRead] at hanswer
  cases hhandle : s.handles fd with
  | none =>
    rw [hhandle] at hanswer
    cases hanswer
  | some handle =>
    rw [hhandle] at hanswer
    cases handle with
    | file rest =>
      obtain ⟨rfl, rfl⟩ := Prod.mk.inj (Option.some.inj hanswer)
      obtain ⟨k', hread, hindex, d, hfiles, hd⟩ := h.read_file hp hlow' hfd' hhandle buf h0 hn
      obtain ⟨hstdout, hhandles⟩ := h.stores_setFd hp hlow' hfiles hd
      have hcall : x.kernel.call (.read fd (some buf) nbytes) = some (_, k') :=
        congrArg SysResult.reply? hread
      refine ⟨_, perform_eq hp hcall, h.after hcall trivial hstdout hhandles ?_ ?_⟩
      · rw [hindex]
        exact h.listing
      · rw [hwritten, List.append_nil]
    | directory =>
      dsimp only at hanswer
      split_ifs at hanswer with hname
      cases hlisting : s.listing with
      | none =>
        rw [hlisting] at hanswer
        cases hanswer
      | some names =>
        rw [hlisting] at hanswer
        have hread := h.read_directory hp hlow' hfd' hhandle hlisting buf h0 hname
        have hnames := h.listing names hlisting
        cases names with
        | nil =>
          -- the end of the listing changes nothing
          obtain ⟨rfl, rfl⟩ := Prod.mk.inj (Option.some.inj hanswer)
          have hcall : x.kernel.call (.read fd (some buf) nbytes) = some (_, x.kernel) :=
            congrArg SysResult.reply? hread
          refine ⟨_, perform_eq hp hcall, ?_⟩
          rw [hwritten, List.append_nil]
          exact h
        | cons name rest =>
          obtain ⟨rfl, rfl⟩ := Prod.mk.inj (Option.some.inj hanswer)
          have hcall : x.kernel.call (.read fd (some buf) nbytes) = some (_, _) :=
            congrArg SysResult.reply? hread
          refine ⟨_, perform_eq hp hcall, h.after hcall trivial rfl h.handles ?_ ?_⟩
          · intro names hnext
            obtain rfl := Option.some.inj hnext
            refine ⟨hnames.1, ?_⟩
            -- the read position has moved by one, and so has the listing
            have htail := congrArg List.tail hnames.2
            rw [List.tail_drop] at htail
            exact htail
          · rw [hwritten, List.append_nil]

/-- `close`. -/
theorem own_close (h : Sees p alone s x) (hp : p = x.kernel.currPid) {fd : Int} {r : Reply}
    (hanswer : s.answer (.close fd) = some (r, s')) :
    ∃ x', (userHost p alone).perform x (.close fd) = some (r, x') ∧ Sees p alone s' x' := by
  simp only [Session.answer] at hanswer
  split_ifs at hanswer with hguard
  obtain ⟨hlow, hfd, hsome⟩ := hguard
  obtain ⟨fd, rfl⟩ := Int.eq_ofNat_of_zero_le (show 0 ≤ fd by omega)
  rw [Int.toNat_natCast] at hanswer hsome
  obtain ⟨rfl, rfl⟩ := Prod.mk.inj (Option.some.inj hanswer)
  have hlow' : 2 ≤ fd := by omega
  have hfd' : fd < maximumOpenFiles := by omega
  obtain ⟨handle, hhandle⟩ := Option.isSome_iff_exists.mp hsome
  -- the table of the descriptor is that of a file or of a directory
  have hstores := h.handles fd hlow' hfd'
  rw [hhandle] at hstores
  have hslot : x.kernel.currPcb.slot fd = x.kernel.files.tables p fd := by
    rw [hp]
    exact Kernel.slot_eq _ hfd'
  have htable : (x.kernel.files.tables p fd).flags = inUse ∧
      ((x.kernel.files.tables p fd).funcPointer = .table .file ∨
        (x.kernel.files.tables p fd).funcPointer = .table .dir) := by
    cases handle with
    | file rest =>
      obtain ⟨inode, pos, hd, -⟩ := hstores
      rw [hd]
      exact ⟨rfl, .inl rfl⟩
    | directory => exact ⟨hstores.1, .inr hstores.2⟩
  have hclose : x.kernel.close fd =
      .ret 0 none (x.kernel.modifyFd x.kernel.currPid fd fun _ => freeDescriptor) := by
    -- the guard of `close` lets it pass
    have hguard : ¬ (¬ Kernel.fdPasses fd ∨ (x.kernel.currPcb.slot fd).flags = notUse) := by
      rw [hslot, htable.1]
      simp only [Kernel.fdPasses, minimumOpenFiles, maximumOpenFiles] at hfd' ⊢
      refine fun hnot => hnot.elim (fun hpass => hpass (by omega)) (by decide)
    have hstd : ¬ (fd = 0 ∨ fd = 1) := by omega
    rw [Kernel.close, Int.toNat_natCast, if_neg hguard, hslot]
    -- both tables close with 0, since the descriptor is not stdin or stdout
    rcases htable.2 with hptr | hptr
    · rw [hptr]
      show (if fileClose fd = 0 then _ else _) = _
      rw [fileClose, if_neg hstd]
      rfl
    · rw [hptr]
      rfl
  have hcall : x.kernel.call (.close fd) = some ((0, none), _) :=
    congrArg SysResult.reply? hclose
  have hfiles := x.kernel.files_modifyFd fd fun _ => freeDescriptor
  obtain ⟨hstdout, hhandles⟩ := h.stores_setFd hp hlow' hfiles
    (show x.kernel.image.Stores freeDescriptor none from rfl)
  refine ⟨_, perform_eq hp hcall, h.after hcall trivial hstdout hhandles h.listing ?_⟩
  rw [written_eq_nil (by intros; exact KernelEvent.noConfusion), List.append_nil]

end Sees

/-- **The session** is what a program sees of the kernel, whatever the other programs do. -/
theorem userHost_simulates (p : Nat) (alone : Bool) :
    (userHost p alone).Simulates Session.answer (Sees p alone) where
  other h hstep := h.other hstep
  own {s x e r s'} h hp hanswer := by
    -- calls without a buffer are no part of a session
    cases e with
    | getargs buf nbytes =>
      cases buf with
      | none => cases hanswer
      | some buf => exact h.own_getargs hp hanswer
    | «open» name =>
      cases name with
      | none => cases hanswer
      | some name => exact h.own_open hp hanswer
    | read fd buf nbytes =>
      cases buf with
      | none => cases hanswer
      | some buf => exact h.own_read hp hanswer
    | write fd buf nbytes =>
      cases buf with
      | none => cases hanswer
      | some buf => exact h.own_write hp hanswer
    | close fd => exact h.own_close hp hanswer
    | tick | key | rtcInterrupt | switch | execute | halt | vidmap => cases hanswer
  idle hnot := if_neg hnot

/-! ## From the start of a program on -/

/-- What a name stands for; `none` for a device, and for a file that `read_data` does not read. -/
def Image.find (img : Image) (name : CString) : Option Found :=
  if strncmp name.byte stdinName.byte 5 = 0 ∨ strncmp name.byte stdoutName.byte 6 = 0 then none
  else
    match img.readDentryByName (some name) with
    | none => some .nothing
    | some entry =>
      if entry.filetype = regularFiletype then
        if img.Readable entry.numInode ∧ (img.inodeLength entry.numInode).toNat ≤ 1023 * blockSize
        then some (.file (img.contents entry.numInode))
        else none
      else if entry.filetype = directoryFiletype then some .directory
      else none

theorem Image.describes_find {img : Image} {name : CString} {found : Found}
    (h : img.find name = some found) :
    ¬ Kernel.StdioName (some name) ∧ img.Describes name found := by
  unfold find at h
  -- by the branches of `find`, in the order of `open`
  split_ifs at h with hstd
  refine ⟨fun ⟨other, heq, hother⟩ => hstd (Option.some.inj heq ▸ hother), ?_⟩
  cases hentry : img.readDentryByName (some name) with
  | none =>
    rw [hentry] at h
    obtain rfl := Option.some.inj h
    exact hentry
  | some entry =>
    rw [hentry] at h
    dsimp only at h
    split_ifs at h with hregular hgood hdir
    · obtain rfl := Option.some.inj h
      exact ⟨entry, hentry, hregular, ⟨hgood.1.1, hgood.2, hgood.1.2⟩, rfl⟩
    · obtain rfl := Option.some.inj h
      exact ⟨entry, hentry, hdir⟩

/-- The session of a program that has just been started. -/
def Session.start (img : Image) (alone : Bool) (args : Buffer) : Session where
  disk := img.find
  entries := if alone then some img.names else none
  args := args
  handles _ := none
  listing := none
  output := []

theorem sees_start {k₀ k : Kernel} (hsettled : k₀.Settled) {command : Option CString}
    {stack : Buffer} {regs : Context} (hstarts : k₀.execute command stack regs = (.user, k))
    (alone : Bool) :
    Sees k.currPid alone (Session.start k.image alone k.currPcb.argsBuf) ⟨k, []⟩ := by
  have hstarted : k.JustStarted := .inl ⟨k₀, command, stack, regs, hstarts⟩
  obtain ⟨hlive, htable⟩ := hstarted.started
  have hstep : kernelStep k₀ (.execute command stack regs) = some k := by
    show some (k₀.execute command stack regs).2 = some k
    rw [hstarts]
  constructor
  case settled => exact hsettled.step hstep
  case live => exact hlive
  case stdout => exact htable.stdout
  case handles =>
    -- a new process has no descriptor but the two standard ones
    intro fd hlow hin
    exact congrArg FileDescriptor.flags (htable.free fd hlow hin rfl)
  case args => rfl
  case disk => exact fun name found h => Image.describes_find h
  case entries =>
    intro names hnames
    cases alone with
    | false => cases hnames
    | true => exact ⟨rfl, (Option.some.inj hnames).symm⟩
  case listing => exact fun names hnames => by cases hnames
  case output => rfl

/-! ## What a program does -/

/-- The code of a user program. -/
abbrev UserProgram (α : Type) := Library.Program KernelEvent Reply α

/-- In every run, whatever the other programs do, the program writes `text` piece by piece and
    returns `code` after at most `calls` calls, none of which waits. -/
structure Behaves (p : Nat) (alone : Bool) (x₀ : UserRun) (main : UserProgram (Option Int))
    (code : Int) (text : List UInt8) (calls : Nat) : Prop where
  writes : ∀ turns x t, exec (userHost p alone).turn (x₀, main) turns = some (x, t) →
    x.output <+: x₀.output ++ text
  returns : ∀ turns x v, exec (userHost p alone).turn (x₀, main) turns = some (x, .done v) →
    v = some code ∧ x.output = x₀.output ++ text
  goesOn : ∀ turns x t, exec (userHost p alone).turn (x₀, main) turns = some (x, t) →
    p = x.kernel.currPid → (∀ v, t ≠ .done v) →
      ((userHost p alone).turn (x, t) .own).isSome = true
  ends : ∀ turns x t, exec (userHost p alone).turn (x₀, main) turns = some (x, t) →
    turns.countP Turn.isOwn ≤ calls ∧ (turns.countP Turn.isOwn = calls → ∃ v, t = .done v)

/-- Calls add to the output. -/
theorem Session.output_of_answer {s s' : Session} {e : KernelEvent} {r : Reply}
    (h : s.answer e = some (r, s')) : s.output <+: s'.output := by
  -- opening does not write
  have hbind (handle : Handle) (listing : Option (List CString)) :
      (s.bindHandle handle listing).2.output = s.output := by
    unfold bindHandle
    split <;> rfl
  cases e with
  | write fd buf nbytes =>
    -- only `write` adds to the output, at its end
    cases buf with
    | none => cases h
    | some buf =>
      simp only [answer] at h
      split_ifs at h
      obtain rfl := (Prod.mk.inj (Option.some.inj h)).2
      exact List.prefix_append ..
  | getargs buf | «open» buf | read _ buf =>
    cases buf with
    | none => cases h
    | some buf =>
      have hsame : s'.output = s.output := by
        simp only [answer, answerRead] at h
        grind
      rw [hsame]
  | close =>
    simp only [answer] at h
    split_ifs at h
    obtain rfl := (Prod.mk.inj (Option.some.inj h)).2
    exact List.prefix_rfl
  | tick | key | rtcInterrupt | switch | execute | halt | vidmap => cases h

theorem Session.output_of_run {α : Type} {t : UserProgram α} {s s' : Session} {a : α}
    (h : t.run Session.answer s = some (a, s')) : s.output <+: s'.output := by
  induction t generalizing s with
  | done b =>
    obtain rfl := (Prod.mk.inj (Option.some.inj h)).2
    exact List.prefix_rfl
  | call c next ih =>
    obtain ⟨⟨r, s₁⟩, hanswer, hrest⟩ := Option.bind_eq_some_iff.mp h
    exact (output_of_answer hanswer).trans (ih r hrest)

/-- **From the session to the kernel**: what the program does in its session, it does in every
    run. -/
theorem behaves_of_session {p : Nat} {alone : Bool} {s s₁ : Session} {x₀ : UserRun}
    {main : UserProgram (Option Int)} {code : Int} {text : List UInt8} (hsees : Sees p alone s x₀)
    (hrun : main.run Session.answer s = some (some code, s₁))
    (htext : s₁.output = s.output ++ text) :
    Behaves p alone x₀ main code text (main.calls Session.answer s) := by
  have hsim := userHost_simulates p alone
  -- at every moment the rest of the program is in step with the rest of the session
  have hfollows : ∀ turns x t, exec (userHost p alone).turn (x₀, main) turns = some (x, t) →
      ∃ s', Sees p alone s' x ∧ t.run Session.answer s' = some (some code, s₁) ∧
        turns.countP Turn.isOwn + t.calls Session.answer s' = main.calls Session.answer s :=
    fun turns x t h => hsim.follows hsees hrun h
  rw [← hsees.output] at htext
  constructor
  case writes =>
    intro turns x t h
    obtain ⟨s', hsees', hrest, -⟩ := hfollows turns x t h
    rw [← htext, hsees'.output]
    exact Session.output_of_run hrest
  case returns =>
    -- a program that has ended has written all of its text
    intro turns x v h
    obtain ⟨s', hsees', hrest, -⟩ := hfollows turns x _ h
    obtain ⟨rfl, rfl⟩ := Prod.mk.inj (Option.some.inj hrest)
    exact ⟨rfl, hsees'.output.trans htext⟩
  case goesOn =>
    intro turns x t h hready hdone
    obtain ⟨s', hsees', hrest, -⟩ := hfollows turns x t h
    exact hsim.goes_on hsees' hready hrest hdone
  case ends =>
    intro turns x t h
    obtain ⟨s', -, -, hcalls⟩ := hfollows turns x t h
    -- the calls made and the calls left add up to those of the whole run
    refine ⟨Nat.le.intro hcalls, fun hall => ?_⟩
    have hrest : t.calls Session.answer s' = 0 := by omega
    exact Program.done_of_calls_eq_zero Session.answer hrest

end LinuxLikeOs
