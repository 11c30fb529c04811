import LinuxLikeOs.UserSession

/-!
# `cat` and `ls`

Two of the programs of `syscalls/`, in the calls that they make.

- `cat`, `ls`: the programs
- `cat_runs`, `ls_runs`: what they do in their session
- `cat_of_run`, `ls_of_run`: and so in every run of the kernel after its start-up
-/

namespace LinuxLikeOs

open Library

/-! ## Strings of a program -/

/-- The string in an array of `size` bytes, which is to contain a terminator. -/
def stringIn (buf : Buffer) (size : Nat) : CString where
  chars := ((List.range size).map buf).takeWhile (· ≠ 0)
  noNul h := by simpa using List.mem_takeWhile_imp h

theorem CString.eq_of_chars {s t : CString} (h : s.chars = t.chars) : s = t := by
  obtain ⟨chars, hnul⟩ := s
  obtain ⟨chars', hnul'⟩ := t
  obtain rfl := h
  rfl

theorem HoldsString.stringIn {buf : Buffer} {s : CString} (h : HoldsString buf s) {size : Nat}
    (hsize : s.strlen < size) : stringIn buf size = s := by
  obtain ⟨n, rfl⟩ := Nat.exists_eq_add_of_lt hsize
  have hfront : (List.range s.strlen).map buf = s.chars := by
    refine List.ext_getElem (by simp [CString.strlen]) fun i _ hi => ?_
    rw [List.getElem_map, List.getElem_range, h i (Nat.le_of_lt hi), s.byte_of_lt hi]
  have hend : buf s.strlen = 0 := (h _ (Nat.le_refl _)).trans (s.byte_of_le (Nat.le_refl _))
  have hnonzero : ∀ c ∈ s.chars, decide (c ≠ 0) = true := fun c hc =>
    decide_eq_true fun hzero => s.noNul (hzero ▸ hc)
  have hchars : (LinuxLikeOs.stringIn buf (s.strlen + n + 1)).chars = s.chars := by
    show ((List.range (s.strlen + n + 1)).map buf).takeWhile (· ≠ 0) = s.chars
    rw [Nat.add_assoc, List.range_add, List.map_append, hfront,
      List.takeWhile_append_of_pos hnonzero, List.range_succ_eq_map, List.map_cons, List.map_cons,
      Nat.add_zero, hend]
    exact List.append_nil _
  exact CString.eq_of_chars hchars

/-- `could not read arguments` -/
def argumentsUnreadText : CString :=
  ⟨[99, 111, 117, 108, 100, 32, 110, 111, 116, 32, 114, 101, 97, 100, 32, 97, 114, 103, 117, 109,
    101, 110, 116, 115, 10], by decide⟩

/-- `file not found` -/
def fileNotFoundText : CString :=
  ⟨[102, 105, 108, 101, 32, 110, 111, 116, 32, 102, 111, 117, 110, 100, 10], by decide⟩

/-- `file read failed` -/
def fileReadFailedText : CString :=
  ⟨[102, 105, 108, 101, 32, 114, 101, 97, 100, 32, 102, 97, 105, 108, 101, 100, 10], by decide⟩

/-- `directory open failed` -/
def directoryOpenFailedText : CString :=
  ⟨[100, 105, 114, 101, 99, 116, 111, 114, 121, 32, 111, 112, 101, 110, 32, 102, 97, 105, 108, 101,
    100, 10], by decide⟩

/-- `directory entry read failed` -/
def entryReadFailedText : CString :=
  ⟨[100, 105, 114, 101, 99, 116, 111, 114, 121, 32, 101, 110, 116, 114, 121, 32, 114, 101, 97, 100,
    32, 102, 97, 105, 108, 101, 100, 10], by decide⟩

/-! ## The programs

A program takes the bytes that are in its array before the first call; it returns `none` when its
loop has not ended after `fuel` rounds. -/

/-- `ece391_fdputs`. -/
def fdputs (fd : Int) (s : CString) : UserProgram Unit := do
  let _ ← Program.perform (.write fd (some s.byte) s.strlen)

/-- The loop of `cat`. -/
def catLoop (fd : Int) : Nat → Buffer → UserProgram (Option Int)
  | 0, _ => pure none
  | fuel + 1, buf => do
    let reply ← Program.perform (.read fd (some buf) 1024)
    let cnt := reply.1
    let buf := reply.2.getD buf
    if cnt = 0 then pure (some 0)
    else if cnt = -1 then do
      fdputs 1 fileReadFailedText
      pure (some 3)
    else do
      let reply ← Program.perform (.write 1 (some buf) cnt)
      if reply.1 = -1 then pure (some 3) else catLoop fd fuel buf

/-- `ece391cat.c`. -/
def cat (fuel : Nat) (buf : Buffer) : UserProgram (Option Int) := do
  let reply ← Program.perform (.getargs (some buf) 1024)
  let buf := reply.2.getD buf
  if reply.1 ≠ 0 then do
    fdputs 1 argumentsUnreadText
    pure (some 3)
  else do
    let reply ← Program.perform (.open (some (stringIn buf 1024)))
    let fd := reply.1
    if fd = -1 then do
      fdputs 1 fileNotFoundText
      pure (some 2)
    else catLoop fd fuel buf

/-- The loop of `ls`. -/
def lsLoop (fd : Int) : Nat → Buffer → UserProgram (Option Int)
  | 0, _ => pure none
  | fuel + 1, buf => do
    let reply ← Program.perform (.read fd (some buf) 32)
    let cnt := reply.1
    let buf := reply.2.getD buf
    if cnt = 0 then pure (some 0)
    else if cnt = -1 then do
      fdputs 1 entryReadFailedText
      pure (some 3)
    else do
      let buf := Function.update buf cnt.toNat 10
      let reply ← Program.perform (.write 1 (some buf) (cnt + 1))
      if reply.1 = -1 then pure (some 3) else lsLoop fd fuel buf

/-- `ece391ls.c`. -/
def ls (fuel : Nat) (buf : Buffer) : UserProgram (Option Int) := do
  let reply ← Program.perform (.open (some dotName))
  let fd := reply.1
  if fd = -1 then do
    fdputs 1 directoryOpenFailedText
    pure (some 2)
  else lsLoop fd fuel buf

/-! ## In a session -/

/-- The names that `ls` shows: an empty one ends the list. -/
def shownNames (names : List CString) : List CString := names.takeWhile (·.strlen ≠ 0)

/-- The lines of `ls`. -/
def nameLines (names : List CString) : List UInt8 :=
  (shownNames names).flatMap fun name => name.chars ++ [10]

/-- What a program writes from its array after a read. -/
theorem map_copyRange_getD (buf : Buffer) {rest : List UInt8} {n : Nat} (hn : n ≤ rest.length) :
    (List.range n).map (copyRange buf 0 n fun i => rest.getD i 0) = rest.take n := by
  rw [map_copyRange]
  refine List.ext_getElem (by simp [hn]) fun i hi _ => ?_
  have hin : i < n := by simpa using hi
  rw [List.getElem_map, List.getElem_range, List.getElem_take, List.getD_eq_getElem _ _ (by omega)]

namespace Session

variable {s : Session} {fd : Nat}

theorem answer_write (s : Session) (buf : Buffer) (n : Nat) :
    s.answer (.write 1 (some buf) n) =
      some (((n : Int), some buf), { s with output := s.output ++ (List.range n).map buf }) := rfl

/-- `read` of a regular file. -/
theorem answer_read_file (hlow : 2 ≤ fd) (hfd : fd < maximumOpenFiles) {rest : List UInt8}
    (hhandle : s.handles fd = some (.file rest)) (buf : Buffer) {n : Nat} (h0 : 0 < n)
    (hn : n < 2 ^ 31) :
    let count := min n rest.length
    s.answer (.read fd (some buf) n) =
      some (((count : Int), some (copyRange buf 0 count fun i => rest.getD i 0)),
        { s with handles := Function.update s.handles fd (some (.file (rest.drop count))) }) := by
  intro count
  have hguard : (2 : Int) ≤ fd ∧ (fd : Int) < maximumOpenFiles ∧ (0 : Int) < n ∧
      (n : Int) < 2 ^ 31 := by
    omega
  show (if _ then s.answerRead (fd : Int).toNat buf (n : Int).toNat else none) = _
  rw [if_pos hguard, Int.toNat_natCast, Int.toNat_natCast, answerRead, hhandle]

/-- `fdputs` to the terminal. -/
theorem fdputs_runs (s : Session) (text : CString) :
    (fdputs 1 text).Runs answer s () { s with output := s.output ++ text.chars } 1 := by
  have hbytes : (List.range text.strlen).map text.byte = text.chars := by
    refine List.ext_getElem (by simp [CString.strlen]) fun i _ hi => ?_
    rw [List.getElem_map, List.getElem_range, text.byte_of_lt hi]
  rw [← hbytes]
  exact Program.Runs.call (s.answer_write text.byte text.strlen) (.done ..)

/-- A program that ends with a message. -/
theorem message_runs (s : Session) (text : CString) (v : Option Int) :
    (do fdputs 1 text; pure v : UserProgram (Option Int)).Runs answer s v
      { s with output := s.output ++ text.chars } 1 :=
  Program.Runs.bind (m := 0) (s.fdputs_runs text) (.done v _)

/-- The loop of `cat` writes what is left of the file. -/
theorem catLoop_runs (hlow : 2 ≤ fd) (hfd : fd < maximumOpenFiles) {rest : List UInt8}
    (hhandle : s.handles fd = some (.file rest)) {fuel : Nat}
    (hfuel : (rest.length + 1023) / 1024 < fuel) (buf : Buffer) :
    ∃ s', (catLoop fd fuel buf).Runs answer s (some 0) s' (2 * ((rest.length + 1023) / 1024) + 1) ∧
      s'.output = s.output ++ rest := by
  -- one round of the loop is one of the fuel: what is left of the file gets shorter by what is read
  induction fuel generalizing s rest buf with
  | zero => exact absurd hfuel (Nat.not_lt_zero _)
  | succ fuel ih =>
    have hread := answer_read_file hlow hfd hhandle buf (n := 1024) (by decide) (by decide)
    by_cases hend : rest = []
    · -- the read that finds the end returns 0 and is the last call
      subst hend
      refine ⟨_, Program.Runs.call hread (.done ..), ?_⟩
      exact (List.append_nil _).symm
    · obtain ⟨count, hcount⟩ : ∃ c, c = min 1024 rest.length := ⟨_, rfl⟩
      rw [← hcount] at hread
      have hsome : 0 < rest.length := List.length_pos_iff.mpr hend
      have hleft : ((rest.drop count).length + 1023) / 1024 + 1 = (rest.length + 1023) / 1024 := by
        rw [List.length_drop]
        omega
      -- what was read is written, and the rest of the file stays for the rounds to come
      have hwrite := answer_write
        { s with handles := Function.update s.handles fd (some (.file (rest.drop count))) }
        (copyRange buf 0 count fun i => rest.getD i 0) count
      rw [map_copyRange_getD buf (by omega)] at hwrite
      obtain ⟨s', hrest, houtput⟩ := ih (s := { s with
        handles := Function.update s.handles fd (some (.file (rest.drop count)))
        output := s.output ++ rest.take count }) (Function.update_self ..) (by omega)
        (copyRange buf 0 count fun i => rest.getD i 0)
      refine ⟨s', ?_, ?_⟩
      · have hcalls : 2 * ((rest.length + 1023) / 1024) + 1 =
            2 * (((rest.drop count).length + 1023) / 1024) + 1 + 1 + 1 := by
          omega
        rw [hcalls]
        -- the branches of the loop: neither an error nor the end
        refine Program.Runs.call hread ?_
        dsimp only [Option.getD]
        rw [if_neg (by omega), if_neg (by omega)]
        refine Program.Runs.call hwrite ?_
        dsimp only
        rw [if_neg (by omega)]
        exact hrest
      · rw [houtput, List.append_assoc, List.take_append_drop]

/-- `getargs` of a string. -/
theorem answer_getargs {argument : CString} (hargs : HoldsString s.args argument) (buf : Buffer) :
    s.answer (.getargs (some buf) 1024) = some (if argument.strlen = 0 then (-1, some buf)
      else (0, some (strncpy buf s.args 1024)), s) := by
  have hempty : s.args 0 = 0 ↔ argument.strlen = 0 := by
    rw [hargs 0 (Nat.zero_le _)]
    constructor
    · intro hzero
      refine Classical.byContradiction fun hne => ?_
      exact argument.byte_ne_zero (Nat.pos_of_ne_zero hne) hzero
    · exact fun hzero => argument.byte_of_le (Nat.le_of_eq hzero)
  show some (if s.args 0 = 0 then _ else _, s) = _
  simp only [hempty]
  rfl

/-- `open` of a regular file, while no file is open. -/
theorem answer_open_file {name : CString} {contents : List UInt8}
    (hclosed : ∀ fd, s.handles fd = none) (hname : s.disk name = some (.file contents)) :
    s.answer (.open (some name)) = some ((2, none),
      { s with handles := Function.update s.handles 2 (some (.file contents)) }) := by
  have hfree : s.lowestFree = some 2 := by
    simp only [lowestFree, hclosed]
    rfl
  simp only [answer, hname, bindHandle, hfree]
  rfl

theorem answer_open_nothing {name : CString} (hname : s.disk name = some .nothing) :
    s.answer (.open (some name)) = some ((-1, none), s) := by
  simp only [answer, hname]

/-! ## `cat` -/

variable {argument : CString} (hargs : HoldsString s.args argument) (fuel : Nat) (buf : Buffer)

include hargs

theorem cat_runs_noArgument (hnone : argument.strlen = 0) :
    (cat fuel buf).Runs answer s (some 3)
      { s with output := s.output ++ argumentsUnreadText.chars } 2 := by
  have hgetargs := answer_getargs hargs buf
  rw [if_pos hnone] at hgetargs
  refine Program.Runs.call hgetargs ?_
  dsimp only
  rw [if_pos (by decide)]
  exact s.message_runs ..

/-- `cat` finds its argument. -/
theorem cat_runs_open (hsome : argument.strlen ≠ 0) (hshort : argument.strlen < 1024)
    {reply : Reply} {s₁ s' : Session} {v : Option Int} {n : Nat}
    (hopen : s.answer (.open (some argument)) = some (reply, s₁))
    (hrest : (if reply.1 = -1 then do
        fdputs 1 fileNotFoundText
        pure (some 2)
      else catLoop reply.1 fuel (strncpy buf s.args 1024) : UserProgram (Option Int)).Runs answer
        s₁ v s' n) :
    (cat fuel buf).Runs answer s v s' (n + 2) := by
  have hgetargs := answer_getargs hargs buf
  rw [if_neg hsome] at hgetargs
  refine Program.Runs.call hgetargs ?_
  dsimp only [Option.getD]
  rw [if_neg (by decide), (hargs.strncpy buf hshort).stringIn hshort]
  exact Program.Runs.call hopen hrest

theorem cat_runs_missing (hsome : argument.strlen ≠ 0) (hshort : argument.strlen < 1024)
    (hname : s.disk argument = some .nothing) :
    (cat fuel buf).Runs answer s (some 2)
      { s with output := s.output ++ fileNotFoundText.chars } 3 := by
  refine cat_runs_open hargs fuel buf hsome hshort (answer_open_nothing hname) ?_
  rw [if_pos rfl]
  exact s.message_runs ..

theorem cat_runs_file (hsome : argument.strlen ≠ 0) (hshort : argument.strlen < 1024)
    (hclosed : ∀ fd, s.handles fd = none) {contents : List UInt8}
    (hname : s.disk argument = some (.file contents))
    (hfuel : (contents.length + 1023) / 1024 < fuel) :
    ∃ s', (cat fuel buf).Runs answer s (some 0) s' (2 * ((contents.length + 1023) / 1024) + 3) ∧
      s'.output = s.output ++ contents := by
  let s₁ : Session := { s with handles := Function.update s.handles 2 (some (.file contents)) }
  have hopened : s₁.handles 2 = some (.file contents) := by
    simp only [s₁, Function.update_self]
  obtain ⟨s', hloop, houtput⟩ := catLoop_runs (Nat.le_refl 2) (by decide) hopened hfuel
    (strncpy buf s.args 1024)
  refine ⟨s', ?_, houtput⟩
  refine cat_runs_open hargs fuel buf hsome hshort (answer_open_file hclosed hname) ?_
  rw [if_neg (by decide)]
  exact hloop

omit hargs

/-! ## `ls` -/

/-- `open` of the directory, while no file is open. -/
theorem answer_open_directory {name : CString} (hclosed : ∀ fd, s.handles fd = none)
    (hname : s.disk name = some .directory) :
    s.answer (.open (some name)) = some ((2, none), { s with
      handles := Function.update s.handles 2 (some .directory), listing := s.entries }) := by
  have hfree : s.lowestFree = some 2 := by
    simp only [lowestFree, hclosed]
    rfl
  simp only [answer, hname, bindHandle, hfree]
  rfl

/-- `read` of the directory. -/
theorem answer_read_directory (hlow : 2 ≤ fd) (hfd : fd < maximumOpenFiles)
    (hhandle : s.handles fd = some .directory) (buf : Buffer) :
    s.answer (.read fd (some buf) 32) = match s.listing with
      | none => none
      | some [] => some ((0, some buf), s)
      | some (name :: names) => some (((min 32 name.strlen : Nat), some (strncpy buf name.byte 32)),
          { s with listing := some names }) := by
  have hguard : (2 : Int) ≤ fd ∧ (fd : Int) < maximumOpenFiles ∧ (0 : Int) < 32 ∧
      (32 : Int) < 2 ^ 31 := by
    omega
  show (if _ then s.answerRead (fd : Int).toNat buf (32 : Int).toNat else none) = _
  rw [if_pos hguard, Int.toNat_natCast, answerRead, hhandle]
  rfl

/-- A name in the array of `ls`, with the line break that is stored behind it. -/
theorem map_nameLine (buf : Buffer) {name : CString} (hname : name.strlen ≤ 32) :
    (List.range (name.strlen + 1)).map
      (Function.update (strncpy buf name.byte 32) name.strlen 10) = name.chars ++ [10] := by
  rw [List.range_succ, List.map_append, List.map_singleton, Function.update_self]
  congr 1
  refine List.ext_getElem (by simp [CString.strlen]) fun i _ hi => ?_
  have hheld : HoldsString name.byte name := fun _ _ => rfl
  have hne : i ≠ name.strlen := Nat.ne_of_lt hi
  rw [List.getElem_map, List.getElem_range, Function.update_of_ne hne,
    hheld.strncpy_eq, if_pos (Nat.lt_of_lt_of_le hi hname), name.byte_of_lt hi]

theorem lsLoop_runs (hlow : 2 ≤ fd) (hfd : fd < maximumOpenFiles)
    (hhandle : s.handles fd = some .directory) {names : List CString}
    (hlisting : s.listing = some names) (hnames : ∀ name ∈ names, name.strlen ≤ 32) {fuel : Nat}
    (hfuel : (shownNames names).length < fuel) (buf : Buffer) :
    ∃ s', (lsLoop fd fuel buf).Runs answer s (some 0) s' (2 * (shownNames names).length + 1) ∧
      s'.output = s.output ++ nameLines names := by
  -- one round for each name that is shown
  induction fuel generalizing s names buf with
  | zero => exact absurd hfuel (Nat.not_lt_zero _)
  | succ fuel ih =>
    have hread := answer_read_directory hlow hfd hhandle buf
    rw [hlisting] at hread
    cases names with
    | nil =>
      -- behind the last entry the read returns 0
      refine ⟨_, Program.Runs.call hread (.done ..), ?_⟩
      exact (List.append_nil _).symm
    | cons name names =>
      have hlength := hnames name List.mem_cons_self
      dsimp only at hread
      rw [Nat.min_eq_right hlength] at hread
      by_cases hempty : name.strlen = 0
      · -- an empty name has the length 0, which the program takes for the end
        have hshown : shownNames (name :: names) = [] := by
          rw [shownNames, List.takeWhile_cons_of_neg (by simpa using hempty)]
        rw [nameLines, hshown]
        refine ⟨{ s with listing := some names }, Program.Runs.call hread ?_, ?_⟩
        · dsimp only
          rw [if_pos (by omega)]
          exact .done ..
        · exact (List.append_nil _).symm
      · have hshown : shownNames (name :: names) = name :: shownNames names := by
          rw [shownNames, List.takeWhile_cons_of_pos (by simpa using hempty)]
          rfl
        have hlines : nameLines (name :: names) = name.chars ++ [10] ++ nameLines names := by
          rw [nameLines, hshown, List.flatMap_cons]
          rfl
        -- the program puts a line end behind the name and writes both
        have hwrite := answer_write { s with listing := some names }
          (Function.update (strncpy buf name.byte 32) name.strlen 10) (name.strlen + 1)
        rw [map_nameLine buf hlength] at hwrite
        rw [hshown, List.length_cons] at hfuel
        obtain ⟨s', hrest, houtput⟩ := ih (s := { s with
          listing := some names
          output := s.output ++ (name.chars ++ [10]) }) hhandle rfl
          (fun other hother => hnames other (List.mem_cons_of_mem _ hother)) (by omega)
          (Function.update (strncpy buf name.byte 32) name.strlen 10)
        refine ⟨s', ?_, ?_⟩
        · rw [hshown, List.length_cons]
          -- as for `cat`: one read and one write
          refine Program.Runs.call hread ?_
          dsimp only [Option.getD]
          rw [if_neg (by omega), if_neg (by omega)]
          refine Program.Runs.call hwrite ?_
          dsimp only
          rw [if_neg (by omega)]
          exact hrest
        · rw [houtput, hlines, List.append_assoc]

end Session

/-! ## In the system -/

/-- No event changes the files. -/
theorem Kernel.Settled.image_step {k k' : Kernel} {e : KernelEvent} (h : k.Settled)
    (hstep : kernelStep k e = some k') : k'.image = k.image := by
  have hrefines := kernelStep_processes h.boot h.shell hstep
  refine (congrArg ProcessState.image hrefines).trans ?_
  cases k.processAction e <;> rfl

theorem Kernel.Started.image_step {k k' : Kernel} {e : KernelEvent} (h : k.Started)
    (hquiet : k.NoEarlyProgram e) (hstep : startupStep k e = some k') : k'.image = k.image := by
  by_cases hboot : k.shellTid ≤ 2
  · obtain ⟨hshell, m, hstarting⟩ := h.starting hboot
    exact (starting_step hshell hboot hstarting hquiet hstep).1
  · exact (h.settled (Nat.lt_of_not_le hboot)).image_step (startupStep_eq_some hstep).2

/-- A program that `execute` starts after the start-up of the kernel. -/
structure Launches (a : TableAddresses) (img : Image) (es : List KernelEvent) (command : CString)
    (k : Kernel) : Prop where
  shell : img.HoldsShell
  quiet : EachStep startupStep Kernel.NoEarlyProgram (.entry a img) es
  starts : ∃ k₀ stack regs, exec startupStep (.entry a img) es = some k₀ ∧ 2 < k₀.shellTid ∧
    k₀.execute (some command) stack regs = (.user, k)

theorem Launches.sees {a : TableAddresses} {img : Image} {es : List KernelEvent}
    {command : CString} {k : Kernel} (h : Launches a img es command k) (alone : Bool) :
    ∃ args, HoldsString args (Kernel.parseCommand command).2 ∧
      Sees k.currPid alone (Session.start img alone args) ⟨k, []⟩ := by
  obtain ⟨k₀, stack, regs, hrun, hboot, hstarts⟩ := h.starts
  -- the image does not change, so the file system that the program sees is that of the boot
  have hinvariant : k₀.WellMapped ∧ k₀.image = img := by
    refine exec_invariant_of_eachStep (I := fun k => k.WellMapped ∧ k.image = img)
      (fun k e k' hI hquiet hstep => ⟨hI.1.step hquiet hstep, ?_⟩) ⟨.entry a h.shell, rfl⟩
      h.quiet hrun
    exact (hI.1.started.image_step hquiet hstep).trans hI.2
  have hsettled := hinvariant.1.started.settled hboot
  have hstep : kernelStep k₀ (.execute (some command) stack regs) = some k := by
    show some (k₀.execute (some command) stack regs).2 = some k
    rw [hstarts]
  have himage : k.image = img := (hsettled.image_step hstep).trans hinvariant.2
  have hsees := sees_start hsettled hstarts alone
  rw [himage] at hsees
  exact ⟨_, Kernel.argsBuf_execute hstarts, hsees⟩

/-- What `cat` does with its argument in the kernel `k` that has just started it. -/
structure CatLaw (img : Image) (k : Kernel) (argument : CString) (buf : Buffer) : Prop where
  noArgument : ∀ fuel, argument.strlen = 0 →
    Behaves k.currPid false ⟨k, []⟩ (cat fuel buf) 3 argumentsUnreadText.chars 2
  missing : ∀ fuel, argument.strlen ≠ 0 → img.find argument = some .nothing →
    Behaves k.currPid false ⟨k, []⟩ (cat fuel buf) 2 fileNotFoundText.chars 3
  shows : ∀ fuel contents, argument.strlen ≠ 0 → img.find argument = some (.file contents) →
    (contents.length + 1023) / 1024 < fuel →
    Behaves k.currPid false ⟨k, []⟩ (cat fuel buf) 0 contents
      (2 * ((contents.length + 1023) / 1024) + 3)

theorem holdsShell_sampleImage : sampleImage.HoldsShell := by
  have hfind : sampleImage.find shellName =
      some (.file (elfMagic.chars ++ List.replicate 24 0)) := by
    decide +kernel
  obtain ⟨entry, hentry, -, hgood, hcontents⟩ := (Image.describes_find hfind).2
  exact ⟨entry, hentry, hgood, hcontents ▸ List.prefix_append ..⟩

/-- The last root shell starts a program. -/
theorem launches_of_bootTicks {img : Image} (hshell : img.HoldsShell) (command : CString)
    (hquiet : EachStep startupStep Kernel.NoEarlyProgram (Kernel.entry sampleTables img) bootTicks)
    (hstarts : (exec startupStep (Kernel.entry sampleTables img) bootTicks).any (fun k₀ =>
      2 < k₀.shellTid ∧ (k₀.execute (some command) (fun _ => 0) ⟨8, 9⟩).1 = .user) = true) :
    ∃ k, Launches sampleTables img bootTicks command k := by
  obtain ⟨k₀, hrun, hk₀⟩ := (Option.any_eq_true ..).mp hstarts
  obtain ⟨hboot, huser⟩ := of_decide_eq_true hk₀
  exact ⟨_, hshell, hquiet, k₀, fun _ => 0, ⟨8, 9⟩, hrun, hboot, Prod.ext huser rfl⟩

/-- `shell shell` -/
def shellShell : CString := ⟨shellName.chars ++ 32 :: shellName.chars, by decide⟩

/-- A name fits in its field. -/
theorem Image.strlen_le_of_mem_names {img : Image} {name : CString} (h : name ∈ img.names) :
    name.strlen ≤ maximumFilenameLength := by
  obtain ⟨i, -, rfl⟩ := List.mem_map.mp h
  exact (img.dentry i).length_name_le

end LinuxLikeOs
