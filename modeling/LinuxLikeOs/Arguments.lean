import LinuxLikeOs.CommandLine
import LinuxLikeOs.ExecuteName
import LinuxLikeOs.SequentialRead

/-!
# The arguments of a program

`execute` stores the argument that `parse_command` has found in `args_buf` of the new process, and
`getargs` copies it to the program.

- `argumentText`: what stands behind the name of the program
- `execute_arguments_iff`: when all of it reaches `args_buf`
- `getargs_iff`: for which counts `getargs` delivers a whole string
-/

namespace LinuxLikeOs

open Library

/-! ## Strings in buffers -/

namespace HoldsString

variable {buf : Buffer} {s t : CString}

/-- The terminator of one string in a buffer ends every other. -/
theorem strlen_le (hs : HoldsString buf s) (ht : HoldsString buf t) : s.strlen ≤ t.strlen := by
  by_contra hnot
  have hlt : t.strlen < s.strlen := Nat.lt_of_not_le hnot
  have hends : buf t.strlen = 0 :=
    (ht t.strlen (Nat.le_refl _)).trans (t.byte_of_le (Nat.le_refl _))
  exact s.byte_ne_zero hlt ((hs t.strlen (Nat.le_of_lt hlt)).symm.trans hends)

/-- A buffer holds one string only. -/
theorem unique (hs : HoldsString buf s) (ht : HoldsString buf t) : s.chars = t.chars := by
  have hlength : s.chars.length = t.chars.length :=
    Nat.le_antisymm (hs.strlen_le ht) (ht.strlen_le hs)
  refine List.ext_getElem hlength fun i hi hi' => ?_
  rw [← s.byte_of_lt hi, ← t.byte_of_lt hi', ← hs i (Nat.le_of_lt hi), ht i (Nat.le_of_lt hi')]

/-- `strncpy` copies the string that its source holds and fills up with zeros. -/
theorem strncpy_eq (hs : HoldsString buf s) (dest : Buffer) (n i : Nat) :
    strncpy dest buf n i = if i < n then s.byte i else dest i := by
  rw [strncpy]
  by_cases hi : i < s.strlen
  · have hnonzero : ∀ j ≤ i, buf j ≠ 0 := by
      intro j hj
      rw [hs j (by omega)]
      exact s.byte_ne_zero (Nat.lt_of_le_of_lt hj hi)
    rw [if_pos hnonzero, hs i (Nat.le_of_lt hi)]
  · have hzero : ¬ ∀ j ≤ i, buf j ≠ 0 := fun hnonzero =>
      hnonzero s.strlen (Nat.le_of_not_lt hi)
        ((hs s.strlen (Nat.le_refl _)).trans (s.byte_of_le (Nat.le_refl _)))
    rw [if_neg hzero, s.byte_of_le (Nat.le_of_not_lt hi)]

/-- With room for the terminator the copy is a string. -/
theorem strncpy (hs : HoldsString buf s) (dest : Buffer) {n : Nat} (hn : s.strlen < n) :
    HoldsString (strncpy dest buf n) s := by
  intro i hi
  rw [hs.strncpy_eq, if_pos (Nat.lt_of_le_of_lt hi hn)]

end HoldsString

namespace Kernel

/-! ## The arguments that are stored -/

/-- The command line behind the name of the program. -/
def argumentLine (command : CString) : List UInt8 := afterFirstWord (skipSpaces command.chars)

/-- Its text, from the first argument to the last. -/
def argumentText (command : CString) : CString :=
  word command (trim blank (argumentLine command)) fun _ hc =>
    List.dropWhile_subset _ (List.dropWhile_subset _ (List.dropWhile_subset _
      ((List.rdropWhile_prefix _ _).subset hc)))

/-- The arguments of a command. -/
def commandArguments (command : CString) : List (List UInt8) := words blank (argumentLine command)

/-- They are the words behind the first. -/
theorem commandArguments_eq (command : CString) :
    commandArguments command = (commandWords command).tail := (tail_words _).symm

variable {k k' : Kernel} {command : CString} {stack : Buffer} {regs : Context}

/-- The start of a program copies its argument. -/
theorem argsBuf_startProgram (k : Kernel) (args : CString) (regs : Context) :
    (k.startProgram args regs).currPcb.argsBuf =
      strncpy k.currPcb.argsBuf args.byte maximumCommandLength := by
  have hcurr : (k.startProgram args regs).currPid = k.currPid :=
    congrArg ProcessState.currPid (processes_startProgram k args regs)
  have hargs := congrArg Pcb.argsBuf (pcb_startProgram k args regs)
  rw [currPcb, hcurr]
  exact hargs

/-- A program that starts finds the argument of `parse_command`. -/
theorem argsBuf_execute (hstarts : k.execute (some command) stack regs = (.user, k')) :
    HoldsString k'.currPcb.argsBuf (parseCommand command).2 := by
  -- a command that starts has a process number, and the outcome is the one of its start
  cases hspawn : k.spawned (some command) stack with
  | none =>
    rw [execute_of_spawned_none hspawn] at hstarts
    cases hstarts
  | some p =>
    obtain ⟨-, heq⟩ := execute_of_spawned hspawn regs
    obtain rfl := (Prod.mk.inj (heq.symm.trans hstarts)).2
    -- `parse_command` cuts the arguments, so they fit the buffer with their NUL
    have hshort : (parseCommand command).2.strlen < maximumCommandLength := by
      rw [CString.strlen, chars_parseCommand_snd, List.length_take]
      exact Nat.lt_of_le_of_lt (Nat.min_le_left ..) (by decide)
    rw [argsBuf_startProgram]
    exact HoldsString.strncpy (fun _ _ => rfl) _ hshort

/-- A text of at most 127 bytes is what `parse_command` finds exactly if it is one argument. -/
theorem chars_parseCommand_snd_eq_iff (htext : (argumentText command).strlen ≤ 127) :
    (parseCommand command).2.chars = (argumentText command).chars ↔
      (commandArguments command).length ≤ 1 := by
  let argument := firstWord (skipSpaces (argumentLine command))
  have hargument : (parseCommand command).2.chars = argument.take 127 := rfl
  have hchars : (argumentText command).chars = trim blank (argumentLine command) := rfl
  have hprefix : argument.length ≤ (argumentText command).strlen := by
    rw [CString.strlen, hchars, trim_eq_append, List.length_append]
    exact Nat.le_add_right ..
  rw [hargument, List.take_of_length_le (Nat.le_trans hprefix htext)]
  exact takeWhile_eq_trim_iff _

/-- **All arguments** reach the program exactly if there is at most one. -/
theorem execute_arguments_iff (hstarts : k.execute (some command) stack regs = (.user, k'))
    (htext : (argumentText command).strlen ≤ 127) :
    HoldsString k'.currPcb.argsBuf (argumentText command) ↔
      (commandArguments command).length ≤ 1 := by
  have hstored := argsBuf_execute hstarts
  rw [← chars_parseCommand_snd_eq_iff htext]
  constructor
  · exact fun hall => hstored.unique hall
  · -- the text is what is stored
    intro heq i hi
    rw [hstored i (by rw [CString.strlen, heq]; exact hi), CString.byte, heq, CString.byte]

/-! ## Their delivery -/

/-- `getargs` delivers the whole string or nothing: when it returns 0 the buffer starts with the
    string and its terminator and is unchanged from `nbytes` on, and when they do not fit in
    `nbytes` bytes it returns -1. -/
structure GetargsLaw (k : Kernel) (args : CString) (buf : Buffer) (nbytes : Int) : Prop where
  delivers : ∀ out, k.getargs (some buf) nbytes = (0, some out) →
    HoldsString out args ∧ ∀ i : Nat, max nbytes 0 ≤ i → out i = buf i
  refuses : nbytes ≤ args.strlen → (k.getargs (some buf) nbytes).1 = -1

variable {args : CString}

/-- With a string in `args_buf`, `getargs` copies whatever the count is. -/
theorem getargs_eq (hargs : HoldsString k.currPcb.argsBuf args) (hsome : 0 < args.strlen)
    (buf : Buffer) (nbytes : Int) :
    k.getargs (some buf) nbytes =
      (0, some (strncpy buf k.currPcb.argsBuf (ofInt32 nbytes).toNat)) := by
  have hfirst : ¬ k.currPcb.argsBuf 0 = 0 := by
    rw [hargs 0 (Nat.zero_le _)]
    exact args.byte_ne_zero hsome
  rw [getargs, if_neg hfirst]

/-- **The law of `getargs`** holds exactly for the counts that leave room for the terminator. -/
theorem getargs_iff (hargs : HoldsString k.currPcb.argsBuf args) (hsome : 0 < args.strlen)
    (buf : Buffer) {nbytes : Int} (hmax : nbytes < 2 ^ 31) :
    k.GetargsLaw args buf nbytes ↔ args.strlen < nbytes := by
  have hcopies := getargs_eq hargs hsome buf nbytes
  constructor
  · -- `getargs` never refuses a count
    intro h
    by_contra hnot
    have hrefused := h.refuses (Int.not_lt.mp hnot)
    rw [hcopies] at hrefused
    cases hrefused
  · intro hroom
    -- a positive count is converted to itself
    have hcount : (ofInt32 nbytes).toNat = nbytes.toNat := toNat_ofInt32 (by omega) hmax
    rw [hcount] at hcopies
    constructor
    case delivers =>
      intro out hout
      obtain rfl := Option.some.inj (Prod.mk.inj (hcopies.symm.trans hout)).2
      refine ⟨hargs.strncpy buf (by omega), fun i hi => ?_⟩
      rw [hargs.strncpy_eq, if_neg (by omega)]
    case refuses => exact fun hshort => absurd hshort (Int.not_le.mpr hroom)

end Kernel

/-! ## A shell in a shell -/

/-- `shell a b` -/
def twoArguments : CString := ⟨[115, 104, 101, 108, 108, 32, 97, 32, 98], by decide⟩

/-- `shell a` with blanks around the argument. -/
def oneArgument : CString := ⟨[115, 104, 101, 108, 108, 32, 32, 97, 32], by decide⟩

theorem execute_arguments_iff_oneArgument :
    ∃ k', sampleKernel.execute (some oneArgument) (fun _ => 0) ⟨0, 0⟩ = (.user, k') ∧
      (HoldsString k'.currPcb.argsBuf (Kernel.argumentText oneArgument) ↔
        (Kernel.commandArguments oneArgument).length ≤ 1) := by
  have hstarts : (sampleKernel.execute (some oneArgument) (fun _ => 0) ⟨0, 0⟩).1 = .user := by
    decide +kernel
  exact ⟨_, Prod.ext hstarts rfl,
    Kernel.execute_arguments_iff (Prod.ext hstarts rfl) (by decide +kernel)⟩

/-- Of two arguments the second is lost. -/
theorem execute_loses_second_argument :
    ∃ k', sampleKernel.execute (some twoArguments) (fun _ => 0) ⟨0, 0⟩ = (.user, k') ∧
      (Kernel.argumentText twoArguments).chars = [97, 32, 98] ∧
      ¬ HoldsString k'.currPcb.argsBuf (Kernel.argumentText twoArguments) := by
  have hstarts : (sampleKernel.execute (some twoArguments) (fun _ => 0) ⟨0, 0⟩).1 = .user := by
    decide +kernel
  have hexecute := Prod.ext hstarts (rfl : _ = (sampleKernel.execute (some twoArguments)
    (fun _ => 0) ⟨0, 0⟩).2)
  refine ⟨_, hexecute, by decide +kernel, fun hall => ?_⟩
  have hstored := (Kernel.argsBuf_execute hexecute).unique hall
  revert hstored
  decide +kernel

/-- A process with the argument `a`. -/
def argumentKernel : Kernel :=
  sampleKernel.modifyPcb sampleKernel.currPid fun pcb =>
    { pcb with argsBuf := fun i => if i = 0 then 97 else 0 }

theorem holdsString_argumentKernel :
    HoldsString argumentKernel.currPcb.argsBuf ⟨[97], by decide⟩ := by
  unfold HoldsString
  decide +kernel

theorem getargs_iff_argument :
    argumentKernel.GetargsLaw ⟨[97], by decide⟩ (fun _ => 7) 2 ↔
      (CString.strlen ⟨[97], by decide⟩ : Int) < 2 :=
  Kernel.getargs_iff holdsString_argumentKernel (by decide) (fun _ => 7) (by decide)

/-- With room for one byte the terminator is missing, and a negative count is taken for a huge
    one. -/
theorem getargs_truncates :
    HoldsString argumentKernel.currPcb.argsBuf ⟨[97], by decide⟩ ∧
      (∃ out, argumentKernel.getargs (some fun _ => 7) 1 = (0, some out) ∧ out 1 = 7) ∧
      (∃ out, argumentKernel.getargs (some fun _ => 7) (-1) = (0, some out) ∧ out 1 = 0) ∧
      ¬ argumentKernel.GetargsLaw ⟨[97], by decide⟩ (fun _ => 7) 1 ∧
      ¬ argumentKernel.GetargsLaw ⟨[97], by decide⟩ (fun _ => 7) (-1) := by
  have hargs := holdsString_argumentKernel
  have hone := Kernel.getargs_eq hargs (by decide) (fun _ => 7) 1
  have hnegative := Kernel.getargs_eq hargs (by decide) (fun _ => 7) (-1)
  refine ⟨hargs, ⟨_, hone, ?_⟩, ⟨_, hnegative, ?_⟩, fun h => ?_, fun h => ?_⟩
  · -- one byte holds the letter and not its NUL
    rw [hargs.strncpy_eq, if_neg (by decide)]
  · -- the count -1 is the greatest unsigned one, so the NUL is copied too
    rw [hargs.strncpy_eq, if_pos (by decide)]
    rfl
  · have hrefused := h.refuses (by decide)
    rw [hone] at hrefused
    cases hrefused
  · have hrefused := h.refuses (by decide)
    rw [hnegative] at hrefused
    cases hrefused

end LinuxLikeOs
