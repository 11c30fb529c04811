import LinuxLikeOs.DirectoryRead
import LinuxLikeOs.Library.Words

/-!
# Parsing a command line

`parse_command` as it runs: six loops that share three indices, over the characters of the command
and two local arrays of `execute`.

- `parseCommandInto`: the loops, with every read and write checked against the bounds
- `parseCommandInto_eq`: the loops end, without a fault, and refine `Kernel.parseCommand`
- `parseCommandInto_bounded`: the arrays get the first two words
-/

namespace LinuxLikeOs

open Library

/-! ## The loops -/

/-- What keeps `parse_command` from an end: a read behind the terminator of the command, a write
    outside of an array, or a loop that goes on. -/
inductive ParseFault where
  | read (i : Nat)
  | write (i : Nat)
  | running
  deriving DecidableEq

/-- `command[i]`. -/
def load (command : CString) (i : Nat) : Except ParseFault UInt8 :=
  if i ≤ command.strlen then .ok (command.byte i) else .error (.read i)

/-- `array[i] = c`, in an array of `size` bytes. -/
def store (size : Nat) (array : Buffer) (i : Nat) (c : UInt8) : Except ParseFault Buffer :=
  if i < size then .ok (Function.update array i c) else .error (.write i)

/-- A loop that moves an index on while `p` holds of the character there.  The indices are of type
    `int32_t`; no command in the mapped memory is long enough to exhaust it. -/
def scanLoop (command : CString) (p : UInt8 → Bool) : Nat → Nat → Except ParseFault Nat
  | 0, _ => .error .running
  | fuel + 1, i => do
    let c ← load command i
    if p c then scanLoop command p fuel (i + 1) else return i

/-- The loop that copies a word to an array of `size` bytes; it returns `i` and the array. -/
def copyWordLoop (command : CString) (size start stop : Nat) :
    Nat → Nat → Buffer → Except ParseFault (Nat × Buffer)
  | 0, _, _ => .error .running
  | fuel + 1, i, array =>
    if i < stop ∧ i - start < size - 1 then do
      let c ← load command i
      let array ← store size array (i - start) c
      copyWordLoop command size start stop fuel (i + 1) array
    else return (i, array)

/-- One half of `parse_command`: remove the leading spaces from `start` on, stop at a space or
    zero, and copy the word to an array of `size` bytes.  It returns `end` and the array. -/
def parseWord (command : CString) (size fuel start : Nat) (array : Buffer) :
    Except ParseFault (Nat × Buffer) := do
  let start ← scanLoop command (· = blank) fuel start
  let stop ← scanLoop command (fun c => c ≠ blank ∧ c ≠ 0) fuel start
  let (i, array) ← copyWordLoop command size start stop fuel start array
  -- the terminator goes where the copy has stopped
  let array ← store size array (i - start) 0
  return (stop, array)

/-- `parse_command`, which fills `file_name` and `request_command`.  `fuel` bounds the turns of
    each loop. -/
def parseCommandInto (command : CString) (fuel : Nat) (fileName requestCommand : Buffer) :
    Except ParseFault (Buffer × Buffer) := do
  let (stop, fileName) ← parseWord command maximumFilenameLength fuel 0 fileName
  let (_, requestCommand) ← parseWord command maximumCommandLength fuel stop requestCommand
  return (fileName, requestCommand)

/-! ## One loop each -/

/-- Characters written over the beginning of an array. -/
def writeChars (array : Buffer) (s : List UInt8) : Buffer := fun i =>
  if i < s.length then s.getD i 0 else array i

/-- The same with a terminator behind them. -/
def writeString (array : Buffer) (s : List UInt8) : Buffer := fun i =>
  if i ≤ s.length then s.getD i 0 else array i

/-- One character more. -/
theorem update_writeChars (array : Buffer) (s : List UInt8) (c : UInt8) :
    Function.update (writeChars array s) s.length c = writeChars array (s ++ [c]) := by
  funext i
  rcases Nat.lt_trichotomy i s.length with hlt | rfl | hgt
  · rw [Function.update_of_ne (Nat.ne_of_lt hlt)]
    simp [writeChars, hlt, Nat.lt_succ_of_lt hlt]
  · simp [writeChars]
  · rw [Function.update_of_ne (Nat.ne_of_gt hgt)]
    simp [writeChars, Nat.not_lt_of_gt hgt, Nat.not_lt.mpr hgt]

/-- The terminator. -/
theorem update_writeChars_zero (array : Buffer) (s : List UInt8) :
    Function.update (writeChars array s) s.length 0 = writeString array s := by
  funext i
  rcases Nat.lt_trichotomy i s.length with hlt | rfl | hgt
  · rw [Function.update_of_ne (Nat.ne_of_lt hlt), writeChars, writeString, if_pos hlt,
      if_pos (Nat.le_of_lt hlt)]
  · simp [writeString]
  · rw [Function.update_of_ne (Nat.ne_of_gt hgt), writeChars, writeString,
      if_neg (Nat.not_lt_of_gt hgt), if_neg (Nat.not_le.mpr hgt)]

section loops

variable {command : CString}

/-- The reads of a scan: the character behind those that it has passed. -/
theorem load_append {done rest : List UInt8} (h : command.chars = done ++ rest) :
    load command done.length = .ok (rest.headD 0) := by
  have hle : done.length ≤ command.strlen := by
    rw [CString.strlen, h, List.length_append]
    exact Nat.le_add_right ..
  have hbyte : command.byte done.length = rest.headD 0 := by
    rw [CString.byte, h]
    cases rest <;> simp
  rw [load, if_pos hle, hbyte]

/-- A scan that the terminator stops passes the characters with the property. -/
theorem scanLoop_eq {p q : UInt8 → Bool} (hp : p 0 = false) (hq : ∀ c, c ≠ 0 → p c = q c)
    {fuel : Nat} {done rest : List UInt8} (h : command.chars = done ++ rest)
    (hfuel : rest.length < fuel) :
    scanLoop command p fuel done.length = .ok (done ++ rest.takeWhile q).length := by
  -- over the rest of the command, which `done` grows by
  induction rest generalizing fuel done with
  | nil =>
    obtain ⟨n, rfl⟩ := Nat.exists_eq_succ_of_ne_zero (Nat.ne_of_gt hfuel)
    -- the terminator stops the scan
    have hload : load command done.length = .ok 0 := load_append h
    rw [scanLoop, hload]
    simp [hp, pure, Except.pure, bind, Except.bind]
  | cons c rest ih =>
    obtain ⟨n, rfl⟩ := Nat.exists_eq_succ_of_ne_zero (Nat.ne_of_gt (Nat.zero_lt_of_lt hfuel))
    have hload : load command done.length = .ok c := load_append h
    have hc : c ≠ 0 := fun hzero => command.noNul (by rw [h, hzero]; simp)
    rw [scanLoop, hload]
    by_cases hpc : p c = true
    · have hnext : command.chars = (done ++ [c]) ++ rest := by rw [h, List.append_assoc]; rfl
      have hrest := ih hnext (Nat.lt_of_succ_lt_succ hfuel)
      rw [List.length_append, List.length_singleton] at hrest
      simp [hpc, ← hq c hc, hrest, bind, Except.bind]
    · simp [hpc, ← hq c hc, pure, Except.pure, bind, Except.bind]

/-- The copy of a word, of which `done` has been copied, stops at its end or in front of the last
    byte of the array. -/
theorem copyWordLoop_eq (size : Nat) {front done todo rest : List UInt8}
    (h : command.chars = (front ++ done) ++ (todo ++ rest)) (hdone : done.length ≤ size - 1)
    {fuel : Nat} (hfuel : todo.length < fuel) (array : Buffer) :
    copyWordLoop command size front.length (front ++ (done ++ todo)).length fuel
        (front ++ done).length (writeChars array done) =
      .ok ((front ++ (done ++ todo).take (size - 1)).length,
        writeChars array ((done ++ todo).take (size - 1))) := by
  -- over the rest of the word; what has been copied and passed grows by the same character
  induction todo generalizing done fuel with
  | nil =>
    obtain ⟨n, rfl⟩ := Nat.exists_eq_succ_of_ne_zero (Nat.ne_of_gt hfuel)
    rw [copyWordLoop, List.append_nil, if_neg fun hgoes => Nat.lt_irrefl _ hgoes.1,
      List.take_of_length_le hdone]
    rfl
  | cons c todo ih =>
    obtain ⟨n, rfl⟩ := Nat.exists_eq_succ_of_ne_zero (Nat.ne_of_gt (Nat.zero_lt_of_lt hfuel))
    have hindex : (front ++ done).length - front.length = done.length := by
      rw [List.length_append, Nat.add_sub_cancel_left]
    rw [copyWordLoop, hindex]
    by_cases hroom : done.length < size - 1
    · have hgoes : (front ++ done).length < (front ++ (done ++ c :: todo)).length := by
        simp only [List.length_append, List.length_cons]
        omega
      have hnext : command.chars = (front ++ (done ++ [c])) ++ (todo ++ rest) := by
        rw [h]
        simp only [List.append_assoc, List.cons_append, List.nil_append]
      have hlength : (front ++ (done ++ [c])).length = (front ++ done).length + 1 := by
        simp only [List.length_append, List.length_singleton, Nat.add_assoc]
      have hmore : (done ++ [c]).length ≤ size - 1 := by
        rw [List.length_append, List.length_singleton]
        exact hroom
      have hrest := ih hnext hmore (Nat.lt_of_succ_lt_succ hfuel)
      rw [hlength, List.append_assoc done, List.singleton_append] at hrest
      have hload : load command (front ++ done).length = .ok c := load_append h
      have hstore : store size (writeChars array done) done.length c =
          .ok (writeChars array (done ++ [c])) := by
        rw [store, if_pos (by omega), update_writeChars]
      rw [if_pos ⟨hgoes, hroom⟩]
      simp only [bind, Except.bind, hload, hstore]
      exact hrest
    · -- the array is full
      have hfull : (done ++ c :: todo).take (size - 1) = done :=
        List.take_left' (Nat.le_antisymm hdone (Nat.le_of_not_lt hroom))
      rw [if_neg fun hgoes => hroom hgoes.2, hfull]
      rfl

theorem spaces_append_skipSpaces (rest : List UInt8) :
    rest.takeWhile (· = blank) ++ Kernel.skipSpaces rest = rest :=
  List.takeWhile_append_dropWhile

theorem firstWord_append_afterFirstWord (rest : List UInt8) :
    Kernel.firstWord rest ++ Kernel.afterFirstWord rest = rest :=
  List.takeWhile_append_dropWhile

/-- **A word**: behind any spaces, it is copied as far as the array goes. -/
theorem parseWord_eq {size : Nat} (hsize : 0 < size) {front rest : List UInt8}
    (h : command.chars = front ++ rest) {fuel : Nat} (hfuel : rest.length < fuel)
    (array : Buffer) :
    parseWord command size fuel front.length array =
      .ok ((front ++ rest.takeWhile (· = blank) ++
          Kernel.firstWord (Kernel.skipSpaces rest)).length,
        writeString array ((Kernel.firstWord (Kernel.skipSpaces rest)).take (size - 1))) := by
  let start := front ++ rest.takeWhile (· = blank)
  let behind := Kernel.skipSpaces rest
  let word := Kernel.firstWord behind
  have hstart : command.chars = start ++ behind := by
    rw [h, List.append_assoc, spaces_append_skipSpaces]
  have hbehind : behind.length ≤ rest.length := (List.dropWhile_suffix _).length_le
  have hword : word.length ≤ behind.length := (List.takeWhile_prefix _).length_le
  have hskips : scanLoop command (· = blank) fuel front.length = .ok start.length :=
    scanLoop_eq (by decide) (fun _ _ => rfl) h hfuel
  have hstops : scanLoop command (fun c => c ≠ blank ∧ c ≠ 0) fuel start.length =
      .ok (start ++ word).length :=
    scanLoop_eq (by decide) (fun c hc => by simp [hc]) hstart (Nat.lt_of_le_of_lt hbehind hfuel)
  have hline : command.chars = (start ++ []) ++ (word ++ Kernel.afterFirstWord behind) := by
    rw [hstart, List.append_nil, firstWord_append_afterFirstWord]
  have hcopies := copyWordLoop_eq size hline (Nat.zero_le _)
    (Nat.lt_of_le_of_lt (Nat.le_trans hword hbehind) hfuel) array
  have hnothing : writeChars array [] = array := rfl
  rw [List.nil_append, List.append_nil, hnothing] at hcopies
  -- the copy leaves the last byte for the terminator
  have hlast : (word.take (size - 1)).length < size := by
    rw [List.length_take]
    omega
  have hstore : store size (writeChars array (word.take (size - 1)))
      ((start ++ word.take (size - 1)).length - start.length) 0 =
        .ok (writeString array (word.take (size - 1))) := by
    rw [List.length_append, Nat.add_sub_cancel_left, store, if_pos hlast, update_writeChars_zero]
  simp only [parseWord, bind, Except.bind, hskips, hstops, hcopies, hstore]
  rfl

end loops

/-! ## Both words -/

/-- **Refinement**: the loops end and fill the arrays with the file name and the argument. -/
theorem parseCommandInto_eq (command : CString) {fuel : Nat} (hfuel : command.strlen < fuel)
    (fileName requestCommand : Buffer) :
    parseCommandInto command fuel fileName requestCommand =
      .ok (writeString fileName (Kernel.parseCommand command).1.chars,
        writeString requestCommand (Kernel.parseCommand command).2.chars) := by
  let name := Kernel.firstWord (Kernel.skipSpaces command.chars)
  let rest := Kernel.afterFirstWord (Kernel.skipSpaces command.chars)
  let done := command.chars.takeWhile (· = blank) ++ name
  -- the line is the blanks, the first word and the rest
  have hline : command.chars = done ++ rest := by
    rw [List.append_assoc, firstWord_append_afterFirstWord, spaces_append_skipSpaces]
  have hrest : rest.length < fuel := by
    have hlength := congrArg List.length hline
    rw [List.length_append] at hlength
    rw [CString.strlen] at hfuel
    omega
  -- the first loop stops behind the first word, the second one goes on from there
  have hname : parseWord command maximumFilenameLength fuel 0 fileName =
      .ok (done.length, writeString fileName (Kernel.parseCommand command).1.chars) :=
    parseWord_eq (by decide) (show command.chars = [] ++ command.chars from rfl) hfuel fileName
  have hargument := parseWord_eq (show 0 < maximumCommandLength by decide) hline hrest
    requestCommand
  simp only [parseCommandInto, bind, Except.bind, hname, hargument]
  rfl

/-- The string stands in the array. -/
theorem holdsString_writeString (array : Buffer) (s : CString) :
    HoldsString (writeString array s.chars) s := fun _ hi => if_pos hi

/-- The words of a command. -/
def commandWords (command : CString) : List (List UInt8) := words blank command.chars

theorem chars_parseCommand_fst (command : CString) :
    (Kernel.parseCommand command).1.chars = ((commandWords command).headD []).take 31 := by
  rw [commandWords, headD_words]
  rfl

theorem chars_parseCommand_snd (command : CString) :
    (Kernel.parseCommand command).2.chars =
      ((commandWords command).tail.headD []).take 127 := by
  rw [commandWords, tail_words, headD_words]
  rfl

/-- What `parse_command` leaves in the two arrays: they are changed within their bounds, end with a
    terminator, and hold the words of a command that has at most two of them and fits. -/
structure ParseLaw (command : CString) (fileName requestCommand file request : Buffer) : Prop where
  fileNameRest : ∀ i, maximumFilenameLength ≤ i → file i = fileName i
  requestCommandRest : ∀ i, maximumCommandLength ≤ i → request i = requestCommand i
  fileNameEnds : ∃ i < maximumFilenameLength, file i = 0
  requestCommandEnds : ∃ i < maximumCommandLength, request i = 0
  /-- A word that is absent is empty. -/
  exact : (commandWords command).length ≤ 2 → ((commandWords command).getD 0 []).length ≤ 31 →
    ((commandWords command).getD 1 []).length ≤ 127 →
      ∃ name argument : CString, name.chars = (commandWords command).getD 0 [] ∧
        argument.chars = (commandWords command).getD 1 [] ∧ HoldsString file name ∧
        HoldsString request argument

/-- A short string ends within an array, and the bytes behind the array stay. -/
theorem writeString_of_length_lt {s : List UInt8} {size : Nat} (h : s.length < size)
    (array : Buffer) :
    (∀ i, size ≤ i → writeString array s i = array i) ∧ ∃ i < size, writeString array s i = 0 := by
  refine ⟨fun i hi => if_neg (Nat.not_le.mpr (Nat.lt_of_lt_of_le h hi)), s.length, h, ?_⟩
  simp [writeString]

/-- **Parsing is bounded and exact**: whatever the command, the loops end without a read behind its
    terminator or a write outside of the arrays, with the arrays as the law says. -/
theorem parseCommandInto_bounded (command : CString) (fileName requestCommand : Buffer) :
    ∃ file request, (∀ fuel, command.strlen < fuel →
        parseCommandInto command fuel fileName requestCommand = .ok (file, request)) ∧
      ParseLaw command fileName requestCommand file request := by
  -- both words are cut below the size of their arrays, so their NUL fits
  have hname : (Kernel.parseCommand command).1.chars.length < maximumFilenameLength := by
    rw [chars_parseCommand_fst, List.length_take]
    exact Nat.lt_of_le_of_lt (Nat.min_le_left ..) (by decide)
  have hargument : (Kernel.parseCommand command).2.chars.length < maximumCommandLength := by
    rw [chars_parseCommand_snd, List.length_take]
    exact Nat.lt_of_le_of_lt (Nat.min_le_left ..) (by decide)
  obtain ⟨hnameRest, hnameEnds⟩ := writeString_of_length_lt hname fileName
  obtain ⟨hargumentRest, hargumentEnds⟩ := writeString_of_length_lt hargument requestCommand
  refine ⟨_, _, fun fuel hfuel => parseCommandInto_eq command hfuel fileName requestCommand,
    hnameRest, hargumentRest, hnameEnds, hargumentEnds, fun _ hfirst hsecond => ?_⟩
  refine ⟨(Kernel.parseCommand command).1, (Kernel.parseCommand command).2, ?_, ?_,
    holdsString_writeString _ _, holdsString_writeString _ _⟩
  · -- a word that was not cut is the whole word, or empty where there is none
    have hhead : (commandWords command).headD [] = (commandWords command).getD 0 [] := by
      cases commandWords command <;> rfl
    rw [chars_parseCommand_fst, hhead, List.take_of_length_le hfirst]
  · have hhead : (commandWords command).tail.headD [] = (commandWords command).getD 1 [] := by
      rcases commandWords command with - | ⟨w, - | ⟨v, ws⟩⟩ <;> rfl
    rw [chars_parseCommand_snd, hhead, List.take_of_length_le hsecond]

/-- Blanks around and between the words, and a third word that is not looked at. -/
example : (parseCommandInto ⟨[32, 32, 97, 98, 32, 99, 32, 32, 100], by decide⟩ 10 (fun _ => 7)
    fun _ => 7).map (fun r => ((List.range 4).map r.1, (List.range 3).map r.2)) =
      .ok ([97, 98, 0, 7], [99, 0, 7]) := by decide

end LinuxLikeOs
