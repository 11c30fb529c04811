import LinuxLikeOs.Library.Lines
import LinuxLikeOs.UserPrograms

/-!
# `grep` on one file

`do_one_file` of `grep` reads a file in pieces of at most 1024 bytes and moves the line that a piece
cuts to the front of its array before it reads on.

- `doOneFile`: the program, with its loops `grepLoop` over the pieces and `linesLoop` over the lines
- `matchingLines`: the lines of a file that contain a string, if it is `Searchable`
- `linesLoop_runs`: one piece, and what it leaves for the next
- `grep_file_of_session`: the file is searched as if it had been read at once
-/

namespace LinuxLikeOs

open Library

/-! ## The program -/

/-- `file open failed` -/
def fileOpenFailedText : CString :=
  ⟨[102, 105, 108, 101, 32, 111, 112, 101, 110, 32, 102, 97, 105, 108, 101, 100, 10], by decide⟩

/-- `file close failed` -/
def fileCloseFailedText : CString :=
  ⟨[102, 105, 108, 101, 32, 99, 108, 111, 115, 101, 32, 102, 97, 105, 108, 101, 100, 10], by decide⟩

/-- `:` -/
def colonText : CString := ⟨[58], by decide⟩

/-- A line break. -/
def newlineText : CString := ⟨[10], by decide⟩

/-- The loop of `ece391_strncmp` from index `i` on, with `n` characters left to compare. -/
def userStrncmp (s1 s2 : Nat → UInt8) : Nat → Nat → Int
  | 0, _ => 0
  | n + 1, i =>
    if s1 i = s2 i then if s1 i = 0 then 0 else userStrncmp s1 s2 n (i + 1)
    else (s1 i).toNat - (s2 i).toNat

/-- `ece391_strcpy` within one array, of at most `n` bytes. -/
def userStrcpy (data : Buffer) : Nat → Nat → Nat → Buffer
  | _, _, 0 => data
  | dst, src, n + 1 =>
    let c := data src
    let data := Function.update data dst c
    if c = 0 then data else userStrcpy data (dst + 1) (src + 1) n

/-- The search for the end of a line among the next `n` bytes, which are those before `last`. -/
def scanLine (data : Buffer) (i : Nat) : Nat → Nat
  | 0 => i
  | n + 1 => if data i ≠ 10 then scanLine data (i + 1) n else i

/-- The search in a line.  `s[0]` is a signed character, and the bytes of the array are unsigned. -/
def lineMatches (s : CString) (data : Buffer) (lineStart lineEnd : Nat) : Bool :=
  (List.range' lineStart (lineEnd - lineStart)).any fun check =>
    asInt8 (s.byte 0) = (data check).toNat ∧
      userStrncmp (fun i => data (check + i)) s.byte s.strlen 0 = 0

/-- The output of a line that matches. -/
def printLine (fname : CString) (data : Buffer) (lineStart : Nat) : UserProgram Unit := do
  fdputs 1 fname
  fdputs 1 colonText
  fdputs 1 (stringIn (fun i => data (lineStart + i)) (1025 - lineStart))
  fdputs 1 newlineText

def searchLine (s fname : CString) (data : Buffer) (lineStart lineEnd : Nat) : UserProgram Unit :=
  if lineMatches s data lineStart lineEnd then printLine fname data lineStart else pure ()

/-- The lines of the first `last` bytes of the array, and the rest of a line that is moved to its
    front; every round but the last one ends a line. -/
def linesLoop (s fname : CString) (cnt : Int) (last : Nat) :
    Nat → Buffer → Nat → UserProgram (Option (Buffer × Nat))
  | 0, _, _ => pure none
  | fuel + 1, data, lineStart => do
    let lineEnd := scanLine data lineStart (last - lineStart)
    if data lineEnd ≠ 10 ∧ cnt ≠ 0 ∧ lineStart ≠ 0 then
      let data := Function.update data lineEnd 0
      pure (some (userStrcpy data 0 lineStart 1025, last - lineStart))
    else do
      let data := Function.update data lineEnd 0
      searchLine s fname data lineStart lineEnd
      if last ≤ lineEnd + 1 then pure (some (data, 0))
      else linesLoop s fname cnt last fuel data (lineEnd + 1)

/-- The pieces of a file, with `last` bytes of the line that the last piece has cut. -/
def grepLoop (s fname : CString) (fd : Int) : Nat → Buffer → Nat → UserProgram (Option Int)
  | 0, _, _ => pure none
  | fuel + 1, data, last => do
    let reply ← Program.perform (.read fd (some fun i => data (last + i)) (1024 - last))
    let cnt := reply.1
    if cnt = -1 then do
      fdputs 1 fileReadFailedText
      pure (some (-1))
    else do
      let piece := reply.2.getD fun i => data (last + i)
      let data := fun i => if i < last then data i else piece (i - last)
      let last := last + cnt.toNat
      match ← linesLoop s fname cnt last (last + 1) data 0 with
      | none => pure none
      | some (data, last) => if cnt = 0 then pure (some 0) else grepLoop s fname fd fuel data last

/-- `do_one_file`. -/
def doOneFile (fuel : Nat) (s fname : CString) (data : Buffer) : UserProgram (Option Int) := do
  let reply ← Program.perform (.open (some fname))
  let fd := reply.1
  if fd = -1 then do
    fdputs 1 fileOpenFailedText
    pure (some (-1))
  else do
    match ← grepLoop s fname fd fuel data 0 with
    | some 0 =>
      let reply ← Program.perform (.close fd)
      if reply.1 = -1 then do
        fdputs 1 fileCloseFailedText
        pure (some (-1))
      else pure (some 0)
    | v => pure v

/-! ## What is searched -/

/-- A string that `grep` can find: it is not empty, and its first character is not negative. -/
def Searchable (s : CString) : Prop := s.strlen ≠ 0 ∧ (s.byte 0).toNat < 128

instance (s : CString) : Decidable (Searchable s) := inferInstanceAs (Decidable (_ ∧ _))

/-- What `grep` shows of a line. -/
def matchText (s fname : CString) (line : List UInt8) : List UInt8 :=
  if Searchable s ∧ s.chars <:+: line then fname.chars ++ 58 :: (line ++ [10]) else []

/-- What it shows of a text behind the characters `line` of the current line: a line ends at a line
    break and after 1024 bytes. -/
def matchingLines (s fname : CString) (line text : List UInt8) : List UInt8 :=
  (breakLines 1024 (· = 10) line text).flatMap (matchText s fname)

/-! ## Text in the array -/

/-- The array holds the text from index `i` on. -/
def HoldsText (data : Buffer) (i : Nat) (text : List UInt8) : Prop :=
  ∀ j (h : j < text.length), data (i + j) = text[j]

namespace HoldsText

variable {data data' : Buffer} {i : Nat} {text text' : List UInt8}

theorem append_iff :
    HoldsText data i (text ++ text') ↔
      HoldsText data i text ∧ HoldsText data (i + text.length) text' := by
  constructor
  · intro h
    -- an index below `text.length` is in `text`, any other in `text'`
    refine ⟨fun j hj => ?_, fun j hj => ?_⟩
    · rw [h j (by rw [List.length_append]; omega), List.getElem_append_left hj]
    · rw [Nat.add_assoc, h _ (by rw [List.length_append]; omega),
        List.getElem_append_right (Nat.le_add_right ..)]
      simp only [Nat.add_sub_cancel_left]
  · rintro ⟨h, h'⟩ j hj
    -- in the first text, or at the same distance into the second one
    by_cases hin : j < text.length
    · rw [h j hin, List.getElem_append_left hin]
    · rw [List.length_append] at hj
      have hindex : i + j = i + text.length + (j - text.length) := by omega
      rw [List.getElem_append_right (Nat.le_of_not_lt hin), hindex, h' _ (by omega)]

theorem congr (h : HoldsText data i text)
    (hsame : ∀ j < text.length, data' (i + j) = data (i + j)) : HoldsText data' i text :=
  fun j hj => (hsame j hj).trans (h j hj)

/-- A text and the terminator behind it are a string. -/
theorem holdsString (h : HoldsText data i text) (hend : data (i + text.length) = 0)
    (hnul : 0 ∉ text) : HoldsString (fun j => data (i + j)) ⟨text, hnul⟩ := by
  intro j hj
  rcases Nat.lt_or_eq_of_le hj with hlt | rfl
  · exact (h j hlt).trans (CString.byte_of_lt _ hlt).symm
  · exact hend.trans (CString.byte_of_le _ (Nat.le_refl _)).symm

end HoldsText

/-- `strncmp` compares `n` characters of a string that has them. -/
theorem userStrncmp_eq_zero_iff {s1 s2 : Nat → UInt8} {n i : Nat}
    (hsome : ∀ j < n, s2 (i + j) ≠ 0) :
    userStrncmp s1 s2 n i = 0 ↔ ∀ j < n, s1 (i + j) = s2 (i + j) := by
  -- on the letters left to compare; the string to find has no NUL among them
  induction n generalizing i with
  | zero => exact iff_of_true rfl fun j hj => absurd hj (Nat.not_lt_zero j)
  | succ n ih =>
    have hfirst : s2 i ≠ 0 := hsome 0 (Nat.zero_lt_succ n)
    have hrest := ih (i := i + 1) fun j hj => by
      rw [Nat.add_right_comm]
      exact hsome (j + 1) (Nat.succ_lt_succ hj)
    rw [userStrncmp]
    -- equal letters go on, and the letter is not the NUL that would end the loop early
    by_cases heq : s1 i = s2 i
    · rw [if_pos heq, if_neg (heq ▸ hfirst), hrest]
      constructor
      · intro h j hj
        cases j with
        | zero => exact heq
        | succ j =>
          have := h j (Nat.lt_of_succ_lt_succ hj)
          rwa [Nat.add_right_comm] at this
      · intro h j hj
        rw [Nat.add_right_comm]
        exact h (j + 1) (Nat.succ_lt_succ hj)
    · rw [if_neg heq]
      -- two different letters have a difference that is not zero
      refine iff_of_false (fun hzero => heq (UInt8.toNat_inj.mp ?_)) fun h => heq ?_
      · omega
      · exact h 0 (Nat.zero_lt_succ n)

theorem update_eq_copyRange (data : Buffer) (dst : Nat) (src : Nat → UInt8) :
    Function.update data dst (src 0) = copyRange data dst 1 src := by
  funext j
  by_cases hj : j = dst
  · rw [hj, Function.update_self, copyRange, if_pos ⟨Nat.le_refl _, Nat.lt_succ_self _⟩,
      Nat.sub_self]
  · rw [Function.update_of_ne hj, copyRange, if_neg (by omega)]

/-- `strcpy` towards the front of the array moves the string and its terminator. -/
theorem userStrcpy_eq (data : Buffer) {dst src len n : Nat} (hle : dst ≤ src) (hlen : len < n)
    (hsome : ∀ j < len, data (src + j) ≠ 0) (hend : data (src + len) = 0) :
    userStrcpy data dst src n = copyRange data dst (len + 1) fun j => data (src + j) := by
  induction n generalizing data dst src len with
  | zero => exact absurd hlen (Nat.not_lt_zero len)
  | succ n ih =>
    have hstored := update_eq_copyRange data dst fun j => data (src + j)
    rw [Nat.add_zero] at hstored
    rw [userStrcpy, hstored]
    cases len with
    | zero => exact if_pos hend
    | succ len =>
      have hfirst : data src ≠ 0 := hsome 0 (Nat.zero_lt_succ len)
      -- the copy does not reach what is still to be moved
      have hkeeps : ∀ j, copyRange data dst 1 (fun j => data (src + j)) (src + 1 + j) =
          data (src + (1 + j)) := by
        intro j
        rw [copyRange, if_neg (by omega), Nat.add_assoc]
      have hrest := ih (copyRange data dst 1 fun j => data (src + j))
        (Nat.succ_le_succ hle) (Nat.lt_of_succ_lt_succ hlen)
        (fun j hj => by rw [hkeeps]; exact hsome (1 + j) (by omega))
        (by rw [hkeeps, Nat.add_comm 1 len]; exact hend)
      simp only [hkeeps] at hrest
      rw [if_neg hfirst, hrest, copyRange_copyRange data (fun j => data (src + j)), Nat.add_comm 1]

/-- The scan passes a text without line breaks. -/
theorem scanLine_of_holdsText {data : Buffer} {i : Nat} {line : List UInt8}
    (hline : HoldsText data i line) (hbreak : 10 ∉ line) (n : Nat) :
    scanLine data i (line.length + n) = scanLine data (i + line.length) n := by
  induction line generalizing i with
  | nil => rw [List.length_nil, Nat.zero_add, Nat.add_zero]
  | cons c line ih =>
    obtain ⟨hfirst, hrest⟩ :=
      HoldsText.append_iff.mp (show HoldsText data i ([c] ++ line) from hline)
    rw [List.length_singleton] at hrest
    have hc : data i ≠ 10 := by
      rw [show data i = c from hfirst 0 (Nat.zero_lt_one)]
      exact fun heq => hbreak (heq ▸ List.mem_cons_self)
    rw [List.length_cons, Nat.add_right_comm, scanLine, if_pos hc,
      ih hrest fun h => hbreak (List.mem_cons_of_mem c h), Nat.add_assoc, Nat.add_comm 1]

section Line

variable {s fname : CString} {data : Buffer} {lineStart : Nat} {line : List UInt8}

/-- A signed character is the byte of the array only if it is not negative. -/
theorem asInt8_eq_iff {c d : UInt8} : asInt8 c = d.toNat ↔ c.toNat < 128 ∧ c = d := by
  have hlt := c.toNat_lt
  have hlt' := d.toNat_lt
  rw [← UInt8.toNat_inj]
  unfold asInt8
  split_ifs <;> omega

/-- **The search** finds the string in the line, if it can find it at all. -/
theorem lineMatches_iff (hline : HoldsText data lineStart line)
    (hend : data (lineStart + line.length) = 0) (hnul : 0 ∉ line) :
    lineMatches s data lineStart (lineStart + line.length) = true ↔
      Searchable s ∧ s.chars <:+: line := by
  have hlen : s.chars.length = s.strlen := rfl
  have hcompare : ∀ check, userStrncmp (fun i => data (check + i)) s.byte s.strlen 0 = 0 ↔
      ∀ j < s.strlen, data (check + j) = s.byte j := by
    intro check
    rw [userStrncmp_eq_zero_iff fun j hj => by
      rw [Nat.zero_add]
      exact s.byte_ne_zero hj]
    simp only [Nat.zero_add]
  rw [lineMatches, Nat.add_sub_cancel_left, List.any_eq_true, List.infix_iff_getElem?]
  constructor
  · rintro ⟨check, hcheck, hmatch⟩
    obtain ⟨hlow, hhigh⟩ := List.mem_range'_1.mp hcheck
    obtain ⟨hchar, hequal⟩ := of_decide_eq_true hmatch
    obtain ⟨hsigned, hfirst⟩ := asInt8_eq_iff.mp hchar
    have hall := (hcompare check).mp hequal
    have hsome : s.strlen ≠ 0 := by
      -- an empty string starts with its terminator, and the line has none
      intro hzero
      have hin : check - lineStart < line.length := by omega
      have hat := hline _ hin
      rw [Nat.add_sub_cancel' hlow, ← hfirst, s.byte_of_le (Nat.le_of_eq hzero)] at hat
      exact hnul (hat ▸ List.getElem_mem hin)
    have hfits : s.strlen + (check - lineStart) ≤ line.length := by
      -- the terminator of the line is not in the string
      refine Nat.le_of_not_lt fun hlong => ?_
      have hat := hall (lineStart + line.length - check) (by omega)
      rw [show check + (lineStart + line.length - check) = lineStart + line.length by omega,
        hend] at hat
      exact s.byte_ne_zero (by omega) hat.symm
    refine ⟨⟨hsome, hsigned⟩, check - lineStart, hfits, fun j hj => ?_⟩
    have hj' : j + (check - lineStart) < line.length := by omega
    rw [List.getElem?_eq_getElem hj', ← hline _ hj', ← s.byte_of_lt hj, ← hall j hj]
    congr 2
    omega
  · rintro ⟨⟨hsome, hsigned⟩, offset, hfits, hall⟩
    have hmatch : ∀ j < s.strlen, data (lineStart + offset + j) = s.byte j := by
      intro j hj
      have hj' : j + offset < line.length := by omega
      have hchar := hall j hj
      rw [List.getElem?_eq_getElem hj'] at hchar
      rw [s.byte_of_lt hj, ← Option.some.inj hchar, ← hline _ hj', Nat.add_assoc, Nat.add_comm j]
    refine ⟨lineStart + offset, List.mem_range'_1.mpr (by omega), decide_eq_true ⟨?_, ?_⟩⟩
    · exact asInt8_eq_iff.mpr ⟨hsigned, (hmatch 0 (Nat.pos_of_ne_zero hsome)).symm⟩
    · exact (hcompare _).mpr hmatch

/-- The output of a line. -/
theorem printLine_runs (S : Session) (fname : CString) (hline : HoldsText data lineStart line)
    (hend : data (lineStart + line.length) = 0) (hnul : 0 ∉ line)
    (hin : lineStart + line.length < 1025) :
    (printLine fname data lineStart).Runs Session.answer S ()
      { S with output := S.output ++ (fname.chars ++ 58 :: (line ++ [10])) } 4 := by
  -- the line is a string of its own: `grep.c` has put a NUL behind it
  have hstring : stringIn (fun j => data (lineStart + j)) (1025 - lineStart) = ⟨line, hnul⟩ :=
    (hline.holdsString hend hnul).stringIn (Nat.lt_sub_of_add_lt (by rwa [Nat.add_comm] at hin))
  have houtput : S.output ++ (fname.chars ++ 58 :: (line ++ [10])) =
      S.output ++ fname.chars ++ [58] ++ line ++ [10] := by
    simp only [List.append_assoc, List.cons_append, List.nil_append]
  rw [printLine, hstring, houtput]
  -- name, colon, line and newline are four calls of `fdputs`
  refine Program.Runs.bind (n := 1) (m := 3) (Session.fdputs_runs S fname) ?_
  refine Program.Runs.bind (n := 1) (m := 2) (Session.fdputs_runs _ colonText) ?_
  refine Program.Runs.bind (n := 1) (m := 1) (Session.fdputs_runs _ ⟨line, hnul⟩) ?_
  exact Session.fdputs_runs _ newlineText

/-- The search in a line and its output. -/
theorem searchLine_runs (S : Session) (fname : CString)
    (hline : HoldsText data lineStart line) (hend : data (lineStart + line.length) = 0)
    (hnul : 0 ∉ line) (hin : lineStart + line.length < 1025) :
    ∃ n, (searchLine s fname data lineStart (lineStart + line.length)).Runs Session.answer S ()
      { S with output := S.output ++ matchText s fname line } n := by
  have hiff := lineMatches_iff (s := s) hline hend hnul
  rw [searchLine, matchText]
  by_cases hmatch : Searchable s ∧ s.chars <:+: line
  · rw [if_pos (hiff.mpr hmatch), if_pos hmatch]
    exact ⟨4, printLine_runs S fname hline hend hnul hin⟩
  · rw [if_neg fun h => hmatch (hiff.mp h), if_neg hmatch, List.append_nil]
    exact ⟨0, .done () S⟩

end Line

/-! ## One piece -/

section Piece

variable {s fname : CString}

/-- An empty line shows nothing. -/
theorem matchText_nil : matchText s fname [] = [] := by
  refine if_neg fun h => h.1.1 ?_
  rw [CString.strlen, List.infix_nil.mp h.2]
  rfl

theorem matchingLines_nil : matchingLines s fname [] [] = [] := by
  rw [matchingLines, breakLines, List.flatMap_singleton, matchText_nil]

theorem notMem_break {line : List UInt8} (h : 10 ∉ line) : ∀ c ∈ line, ¬ c = 10 :=
  fun _ hc heq => h (heq ▸ hc)

theorem matchingLines_break {line : List UInt8} (hline : 10 ∉ line) (hshort : line.length < 1024)
    (text : List UInt8) :
    matchingLines s fname [] (line ++ 10 :: text) =
      matchText s fname line ++ matchingLines s fname [] text := by
  rw [matchingLines, breakLines_break (notMem_break hline) (by simpa using hshort) rfl,
    List.flatMap_cons, List.nil_append]
  rfl

theorem matchingLines_append {line : List UInt8} (hline : 10 ∉ line) (hshort : line.length < 1024)
    (text : List UInt8) :
    matchingLines s fname [] (line ++ text) = matchingLines s fname line text := by
  rw [matchingLines, breakLines_append (notMem_break hline) (by simpa using hshort),
    List.nil_append]
  rfl

/-- A line that is not cut, because it fills the array or because nothing follows it. -/
theorem matchingLines_whole {line : List UInt8} (hline : 10 ∉ line)
    (hin : line.length ≤ 1024) {text : List UInt8} (hfull : text ≠ [] → line.length = 1024) :
    matchingLines s fname [] (line ++ text) =
      matchText s fname line ++ matchingLines s fname [] text := by
  by_cases hlen : line.length = 1024
  · have hne : line ≠ [] := fun h => by simp [h] at hlen
    rw [matchingLines, breakLines_full (notMem_break hline) (by simpa using hlen) hne,
      List.flatMap_cons, List.nil_append]
    rfl
  · have htext : text = [] := Classical.byContradiction fun h => hlen (hfull h)
    subst htext
    rw [matchingLines_append hline (by omega), matchingLines_nil, List.append_nil, matchingLines,
      breakLines, List.flatMap_singleton]

/-- What the lines of a piece `text` leave: `rest` is what the array holds of the line that the
    piece has cut, `out` the output, and `after` the file behind the piece. -/
structure PieceDone (s fname : CString) (cnt : Int) (data data' : Buffer)
    (text after rest out : List UInt8) : Prop where
  held : HoldsText data' 0 rest
  short : rest.length < 1024
  part : rest.length ≤ text.length
  noBreak : 10 ∉ rest
  noNul : 0 ∉ rest
  ended : cnt = 0 → rest = []
  stale : data 1024 ≠ 10 → data' 1024 ≠ 10
  shown : out ++ matchingLines s fname rest after = matchingLines s fname [] (text ++ after)

variable {cnt : Int} {last : Nat} {after : List UInt8}

/-- A line is searched, and nothing is left. -/
theorem PieceDone.of_whole {data : Buffer} {line : List UInt8} (at_ : Nat)
    (hline : 10 ∉ line) (hin : line.length ≤ 1024) (hfull : after ≠ [] → line.length = 1024) :
    PieceDone s fname cnt data (Function.update data at_ 0) line after []
      (matchText s fname line) := by
  constructor
  -- nothing of the piece is left over
  case held => exact fun j hj => absurd hj (Nat.not_lt_zero j)
  case short => decide
  case part => exact Nat.zero_le _
  case noBreak => exact List.not_mem_nil
  case noNul => exact List.not_mem_nil
  case ended => exact fun _ => rfl
  case stale =>
    intro hdata
    rw [Function.update_apply]
    split_ifs
    · decide
    · exact hdata
  case shown => exact (matchingLines_whole hline hin hfull).symm

/-- Nothing is left behind the last line of a piece. -/
theorem PieceDone.nil (s fname : CString) (cnt : Int) (data : Buffer) (after : List UInt8) :
    PieceDone s fname cnt data data [] after [] [] where
  held j hj := absurd hj (Nat.not_lt_zero j)
  short := by decide
  part := Nat.le_refl 0
  noBreak := List.not_mem_nil
  noNul := List.not_mem_nil
  ended _ := rfl
  stale := id
  shown := rfl

/-- A line is cut, and moved to the front of the array. -/
theorem PieceDone.of_cut {data : Buffer} {lineStart : Nat} {line : List UInt8}
    (hheld : HoldsText data lineStart line) (hline : 10 ∉ line) (hnul : 0 ∉ line) (hcnt : cnt ≠ 0)
    (hstart : lineStart ≠ 0) (hin : lineStart + line.length ≤ 1024) :
    PieceDone s fname cnt data
      (userStrcpy (Function.update data (lineStart + line.length) 0) 0 lineStart 1025) line after
      line [] := by
  have hkeeps : ∀ j < line.length,
      Function.update data (lineStart + line.length) 0 (lineStart + j) = line.getD j 0 := by
    intro j hj
    rw [Function.update_of_ne (by omega), hheld j hj, List.getD_eq_getElem _ _ hj]
  -- `strcpy` moves the line to the front of the array with its NUL
  have hmoved := userStrcpy_eq (Function.update data (lineStart + line.length) 0)
    (Nat.zero_le lineStart) (show line.length < 1025 by omega) (fun j hj => ?_)
    (Function.update_self ..)
  · rw [hmoved]
    constructor
    case held =>
      -- what is held is the line, now at the start
      intro j hj
      rw [Nat.zero_add, copyRange, if_pos ⟨Nat.zero_le _, by omega⟩, Nat.sub_zero, hkeeps j hj,
        List.getD_eq_getElem _ _ hj]
    case short => omega
    case part => exact Nat.le_refl _
    case noBreak => exact hline
    case noNul => exact hnul
    case ended => exact fun h => absurd h hcnt
    case stale =>
      -- the last byte of the array is the NUL or what it was before
      intro hdata
      rw [copyRange, if_neg (by omega), Function.update_apply]
      split_ifs
      · decide
      · exact hdata
    case shown => exact (matchingLines_append hline (by omega) after).symm
  · rw [hkeeps j hj, List.getD_eq_getElem _ _ hj]
    exact fun hzero => hnul (hzero ▸ List.getElem_mem hj)

/-- The first line of a piece, and the other lines. -/
theorem PieceDone.cons {data data₁ data' : Buffer} {line text rest out : List UInt8}
    -- only the texts shown grow: the line found goes before the rest
    (h : PieceDone s fname cnt data₁ data' text after rest out) (hline : 10 ∉ line)
    (hshort : line.length < 1024) (hstale : data 1024 ≠ 10 → data₁ 1024 ≠ 10) :
    PieceDone s fname cnt data data' (line ++ 10 :: text) after rest
      (matchText s fname line ++ out) := by
  constructor
  case held => exact h.held
  case short => exact h.short
  case part =>
    have hpart := h.part
    rw [List.length_append, List.length_cons]
    omega
  case noBreak => exact h.noBreak
  case noNul => exact h.noNul
  case ended => exact h.ended
  case stale => exact fun hdata => h.stale (hstale hdata)
  case shown =>
    rw [List.append_assoc, h.shown, List.append_assoc, List.cons_append,
      matchingLines_break hline hshort]

/-- One round that does not cut the line. -/
theorem linesLoop_round (fname : CString) (cnt : Int) (last fuel : Nat) {lineStart : Nat}
    {data : Buffer} {line : List UInt8} (hline : HoldsText data lineStart line) (hnul : 0 ∉ line)
    (hin : lineStart + line.length < 1025)
    (hscan : scanLine data lineStart (last - lineStart) = lineStart + line.length)
    (hwhole : ¬ (data (lineStart + line.length) ≠ 10 ∧ cnt ≠ 0 ∧ lineStart ≠ 0))
    {S S' : Session} {v : Option (Buffer × Nat)} {m : Nat}
    (hrest : (if last ≤ lineStart + line.length + 1 then
          pure (some (Function.update data (lineStart + line.length) 0, 0))
        else linesLoop s fname cnt last fuel (Function.update data (lineStart + line.length) 0)
          (lineStart + line.length + 1) : UserProgram (Option (Buffer × Nat))).Runs Session.answer
      { S with output := S.output ++ matchText s fname line } v S' m) :
    ∃ n, (linesLoop s fname cnt last (fuel + 1) data lineStart).Runs Session.answer S v S' n := by
  have hstored : HoldsText (Function.update data (lineStart + line.length) 0) lineStart line :=
    hline.congr fun j hj => Function.update_of_ne (by omega) ..
  -- the byte behind the line is now the NUL that ends it for `strncmp`
  obtain ⟨n, hsearch⟩ :=
    searchLine_runs S fname hstored (Function.update_self ..) hnul hin
  refine ⟨n + m, ?_⟩
  simp only [linesLoop, hscan]
  rw [if_neg hwhole]
  exact Program.Runs.bind hsearch hrest

/-- **One piece**: its lines are searched, and the line that it cuts is left. -/
theorem linesLoop_runs (fname : CString) (cnt : Int) (hlast : last ≤ 1024)
    (hafter : after ≠ [] → cnt ≠ 0 ∧ last = 1024) {fuel : Nat} {data : Buffer} {lineStart : Nat}
    {text : List UInt8} (hfuel : text.length < fuel) (htext : HoldsText data lineStart text)
    (hend : lineStart + text.length = last) (hnul : 0 ∉ text)
    (hstale : after ≠ [] → data 1024 ≠ 10) (S : Session) :
    ∃ data' rest out n, (linesLoop s fname cnt last fuel data lineStart).Runs Session.answer S
        (some (data', rest.length)) { S with output := S.output ++ out } n ∧
      PieceDone s fname cnt data data' text after rest out := by
  -- on the fuel, which bounds the letters left; each round takes one line
  induction fuel generalizing data lineStart text S with
  | zero => exact absurd hfuel (Nat.not_lt_zero _)
  | succ fuel ih =>
    have hspan : last - lineStart = text.length := by omega
    by_cases hbreak : 10 ∈ text
    · -- a line ends in the piece
      obtain ⟨line, more, rfl, hline⟩ := List.eq_append_cons_of_mem hbreak
      obtain ⟨hheld, hmore⟩ := HoldsText.append_iff.mp htext
      rw [List.length_append, List.length_cons] at hfuel hend hspan
      have hnul' : 0 ∉ line ∧ 0 ∉ more := by
        simp only [List.mem_append, List.mem_cons, not_or] at hnul
        exact ⟨hnul.1, hnul.2.2⟩
      have hlf : data (lineStart + line.length) = 10 := hmore 0 (Nat.zero_lt_succ _)
      have hscan : scanLine data lineStart (last - lineStart) = lineStart + line.length := by
        rw [hspan, scanLine_of_holdsText hheld hline, scanLine, if_neg (fun hne => hne hlf)]
      let data₁ := Function.update data (lineStart + line.length) 0
      have hstale₁ : data 1024 ≠ 10 → data₁ 1024 ≠ 10 := by
        intro hdata
        rw [show data₁ 1024 = data 1024 from Function.update_of_ne (by omega) ..]
        exact hdata
      -- its newline is the last letter of the piece, or there is more
      by_cases hlastLine : more = []
      · subst hlastLine
        obtain ⟨n, hruns⟩ := linesLoop_round fname cnt last fuel hheld hnul'.1
          (by omega) hscan (fun h => h.1 hlf) (S := S) (m := 0)
          (by rw [if_pos (by simp at hend; omega)]; exact .done ..)
        rw [← List.append_nil (matchText s fname line)] at hruns
        have hdone := PieceDone.nil s fname cnt data₁ after
        exact ⟨_, [], _, n, hruns, hdone.cons hline (by omega) hstale₁⟩
      · have hsome : 0 < more.length := List.length_pos_iff.mpr hlastLine
        have hheld₁ : HoldsText data₁ (lineStart + line.length + 1) more := by
          have hafterLine := (HoldsText.append_iff.mp
            (show HoldsText data (lineStart + line.length) ([10] ++ more) from hmore)).2
          rw [List.length_singleton] at hafterLine
          exact hafterLine.congr fun j _ => Function.update_of_ne (by omega) ..
        obtain ⟨data', rest, out, m, hrest, hdone⟩ := ih (by omega) hheld₁ (by omega) hnul'.2
          (fun hne => hstale₁ (hstale hne))
          { S with output := S.output ++ matchText s fname line }
        obtain ⟨n, hruns⟩ := linesLoop_round fname cnt last fuel hheld hnul'.1
          (by omega) hscan (fun h => h.1 hlf) (S := S) (m := m)
          (by rw [if_neg (by omega)]; exact hrest)
        rw [List.append_assoc] at hruns
        exact ⟨data', rest, _, n, hruns, hdone.cons hline (by omega) hstale₁⟩
    · have hscan : scanLine data lineStart (last - lineStart) = lineStart + text.length := by
        rw [hspan, ← Nat.add_zero text.length, scanLine_of_holdsText htext hbreak, Nat.add_zero]
        rfl
      by_cases hcut : data (lineStart + text.length) ≠ 10 ∧ cnt ≠ 0 ∧ lineStart ≠ 0
      · -- the line is moved to the front
        have hruns : (linesLoop s fname cnt last (fuel + 1) data lineStart).Runs Session.answer S
            (some (userStrcpy (Function.update data (lineStart + text.length) 0) 0 lineStart 1025,
              text.length)) { S with output := S.output ++ [] } 0 := by
          simp only [linesLoop, hscan]
          rw [if_pos hcut, hspan, List.append_nil]
          exact .done ..
        exact ⟨_, text, [], 0, hruns,
          .of_cut htext hbreak hnul hcut.2.1 hcut.2.2 (hend ▸ hlast)⟩
      · -- the rest of the piece is a line
        obtain ⟨n, hruns⟩ := linesLoop_round fname cnt last fuel htext hnul (by omega)
          hscan hcut (S := S) (m := 0)
          (by rw [if_pos (by omega)]; exact .done ..)
        refine ⟨_, [], _, n, hruns, .of_whole _ hbreak (by omega) fun hne => ?_⟩
        obtain ⟨hcnt, hfull⟩ := hafter hne
        refine Classical.byContradiction fun hshort => hcut ⟨?_, hcnt, by omega⟩
        rw [hend, hfull]
        exact hstale hne

/-! ## The file -/

/-- **Piece by piece**: the rest of the file is searched as if it had been read at once, behind the
    part of a line that the array holds. -/
theorem grepLoop_runs (fname : CString) {S : Session} {fd : Nat} (hlow : 2 ≤ fd)
    (hfd : fd < maximumOpenFiles) {pending rest : List UInt8}
    (hhandle : S.handles fd = some (.file rest)) {data : Buffer} (hheld : HoldsText data 0 pending)
    (hshort : pending.length < 1024) (hbreak : 10 ∉ pending) (hnul : 0 ∉ pending ++ rest)
    (hstale : data 1024 ≠ 10 ∨ pending.length + rest.length ≤ 1024) {fuel : Nat}
    (hfuel : rest.length < fuel) :
    ∃ S' n, (grepLoop s fname fd fuel data pending.length).Runs Session.answer S (some 0) S' n ∧
      S'.output = S.output ++ matchingLines s fname pending rest ∧
      (S'.handles fd).isSome = true := by
  induction fuel generalizing S pending rest data with
  | zero => exact absurd hfuel (Nat.not_lt_zero _)
  | succ fuel ih =>
    have hread := Session.answer_read_file hlow hfd hhandle (fun i => data (pending.length + i))
      (n := 1024 - pending.length) (by omega) (by omega)
    obtain ⟨count, hcount⟩ : ∃ c, c = min (1024 - pending.length) rest.length := ⟨_, rfl⟩
    have hnbytes : ((1024 - pending.length : Nat) : Int) = 1024 - pending.length := by omega
    dsimp only at hread
    rw [← hcount, hnbytes] at hread
    -- the array behind the read
    let data₁ : Buffer := fun i => if i < pending.length then data i else
      copyRange (fun i => data (pending.length + i)) 0 count (fun i => rest.getD i 0)
        (i - pending.length)
    have hkept : data₁ 1024 = data 1024 := by
      show (if _ then _ else _) = _
      rw [if_neg (by omega), copyRange, if_neg (by omega),
        show pending.length + (1024 - pending.length) = 1024 by omega]
    have htext : HoldsText data₁ 0 (pending ++ rest.take count) := by
      refine HoldsText.append_iff.mpr ⟨fun j hj => ?_, fun j hj => ?_⟩
      · rw [← hheld j hj]
        exact if_pos (by omega)
      · rw [List.length_take] at hj
        show (if _ then _ else _) = _
        rw [if_neg (by omega), copyRange, if_pos (by omega), List.getElem_take,
          List.getD_eq_getElem _ _ (by omega)]
        congr 1
        omega
    have hlength : (pending ++ rest.take count).length = pending.length + count := by
      rw [List.length_append, List.length_take]
      omega
    -- if something is left of the file, the read filled the array up to byte 1024
    have hlong : rest.drop count ≠ [] → count < rest.length := fun hne =>
      Nat.lt_of_not_le fun hle => hne (List.drop_eq_nil_of_le hle)
    have hafter : rest.drop count ≠ [] → (count : Int) ≠ 0 ∧ pending.length + count = 1024 := by
      intro hne
      have := hlong hne
      omega
    have hstale₁ : rest.drop count ≠ [] → data₁ 1024 ≠ 10 := by
      intro hne
      have := hlong hne
      rw [hkept]
      exact hstale.resolve_right (by omega)
    have hall : pending ++ rest = pending ++ rest.take count ++ rest.drop count := by
      rw [List.append_assoc, List.take_append_drop]
    rw [hall] at hnul
    let S₁ : Session :=
      { S with handles := Function.update S.handles fd (some (.file (rest.drop count))) }
    have hopened : S₁.handles fd = some (.file (rest.drop count)) := by
      simp only [S₁, Function.update_self]
    obtain ⟨data', kept, out, n, hlines, hdone⟩ := linesLoop_runs (s := s) fname count
      (show pending.length + count ≤ 1024 by omega) hafter
      (show _ < pending.length + count + 1 by omega) htext (by omega)
      (fun h => hnul (List.mem_append_left _ h)) hstale₁ S₁
    -- what the lines of the piece show and what the rest will show make up the whole
    have hshown : out ++ matchingLines s fname kept (rest.drop count) =
        matchingLines s fname pending rest := by
      rw [hdone.shown, ← hall, matchingLines_append hbreak hshort]
    -- one round: the read, the lines of the piece, and the rest of the loop
    have hround : ∀ {v S' m}, (if (count : Int) = 0 then pure (some 0)
        else grepLoop s fname fd fuel data' kept.length : UserProgram (Option Int)).Runs
          Session.answer { S₁ with output := S₁.output ++ out } v S' m →
        (grepLoop s fname fd (fuel + 1) data pending.length).Runs Session.answer S v S'
          (n + m + 1) := by
      intro v S' m hrest
      refine Program.Runs.call hread ?_
      dsimp only [Option.getD]
      rw [if_neg (by omega), Int.toNat_natCast]
      exact Program.Runs.bind hlines hrest
    by_cases hempty : count = 0
    · -- the end of the file
      have hend : rest = [] := List.length_eq_zero_iff.mp (by omega)
      subst hend
      have hkept : kept = [] := hdone.ended (by omega)
      rw [hkept, List.drop_nil, matchingLines_nil, List.append_nil] at hshown
      refine ⟨_, _, hround (m := 0) (by rw [if_pos (by omega)]; exact .done ..), ?_, ?_⟩
      · exact congrArg (S.output ++ ·) hshown
      · exact Option.isSome_iff_exists.mpr ⟨_, hopened⟩
    · have hnul' : 0 ∉ kept ++ rest.drop count := by
        rw [List.mem_append]
        exact fun h => h.elim hdone.noNul fun h => hnul (List.mem_append_right _ h)
      -- the last byte is still no newline, or the file ends before it
      have hstale' : data' 1024 ≠ 10 ∨ kept.length + (rest.drop count).length ≤ 1024 := by
        rcases hstale with hdata | hsmall
        · exact .inl (hdone.stale (hkept ▸ hdata))
        · have hpart := hdone.part
          rw [hlength] at hpart
          rw [List.length_drop]
          exact .inr (by omega)
      obtain ⟨S', m, hruns, houtput, hhandle'⟩ := ih
        (S := { S₁ with output := S₁.output ++ out }) hopened hdone.held hdone.short hdone.noBreak
        hnul' hstale' (by rw [List.length_drop]; omega)
      refine ⟨S', _, hround (m := m) (by rw [if_neg (by omega)]; exact hruns), ?_, hhandle'⟩
      rw [houtput, ← hshown, List.append_assoc]

theorem doOneFile_runs {S : Session} {fd : Nat} (hfree : S.lowestFree = some fd)
    {contents : List UInt8} (hname : S.disk fname = some (.file contents)) (hnul : 0 ∉ contents)
    {data : Buffer} (hdata : data 1024 ≠ 10 ∨ contents.length ≤ 1024) {fuel : Nat}
    (hfuel : contents.length < fuel) :
    ∃ S' n, (doOneFile fuel s fname data).Runs Session.answer S (some 0) S' n ∧
      S'.output = S.output ++ matchingLines s fname [] contents := by
  -- `open` gives the lowest free descriptor
  have hlow := S.two_le_of_lowestFree hfree
  have hfd : fd < maximumOpenFiles := List.mem_range.mp (List.mem_of_find?_eq_some hfree)
  let S₁ : Session := { S with handles := Function.update S.handles fd (some (.file contents)) }
  have hopen : S.answer (.open (some fname)) = some (((fd : Int), none), S₁) := by
    simp only [Session.answer, hname, Session.bindHandle, hfree]
    rfl
  have hopened : S₁.handles fd = some (.file contents) := by
    simp only [S₁, Function.update_self]
  -- the loop reads to the end, and leaves the descriptor open for `close`
  obtain ⟨S₂, n, hloop, houtput, hhandle⟩ := grepLoop_runs (s := s) fname hlow hfd hopened
    (show HoldsText data 0 [] from fun j hj => absurd hj (Nat.not_lt_zero j)) (by decide)
    List.not_mem_nil hnul (by simpa using hdata) hfuel
  have hclose : S₂.answer (.close fd) =
      some ((0, none), { S₂ with handles := Function.update S₂.handles fd none }) := by
    have hguard : (2 : Int) ≤ fd ∧ (fd : Int) < maximumOpenFiles ∧
        (S₂.handles (fd : Int).toNat).isSome = true := by
      rw [Int.toNat_natCast]
      exact ⟨by omega, by omega, hhandle⟩
    show (if _ then _ else none) = _
    rw [if_pos hguard, Int.toNat_natCast]
  refine ⟨{ S₂ with handles := Function.update S₂.handles fd none }, n + 1 + 1, ?_, houtput⟩
  refine Program.Runs.call hopen ?_
  dsimp only
  rw [if_neg (by omega)]
  refine Program.Runs.bind hloop (Program.Runs.call hclose ?_)
  exact .done ..

end Piece

/-- The shell of an image whose only file is a text: the mark of an executable and a line on which
    the file ends. -/
def textImage : Image where
  bytes a :=
    if a = 4096 then 8
    else if 8196 ≤ a ∧ a < 8200 then [10, 97, 76, 70].getD (a - 8196) 0
    else shellImage.bytes a

/-- `LF` -/
def lfText : CString := ⟨[76, 70], by decide⟩

theorem find_textImage :
    textImage.find shellName = some (.file (elfMagic.chars ++ [10, 97, 76, 70])) := by
  decide +kernel

theorem holdsShell_textImage : textImage.HoldsShell := by
  obtain ⟨entry, hentry, -, hgood, hcontents⟩ := (Image.describes_find find_textImage).2
  exact ⟨entry, hentry, hgood, hcontents ▸ List.prefix_append ..⟩

end LinuxLikeOs
