import Mathlib.Data.List.TakeWhile
import LinuxLikeOs.NumberText
import LinuxLikeOs.KernelConsole

/-!
# Formatted output

`puts` and `printf` of `lib.c`.  The memory behind a pointer is the list of the bytes from there on,
and `none` stands for a scan that runs off its end.

- `puts`, `convert`, `Format.printf`: the functions
- `Piece`, `formatOf`: a format as literal characters and directives
- `render`: the text that the pieces stand for
- `format_cases`: every format is made of pieces, or ends inside of a directive
- `printf_law`: what `printf` prints, and when it reads on behind the format
-/

namespace LinuxLikeOs

open Library

/-! ## The functions -/

/-- `puts` from character `index` on: the characters that it has printed in all. -/
def puts (s : Screen) : Nat → List UInt8 → Option (Nat × Screen)
  | _, [] => none
  | index, c :: rest => if c = 0 then some (index, s) else puts (putc s c) (index + 1) rest

/-- What the code reads beside the format: the memory behind the arguments of `%s`, and what a
    local array of bytes holds before it is written. -/
structure Surroundings where
  memory : UInt32 → List UInt8
  stack : Nat → UInt8

/-- A local array. -/
def Surroundings.array (env : Surroundings) (size : Nat) : List UInt8 :=
  (List.range size).map env.stack

/-- `%x`, with or without `#`. -/
def convertHex (env : Surroundings) (alternate : Bool) (word : UInt32) (s : Screen) :
    Option Screen :=
  if alternate = false then do
    let convBuf ← itoa word (env.array 64) 0 16
    (puts s 0 convBuf).map Prod.snd
  else do
    let convBuf ← itoa word (env.array 64) 8 16
    let startingIndex ← strlen (convBuf.drop 8)
    let padded := (List.range' startingIndex (8 - startingIndex)).foldl
      (fun convBuf i => convBuf.set i 48) convBuf
    (puts s 0 (padded.drop startingIndex)).map Prod.snd

/-- `%u`. -/
def convertUnsigned (env : Surroundings) (word : UInt32) (s : Screen) : Option Screen := do
  let convBuf ← itoa word (env.array 36) 0 10
  (puts s 0 convBuf).map Prod.snd

/-- `%d`. -/
def convertSigned (env : Surroundings) (word : UInt32) (s : Screen) : Option Screen :=
  if asInt32 word < 0 then do
    let convBuf ← storeAt (env.array 36) 0 45
    -- the negation is one of 32 bits
    let convBuf ← itoa (0 - word) convBuf 1 10
    (puts s 0 convBuf).map Prod.snd
  else convertUnsigned env word s

/-- The conversion that a letter stands for, with its argument: the screen, and the arguments that
    are left. -/
def convert (env : Surroundings) (alternate : Bool) (letter : UInt8) (s : Screen)
    (esp : List UInt32) : Option (Screen × List UInt32) :=
  let withArgument (print : UInt32 → Option Screen) : Option (Screen × List UInt32) :=
    match esp with
    | [] => none
    | word :: esp => (print word).map fun s => (s, esp)
  if letter = 37 then some (putc s 37, esp)
  else if letter = 120 then withArgument fun word => convertHex env alternate word s
  else if letter = 117 then withArgument fun word => convertUnsigned env word s
  else if letter = 100 then withArgument fun word => convertSigned env word s
  else if letter = 99 then withArgument fun word => some (putc s word.toUInt8)
  else if letter = 115 then
    withArgument fun word => (puts s 0 (env.memory word)).map Prod.snd
  else some (s, esp)

namespace Format

/-- The loop of `printf` from character `i` on.  `mode` is `none` between the directives, and
    `alternate` inside of one. -/
def printfLoop (env : Surroundings) (mode : Option Bool) (i : Nat) (format : List UInt8)
    (s : Screen) (esp : List UInt32) : Option (Nat × Screen) :=
  match format, mode with
  | [], _ => none
  | c :: rest, none =>
    if c = 0 then some (i, s)
    else if c = 37 then printfLoop env (some false) (i + 1) rest s esp
    else printfLoop env none (i + 1) rest (putc s c) esp
  | c :: rest, some alternate =>
    if c = 35 then printfLoop env (some true) (i + 1) rest s esp
    else
      -- also if `c` is the terminator
      (convert env alternate c s esp).bind fun (s, esp) =>
        printfLoop env none (i + 1) rest s esp

/-- `printf`: what it returns, and the screen. -/
def printf (env : Surroundings) (format : List UInt8) (esp : List UInt32) (s : Screen) :
    Option (Nat × Screen) :=
  printfLoop env none 0 format s esp

/-! ## Formats as pieces -/

/-- A literal character, or a directive: the number of `#` and the letter. -/
inductive Piece where
  | literal (c : UInt8)
  | directive (hashes : Nat) (letter : UInt8)

def Piece.Ok : Piece → Prop
  | .literal c => c ≠ 0 ∧ c ≠ 37
  | .directive _ letter => letter ≠ 0 ∧ letter ≠ 35

/-- The characters of a piece. -/
def Piece.chars : Piece → List UInt8
  | .literal c => [c]
  | .directive hashes letter => 37 :: (List.replicate hashes 35 ++ [letter])

/-- The format that the pieces spell. -/
def formatOf (ps : List Piece) : List UInt8 := ps.flatMap Piece.chars

/-- A signed number in decimal. -/
def signedText (z : Int) : List UInt8 :=
  if z < 0 then 45 :: numberText 10 z.natAbs else numberText 10 z.natAbs

/-- Eight hexadecimal digits. -/
def paddedText (n : Nat) : List UInt8 :=
  List.replicate (8 - (numberText 16 n).length) 48 ++ numberText 16 n

/-- The string at the beginning of a memory. -/
def stringAt (bytes : List UInt8) : Option (List UInt8) :=
  if 0 ∈ bytes then some (bytes.takeWhile (· ≠ 0)) else none

/-- The text of a conversion, and whether it takes an argument; `none` for the letters without a
    meaning, which print nothing. -/
def argumentText (env : Surroundings) (hashes : Nat) (letter : UInt8) :
    Option (UInt32 → Option (List UInt8)) :=
  if letter = 120 then
    some fun word => some (if hashes = 0 then numberText 16 word.toNat else paddedText word.toNat)
  else if letter = 117 then some fun word => some (numberText 10 word.toNat)
  else if letter = 100 then some fun word => some (signedText (asInt32 word))
  else if letter = 99 then some fun word => some [word.toUInt8]
  else if letter = 115 then some fun word => stringAt (env.memory word)
  else none

/-- The text of a piece, and the arguments that are left; `none` if there is no argument, or no
    string behind it. -/
def Piece.render (env : Surroundings) : Piece → List UInt32 → Option (List UInt8 × List UInt32)
  | .literal c, esp => some ([c], esp)
  | .directive hashes letter, esp =>
    match argumentText env hashes letter, esp with
    | none, esp => some (if letter = 37 then [37] else [], esp)
    | some _, [] => none
    | some text, word :: esp => (text word).map fun text => (text, esp)

/-- The text that the pieces stand for. -/
def render (env : Surroundings) : List Piece → List UInt32 → Option (List UInt8 × List UInt32)
  | [], esp => some ([], esp)
  | p :: ps, esp => do
    let (first, esp) ← p.render env esp
    let (text, esp) ← render env ps esp
    some (first ++ text, esp)

/-! ## Conversions -/

theorem puts_eq (s : Screen) (index : Nat) (bytes : List UInt8) :
    puts s index bytes =
      (stringAt bytes).map fun text => (index + text.length, LinuxLikeOs.printf s text) := by
  induction bytes generalizing s index with
  | nil => rfl
  | cons c rest ih =>
    by_cases hc : c = 0
    · simp [puts, stringAt, hc, LinuxLikeOs.printf]
    · rw [puts, if_neg hc, ih]
      by_cases hrest : 0 ∈ rest
      · simp [stringAt, hrest, hc, LinuxLikeOs.printf, Nat.add_comm, Nat.add_left_comm]
      · have hmem : 0 ∉ c :: rest := by simp [Ne.symm hc, hrest]
        rw [stringAt, if_neg hrest, stringAt, if_neg hmem]
        rfl

theorem stringAt_append {text : List UInt8} (h : 0 ∉ text) (rest : List UInt8) :
    stringAt (text ++ 0 :: rest) = some text := by
  have hall : ∀ c ∈ text, (decide (c ≠ 0)) = true := fun c hc =>
    decide_eq_true fun hzero => h (hzero ▸ hc)
  rw [stringAt, if_pos (by simp), List.takeWhile_append_of_pos hall, List.takeWhile_cons_of_neg
    (by simp), List.append_nil]

/-- A text with its terminator, printed. -/
theorem puts_append {text : List UInt8} (h : 0 ∉ text) (rest : List UInt8) (s : Screen) :
    puts s 0 (text ++ 0 :: rest) = some (text.length, LinuxLikeOs.printf s text) := by
  rw [puts_eq, stringAt_append h, Option.map_some, Nat.zero_add]

theorem length_array (env : Surroundings) (size : Nat) : (env.array size).length = size := by
  rw [Surroundings.array, List.length_map, List.length_range]

theorem length_hexadecimal (word : UInt32) : (numberText 16 word.toNat).length ≤ 8 :=
  length_numeral_le (by decide) (by decide) word.toNat_lt

/-- What `%#x` prints has eight characters and is the number. -/
theorem paddedText_law (word : UInt32) : (paddedText word.toNat).length = 8 ∧
    readNumeral 16 digitValue (paddedText word.toNat) = word.toNat := by
  have hlen := length_hexadecimal word
  constructor
  · rw [paddedText, List.length_append, List.length_replicate]
    omega
  · refine (readNumeral_pad (show digitValue 48 = 0 by decide) _ _).trans ?_
    exact readNumeral_numeral (by decide) (fun d hd => digitValue_digitChar d (by omega)) _

theorem length_decimal (word : UInt32) : (numberText 10 word.toNat).length ≤ 10 :=
  length_numeral_le (by decide) (by decide) (word.toNat_lt.trans (by decide))

/-- A number that is written to the beginning of a local array. -/
theorem itoa_array (env : Surroundings) (size : Nat) {radix : Nat} (h2 : 2 ≤ radix)
    (h36 : radix ≤ 36) (word : UInt32) (hfits : (numberText radix word.toNat).length < size) :
    ∃ rest, itoa word (env.array size) 0 radix =
      some (numberText radix word.toNat ++ 0 :: rest) := by
  have hitoa := itoa_append h2 h36 word [] (env.array size)
  rw [length_array, if_pos hfits] at hitoa
  exact ⟨_, hitoa⟩

/-- The loop that writes zeros in front of a number. -/
theorem foldl_set_range' (c : UInt8) (before middle after : List UInt8) :
    (List.range' before.length middle.length).foldl (fun buf i => buf.set i c)
        (before ++ middle ++ after) =
      before ++ List.replicate middle.length c ++ after := by
  induction middle generalizing before with
  | nil => rfl
  | cons b middle ih =>
    have hset : (before ++ b :: middle ++ after).set before.length c =
        before ++ [c] ++ middle ++ after := by
      rw [List.append_assoc, List.set_append_right _ _ (Nat.le_refl _), Nat.sub_self]
      simp
    have hih := ih (before ++ [c])
    rw [List.length_append, List.length_singleton] at hih
    rw [List.length_cons, List.range'_succ, List.foldl_cons, hset, hih, List.replicate_succ]
    simp

/-- The padded number behind the zeros. -/
theorem drop_padded {before text rest : List UInt8} (hbefore : before.length = 8)
    (htext : text.length ≤ 8) :
    ((List.range' text.length (8 - text.length)).foldl (fun buf i => buf.set i 48)
        (before ++ text ++ 0 :: rest)).drop text.length =
      List.replicate (8 - text.length) 48 ++ text ++ 0 :: rest := by
  have hfirst : (before.take text.length).length = text.length := by
    rw [List.length_take]
    omega
  have hlast : (before.drop text.length).length = 8 - text.length := by
    rw [List.length_drop, hbefore]
  have hfold := foldl_set_range' 48 (before.take text.length) (before.drop text.length)
    (text ++ 0 :: rest)
  rw [List.take_append_drop, hfirst, hlast, ← List.append_assoc] at hfold
  rw [hfold, List.append_assoc, List.append_assoc, List.drop_left' hfirst]

theorem natAbs_asInt32 {word : UInt32} (h : asInt32 word < 0) :
    (0 - word).toNat = (asInt32 word).natAbs := by
  have hlt := word.toNat_lt
  have hsub : (0 - word).toNat = (2 ^ 32 - word.toNat) % 2 ^ 32 := by
    rw [UInt32.toNat_sub]
    simp
  rw [hsub]
  unfold asInt32 at h ⊢
  split_ifs at h ⊢ with hsmall
  · omega
  · omega

theorem toNat_asInt32 {word : UInt32} (h : ¬ asInt32 word < 0) :
    word.toNat = (asInt32 word).natAbs := by
  have hlt := word.toNat_lt
  unfold asInt32 at h ⊢
  split_ifs at h ⊢ with hsmall
  · omega
  · omega

theorem convertHex_eq (env : Surroundings) (alternate : Bool) (word : UInt32) (s : Screen) :
    convertHex env alternate word s = some (LinuxLikeOs.printf s
      (if alternate = false then numberText 16 word.toNat else paddedText word.toNat)) := by
  have hnul := zero_not_mem_numberText (show 2 ≤ 16 by decide) (by decide) word.toNat
  have hlen := length_hexadecimal word
  unfold convertHex
  -- `%x` takes the digits as they are, `%#x` pads them to eight
  split_ifs with halternate
  · obtain ⟨rest, hitoa⟩ := itoa_array env 64 (show 2 ≤ 16 by decide) (by decide) word (by omega)
    rw [hitoa]
    simp only [Option.bind_eq_bind, Option.bind_some, puts_append hnul, Option.map_some]
  · -- `itoa` writes behind the eight zeros of the array
    have hbefore : ((env.array 64).take 8).length = 8 := by
      rw [List.length_take, length_array]
      rfl
    have hitoa := itoa_append (show 2 ≤ 16 by decide) (by decide) word
      ((env.array 64).take 8) ((env.array 64).drop 8)
    rw [List.take_append_drop, hbefore, List.length_drop, length_array, if_pos (by omega)] at hitoa
    have hpad : 0 ∉ paddedText word.toNat := by
      intro hmem
      rcases List.mem_append.mp hmem with hzeros | htext
      · exact absurd (List.eq_of_mem_replicate hzeros) (by decide)
      · exact hnul htext
    rw [hitoa]
    simp only [Option.bind_eq_bind, Option.bind_some]
    -- from where the padding and the digits make eight letters
    rw [List.append_assoc, List.drop_left' hbefore, strlen_append hnul, Option.bind_some,
      ← List.append_assoc, drop_padded hbefore hlen]
    exact congrArg (Option.map Prod.snd) (puts_append hpad _ s)

theorem convertUnsigned_eq (env : Surroundings) (word : UInt32) (s : Screen) :
    convertUnsigned env word s = some (LinuxLikeOs.printf s (numberText 10 word.toNat)) := by
  have hlen := length_decimal word
  obtain ⟨rest, hitoa⟩ := itoa_array env 36 (show 2 ≤ 10 by decide) (by decide) word (by omega)
  have hnul := zero_not_mem_numberText (show 2 ≤ 10 by decide) (by decide) word.toNat
  rw [convertUnsigned, hitoa]
  simp only [Option.bind_eq_bind, Option.bind_some, puts_append hnul, Option.map_some]

theorem convertSigned_eq (env : Surroundings) (word : UInt32) (s : Screen) :
    convertSigned env word s = some (LinuxLikeOs.printf s (signedText (asInt32 word))) := by
  unfold convertSigned signedText
  -- a negative number has its sign first, then the digits of its absolute value
  split_ifs with hneg
  · have hlen := length_decimal (0 - word)
    have hnul := zero_not_mem_numberText (show 2 ≤ 10 by decide) (by decide) (0 - word).toNat
    rw [natAbs_asInt32 hneg] at hlen hnul
    -- the array is not empty, so the sign can be stored
    obtain ⟨b, rest, harray, hrest⟩ : ∃ b rest, env.array 36 = b :: rest ∧ rest.length = 35 := by
      have hlength := length_array env 36
      cases harray : env.array 36 with
      | nil => rw [harray] at hlength; cases hlength
      | cons b rest => exact ⟨b, rest, rfl, by rw [harray] at hlength; exact Nat.succ.inj hlength⟩
    have hstore : storeAt (b :: rest) 0 45 = some (45 :: rest) := rfl
    have hitoa := itoa_append (show 2 ≤ 10 by decide) (by decide) (0 - word) [45] rest
    rw [natAbs_asInt32 hneg, hrest, if_pos (by omega)] at hitoa
    have hminus : 0 ∉ 45 :: numberText 10 (asInt32 word).natAbs := by
      intro hmem
      rcases List.mem_cons.mp hmem with heq | htext
      · exact absurd heq (by decide)
      · exact hnul htext
    rw [harray, hstore]
    simp only [Option.bind_eq_bind, Option.bind_some]
    rw [show (45 :: rest : List UInt8) = [45] ++ rest from rfl,
      show (1 : Nat) = ([45] : List UInt8).length from rfl, hitoa, Option.bind_some]
    exact congrArg (Option.map Prod.snd) (puts_append hminus _ s)
  · rw [convertUnsigned_eq, toNat_asInt32 hneg]

/-- **A conversion** prints the text of its directive. -/
theorem convert_eq (env : Surroundings) (hashes : Nat) (letter : UInt8) (s : Screen)
    (esp : List UInt32) :
    convert env (decide (0 < hashes)) letter s esp =
      (Piece.render env (.directive hashes letter) esp).map fun out =>
        (LinuxLikeOs.printf s out.1, out.2) := by
  -- all directives but `%%` take a word; with none left on the stack both sides give none
  have hargument {text : UInt32 → Option (List UInt8)}
      (htext : argumentText env hashes letter = some text) {print : UInt32 → Option Screen}
      (hprint : ∀ word, print word = (text word).map (LinuxLikeOs.printf s)) :
      (match esp with
        | [] => none
        | word :: esp => (print word).map fun s => (s, esp)) =
        (Piece.render env (.directive hashes letter) esp).map fun out =>
          (LinuxLikeOs.printf s out.1, out.2) := by
    simp only [Piece.render, htext]
    cases esp with
    | nil => rfl
    | cons word esp =>
      simp only [hprint, Option.map_map]
      rfl
  -- one case for each letter that `convert` knows
  by_cases hpercent : letter = 37
  · subst hpercent
    rfl
  by_cases hhex : letter = 120
  · subst hhex
    refine hargument rfl fun word => ?_
    rw [convertHex_eq]
    by_cases hhash : hashes = 0
    · simp [hhash]
    · simp [hhash, Nat.pos_of_ne_zero hhash]
  by_cases hunsigned : letter = 117
  · subst hunsigned
    exact hargument rfl fun word => convertUnsigned_eq ..
  by_cases hsigned : letter = 100
  · subst hsigned
    exact hargument rfl fun word => convertSigned_eq ..
  by_cases hchar : letter = 99
  · subst hchar
    exact hargument rfl fun word => rfl
  by_cases hstring : letter = 115
  · subst hstring
    refine hargument rfl fun word => ?_
    rw [puts_eq, Option.map_map]
    rfl
  · -- any other letter takes no word
    simp [convert, Piece.render, argumentText, hpercent, hhex, hunsigned, hsigned, hchar, hstring,
      LinuxLikeOs.printf]

/-! ## The loop -/

/-- The `#` of a directive. -/
theorem printfLoop_hashes (env : Surroundings) (n m i : Nat) (rest : List UInt8) (s : Screen)
    (esp : List UInt32) :
    printfLoop env (some (decide (0 < m))) i (List.replicate n 35 ++ rest) s esp =
      printfLoop env (some (decide (0 < m + n))) (i + n) rest s esp := by
  induction n generalizing m i with
  | zero => rfl
  | succ n ih =>
    have hnext := ih (m + 1) (i + 1)
    rw [decide_eq_true (Nat.succ_pos m)] at hnext
    rw [List.replicate_succ, List.cons_append, printfLoop, if_pos rfl, hnext,
      show m + 1 + n = m + (n + 1) by omega, show i + 1 + n = i + (n + 1) by omega]

/-- **One piece**. -/
theorem printfLoop_piece (env : Surroundings) {p : Piece} (hp : p.Ok) (i : Nat)
    (rest : List UInt8) (s : Screen) (esp : List UInt32) :
    printfLoop env none i (p.chars ++ rest) s esp =
      (p.render env esp).bind fun out =>
        printfLoop env none (i + p.chars.length) rest (LinuxLikeOs.printf s out.1) out.2 := by
  -- a letter that is not `%` is printed as it is
  cases p with
  | literal c =>
    rw [Piece.chars, List.singleton_append, printfLoop, if_neg hp.1, if_neg hp.2]
    rfl
  | directive hashes letter =>
    -- the hashes are skipped, and the letter behind them decides
    have hhashes := printfLoop_hashes env hashes 0 (i + 1) (letter :: rest) s esp
    rw [Nat.zero_add] at hhashes
    have hchars : (Piece.directive hashes letter).chars ++ rest =
        37 :: (List.replicate hashes 35 ++ letter :: rest) := by
      simp [Piece.chars]
    have hlen : (Piece.directive hashes letter).chars.length = 1 + hashes + 1 := by
      simp only [Piece.chars, List.length_cons, List.length_append, List.length_replicate,
        List.length_nil]
      omega
    rw [hchars, printfLoop, if_neg (by decide), if_pos rfl]
    refine hhashes.trans ?_
    rw [printfLoop, if_neg hp.2, convert_eq, Option.bind_map, hlen, ← Nat.add_assoc,
      ← Nat.add_assoc]
    rfl

theorem printf_append (s : Screen) (first rest : List UInt8) :
    LinuxLikeOs.printf s (first ++ rest) =
      LinuxLikeOs.printf (LinuxLikeOs.printf s first) rest := List.foldl_append

/-- **The pieces of a format**, one after the other. -/
theorem printfLoop_pieces (env : Surroundings) {ps : List Piece} (hps : ∀ p ∈ ps, p.Ok) (i : Nat)
    (rest : List UInt8) (s : Screen) (esp : List UInt32) :
    printfLoop env none i (formatOf ps ++ rest) s esp =
      (render env ps esp).bind fun out =>
        printfLoop env none (i + (formatOf ps).length) rest (LinuxLikeOs.printf s out.1) out.2 := by
  induction ps generalizing i s esp with
  | nil => rfl
  | cons p ps ih =>
    have hformat : formatOf (p :: ps) = p.chars ++ formatOf ps := rfl
    rw [hformat, List.append_assoc, printfLoop_piece env (hps p List.mem_cons_self), render]
    simp only [Option.bind_eq_bind, Option.bind_assoc, Option.bind_some]
    refine Option.bind_congr fun out _ => ?_
    rw [ih fun q hq => hps q (List.mem_cons_of_mem p hq), List.length_append, ← Nat.add_assoc]
    simp only [printf_append]

/-! ## Every format -/

/-- **Every format** is made of pieces, or ends inside of a directive. -/
theorem format_cases (format : List UInt8) (hnul : 0 ∉ format) :
    (∃ ps, (∀ p ∈ ps, Piece.Ok p) ∧ format = formatOf ps) ∨
      ∃ ps n, (∀ p ∈ ps, Piece.Ok p) ∧ format = formatOf ps ++ 37 :: List.replicate n 35 := by
  induction hlen : format.length using Nat.strong_induction_on generalizing format with
  | _ len ih =>
  -- what is in front of a format that has been taken apart
  have hpiece (p : Piece) (hp : p.Ok) (rest : List UInt8) (hformat : format = p.chars ++ rest)
      (hshort : rest.length < len) :
      (∃ ps, (∀ p ∈ ps, Piece.Ok p) ∧ format = formatOf ps) ∨
        ∃ ps n, (∀ p ∈ ps, Piece.Ok p) ∧ format = formatOf ps ++ 37 :: List.replicate n 35 := by
    have hrest : 0 ∉ rest := fun hmem => hnul (hformat ▸ List.mem_append_right _ hmem)
    rcases ih rest.length hshort rest hrest rfl with ⟨ps, hps, heq⟩ | ⟨ps, n, hps, heq⟩
    · exact .inl ⟨p :: ps, List.forall_mem_cons.mpr ⟨hp, hps⟩, by rw [hformat, heq]; rfl⟩
    · refine .inr ⟨p :: ps, n, List.forall_mem_cons.mpr ⟨hp, hps⟩, ?_⟩
      rw [hformat, heq, ← List.append_assoc]
      rfl
  cases format with
  | nil => exact .inl ⟨[], by simp, rfl⟩
  | cons c rest =>
    have hc : c ≠ 0 := fun heq => hnul (heq ▸ List.mem_cons_self)
    by_cases hpercent : c = 37
    · subst hpercent
      -- the letter behind the `#`, if there is one
      have hsplit : rest.takeWhile (· = 35) ++ rest.dropWhile (· = 35) = rest :=
        List.takeWhile_append_dropWhile
      have hhashes : rest.takeWhile (· = 35) =
          List.replicate (rest.takeWhile (· = 35)).length 35 :=
        List.eq_replicate_of_mem fun b hb => by simpa using List.mem_takeWhile_imp hb
      cases hletter : rest.dropWhile (· = 35) with
      | nil =>
        rw [hletter, List.append_nil] at hsplit
        refine .inr ⟨[], (rest.takeWhile (· = 35)).length, by simp, ?_⟩
        rw [← hhashes, hsplit]
        rfl
      | cons letter after =>
        rw [hletter] at hsplit
        have hmem : letter ∈ rest := by rw [← hsplit]; simp
        have hnot : letter ≠ 35 := by
          have hhead := List.head?_dropWhile_not (fun b : UInt8 => decide (b = 35)) rest
          rw [hletter] at hhead
          simpa using hhead
        refine hpiece (.directive (rest.takeWhile (· = 35)).length letter)
          ⟨fun heq => hnul (heq ▸ List.mem_cons_of_mem _ hmem), hnot⟩ after ?_ ?_
        · rw [Piece.chars, ← hhashes, List.cons_append, List.append_assoc, List.singleton_append,
            hsplit]
        · have hlength := congrArg List.length hsplit
          rw [List.length_append, List.length_cons] at hlength
          rw [← hlen, List.length_cons]
          omega
    · exact hpiece (.literal c) ⟨hc, hpercent⟩ rest rfl (by rw [← hlen]; simp)

/-- What `printf` does with a format and the memory behind its terminator. -/
inductive Law (format : List UInt8) : Prop
  /-- A format of pieces is printed piece by piece; the result is its length. -/
  | pieces (ps : List Piece) (hps : ∀ p ∈ ps, p.Ok) (hformat : format = formatOf ps)
      (hprintf : ∀ env esp s behind, printf env (format ++ 0 :: behind) esp s =
        (render env ps esp).map fun out => (format.length, LinuxLikeOs.printf s out.1)) : Law format
  /-- A format that ends inside of a directive is not the end: what lies behind its terminator is
      taken for the rest of it. -/
  | unfinished (ps : List Piece) (n : Nat) (hps : ∀ p ∈ ps, p.Ok)
      (hformat : format = formatOf ps ++ 37 :: List.replicate n 35)
      (hprintf : ∀ env esp s behind, printf env (format ++ 0 :: behind) esp s =
        (render env ps esp).bind fun out => printfLoop env none (format.length + 1) behind
          (LinuxLikeOs.printf s out.1) out.2) : Law format

/-- A text without directives. -/
theorem printf_plain {text : List UInt8} (hnul : 0 ∉ text) (hpercent : 37 ∉ text)
    (env : Surroundings) (esp : List UInt32) (s : Screen) (behind : List UInt8) :
    printf env (text ++ 0 :: behind) esp s = some (text.length, LinuxLikeOs.printf s text) := by
  -- the text is its own format, each letter a piece
  have hformat : formatOf (text.map .literal) = text := by
    simp [formatOf, List.flatMap_map, Piece.chars]
  -- on the text: no piece takes a word
  have hrender : render env (text.map .literal) esp = some (text, esp) := by
    clear hformat hnul hpercent
    induction text with
    | nil => rfl
    | cons c text ih => simp [render, Piece.render, ih]
  have hps : ∀ p ∈ text.map Piece.literal, p.Ok := by
    intro p hp
    obtain ⟨c, hc, rfl⟩ := List.mem_map.mp hp
    exact ⟨fun heq => hnul (heq ▸ hc), fun heq => hpercent (heq ▸ hc)⟩
  -- so the loop ends at the NUL behind it
  have hloop := printfLoop_pieces env hps 0 (0 :: behind) s esp
  rw [hformat, hrender, Option.bind_some, Nat.zero_add] at hloop
  exact hloop

/-- The messages of the kernel are such texts. -/
theorem printf_kernelMessage (m : KernelMessage) (env : Surroundings) (esp : List UInt32)
    (s : Screen) (behind : List UInt8) :
    printf env (m.text ++ 0 :: behind) esp s =
      some (m.text.length, LinuxLikeOs.printf s m.text) := by
  refine printf_plain ?_ ?_ env esp s behind
  · cases m <;> decide +kernel
  · cases m <;> decide +kernel

end Format

/-- **`printf`**: it prints exactly the text that the pieces of the format stand for and returns the
    length of the format, unless the format ends inside of a directive.  Then it goes on with the
    memory behind the format. -/
theorem printf_law (format : List UInt8) (hnul : 0 ∉ format) : Format.Law format := by
  rcases Format.format_cases format hnul with ⟨ps, hps, rfl⟩ | ⟨ps, n, hps, rfl⟩
  · refine .pieces ps hps rfl fun env esp s behind => ?_
    rw [Format.printf, Format.printfLoop_pieces env hps]
    simp only [Format.printfLoop, if_true, Nat.zero_add]
    rw [Option.map_eq_bind]
    rfl
  · refine .unfinished ps n hps rfl fun env esp s behind => ?_
    rw [Format.printf, List.append_assoc, Format.printfLoop_pieces env hps]
    refine Option.bind_congr fun out _ => ?_
    have hhashes := Format.printfLoop_hashes env n 0 ((Format.formatOf ps).length + 1) (0 :: behind)
      (printf s out.1) out.2
    rw [List.cons_append, Format.printfLoop, if_neg (by decide), if_pos rfl, Nat.zero_add]
    refine hhashes.trans ?_
    -- the terminator is a letter without a meaning
    rw [Format.printfLoop, if_neg (by decide), List.length_append, List.length_cons,
      List.length_replicate, Nat.add_right_comm _ 1 n, Nat.add_assoc _ n 1]
    rfl

/-- `x=%#x`. -/
theorem printf_law_hexadecimal : Format.Law [120, 61, 37, 35, 120] := printf_law _ (by decide)

end LinuxLikeOs
