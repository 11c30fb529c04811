import Mathlib.Tactic.SplitIfs
import LinuxLikeOs.Library.Numerals

/-!
# Numbers as text

`strlen`, `strrev` and `itoa` of `lib.c`.  An array is the list of its bytes, and `none` stands for
an access outside of it, a division by zero, or a loop that does not end.

- `strlen`, `strrev`, `itoa`: the functions
- `strrev_writeText`: a text is reversed in place
- `itoa_law`: for which arrays `itoa` returns, and what it writes
-/

namespace LinuxLikeOs

open Library

/-! ## The functions -/

/-- `strlen` of the string at the beginning of an array. -/
def strlen : List UInt8 → Option Nat
  | [] => none
  | c :: rest => if c = 0 then some 0 else (strlen rest).map (· + 1)

/-- Store a byte into an array. -/
def storeAt (buf : List UInt8) (i : Nat) (c : UInt8) : Option (List UInt8) :=
  if i < buf.length then some (buf.set i c) else none

/-- The body of the loop in `strrev`. -/
def exchange (s : List UInt8) (first last : Nat) : List UInt8 :=
  let tmp := s.getD last 0
  (s.set last (s.getD first 0)).set first tmp

/-- `strrev(&s[start])`: `beg` goes up and `end` goes down until they meet. -/
def strrev (s : List UInt8) (start : Nat) : Option (List UInt8) :=
  (strlen (s.drop start)).map fun len =>
    (List.range (len / 2)).foldl
      (fun s beg => exchange s (start + beg) (start + (len - 1 - beg))) s

/-- `lookup`, the terminator included. -/
def lookup : List UInt8 :=
  [48, 49, 50, 51, 52, 53, 54, 55, 56, 57, 65, 66, 67, 68, 69, 70, 71, 72, 73, 74, 75, 76, 77, 78,
    79, 80, 81, 82, 83, 84, 85, 86, 87, 88, 89, 90, 0]

/-- The loop of `itoa`, for at most `count` digits from index `i` on: the index behind the last
    digit and the array. -/
def itoaLoop (radix : Nat) : Nat → Nat → Nat → List UInt8 → Option (Nat × List UInt8)
  | 0, newval, i, buf => if newval = 0 then some (i, buf) else none
  | count + 1, newval, i, buf =>
    if newval = 0 then some (i, buf)
    else do
      let digit ← lookup[newval % radix]?
      let buf ← storeAt buf i digit
      itoaLoop radix count (newval / radix) (i + 1) buf

/-- `itoa(value, &buf[start], radix)`: a number of 32 bits has no more than 32 digits. -/
def itoa (value : UInt32) (buf : List UInt8) (start radix : Nat) : Option (List UInt8) :=
  if value = 0 then do
    let buf ← storeAt buf start 48
    storeAt buf (start + 1) 0
  else if radix = 0 then none
  else do
    let (stop, buf) ← itoaLoop radix 32 value.toNat start buf
    let buf ← storeAt buf stop 0
    strrev buf start

/-! ## What they mean -/

/-- A digit of a number. -/
def digitChar (d : Nat) : UInt8 := lookup.getD d 0

/-- The value of a digit. -/
def digitValue (c : UInt8) : Nat := if c < 65 then c.toNat - 48 else c.toNat - 55

/-- The text of a number in a radix. -/
abbrev numberText (radix n : Nat) : List UInt8 := numeral radix digitChar n

/-- An array after a text and its terminator have been written into it. -/
def writeText (buf : List UInt8) (start : Nat) (text : List UInt8) : List UInt8 :=
  buf.take start ++ text ++ 0 :: buf.drop (start + text.length + 1)

theorem digitValue_digitChar : ∀ d < 36, digitValue (digitChar d) = d := by decide

theorem digitChar_ne_zero : ∀ d < 36, digitChar d ≠ 0 := by decide

theorem getElem?_lookup : ∀ d < 36, lookup[d]? = some (digitChar d) := by decide

/-- A number is written without the terminator. -/
theorem zero_not_mem_numberText {radix : Nat} (h2 : 2 ≤ radix) (h36 : radix ≤ 36) (n : Nat) :
    0 ∉ numberText radix n := by
  intro hmem
  obtain ⟨d, hd, hzero⟩ := mem_numeral h2 hmem
  exact digitChar_ne_zero d (by omega) hzero.symm

/-! ## `strrev` -/

theorem strlen_append {text : List UInt8} (h : 0 ∉ text) (rest : List UInt8) :
    strlen (text ++ 0 :: rest) = some text.length := by
  induction text with
  | nil => rfl
  | cons c text ih =>
    have hc : c ≠ 0 := fun heq => h (heq ▸ List.mem_cons_self)
    rw [List.cons_append, strlen, if_neg hc, ih fun hmem => h (List.mem_cons_of_mem c hmem)]
    rfl

theorem length_exchange (s : List UInt8) (first last : Nat) :
    (exchange s first last).length = s.length := by
  simp [exchange]

/-- Exchanging two bytes. -/
theorem getElem?_exchange {s : List UInt8} {first last : Nat} (hfirst : first < last)
    (hlast : last < s.length) (i : Nat) :
    (exchange s first last)[i]? =
      if i = first then s[last]? else if i = last then s[first]? else s[i]? := by
  have hget : ∀ j < s.length, some (s.getD j 0) = s[j]? := by
    intro j hj
    rw [List.getD_eq_getElem?_getD, List.getElem?_eq_getElem hj, Option.getD_some]
  rw [exchange, List.getElem?_set, List.length_set]
  by_cases h1 : i = first
  · rw [if_pos h1.symm, if_pos (by omega), if_pos h1, hget last hlast]
  rw [if_neg (Ne.symm h1), if_neg h1, List.getElem?_set]
  by_cases h2 : i = last
  · rw [if_pos h2.symm, if_pos hlast, if_pos h2, hget first (by omega)]
  · rw [if_neg (Ne.symm h2), if_neg h2]

/-- The rounds of the loop in `strrev`. -/
def exchangeRounds (s : List UInt8) (start len m : Nat) : List UInt8 :=
  (List.range m).foldl (fun s beg => exchange s (start + beg) (start + (len - 1 - beg))) s

theorem exchangeRounds_succ (s : List UInt8) (start len m : Nat) :
    exchangeRounds s start len (m + 1) =
      exchange (exchangeRounds s start len m) (start + m) (start + (len - 1 - m)) := by
  simp only [exchangeRounds, List.range_succ, List.foldl_append, List.foldl_cons, List.foldl_nil]

theorem length_exchangeRounds (s : List UInt8) (start len m : Nat) :
    (exchangeRounds s start len m).length = s.length := by
  induction m with
  | zero => rfl
  | succ m ih => rw [exchangeRounds_succ, length_exchange, ih]

/-- After `m` rounds the first and the last `m` bytes of the text have changed places. -/
theorem getElem?_exchangeRounds (s : List UInt8) (start len : Nat) (hin : start + len ≤ s.length)
    {m : Nat} (hm : m ≤ len / 2) (i : Nat) :
    (exchangeRounds s start len m)[i]? =
      if start ≤ i ∧ i < start + len ∧ (i < start + m ∨ start + len ≤ i + m) then
        s[start + (start + len - 1 - i)]?
      else s[i]? := by
  induction m generalizing i with
  | zero => rw [if_neg (by omega)]; rfl
  | succ m ih =>
    have hlen := length_exchangeRounds s start len m
    rw [exchangeRounds_succ, getElem?_exchange (by omega) (by omega)]
    -- the last round has exchanged the bytes `start + m` and `start + (len - 1 - m)`, and no other
    by_cases h1 : i = start + m
    · rw [if_pos h1, if_pos (by omega), ih (by omega), if_neg (by omega)]
      congr 1
      omega
    by_cases h2 : i = start + (len - 1 - m)
    · rw [if_neg h1, if_pos h2, if_pos (by omega), ih (by omega), if_neg (by omega)]
      congr 1
      omega
    · rw [if_neg h1, if_neg h2, ih (by omega)]
      -- the bytes of the earlier rounds are those of the hypothesis
      by_cases hround : start ≤ i ∧ i < start + len ∧ (i < start + m ∨ start + len ≤ i + m)
      · rw [if_pos hround, if_pos (by omega)]
      · rw [if_neg hround, if_neg (by omega)]

/-- **`strrev`** reverses the text in its place. -/
theorem strrev_text {before text rest : List UInt8} (h : 0 ∉ text) :
    strrev (before ++ text ++ 0 :: rest) before.length =
      some (before ++ text.reverse ++ 0 :: rest) := by
  have hdrop : (before ++ text ++ 0 :: rest).drop before.length = text ++ 0 :: rest := by
    rw [List.append_assoc, List.drop_left]
  -- the function finds the length of the text, and its rounds reverse that part
  rw [strrev, hdrop, strlen_append h, Option.map_some]
  congr 1
  refine List.ext_getElem? fun i => ?_
  have hrounds := getElem?_exchangeRounds (before ++ text ++ 0 :: rest) before.length
    text.length (by simp) (Nat.le_refl _) i
  refine hrounds.trans ?_
  have hinside (text : List UInt8) {j : Nat} (hj : j < text.length) :
      (before ++ text ++ 0 :: rest)[before.length + j]? = text[j]? := by
    rw [List.append_assoc, List.getElem?_append_right (by omega),
      List.getElem?_append_left (by omega), Nat.add_sub_cancel_left]
  -- inside of the text each byte is the one at the mirrored place
  by_cases hin : before.length ≤ i ∧ i < before.length + text.length
  · obtain ⟨j, rfl⟩ := Nat.exists_eq_add_of_le hin.1
    have hj : j < text.length := by omega
    rw [hinside text.reverse (by rwa [List.length_reverse]), List.getElem?_reverse hj]
    split_ifs with hround
    · rw [← hinside text (by omega)]
      congr 1
      omega
    · -- the byte in the middle stays
      rw [hinside text hj]
      congr 1
      omega
  · rw [if_neg fun hround => hin ⟨hround.1, hround.2.1⟩]
    -- in front of the text and behind it nothing has moved
    rcases Nat.lt_or_ge i before.length with hlow | hhigh
    · rw [List.append_assoc, List.append_assoc, List.getElem?_append_left hlow,
        List.getElem?_append_left hlow]
    · have hlen : (before ++ text).length = (before ++ text.reverse).length := by simp
      rw [List.getElem?_append_right (by simp; omega), List.getElem?_append_right (by simp; omega),
        hlen]

/-! ## `itoa` -/

theorem storeAt_append {before : List UInt8} {c : UInt8} {rest : List UInt8} (b : UInt8) :
    storeAt (before ++ b :: rest) before.length c = some (before ++ c :: rest) := by
  rw [storeAt, if_pos (by simp), List.set_append_right _ _ (Nat.le_refl _), Nat.sub_self,
    List.set_cons_zero]

theorem storeAt_end (buf : List UInt8) (c : UInt8) : storeAt buf buf.length c = none :=
  if_neg (Nat.lt_irrefl _)

/-- The digits of a number, the lowest first. -/
def lowFirst (radix n : Nat) : List UInt8 := (Nat.digits radix n).map digitChar

theorem lowFirst_of_pos {radix n : Nat} (h2 : 2 ≤ radix) (hn : n ≠ 0) :
    lowFirst radix n = digitChar (n % radix) :: lowFirst radix (n / radix) := by
  rw [lowFirst, Nat.digits_def' h2 (Nat.pos_of_ne_zero hn)]
  rfl

/-- **The loop of `itoa`** writes the digits of a number, if they fit, and stops behind them. -/
theorem itoaLoop_eq {radix : Nat} (h2 : 2 ≤ radix) (h36 : radix ≤ 36) {count n : Nat}
    (hcount : (lowFirst radix n).length ≤ count) (before rest : List UInt8) :
    itoaLoop radix count n before.length (before ++ rest) =
      if (lowFirst radix n).length ≤ rest.length then
        some (before.length + (lowFirst radix n).length,
          before ++ lowFirst radix n ++ rest.drop (lowFirst radix n).length)
      else none := by
  -- one digit in each round
  induction count generalizing n before rest with
  | zero =>
    by_cases hn : n = 0
    · simp [itoaLoop, hn, lowFirst]
    · rw [lowFirst_of_pos h2 hn] at hcount
      exact absurd hcount (Nat.not_succ_le_zero _)
  | succ count ih =>
    by_cases hn : n = 0
    · simp [itoaLoop, hn, lowFirst]
    rw [lowFirst_of_pos h2 hn] at hcount ⊢
    have hdigit : lookup[n % radix]? = some (digitChar (n % radix)) :=
      getElem?_lookup _ ((Nat.mod_lt n (by omega)).trans_le h36)
    -- a digit that has no byte left is stored outside of the array
    cases rest with
    | nil => simp [itoaLoop, hn, hdigit, storeAt_end]
    | cons b rest =>
      have hnext := ih (Nat.le_of_succ_le_succ hcount) (before ++ [digitChar (n % radix)]) rest
      rw [List.length_append, List.length_singleton, List.append_assoc, List.singleton_append]
        at hnext
      rw [itoaLoop, if_neg hn, hdigit]
      simp only [Option.bind_eq_bind, Option.bind_some, storeAt_append, hnext, List.length_cons,
        Nat.add_le_add_iff_right, List.drop_succ_cons]
      split_ifs
      · simp only [List.append_assoc, List.cons_append, Option.some.injEq, Prod.mk.injEq]
        exact ⟨by omega, rfl⟩
      · rfl

theorem writeText_append (before rest text : List UInt8) :
    writeText (before ++ rest) before.length text =
      before ++ text ++ 0 :: rest.drop (text.length + 1) := by
  rw [writeText, List.take_left, Nat.add_assoc, ← List.drop_drop, List.drop_left]

theorem length_lowFirst {radix : Nat} (h2 : 2 ≤ radix) (value : UInt32) :
    (lowFirst radix value.toNat).length ≤ 32 := by
  rw [lowFirst, List.length_map, Nat.digits_length_le_iff h2]
  calc value.toNat < 2 ^ 32 := value.toNat_lt
    _ ≤ radix ^ 32 := Nat.pow_le_pow_left h2 32

/-- What `itoa` does to an array with room from index `before.length` on. -/
theorem itoa_append {radix : Nat} (h2 : 2 ≤ radix) (h36 : radix ≤ 36) (value : UInt32)
    (before rest : List UInt8) :
    itoa value (before ++ rest) before.length radix =
      if (numberText radix value.toNat).length < rest.length then
        some (before ++ numberText radix value.toNat ++
          0 :: rest.drop ((numberText radix value.toNat).length + 1))
      else none := by
  -- 0 has a branch of its own
  by_cases hzero : value = 0
  · subst hzero
    have htext : numberText radix (0 : UInt32).toNat = [48] := rfl
    rw [itoa, if_pos rfl, htext]
    cases rest with
    | nil => simp [storeAt_end]
    | cons b rest =>
      have hnext (c : UInt8) : storeAt (before ++ 48 :: rest) (before.length + 1) c =
          storeAt (before ++ [48] ++ rest) (before ++ [48]).length c := by simp
      simp only [Option.bind_eq_bind, storeAt_append, Option.bind_some, hnext]
      -- the digit fits; the terminator may not
      cases rest with
      | nil => rw [List.append_nil, storeAt_end]; rfl
      | cons b' rest => rw [storeAt_append, if_pos (by simp)]; rfl
  · -- the loop stores the digits from the lowest one on, and `strrev` turns them around
    have hpos : value.toNat ≠ 0 := fun h => hzero (UInt32.toNat_inj.mp h)
    have htext : numberText radix value.toNat = (lowFirst radix value.toNat).reverse :=
      numeral_of_pos hpos
    have hnul : 0 ∉ lowFirst radix value.toNat := by
      have hmem := zero_not_mem_numberText h2 h36 value.toNat
      rwa [htext, List.mem_reverse] at hmem
    rw [htext, List.length_reverse, itoa, if_neg hzero, if_neg (by omega),
      itoaLoop_eq h2 h36 (length_lowFirst h2 value)]
    split_ifs with hle hlt hlt
    · -- the digits fit, and so does the terminator
      have hsplit : rest.drop (lowFirst radix value.toNat).length =
          rest[(lowFirst radix value.toNat).length] ::
            rest.drop ((lowFirst radix value.toNat).length + 1) :=
        List.drop_eq_getElem_cons hlt
      have hstop : before.length + (lowFirst radix value.toNat).length =
          (before ++ lowFirst radix value.toNat).length := by simp
      simp only [Option.bind_eq_bind, Option.bind_some]
      rw [hsplit, hstop, storeAt_append, Option.bind_some, strrev_text hnul]
    · -- there is no byte left for the terminator
      have hlen : rest.length = (lowFirst radix value.toNat).length := by omega
      have hstop : before.length + (lowFirst radix value.toNat).length =
          (before ++ lowFirst radix value.toNat).length := by simp
      simp only [Option.bind_eq_bind, Option.bind_some]
      rw [← hlen, List.drop_length, List.append_nil, hlen, hstop, storeAt_end]
      rfl
    · exact absurd (Nat.le_of_lt hlt) hle
    · rfl

/-- **`itoa`** in a radix from 2 to 36 returns exactly if the array has room for the digits and the
    terminator.  Then it has written them and nothing else, and the number can be read back from
    the text, which has at most 32 digits. -/
theorem itoa_law {radix : Nat} (h2 : 2 ≤ radix) (h36 : radix ≤ 36) (value : UInt32)
    (buf : List UInt8) (start : Nat) (hstart : start ≤ buf.length) :
    (itoa value buf start radix =
      if start + (numberText radix value.toNat).length < buf.length then
        some (writeText buf start (numberText radix value.toNat))
      else none) ∧
      readNumeral radix digitValue (numberText radix value.toNat) = value.toNat ∧
      0 ∉ numberText radix value.toNat ∧ (numberText radix value.toNat).length ≤ 32 := by
  refine ⟨?_, readNumeral_numeral h2 (fun d hd => digitValue_digitChar d (by omega)) _,
    zero_not_mem_numberText h2 h36 _, length_numeral_le h2 (by decide) ?_⟩
  · have hsplit : buf = buf.take start ++ buf.drop start := (List.take_append_drop ..).symm
    have hlen : (buf.take start).length = start := List.length_take_of_le hstart
    have hitoa := itoa_append h2 h36 value (buf.take start) (buf.drop start)
    have hwrite := writeText_append (buf.take start) (buf.drop start)
      (numberText radix value.toNat)
    rw [← hsplit, hlen] at hitoa hwrite
    rw [hitoa, hwrite, List.length_drop]
    split_ifs <;> first | rfl | omega
  · calc value.toNat < 2 ^ 32 := value.toNat_lt
      _ ≤ radix ^ 32 := Nat.pow_le_pow_left h2 32

/-- 255 in hexadecimal, into an array of five bytes from index 1 on. -/
theorem itoa_law_hexadecimal :
    itoa 255 [9, 9, 9, 9, 9] 1 16 = some [9, 70, 70, 0, 9] ∧
      readNumeral 16 digitValue [70, 70] = 255 := by
  obtain ⟨hitoa, hread, -, -⟩ := itoa_law (show 2 ≤ 16 by decide) (by decide) 255
    [9, 9, 9, 9, 9] 1 (by decide)
  have htext : numberText 16 (255 : UInt32).toNat = [70, 70] := by decide +kernel
  rw [htext] at hitoa hread
  exact ⟨hitoa, hread⟩

end LinuxLikeOs
