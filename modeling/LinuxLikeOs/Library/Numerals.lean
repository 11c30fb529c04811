import Mathlib.Data.Nat.Digits.Lemmas

/-!
# Numerals

The numeral of a number in a base, highest digit first, over any alphabet of digits.

- `numeral`: the numeral, which for zero is one digit
- `readNumeral_numeral`: the number can be read back
- `length_numeral_le`: how long it can be
- `readNumeral_pad`: zeros in front
-/

namespace LinuxLikeOs.Library

universe u

variable {α : Type u} (base : Nat) (digit : Nat → α)

/-- The numeral of `n`, highest digit first. -/
def numeral (n : Nat) : List α :=
  if n = 0 then [digit 0] else ((Nat.digits base n).map digit).reverse

/-- The number of a numeral. -/
def readNumeral (value : α → Nat) (text : List α) : Nat :=
  Nat.ofDigits base (text.map value).reverse

variable {base : Nat} {digit : Nat → α} {value : α → Nat}

theorem numeral_of_pos {n : Nat} (hn : n ≠ 0) :
    numeral base digit n = ((Nat.digits base n).map digit).reverse := if_neg hn

/-- The digits of a numeral are digits of the base. -/
theorem mem_numeral (hbase : 2 ≤ base) {n : Nat} {c : α} (hc : c ∈ numeral base digit n) :
    ∃ d < base, c = digit d := by
  unfold numeral at hc
  split_ifs at hc with hn
  · exact ⟨0, by omega, List.mem_singleton.mp hc⟩
  · obtain ⟨d, hd, rfl⟩ := List.mem_map.mp (List.mem_reverse.mp hc)
    exact ⟨d, Nat.digits_lt_base hbase hd, rfl⟩

/-- **Round trip**: a number is what its numeral says. -/
theorem readNumeral_numeral (hbase : 2 ≤ base) (hvalue : ∀ d < base, value (digit d) = d)
    (n : Nat) : readNumeral base value (numeral base digit n) = n := by
  unfold readNumeral numeral
  split_ifs with hn
  · simp [hvalue 0 (by omega), hn]
  · have hsame : ((Nat.digits base n).map digit).map value = Nat.digits base n := by
      rw [List.map_map, List.map_congr_left (g := id) ?_, List.map_id]
      intro d hd
      exact hvalue d (Nat.digits_lt_base hbase hd)
    rw [List.map_reverse, List.reverse_reverse, hsame, Nat.ofDigits_digits]

/-- A number below `base ^ k` has at most `k` digits. -/
theorem length_numeral_le {n k : Nat} (hbase : 2 ≤ base) (hk : 0 < k) (hn : n < base ^ k) :
    (numeral base digit n).length ≤ k := by
  unfold numeral
  split_ifs with hzero
  · exact hk
  · rw [List.length_reverse, List.length_map]
    exact (Nat.digits_length_le_iff (by omega) n).mpr hn

/-- Zeros in front do not change the number. -/
theorem readNumeral_pad {zero : α} (hzero : value zero = 0) (text : List α) (k : Nat) :
    readNumeral base value (List.replicate k zero ++ text) = readNumeral base value text := by
  unfold readNumeral
  rw [List.map_append, List.reverse_append, List.map_replicate, List.reverse_replicate, hzero,
    Nat.ofDigits_append_replicate_zero]

end LinuxLikeOs.Library
