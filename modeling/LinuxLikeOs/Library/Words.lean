import Mathlib.Data.List.DropRight
import Mathlib.Data.List.TakeWhile
import Mathlib.Tactic.SplitIfs

/-!
# Words of a line

A line of text read as words between separators, of which any number may precede, part and follow
them.

- `words`: what lies between the separators
- `headD_words`, `tail_words`: the first word is found by two scans, and the others are the words
  behind it
- `trim`: the line without the separators around it, with `takeWhile_eq_trim_iff` for a line of
  one word
-/

namespace LinuxLikeOs.Library

universe u

variable {α : Type u}

/-- A scan stops where its condition fails. -/
theorem eq_false_of_dropWhile {p : α → Bool} {ys rest : List α} {c : α}
    (h : ys.dropWhile p = c :: rest) : p c = false := by
  have hne : ys.dropWhile p ≠ [] := h ▸ List.cons_ne_nil c rest
  have hstop := List.head_dropWhile_not p hne
  simp only [h, List.head_cons] at hstop
  exact hstop

variable [DecidableEq α] {sep : α}

/-- The words of a line: what lies between the separators, without the empty pieces. -/
def words (sep : α) (xs : List α) : List (List α) := (xs.splitOn sep).filter (· ≠ [])

/-- The line from the first to the last character that is no separator. -/
def trim (sep : α) (xs : List α) : List α := (xs.dropWhile (· = sep)).rdropWhile (· = sep)

@[simp] theorem words_nil : words sep [] = [] := by simp [words]

@[simp] theorem words_cons_sep (xs : List α) : words sep (sep :: xs) = words sep xs := by
  have hsplit : (sep :: xs).splitOn sep = [] :: xs.splitOn sep :=
    List.splitOn_append_cons_self_of_not_mem (List.not_mem_nil) xs
  simp [words, hsplit]

/-- A word by itself. -/
theorem words_of_notMem {w : List α} (hw : w ≠ []) (hsep : sep ∉ w) : words sep w = [w] := by
  simp [words, List.splitOn_eq_singleton hsep, hw]

/-- A word at the head of a line. -/
theorem words_append_sep {w : List α} (hw : w ≠ []) (hsep : sep ∉ w) (xs : List α) :
    words sep (w ++ sep :: xs) = w :: words sep xs := by
  simp [words, List.splitOn_append_cons_self_of_not_mem hsep, hw]

/-- Separators in front make no difference. -/
theorem words_dropWhile (xs : List α) : words sep (xs.dropWhile (· = sep)) = words sep xs := by
  induction xs with
  | nil => rfl
  | cons x xs ih =>
    by_cases hx : x = sep
    · subst hx
      simpa using ih
    · simp [hx]

/-- A scan for the separator does not pass it. -/
theorem notMem_takeWhile (ys : List α) : sep ∉ ys.takeWhile (· ≠ sep) := by
  intro hmem
  have hne := List.mem_takeWhile_imp hmem
  simp at hne

/-- The first word of a line that begins with one. -/
theorem words_of_takeWhile {ys : List α} (hw : ys.takeWhile (· ≠ sep) ≠ []) :
    words sep ys = ys.takeWhile (· ≠ sep) :: words sep (ys.dropWhile (· ≠ sep)) := by
  have hsep : sep ∉ ys.takeWhile (· ≠ sep) := notMem_takeWhile ys
  have hline : ys.takeWhile (· ≠ sep) ++ ys.dropWhile (· ≠ sep) = ys :=
    List.takeWhile_append_dropWhile
  cases hrest : ys.dropWhile (· ≠ sep) with
  | nil =>
    rw [hrest, List.append_nil] at hline
    rw [words_nil, ← words_of_notMem hw hsep, hline]
  | cons c rest =>
    -- the word ends at a separator
    have hc : c = sep := by simpa using eq_false_of_dropWhile hrest
    subst hc
    rw [words_cons_sep, ← words_append_sep hw hsep rest, ← hrest, hline]

/-- Behind the separators in front, a word begins or the line ends. -/
theorem takeWhile_dropWhile_eq_nil_iff {xs : List α} :
    (xs.dropWhile (· = sep)).takeWhile (· ≠ sep) = [] ↔ xs.dropWhile (· = sep) = [] := by
  constructor
  · intro hw
    by_contra hne
    obtain ⟨c, rest, hys⟩ := List.exists_cons_of_ne_nil hne
    have hc : c ≠ sep := by simpa using eq_false_of_dropWhile hys
    simp [hys, hc] at hw
  · intro hnil
    rw [hnil]
    rfl

/-- There is no word exactly if there is nothing but separators. -/
theorem words_eq_nil_iff {xs : List α} : words sep xs = [] ↔ ∀ x ∈ xs, x = sep := by
  have hall : xs.dropWhile (· = sep) = [] ↔ ∀ x ∈ xs, x = sep := by
    simp [List.dropWhile_eq_nil_iff]
  rw [← hall, ← words_dropWhile]
  constructor
  · intro hnone
    by_contra hne
    rw [words_of_takeWhile (mt takeWhile_dropWhile_eq_nil_iff.mp hne)] at hnone
    cases hnone
  · intro hnil
    rw [hnil, words_nil]

/-- The first word, empty if there is none: skip the separators, and go on to the next one. -/
theorem headD_words (xs : List α) :
    (words sep xs).headD [] = (xs.dropWhile (· = sep)).takeWhile (· ≠ sep) := by
  rw [← words_dropWhile]
  by_cases hw : (xs.dropWhile (· = sep)).takeWhile (· ≠ sep) = []
  · rw [takeWhile_dropWhile_eq_nil_iff.mp hw]
    rfl
  · rw [words_of_takeWhile hw]
    rfl

/-- The other words lie behind the first one. -/
theorem tail_words (xs : List α) :
    (words sep xs).tail = words sep ((xs.dropWhile (· = sep)).dropWhile (· ≠ sep)) := by
  rw [← words_dropWhile]
  by_cases hw : (xs.dropWhile (· = sep)).takeWhile (· ≠ sep) = []
  · rw [takeWhile_dropWhile_eq_nil_iff.mp hw]
    rfl
  · rw [words_of_takeWhile hw, List.tail_cons]

/-- No separator is dropped from a word. -/
theorem rdropWhile_append_of_notMem {w : List α} (hsep : sep ∉ w) (tail : List α) :
    (w ++ tail).rdropWhile (· = sep) = w ++ tail.rdropWhile (· = sep) := by
  -- a word with no separator in it loses nothing at its end
  have hword : w.rdropWhile (· = sep) = w := by
    rw [List.rdropWhile_eq_self_iff]
    intro hne hlast
    exact hsep (of_decide_eq_true hlast ▸ List.getLast_mem hne)
  have happend : (w ++ tail).rdropWhile (· = sep) =
      if tail.rdropWhile (· = sep) = [] then w.rdropWhile (· = sep)
      -- separators are dropped from `w` only when the whole tail consists of them
      else w ++ tail.rdropWhile (· = sep) := by
    simp only [List.rdropWhile, List.reverse_append, List.dropWhile_append, List.isEmpty_iff,
      List.reverse_eq_nil_iff]
    split_ifs <;> simp
  rw [happend]
  split_ifs with hnil
  · rw [hword, hnil, List.append_nil]
  · rfl

/-- The line begins with its first word. -/
theorem trim_eq_append (xs : List α) :
    trim sep xs = (xs.dropWhile (· = sep)).takeWhile (· ≠ sep) ++
      ((xs.dropWhile (· = sep)).dropWhile (· ≠ sep)).rdropWhile (· = sep) := by
  rw [← rdropWhile_append_of_notMem (notMem_takeWhile _), List.takeWhile_append_dropWhile, trim]

/-- **The first word is the whole line**, up to the separators around it, exactly if there is no
    other word. -/
theorem takeWhile_eq_trim_iff (xs : List α) :
    (xs.dropWhile (· = sep)).takeWhile (· ≠ sep) = trim sep xs ↔ (words sep xs).length ≤ 1 := by
  have htail : (words sep xs).length ≤ 1 ↔ (words sep xs).tail = [] := by
    rw [← List.length_eq_zero_iff, List.length_tail]
    omega
  rw [htail, tail_words, words_eq_nil_iff, trim_eq_append, eq_comm, List.append_right_eq_self]
  simp [List.rdropWhile_eq_nil_iff]

end LinuxLikeOs.Library
