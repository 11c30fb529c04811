import Mathlib.Data.Nat.Find
import Mathlib.Tactic.SplitIfs
import LinuxLikeOs.Filesystem

/-!
# Names in the directory

A directory entry has a name of up to 32 bytes, with a terminator behind it only if it is
shorter.

- `strncmp_eq_zero_iff`: strings that compare equal
- `Dentry.name`: the name of an entry, with `strncmp_filename_iff`: the comparison of
  `read_dentry_by_name`
- `readDentryByName_eq_some_iff`: what it finds when the names are distinct
- `exactLookup`: for any directory and any string, by the first entry with that name
-/

namespace LinuxLikeOs

open Library

/-! ## Comparing strings -/

theorem asInt8_injective {c c' : UInt8} (h : asInt8 c = asInt8 c') : c = c' := by
  have hlt := c.toNat_lt
  have hlt' := c'.toNat_lt
  unfold asInt8 at h
  refine UInt8.toNat_inj.mp ?_
  split_ifs at h <;> omega

/-- The loop from index `i` on finds no difference up to the terminator. -/
private theorem strncmpFrom_eq_zero_iff {s1 s2 : Nat → UInt8} {n i : Nat} :
    strncmpFrom s1 s2 n i = 0 ↔
      ∀ j < n, (∀ m < j, s1 (i + m) ≠ 0) → s1 (i + j) = s2 (i + j) := by
  -- on the letters left to compare, with the start moving on
  induction n generalizing i with
  | zero => exact iff_of_true rfl fun j hj => absurd hj (Nat.not_lt_zero j)
  | succ n ih =>
    unfold strncmpFrom
    split_ifs with hend
    · -- the loop ends here
      constructor
      · intro hzero j hj hchars
        have heq : s1 i = s2 i := asInt8_injective (Int.sub_eq_zero.mp hzero)
        cases j with
        | zero => exact heq
        | succ j =>
          have hnul : s1 i = 0 := hend.resolve_left fun hne => hne heq
          exact absurd hnul (hchars 0 j.succ_pos)
      · intro h
        have heq : s1 i = s2 i := h 0 n.succ_pos fun m hm => absurd hm (Nat.not_lt_zero m)
        rw [heq, Int.sub_self]
    · -- the characters are the same and no terminator: the loop goes on behind them
      obtain ⟨heq, hchar⟩ := not_or.mp hend
      have hnext : ∀ m, i + 1 + m = i + (m + 1) := fun m => by omega
      rw [ih]
      constructor
      · intro h j hj hchars
        cases j with
        | zero => exact not_not.mp heq
        | succ j =>
          rw [← hnext]
          refine h j (Nat.lt_of_succ_lt_succ hj) fun m hm => ?_
          rw [hnext]
          exact hchars (m + 1) (Nat.succ_lt_succ hm)
      · intro h j hj hchars
        rw [hnext]
        refine h (j + 1) (Nat.succ_lt_succ hj) fun m hm => ?_
        cases m with
        | zero => exact hchar
        | succ m =>
          rw [← hnext]
          exact hchars m (Nat.lt_of_succ_lt_succ hm)

/-- `strncmp` returns 0 for strings that agree up to the terminator of the first, or up to the
    limit. -/
theorem strncmp_eq_zero_iff {s1 s2 : Nat → UInt8} {n : Nat} :
    strncmp s1 s2 n = 0 ↔ ∀ i < n, (∀ j < i, s1 j ≠ 0) → s1 i = s2 i := by
  have h : strncmpFrom s1 s2 n 0 = 0 ↔ _ := strncmpFrom_eq_zero_iff
  simp only [Nat.zero_add] at h
  exact h

/-! ## The name of an entry -/

namespace CString

theorem byte_of_lt (s : CString) {i : Nat} (hi : i < s.chars.length) : s.byte i = s.chars[i] := by
  rw [byte, List.getD_eq_getElem?_getD, List.getElem?_eq_getElem hi, Option.getD_some]

theorem byte_of_le (s : CString) {i : Nat} (hi : s.chars.length ≤ i) : s.byte i = 0 := by
  rw [byte, List.getD_eq_getElem?_getD, List.getElem?_eq_none hi, Option.getD_none]

theorem byte_ne_zero (s : CString) {i : Nat} (hi : i < s.chars.length) : s.byte i ≠ 0 := by
  rw [byte_of_lt s hi]
  exact fun h => s.noNul (h ▸ List.getElem_mem hi)

end CString

/-- The first index below `n` with the property, or `n` if none has it. -/
theorem getD_find?_range_spec (n : Nat) (P : Nat → Prop) [DecidablePred P] :
    ((List.range n).find? fun i => P i).getD n ≤ n ∧
      (∀ i < ((List.range n).find? fun i => P i).getD n, ¬ P i) ∧
      (((List.range n).find? fun i => P i).getD n < n →
        P (((List.range n).find? fun i => P i).getD n)) := by
  -- either no index satisfies `P`, or the first one that does is found
  cases hfind : (List.range n).find? fun i => P i with
  | none =>
    rw [List.find?_eq_none] at hfind
    refine ⟨Nat.le_refl _, fun i hi hP => ?_, fun h => absurd h (Nat.lt_irrefl _)⟩
    exact hfind i (List.mem_range.mpr hi) (decide_eq_true hP)
  | some m =>
    rw [List.find?_range_eq_some] at hfind
    obtain ⟨hP, hmem, hbelow⟩ := hfind
    refine ⟨Nat.le_of_lt (List.mem_range.mp hmem), fun i hi hP => ?_, fun _ =>
      of_decide_eq_true hP⟩
    have hnot := hbelow i hi
    rw [decide_eq_true hP] at hnot
    cases hnot

namespace Dentry

/-- The index of the first terminator in the name field, or its size. -/
def nameEnd (d : Dentry) : Nat :=
  ((List.range maximumFilenameLength).find? fun i => d.filename i = 0).getD maximumFilenameLength

/-- The name: the bytes of the field up to its first terminator. -/
def name (d : Dentry) : List UInt8 := (List.range d.nameEnd).map d.filename

theorem length_name (d : Dentry) : d.name.length = d.nameEnd := by simp [name]

/-- The name ends at the first terminator or at the end of the field. -/
theorem nameEnd_spec (d : Dentry) :
    d.nameEnd ≤ maximumFilenameLength ∧ (∀ i < d.nameEnd, d.filename i ≠ 0) ∧
      (d.nameEnd < maximumFilenameLength → d.filename d.nameEnd = 0) :=
  getD_find?_range_spec maximumFilenameLength fun i => d.filename i = 0

/-- No name is longer than its field. -/
theorem length_name_le (d : Dentry) : d.name.length ≤ maximumFilenameLength := by
  rw [length_name]
  exact d.nameEnd_spec.1

/-- **The comparison** of `read_dentry_by_name` tells whether a string is the name. -/
theorem strncmp_filename_iff (d : Dentry) {s : CString} (hs : s.strlen ≤ maximumFilenameLength) :
    strncmp s.byte d.filename maximumFilenameLength = 0 ↔ d.name = s.chars := by
  obtain ⟨hle, hchars, hend⟩ := d.nameEnd_spec
  rw [strncmp_eq_zero_iff]
  constructor
  · intro h
    -- both strings end at the same index
    have hlength : d.nameEnd = s.chars.length := by
      obtain hlt | heq | hgt := Nat.lt_trichotomy d.nameEnd s.chars.length
      · have hfield := Nat.lt_of_lt_of_le hlt hs
        have heq := h d.nameEnd hfield fun j hj => s.byte_ne_zero (Nat.lt_trans hj hlt)
        rw [hend hfield] at heq
        exact absurd heq (s.byte_ne_zero hlt)
      · exact heq
      · have heq := h s.chars.length (Nat.lt_of_lt_of_le hgt hle) fun j hj => s.byte_ne_zero hj
        rw [s.byte_of_le (Nat.le_refl _)] at heq
        exact absurd heq.symm (hchars _ hgt)
    -- and no character before it differs
    refine List.ext_getElem (d.length_name.trans hlength) fun i hi hi' => ?_
    have heq := h i (Nat.lt_of_lt_of_le hi' hs) fun j hj => s.byte_ne_zero (Nat.lt_trans hj hi')
    rw [s.byte_of_lt hi'] at heq
    simp [name, heq]
  · intro h i hi hbefore
    have hlength : d.nameEnd = s.chars.length := by rw [← h, length_name]
    -- the comparison looks at the characters, at the terminator, and at nothing behind it
    obtain hlt | heq | hgt := Nat.lt_trichotomy i s.chars.length
    · have hget : d.name[i]? = s.chars[i]? := by rw [h]
      rw [List.getElem?_eq_getElem hlt, name, List.getElem?_map,
        List.getElem?_range (hlength ▸ hlt), Option.map_some] at hget
      rw [s.byte_of_lt hlt]
      exact (Option.some.inj hget).symm
    · have hnul := hend (by omega)
      rw [s.byte_of_le (Nat.le_of_eq heq.symm), heq, ← hlength, hnul]
    · exact absurd (s.byte_of_le (Nat.le_refl _)) (hbefore _ hgt)

end Dentry

/-! ## Looking up a name -/

namespace Image

/-- No entry has an empty name, and no two entries have the same. -/
structure NamesOk (img : Image) : Prop where
  nonempty : ∀ i < img.numDentry.toNat, (img.dentry i).name ≠ []
  distinct : ∀ i < img.numDentry.toNat, ∀ j < img.numDentry.toNat,
    (img.dentry i).name = (img.dentry j).name → i = j

/-- No two entries have the same name. -/
def DistinctNames (img : Image) : Prop :=
  ∀ i < img.numDentry.toNat, ∀ j < img.numDentry.toNat,
    (img.dentry i).name = (img.dentry j).name → i = j

/-- The look-up finds the first entry with the name. -/
theorem readDentryByName_some {img : Image} {s : CString} (hs : s.strlen ≤ maximumFilenameLength) :
    img.readDentryByName (some s) =
      ((List.range img.numDentry.toNat).find? fun i =>
        (img.dentry i).name = s.chars).map img.dentry := by
  have hlength : ¬ s.strlen > maximumFilenameLength := Nat.not_lt.mpr hs
  rw [readDentryByName, if_neg hlength]
  congr 2
  funext i
  exact decide_eq_decide.mpr ((img.dentry i).strncmp_filename_iff hs)

/-- The loop stops at the first entry that compares equal. -/
theorem readDentryLoop_eq (img : Image) (fname : CString) (dentry : Dentry) (n i : Nat) :
    img.readDentryLoop fname dentry n i =
      match (List.range' i n).find? fun j =>
        strncmp fname.byte (img.dentry j).filename maximumFilenameLength = 0 with
      | some j => (0, img.dentry j)
      | none => (-1, dentry) := by
  induction n generalizing i with
  | zero => rfl
  | succ n ih =>
    rw [readDentryLoop, List.range'_succ, List.find?_cons]
    by_cases heq : strncmp fname.byte (img.dentry i).filename maximumFilenameLength = 0
    · simp only [heq, if_true, decide_true]
    · simp only [heq, if_false, decide_false, ih]

/-- The structure is filled in with the entry found, or keeps its content. -/
theorem readDentryByNameInto_eq (img : Image) (fname : CString) (dentry : Dentry) :
    img.readDentryByNameInto (some fname) (some dentry) =
      match img.readDentryByName (some fname) with
      | some entry => (0, some entry)
      | none => (-1, some dentry) := by
  rw [readDentryByNameInto, readDentryByName]
  by_cases hlong : fname.strlen > maximumFilenameLength
  · rw [if_pos hlong, if_pos hlong]
  · rw [if_neg hlong, if_neg hlong, readDentryLoop_eq, ← List.range_eq_range']
    cases (List.range img.numDentry.toNat).find? fun j =>
      strncmp fname.byte (img.dentry j).filename maximumFilenameLength = 0 <;> rfl

/-- Entry `i` is the first one with the name. -/
def FirstNamed (img : Image) (chars : List UInt8) (i : Nat) : Prop :=
  i < img.numDentry.toNat ∧ (img.dentry i).name = chars ∧ ∀ j < i, (img.dentry j).name ≠ chars

/-- The look-up of a string of any length, by the first entry with that name. -/
theorem readDentryByName_firstNamed {img : Image} {fname : CString} {i : Nat}
    (h : img.FirstNamed fname.chars i) :
    img.readDentryByName (some fname) = some (img.dentry i) := by
  obtain ⟨hi, hname, hfirst⟩ := h
  have hlength : fname.strlen ≤ maximumFilenameLength := by
    rw [CString.strlen, ← hname]
    exact (img.dentry i).length_name_le
  rw [readDentryByName_some hlength]
  have hfind : ((List.range img.numDentry.toNat).find? fun j =>
      (img.dentry j).name = fname.chars) = some i := by
    rw [List.find?_range_eq_some]
    exact ⟨decide_eq_true hname, List.mem_range.mpr hi, fun j hj => by
      rw [decide_eq_false (hfirst j hj)]; rfl⟩
  rw [hfind, Option.map_some]

/-- A name that no entry has is not found. -/
theorem readDentryByName_absent {img : Image} {fname : CString}
    (h : ∀ i < img.numDentry.toNat, (img.dentry i).name ≠ fname.chars) :
    img.readDentryByName (some fname) = none := by
  by_cases hlong : fname.strlen > maximumFilenameLength
  · rw [readDentryByName, if_pos hlong]
  · rw [readDentryByName_some (Nat.le_of_not_lt hlong)]
    have hfind : ((List.range img.numDentry.toNat).find? fun j =>
        (img.dentry j).name = fname.chars) = none := by
      rw [List.find?_eq_none]
      exact fun j hj heq => h j (List.mem_range.mp hj) (of_decide_eq_true heq)
    rw [hfind, Option.map_none]

/-- If some entry has the name, one is the first. -/
theorem exists_firstNamed {img : Image} {chars : List UInt8}
    (h : ∃ i < img.numDentry.toNat, (img.dentry i).name = chars) :
    ∃ i, img.FirstNamed chars i := by
  obtain ⟨hlt, hname⟩ := Nat.find_spec h
  refine ⟨Nat.find h, hlt, hname, fun j hj heq => ?_⟩
  exact Nat.find_min h hj ⟨Nat.lt_trans hj hlt, heq⟩

/-- If the names are distinct, the entry with a name is the first one. -/
theorem DistinctNames.firstNamed {img : Image} (h : img.DistinctNames) {i : Nat}
    (hi : i < img.numDentry.toNat) : img.FirstNamed (img.dentry i).name i :=
  ⟨hi, rfl, fun j hj heq => absurd (h j (Nat.lt_trans hj hi) i hi heq) (Nat.ne_of_lt hj)⟩

/-- **What the look-up finds**, if the names are distinct. -/
theorem readDentryByName_eq_some_iff {img : Image} (h : img.NamesOk) {s : CString}
    (hs : s.strlen ≤ maximumFilenameLength) {entry : Dentry} :
    img.readDentryByName (some s) = some entry ↔
      ∃ i < img.numDentry.toNat, img.dentry i = entry ∧ entry.name = s.chars := by
  constructor
  · intro hfound
    rw [readDentryByName_some hs, Option.map_eq_some_iff] at hfound
    obtain ⟨i, hfind, rfl⟩ := hfound
    have hmem := List.mem_range.mp (List.mem_of_find?_eq_some hfind)
    have hfound := List.find?_some hfind
    exact ⟨i, hmem, rfl, of_decide_eq_true hfound⟩
  · rintro ⟨i, hi, rfl, hname⟩
    have hdistinct : img.DistinctNames := h.distinct
    exact readDentryByName_firstNamed (hname ▸ hdistinct.firstNamed hi)

/-- What the look-up fills in has the name. -/
theorem name_of_readDentryByNameInto {img : Image} {fname : CString} {dentry entry : Dentry}
    (h : img.readDentryByNameInto (some fname) (some dentry) = (0, some entry)) :
    ∃ i < img.numDentry.toNat, img.dentry i = entry ∧ entry.name = fname.chars := by
  by_cases hsome : ∃ i < img.numDentry.toNat, (img.dentry i).name = fname.chars
  · obtain ⟨i, hfirst⟩ := exists_firstNamed hsome
    rw [readDentryByNameInto_eq, readDentryByName_firstNamed hfirst] at h
    have hentry : img.dentry i = entry := Option.some.inj (Prod.mk.inj h).2
    exact ⟨i, hfirst.1, hentry, hentry ▸ hfirst.2.1⟩
  · have habsent : ∀ i < img.numDentry.toNat, (img.dentry i).name ≠ fname.chars :=
      fun i hi heq => hsome ⟨i, hi, heq⟩
    rw [readDentryByNameInto_eq, readDentryByName_absent habsent] at h
    exact absurd (Prod.mk.inj h).1 (by decide)

/-- The law of `read_dentry_by_name` for a string and a structure to fill in. -/
structure ExactLookup (img : Image) (fname : CString) (dentry : Dentry) : Prop where
  zero_iff : (img.readDentryByNameInto (some fname) (some dentry)).1 = 0 ↔
    ∃ i < img.numDentry.toNat, (img.dentry i).name = fname.chars
  first : ∀ i, img.FirstNamed fname.chars i →
    img.readDentryByNameInto (some fname) (some dentry) = (0, some (img.dentry i))
  absent : (∀ i < img.numDentry.toNat, (img.dentry i).name ≠ fname.chars) →
    img.readDentryByNameInto (some fname) (some dentry) = (-1, some dentry)
  /-- A proper prefix or extension of a name does not match it. -/
  noPartialMatch : ∀ i, (img.dentry i).name ≠ fname.chars →
    fname.chars <+: (img.dentry i).name ∨ (img.dentry i).name <+: fname.chars →
    img.readDentryByNameInto (some fname) (some dentry) ≠ (0, some (img.dentry i))
  byIndex : img.DistinctNames → ∀ i < img.numDentry.toNat, (img.dentry i).name = fname.chars →
    img.readDentryByNameInto (some fname) (some dentry) =
      img.readDentryByIndexInto i (some dentry)

/-- **Exact look-up**: for every directory and every string, the first entry whose name is the
    string, and nothing else. -/
theorem exactLookup (img : Image) (fname : CString) (dentry : Dentry) :
    img.ExactLookup fname dentry := by
  -- the two look-ups are one function, with or without the record to fill
  have hfirst : ∀ i, img.FirstNamed fname.chars i →
      img.readDentryByNameInto (some fname) (some dentry) = (0, some (img.dentry i)) := by
    intro i hi
    rw [readDentryByNameInto_eq, readDentryByName_firstNamed hi]
  constructor
  case zero_iff =>
    constructor
    · -- without an entry of that name the look-up gives -1
      intro hzero
      by_contra hnone
      have habsent : ∀ i < img.numDentry.toNat, (img.dentry i).name ≠ fname.chars :=
        fun i hi heq => hnone ⟨i, hi, heq⟩
      rw [readDentryByNameInto_eq, readDentryByName_absent habsent] at hzero
      exact absurd hzero (show ¬ (-1 : Int) = 0 by decide)
    · intro hsome
      obtain ⟨i, hi⟩ := exists_firstNamed hsome
      rw [hfirst i hi]
  case first => exact hfirst
  case absent =>
    intro habsent
    rw [readDentryByNameInto_eq, readDentryByName_absent habsent]
  case noPartialMatch =>
    intro i hne _ hfound
    obtain ⟨_, _, _, hname⟩ := name_of_readDentryByNameInto hfound
    exact hne hname
  case byIndex =>
    -- distinct names: the entry at `i` is also the first of its name
    intro hdistinct i hi hname
    have hnot : ¬ (i ≥ img.numDentry.toNat ∨ (some dentry).isNone = true) := by
      rintro (hge | hnone)
      · exact Nat.not_le.mpr hi hge
      · cases hnone
    rw [readDentryByIndexInto, if_neg hnot]
    exact hfirst i (hname ▸ hdistinct.firstNamed hi)

end Image

end LinuxLikeOs
