import LinuxLikeOs.DirectoryListing

/-!
# Reading one entry of the directory

`dir_read` measures the name of an entry with `strlen` and copies it with `strncpy`, although a
name that fills its field has no terminator there: the type word stands right behind it.

- `Dentry.nameLength_eq_iff`: when `strlen` measures the name
- `Kernel.ReportsName`: the law of one read
- `Kernel.reportsName_iff`: the entries and counts for which it holds
-/

namespace LinuxLikeOs

open Library

namespace Dentry

theorem zero_notMem_name (d : Dentry) : 0 ∉ d.name := by
  obtain ⟨-, hchars, -⟩ := d.nameEnd_spec
  intro hmem
  obtain ⟨i, hi, hzero⟩ := List.mem_map.mp hmem
  exact hchars i (List.mem_range.mp hi) hzero

/-- The name as a string. -/
def nameString (d : Dentry) : CString := ⟨d.name, d.zero_notMem_name⟩

/-- `strlen` measures the name if it is shorter than its field or the type word starts with a
    zero. -/
theorem nameLength_eq_iff (d : Dentry) :
    Kernel.nameLength d = d.name.length ↔
      d.name.length < maximumFilenameLength ∨ d.bytes maximumFilenameLength = 0 := by
  obtain ⟨hnonzero, hstop⟩ := d.nameLength_stop
  have hle := d.length_name_le
  have hspec := d.nameLength_spec
  rw [← length_name] at hspec
  -- `strlen` finds the NUL inside the field, or the field is full
  constructor
  · intro heq
    by_cases hshort : d.name.length < maximumFilenameLength
    · exact .inl hshort
    · have hfull : d.name.length = maximumFilenameLength :=
        Nat.le_antisymm hle (Nat.le_of_not_lt hshort)
      rw [heq, hfull] at hstop
      exact .inr (hstop (by decide))
  · rintro (hshort | hzero)
    · exact hspec.resolve_right fun hfull => absurd hfull.1 (Nat.ne_of_lt hshort)
    · obtain heq | ⟨hfull, hge⟩ := hspec
      · exact heq
      · -- the field is full, and `strlen` stops right behind it
        rw [hfull]
        exact Nat.le_antisymm (Nat.le_of_not_lt fun hlt => hnonzero _ hlt hzero) hge

end Dentry

/-- The buffer starts with the string and its terminator. -/
def HoldsString (buf : Buffer) (s : CString) : Prop := ∀ i ≤ s.strlen, buf i = s.byte i

namespace Kernel

/-- What a read of `nbytes` bytes delivers of an entry. -/
structure DeliversName (img : Image) (d : Dentry) (buf : Buffer) (nbytes : Int) (out : Buffer) :
    Prop where
  name : (List.range (min nbytes.toNat d.name.length)).map out = d.name.take nbytes.toNat
  /-- Nothing but zeros behind the name. -/
  onlyName : ∀ i : Nat, d.name.length ≤ i → i < nbytes → out i = 0
  rest : ∀ i : Nat, nbytes ≤ i → out i = buf i
  found : maximumFilenameLength < nbytes → HoldsString out d.nameString ∧
    ∃ entry, img.readDentryByName (some d.nameString) = some entry ∧ entry.name = d.name

/-- The law of `dir_read`: it reports the name of the entry at the read position. -/
def ReportsName (k : Kernel) (buf : Buffer) (nbytes : Int) : Prop :=
  ∃ out k', k.dirRead (some buf) nbytes =
      .ret (min nbytes.toNat (k.image.dentry k.dirReadnum).name.length : Nat) (some out) k' ∧
    DeliversName k.image (k.image.dentry k.dirReadnum) buf nbytes out

/-- A read within the directory. -/
theorem dirRead_eq {k : Kernel} (hin : k.dirReadnum < k.image.numDentry.toNat) (buf : Buffer)
    (nbytes : Int) :
    k.dirRead (some buf) nbytes =
      .ret (min nbytes (nameLength (k.image.dentry k.dirReadnum)))
        (some (strncpy buf (k.image.dentry k.dirReadnum).filename (ofInt32 nbytes).toNat))
        { k with dirReadnum := k.dirReadnum + 1 } := by
  have hnot : ¬ k.dirReadnum ≥ k.image.numDentry.toNat := Nat.not_le.mpr hin
  rw [dirRead, if_neg hnot, Image.readDentryByIndex, if_neg hnot]
  simp only [Int.min_def]

/-- The name of an entry is found. -/
theorem readDentryByName_nameString {img : Image} {i : Nat} (hi : i < img.numDentry.toNat) :
    ∃ entry, img.readDentryByName (some (img.dentry i).nameString) = some entry ∧
      entry.name = (img.dentry i).name := by
  obtain ⟨j, hj⟩ := Image.exists_firstNamed ⟨i, hi, rfl⟩
  exact ⟨img.dentry j, Image.readDentryByName_firstNamed hj, hj.2.1⟩

/-- `strncpy` delivers the name, if the copy ends with the name field or stops at its end. -/
theorem deliversName_strncpy {img : Image} {i : Nat} (hi : i < img.numDentry.toNat)
    (buf : Buffer) {n : Nat} (hstop : n ≤ maximumFilenameLength ∨
      (img.dentry i).name.length < maximumFilenameLength ∨
      (img.dentry i).bytes maximumFilenameLength = 0) :
    DeliversName img (img.dentry i) buf n (strncpy buf (img.dentry i).filename n) := by
  have hle := (img.dentry i).length_name_le
  have hend := (img.dentry i).nameEnd_spec.2.2
  rw [← Dentry.length_name] at hend
  -- no byte behind the name is copied
  have honly : ∀ j, (img.dentry i).name.length ≤ j → j < n →
      strncpy buf (img.dentry i).filename n j = 0 := by
    intro j hj hjn
    rw [strncpy, if_pos hjn]
    refine if_neg fun hnonzero => ?_
    by_cases hshort : (img.dentry i).name.length < maximumFilenameLength
    · exact hnonzero _ hj (hend hshort)
    · have hzero := (hstop.resolve_left (by omega)).resolve_left hshort
      exact hnonzero maximumFilenameLength (by omega) hzero
  have hname := (img.dentry i).map_strncpy_filename buf n
  constructor
  case name => simpa using hname
  case onlyName => exact fun j hj hjn => honly j hj (Int.ofNat_lt.mp hjn)
  case rest =>
    intro j hj
    rw [strncpy, if_neg (Nat.not_lt.mpr (Int.ofNat_le.mp hj))]
  case found =>
    intro hlong
    have hn : maximumFilenameLength < n := Int.ofNat_lt.mp hlong
    refine ⟨fun j hj => ?_, readDentryByName_nameString hi⟩
    obtain hlt | heq := Nat.lt_or_eq_of_le hj
    · have hlt : j < (img.dentry i).name.length := hlt
      have hchar := congrArg (fun l => l[j]?) hname
      have hmin : j < min n (img.dentry i).name.length :=
        Nat.lt_min.mpr ⟨Nat.lt_trans (Nat.lt_of_lt_of_le hlt hle) hn, hlt⟩
      simp only [List.getElem?_map, List.getElem?_range hmin, Option.map_some] at hchar
      rw [List.getElem?_take_of_lt (Nat.lt_min.mp hmin).1, List.getElem?_eq_getElem hlt] at hchar
      exact (Option.some.inj hchar).trans ((img.dentry i).nameString.byte_of_lt hlt).symm
    · rw [CString.byte_of_le _ (Nat.le_of_eq heq.symm)]
      exact honly j (Nat.le_of_eq heq.symm) (by rw [heq]; exact Nat.lt_of_le_of_lt hle hn)

/-- **One read reports the name** exactly if it does not go beyond the name field, or the name is
    shorter than its field, or the type word behind it starts with a zero. -/
theorem reportsName_iff {k : Kernel} (hin : k.dirReadnum < k.image.numDentry.toNat) (buf : Buffer)
    {nbytes : Int} (h0 : 0 ≤ nbytes) (hn : nbytes < 2 ^ 31) :
    k.ReportsName buf nbytes ↔
      nbytes ≤ maximumFilenameLength ∨
      (k.image.dentry k.dirReadnum).name.length < maximumFilenameLength ∨
      (k.image.dentry k.dirReadnum).bytes maximumFilenameLength = 0 := by
  have hspec := (k.image.dentry k.dirReadnum).nameLength_spec
  rw [← Dentry.length_name] at hspec
  rw [ReportsName, dirRead_eq hin]
  constructor
  · rintro ⟨out, k', hread, -⟩
    injection hread with hvalue
    -- the value tells the length that `strlen` has measured
    by_cases hlong : nbytes ≤ maximumFilenameLength
    · exact .inl hlong
    · refine .inr ((k.image.dentry k.dirReadnum).nameLength_eq_iff.mp ?_)
      omega
  · intro hstop
    have hnat : (nbytes.toNat : Int) = nbytes := Int.toNat_of_nonneg h0
    have hdelivers := deliversName_strncpy hin buf (n := nbytes.toNat)
      (hstop.imp_left fun hle => by omega)
    rw [hnat] at hdelivers
    refine ⟨_, { k with dirReadnum := k.dirReadnum + 1 }, ?_, hdelivers⟩
    have hvalue : min nbytes (nameLength (k.image.dentry k.dirReadnum) : Int) =
        (min nbytes.toNat (k.image.dentry k.dirReadnum).name.length : Nat) := by
      obtain hle | hlength := hstop
      · omega
      · rw [(k.image.dentry k.dirReadnum).nameLength_eq_iff.mpr hlength]
        omega
    rw [hvalue, toNat_ofInt32 h0 hn]

end Kernel

/-- The sample kernel, when the 32-letter name is the next entry. -/
def readingLongName : Kernel := { sampleKernel with dirReadnum := 4 }

/-- The 32-letter name is reported for a buffer of its size. -/
theorem reportsName_iff_longName :
    readingLongName.ReportsName (fun _ => 0) 32 ↔
      (32 : Int) ≤ maximumFilenameLength ∨
      (readingLongName.image.dentry readingLongName.dirReadnum).name.length <
        maximumFilenameLength ∨
      (readingLongName.image.dentry readingLongName.dirReadnum).bytes maximumFilenameLength = 0 :=
  Kernel.reportsName_iff (by decide +kernel) _ (by decide) (by decide)

/-- With one byte more the read returns the first byte of the type as a 33rd letter. -/
theorem longName_reports_type :
    readingLongName.dirReadnum < readingLongName.image.numDentry.toNat ∧
      (readingLongName.image.dentry readingLongName.dirReadnum).name = longName32.chars ∧
      (readingLongName.dirRead (some fun _ => 0) 33).value? = some 33 ∧
      ¬ readingLongName.ReportsName (fun _ => 0) 33 := by
  have hname :
      (readingLongName.image.dentry readingLongName.dirReadnum).name = longName32.chars := by
    decide +kernel
  have hvalue : (readingLongName.dirRead (some fun _ => 0) 33).value? = some 33 := by
    decide +kernel
  refine ⟨by decide +kernel, hname, hvalue, ?_⟩
  rintro ⟨out, k', hread, -⟩
  rw [hread, hname] at hvalue
  exact absurd (Option.some.inj hvalue) (by decide)

end LinuxLikeOs
