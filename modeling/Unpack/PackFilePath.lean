import Unpack.PackFileRecords

/-! Paths below the root of a pack file, from there on: how they are written in the index, which ones the index
admits, and the names of content packs, which tell revisions and packs apart. -/

namespace Unpack

/-- `is_safe_relative_path`: the names of a path all of whose components are names. A repeated separator
and a dot after the first component are no components. -/
def safeRelativePath (text : String) : Option PathBuf :=
  let pieces := text.toList.splitOn '/'
  if pieces.head? ≠ some [] ∧ pieces.head? ≠ some ['.'] ∧ ['.', '.'] ∉ pieces then
    some ((pieces.filter fun piece => piece ≠ [] ∧ piece ≠ ['.']).map String.ofList)
  else none

/-- A component that is a name. -/
structure IsPathName (name : List Char) : Prop where
  ne_nil : name ≠ []
  ne_dot : name ≠ ['.']
  ne_dots : name ≠ ['.', '.']
  separator : '/' ∉ name

structure IsRelativePath (path : PathBuf) : Prop where
  ne_nil : path ≠ []
  names : ∀ name ∈ path, IsPathName name.toList

theorem safeRelativePath_pathText {path : PathBuf} (h : IsRelativePath path) :
    safeRelativePath (pathText path) = some path := by
  have hpieces : (pathText path).toList.splitOn '/' = path.map String.toList := by
    rw [pathText, String.toList_intercalate]
    apply List.splitOn_intercalate
    · intro piece hpiece
      obtain ⟨name, hname, rfl⟩ := List.mem_map.mp hpiece
      exact (h.names name hname).separator
    · simpa using h.ne_nil
  have hnames : ∀ piece ∈ path.map String.toList, IsPathName piece := by
    intro piece hpiece
    obtain ⟨name, hname, rfl⟩ := List.mem_map.mp hpiece
    exact h.names name hname
  unfold safeRelativePath
  dsimp only
  rw [hpieces, if_pos]
  · rw [List.filter_eq_self.mpr, List.map_map]
    · congr 1
      conv_rhs => rw [← List.map_id path]
      apply List.map_congr_left
      intro name _
      exact String.ofList_toList
    · intro piece hpiece
      have hname := hnames piece hpiece
      simp [hname.ne_nil, hname.ne_dot]
  · refine ⟨fun hhead => ?_, fun hhead => ?_, fun hdots => ?_⟩
    · exact (hnames _ (List.mem_of_mem_head? hhead)).ne_nil rfl
    · exact (hnames _ (List.mem_of_mem_head? hhead)).ne_dot rfl
    · exact (hnames _ hdots).ne_dots rfl

theorem not_mem_of_mem_splitOn {α : Type} [DecidableEq α] {separator : α} {text piece : List α}
    (h : piece ∈ text.splitOn separator) : separator ∉ piece := by
  induction text generalizing piece with
  | nil =>
    rw [List.splitOn_nil, List.mem_singleton] at h
    rw [h]
    exact List.not_mem_nil
  | cons letter text ih =>
    rw [List.splitOn_cons_eq_if_modifyHead] at h
    split_ifs at h with hletter
    · rcases List.mem_cons.mp h with rfl | h
      · exact List.not_mem_nil
      · exact ih h
    · cases hrest : text.splitOn separator with
      | nil => exact absurd hrest (List.splitOn_ne_nil separator text)
      | cons first rest =>
        rw [hrest, List.modifyHead_cons] at h
        rcases List.mem_cons.mp h with rfl | h
        · have hfirst : separator ∉ first := ih (by rw [hrest]; exact List.mem_cons_self)
          simp only [beq_iff_eq] at hletter
          exact fun hmem => (List.mem_cons.mp hmem).elim (fun heq => hletter heq.symm) hfirst
        · exact ih (by rw [hrest]; exact List.mem_cons_of_mem first h)

theorem isRelativePath_of_safe {text : String} {path : PathBuf} (h : safeRelativePath text = some path) :
    IsRelativePath path := by
  unfold safeRelativePath at h
  dsimp only at h
  split_ifs at h with hsafe
  obtain ⟨hhead, hdot, hdots⟩ := hsafe
  cases h
  constructor
  · cases hpieces : text.toList.splitOn '/' with
    | nil => exact absurd hpieces (List.splitOn_ne_nil '/' text.toList)
    | cons first rest =>
      rw [hpieces] at hhead hdot
      have hfirst : first ≠ [] ∧ first ≠ ['.'] := by simpa using And.intro hhead hdot
      simp [hfirst]
  · intro name hname
    obtain ⟨piece, hpiece, rfl⟩ := List.mem_map.mp hname
    obtain ⟨hmem, hcomponent⟩ := List.mem_filter.mp hpiece
    rw [decide_eq_true_eq] at hcomponent
    rw [String.toList_ofList]
    refine ⟨hcomponent.1, hcomponent.2, ?_, not_mem_of_mem_splitOn hmem⟩
    rintro rfl
    exact hdots hmem

/-- At least `width` hexadecimal digits. -/
def paddedHexadecimal (width value : Nat) : List Char :=
  let digits := Nat.toDigits 16 value
  List.replicate (width - digits.length) '0' ++ digits

def hexDigitValue (digit : Char) : Nat :=
  if digit.toNat < 0x3A then digit.toNat - 0x30 else digit.toNat - 0x57

def hexadecimalValue (digits : List Char) : Nat :=
  digits.foldl (fun value digit => 16 * value + hexDigitValue digit) 0

theorem hexadecimalValue_append (digits : List Char) (digit : Char) :
    hexadecimalValue (digits ++ [digit]) = 16 * hexadecimalValue digits + hexDigitValue digit := by
  rw [hexadecimalValue, List.foldl_append]
  rfl

theorem hexDigitValue_digitChar : ∀ digit < 16, hexDigitValue (Nat.digitChar digit) = digit := by decide

theorem digitChar_ne_separator : ∀ digit < 16, Nat.digitChar digit ≠ '/' := by decide

theorem hexadecimalValue_toDigits (value : Nat) : hexadecimalValue (Nat.toDigits 16 value) = value := by
  induction value using Nat.strongRecOn with
  | ind value ih =>
    by_cases hsmall : value < 16
    · rw [Nat.toDigits_of_lt_base hsmall]
      have hdigit := hexDigitValue_digitChar value hsmall
      simpa [hexadecimalValue] using hdigit
    · rw [Nat.toDigits_of_base_le (by decide) (by omega), hexadecimalValue_append, ih _ (by omega),
        hexDigitValue_digitChar _ (Nat.mod_lt _ (by decide))]
      omega

theorem separator_not_mem_toDigits (value : Nat) : '/' ∉ Nat.toDigits 16 value := by
  induction value using Nat.strongRecOn with
  | ind value ih =>
    by_cases hsmall : value < 16
    · rw [Nat.toDigits_of_lt_base hsmall, List.mem_singleton]
      exact (digitChar_ne_separator value hsmall).symm
    · rw [Nat.toDigits_of_base_le (by decide) (by omega), List.mem_append, List.mem_singleton]
      rintro (hmem | heq)
      · exact ih _ (by omega) hmem
      · exact digitChar_ne_separator _ (Nat.mod_lt _ (by decide)) heq.symm

theorem hexadecimalValue_padded (width value : Nat) :
    hexadecimalValue (paddedHexadecimal width value) = value := by
  have hzeros : ∀ count, (List.replicate count '0').foldl
      (fun value digit => 16 * value + hexDigitValue digit) 0 = 0 := by
    intro count
    induction count with
    | zero => rfl
    | succ count ih => exact ih
  rw [paddedHexadecimal, hexadecimalValue, List.foldl_append, hzeros]
  exact hexadecimalValue_toDigits value

theorem paddedHexadecimal_injective {width value other : Nat}
    (h : paddedHexadecimal width value = paddedHexadecimal width other) : value = other := by
  rw [← hexadecimalValue_padded width value, h, hexadecimalValue_padded]

theorem length_paddedHexadecimal {width value : Nat} (hwidth : 0 < width) (h : value < 16 ^ width) :
    (paddedHexadecimal width value).length = width := by
  have hdigits := (Nat.length_toDigits_le_iff (by decide) hwidth).mpr h
  rw [paddedHexadecimal, List.length_append, List.length_replicate]
  omega

theorem separator_not_mem_padded (width value : Nat) : '/' ∉ paddedHexadecimal width value := by
  rw [paddedHexadecimal, List.mem_append, List.mem_replicate]
  rintro (⟨-, hzero⟩ | hmem)
  · exact absurd hzero (by decide)
  · exact separator_not_mem_toDigits value hmem

inductive PackFileCompression where
  | none
  | gzip
  | brotli
  deriving DecidableEq

def PackFileCompression.suffix : PackFileCompression → String
  | none => ".bin"
  | gzip => ".bin.gz"
  | brotli => ".bin.br"

def contentPackSequence (packIndex packCount : Nat) : List Char :=
  if packCount = 1 then [] else '-' :: paddedHexadecimal 4 packIndex

def contentPackFilename (revision : UInt64) (packIndex packCount : Nat)
    (compression : PackFileCompression) : String :=
  String.ofList ("pack-".toList ++ (paddedHexadecimal 16 revision.toNat ++
    (contentPackSequence packIndex packCount ++ compression.suffix.toList)))

def contentDirectory : PathBuf := ["content"]

def contentPackPath (revision : UInt64) (packIndex packCount : Nat)
    (compression : PackFileCompression) : PathBuf :=
  contentDirectory ++ [contentPackFilename revision packIndex packCount compression]

/-- Packs of different revisions have different names. -/
theorem contentPackFilename_revision {revision other : UInt64} {packIndex packCount otherIndex otherCount : Nat}
    {compression otherCompression : PackFileCompression}
    (h : contentPackFilename revision packIndex packCount compression =
      contentPackFilename other otherIndex otherCount otherCompression) : revision = other := by
  unfold contentPackFilename at h
  have hchars := String.ofList_injective h
  have hlength : ∀ value : UInt64, (paddedHexadecimal 16 value.toNat).length = 16 := fun value =>
    length_paddedHexadecimal (by decide) value.toNat_lt
  have hdigits := (List.append_inj (List.append_cancel_left hchars)
    ((hlength revision).trans (hlength other).symm)).1
  exact UInt64.toNat.inj (paddedHexadecimal_injective hdigits)

/-- Packs of one revision have different names. -/
theorem contentPackFilename_index {revision : UInt64} {packIndex otherIndex packCount : Nat}
    {compression : PackFileCompression} (hindex : packIndex < packCount) (hother : otherIndex < packCount)
    (h : contentPackFilename revision packIndex packCount compression =
      contentPackFilename revision otherIndex packCount compression) : packIndex = otherIndex := by
  unfold contentPackFilename at h
  have hchars := String.ofList_injective h
  have hsequence := List.append_cancel_right
    (List.append_cancel_left (List.append_cancel_left hchars))
  unfold contentPackSequence at hsequence
  split_ifs at hsequence with hone
  · omega
  · exact paddedHexadecimal_injective (List.cons.inj hsequence).2

theorem isPathName_contentPackFilename (revision : UInt64) (packIndex packCount : Nat)
    (compression : PackFileCompression) :
    IsPathName (contentPackFilename revision packIndex packCount compression).toList := by
  have hsequence : '/' ∉ contentPackSequence packIndex packCount := by
    unfold contentPackSequence
    split_ifs
    · exact List.not_mem_nil
    · simpa using separator_not_mem_padded 4 packIndex
  have hsuffix : '/' ∉ compression.suffix.toList := by cases compression <;> decide
  have hchars : (contentPackFilename revision packIndex packCount compression).toList =
      "pack-".toList ++ (paddedHexadecimal 16 revision.toNat ++
        (contentPackSequence packIndex packCount ++ compression.suffix.toList)) := by
    unfold contentPackFilename
    exact String.toList_ofList
  rw [hchars]
  constructor
  · simp
  · simp
  · simp
  · simp only [List.mem_append, not_or]
    exact ⟨by decide, separator_not_mem_padded 16 _, hsequence, hsuffix⟩

theorem isRelativePath_contentPackPath (revision : UInt64) (packIndex packCount : Nat)
    (compression : PackFileCompression) :
    IsRelativePath (contentPackPath revision packIndex packCount compression) where
  ne_nil := List.cons_ne_nil _ _
  names name hname := by
    simp only [contentPackPath, contentDirectory, List.cons_append, List.nil_append, List.mem_cons,
      List.not_mem_nil, or_false] at hname
    rcases hname with rfl | rfl
    · exact ⟨by decide, by decide, by decide, by decide⟩
    · exact isPathName_contentPackFilename revision packIndex packCount compression

end Unpack
