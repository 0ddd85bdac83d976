import Unpack.PackFilePlacement

/-! The effects of a publication. Until the index is renamed only files of the new revision are touched, so
the old index keeps all that it references; once it is renamed the new index has all that it references.
The only failure that is reported with the new index in place is that of the sync of the root. -/

namespace Unpack

open EffectProgram

/-- A file that a publication of this revision writes before its index. -/
def IsStagingPath (revision : UInt64) (path : PathBuf) : Prop :=
  path = temporaryIndexPath revision ∨ ∃ packIndex packCount compression,
    path = contentPackPath revision packIndex packCount compression ∨
      path = temporaryContentPath (contentPackFilename revision packIndex packCount compression)

/-- The disks differ in files of later revisions at most. -/
def AgreesBelow (revision : UInt64) (disk later : Disk) : Prop :=
  ∀ path, (∀ next, revision < next → ¬IsStagingPath next path) → later path = disk path

theorem AgreesBelow.refl (revision : UInt64) (disk : Disk) : AgreesBelow revision disk disk :=
  fun _ _ => rfl

theorem AgreesBelow.update {revision next : UInt64} {disk later newer : Disk}
    (h : AgreesBelow revision disk later) (hnext : revision < next)
    (hother : ∀ path, ¬IsStagingPath next path → newer path = later path) :
    AgreesBelow revision disk newer :=
  fun path hpath => (hother path (hpath next hnext)).trans (h path hpath)

theorem filename_head (revision : UInt64) (packIndex packCount : Nat) (compression : PackFileCompression) :
    (contentPackFilename revision packIndex packCount compression).toList.head? = some 'p' := by
  unfold contentPackFilename
  rw [String.toList_ofList]
  rfl

theorem contentPackFilename_ne_dotted (revision : UInt64) (packIndex packCount : Nat)
    (compression : PackFileCompression) (text : String) :
    contentPackFilename revision packIndex packCount compression ≠ "." ++ text ++ ".tmp" := by
  intro heq
  have hhead := filename_head revision packIndex packCount compression
  rw [heq] at hhead
  simp at hhead

theorem contentPackPath_ne_temporary (revision : UInt64) (packIndex packCount : Nat)
    (compression : PackFileCompression) (filename : String) :
    contentPackPath revision packIndex packCount compression ≠ temporaryContentPath filename := by
  intro heq
  have hname : contentPackFilename revision packIndex packCount compression = "." ++ filename ++ ".tmp" := by
    simpa [contentPackPath, temporaryContentPath, contentDirectory] using heq
  exact contentPackFilename_ne_dotted revision packIndex packCount compression filename hname

theorem contentPackPath_ne_temporaryIndex (revision later : UInt64) (packIndex packCount : Nat)
    (compression : PackFileCompression) :
    contentPackPath revision packIndex packCount compression ≠ temporaryIndexPath later := by
  intro heq
  have hlength := congrArg List.length heq
  simp [contentPackPath, contentDirectory, temporaryIndexPath] at hlength

theorem contentPackPath_ne_indexFile (revision : UInt64) (packIndex packCount : Nat)
    (compression : PackFileCompression) :
    contentPackPath revision packIndex packCount compression ≠ indexFile := by
  intro heq
  have hlength := congrArg List.length heq
  simp [contentPackPath, contentDirectory, indexFile] at hlength

theorem indexFile_not_staging (revision : UInt64) : ¬IsStagingPath revision indexFile := by
  rintro (heq | ⟨packIndex, packCount, compression, heq | heq⟩)
  · have hhead := congrArg (fun path => path.head?.bind fun name => name.toList.head?) heq
    simp [indexFile, temporaryIndexPath] at hhead
  · exact contentPackPath_ne_indexFile _ _ _ _ heq.symm
  · have hlength := congrArg List.length heq
    simp [indexFile, temporaryContentPath, contentDirectory] at hlength

/-- Packs of earlier revisions are not touched. -/
theorem contentPackPath_not_staging {revision next : UInt64} (h : revision < next) (packIndex packCount : Nat)
    (compression : PackFileCompression) :
    ¬IsStagingPath next (contentPackPath revision packIndex packCount compression) := by
  rintro (heq | ⟨otherIndex, otherCount, otherCompression, heq | heq⟩)
  · exact contentPackPath_ne_temporaryIndex _ _ _ _ _ heq
  · have hname : contentPackFilename revision packIndex packCount compression =
        contentPackFilename next otherIndex otherCount otherCompression := by
      simpa [contentPackPath, contentDirectory] using heq
    exact absurd (contentPackFilename_revision hname) (by rintro rfl; exact UInt64.lt_irrefl _ h)
  · exact contentPackPath_ne_temporary _ _ _ _ _ heq

/-- Content packs of this revision and earlier ones are the same. -/
def AgreesOnPacks (revision : UInt64) (disk later : Disk) : Prop :=
  ∀ packRevision packIndex packCount compression, packRevision ≤ revision →
    later (contentPackPath packRevision packIndex packCount compression) =
      disk (contentPackPath packRevision packIndex packCount compression)

theorem AgreesOnPacks.refl (revision : UInt64) (disk : Disk) : AgreesOnPacks revision disk disk :=
  fun _ _ _ _ _ => rfl

theorem AgreesBelow.onPacks {revision : UInt64} {disk later : Disk} (h : AgreesBelow revision disk later) :
    AgreesOnPacks revision disk later :=
  fun _ packIndex packCount compression hle => h _ fun _ hnext =>
    contentPackPath_not_staging (UInt64.lt_of_le_of_lt hle hnext) packIndex packCount compression

def RootSyncFailed (failed : List FileEffect) : Prop := FileEffect.syncDirectory [] ∈ failed

section

variable {Stopped : List FileEffect → Disk → Prop}
  {Finally : Except IoError Unit → List FileEffect → Disk → Prop} {failed : List FileEffect} {disk : Disk}
  {path temporary target : PathBuf} {bytes : List UInt8}

theorem Disk.set_self (disk : Disk) (path : PathBuf) (content : Option (List UInt8)) :
    disk.set path content path = content :=
  Function.update_self ..

theorem Disk.set_of_ne (disk : Disk) {path other : PathBuf} (h : other ≠ path)
    (content : Option (List UInt8)) : disk.set path content other = disk other :=
  Function.update_of_ne h ..

/-- A stop or an error leaves all other files, and the sync of the root has not failed in between. -/
def KeepsOthers (Stopped : List FileEffect → Disk → Prop)
    (Finally : Except IoError Unit → List FileEffect → Disk → Prop) (failed : List FileEffect)
    (disk : Disk) (path : PathBuf) : Prop :=
  ∀ failed' later, (RootSyncFailed failed' ↔ RootSyncFailed failed) →
    (∀ other, other ≠ path → later other = disk other) →
      Stopped failed' later ∧ ∀ error, Finally (.error error) failed' later

theorem always_writeSynced (hstop : KeepsOthers Stopped Finally failed disk path)
    (hok : ∀ later : Disk, later path = some bytes →
      (∀ other, other ≠ path → later other = disk other) → Finally (.ok ()) failed later) :
    Always FileEffect.apply Stopped Finally (writeSynced path bytes).run failed disk := by
  have hcreated : ∀ other, other ≠ path → disk.set path (some []) other = disk other :=
    fun other hother => disk.set_of_ne hother _
  have hcontent : (FileEffect.write path bytes).apply (disk.set path (some [])) path = some bytes := by
    simp [FileEffect.apply, Disk.set_self]
  have hwritten : ∀ other, other ≠ path →
      (FileEffect.write path bytes).apply (disk.set path (some [])) other = disk other := by
    intro other hother
    rw [FileEffect.apply, Disk.set_of_ne _ hother, hcreated other hother]
  refine Always.andThen (Always.act (hstop failed disk Iff.rfl fun _ _ => rfl).1 ?_ fun error => ?_)
  · refine Always.andThen (Always.act (hstop failed _ Iff.rfl hcreated).1 ?_ fun error => ?_)
    · refine Always.act (hstop failed _ Iff.rfl hwritten).1 ?_ fun error => ?_
      · exact hok _ hcontent hwritten
      · exact (hstop _ _ (by simp [RootSyncFailed]) hwritten).2 error
    · exact (hstop _ _ (by simp [RootSyncFailed]) hcreated).2 error
  · exact (hstop _ disk (by simp [RootSyncFailed]) fun _ _ => rfl).2 error

theorem always_renameTemporary (hcontent : disk temporary = some bytes)
    (hstop : KeepsOthers Stopped Finally failed disk temporary)
    (hok : ∀ later : Disk, later target = some bytes →
      (∀ other, other ≠ temporary → other ≠ target → later other = disk other) →
        Finally (.ok ()) failed later) :
    Always FileEffect.apply Stopped Finally (renameTemporary temporary target).run failed disk := by
  have hrename : (FileEffect.rename temporary target).apply disk =
      (disk.set temporary none).set target (some bytes) := by
    simp [FileEffect.apply, hcontent]
  refine ⟨(hstop failed disk Iff.rfl fun _ _ => rfl).1, ?_, fun error => ?_⟩
  · refine hok _ ?_ fun other hother hothertarget => ?_
    · rw [hrename, Disk.set_self]
    · rw [hrename, Disk.set_of_ne _ hothertarget, Disk.set_of_ne _ hother]
  · refine ⟨(hstop _ disk (by simp [RootSyncFailed]) fun _ _ => rfl).1, ?_, fun _ => ?_⟩
    · exact (hstop _ _ (by simp [RootSyncFailed])
        fun other hother => disk.set_of_ne hother _).2 error
    · exact (hstop _ disk (by simp [RootSyncFailed]) fun _ _ => rfl).2 error

/-- A file is written beside its place and renamed into it. -/
theorem always_install
    (hstop : KeepsOthers Stopped Finally failed disk temporary)
    (hok : ∀ later : Disk, later target = some bytes →
      (∀ other, other ≠ temporary → other ≠ target → later other = disk other) →
        Finally (.ok ()) failed later) :
    Always FileEffect.apply Stopped Finally (installFile temporary target bytes).run failed disk := by
  refine Always.andThen (always_writeSynced (fun failed' later hfailed hother => ?_)
    fun written hwritten hunchanged => always_renameTemporary hwritten ?_ ?_)
  · exact hstop failed' later hfailed hother
  · intro failed' later hfailed hother
    exact hstop failed' later hfailed fun other hne => (hother other hne).trans (hunchanged other hne)
  · intro later hlater hother
    exact hok later hlater fun other hne hnetarget =>
      (hother other hne hnetarget).trans (hunchanged other hne)

end

section

variable {compressors : Compressors} {compression : PackFileCompression}

theorem frameAt_of_file {disk newer : Disk} {reference : ContentReference}
    (h : newer reference.file = disk reference.file) :
    frameAt compressors newer reference = frameAt compressors disk reference := by
  have hbounded : ∀ maximum, readBounded newer reference.file maximum =
      readBounded disk reference.file maximum := fun maximum => by
    rw [readBounded, readBounded, h]
  unfold frameAt readContentPack
  simp only [hbounded]

theorem readContentPack_encoded {disk : Disk} (hlossless : compressors.Lossless) {path : PathBuf}
    {content encoded : List UInt8} (hencode : encodeContentPack compressors content compression = .ok encoded)
    (hdisk : disk path = some encoded) (hbound : content.length ≤ maxContentBytes) :
    readContentPack compressors disk path compression (UInt64.ofNat content.length) = some content := by
  have hsize : (UInt64.ofNat content.length).toNat = content.length :=
    UInt64.toNat_ofNat_of_lt' (by rw [maxContentBytes] at hbound; rw [UInt64.size]; omega)
  unfold encodeContentPack at hencode
  dsimp only at hencode
  split_ifs at hencode with hlarge
  cases hencode
  unfold readContentPack readBounded
  rw [hsize, if_neg (by omega), hdisk]
  cases compression with
  | none => simp [Nat.not_lt.mpr hbound]
  | gzip => simp [Nat.not_lt.mpr (Nat.not_lt.mp hlarge), hlossless.gunzip_gzip, readDecompressedPack]
  | brotli =>
    simp [Nat.not_lt.mpr (Nat.not_lt.mp hlarge), hlossless.unbrotli_brotli, readDecompressedPack]

end

section

variable (compressors : Compressors) (revision : UInt64) (compression : PackFileCompression)
  (packs : List (List StagedContentItem)) (base : UInt64) (disk : Disk)

/-- The first packs are written, and otherwise the disk is as before. -/
structure PacksWritten (count : Nat) (newer : Disk) : Prop where
  agrees : AgreesBelow base disk newer
  written : ∀ packIndex < count, ∀ pack, packs[packIndex]? = some pack → ∃ encoded,
    encodeContentPack compressors (packContent pack) compression = .ok encoded ∧
      newer (contentPackPath revision packIndex packs.length compression) = some encoded

variable {compressors revision compression packs base disk}

/-- A frame is found again once all packs are written. -/
theorem frameAt_packContent {newer : Disk} (hlossless : compressors.Lossless)
    (hbounds : ∀ pack ∈ packs, packBytes pack ≤ maxContentBytes)
    (h : PacksWritten compressors revision compression packs base disk packs.length newer)
    {packIndex : Nat} {content : ContentReference} {frame : List UInt8}
    (hcontent : PackContent revision compression packs packIndex content frame) :
    frameAt compressors newer content = some frame := by
  obtain ⟨pack, before, after, hpack, hsplit, rfl⟩ := hcontent.inside
  have hbound := hbounds pack (List.mem_of_getElem? hpack)
  obtain ⟨encoded, hencode, hwritten⟩ := h.written packIndex (List.getElem?_eq_some_iff.mp hpack).1 pack hpack
  have hread := readContentPack_encoded hlossless hencode hwritten
    ((length_packContent pack).trans_le hbound)
  have hparts : before.length + frame.length + after.length = packBytes pack := by
    rw [← length_packContent, hsplit, List.length_append, List.length_append]
  have hsmall : ∀ value ≤ packBytes pack, (UInt64.ofNat value).toNat = value := by
    intro value hvalue
    refine UInt64.toNat_ofNat_of_lt' ?_
    rw [maxContentBytes] at hbound
    rw [UInt64.size]
    omega
  rw [length_packContent] at hread
  unfold frameAt
  dsimp only
  rw [hread, hsmall before.length (by omega), hsmall frame.length (by omega), hsplit]
  exact sliceBytes_append before frame after

theorem PacksWritten.step {count : Nat} {pack : List StagedContentItem} {newer next : Disk}
    {encoded : List UInt8} (hnext : base < revision) (hpack : packs[count]? = some pack)
    (h : PacksWritten compressors revision compression packs base disk count newer)
    (hencode : encodeContentPack compressors (packContent pack) compression = .ok encoded)
    (hwritten : next (contentPackPath revision count packs.length compression) = some encoded)
    (hother : ∀ path, path ≠ temporaryContentPath (contentPackFilename revision count packs.length
      compression) → path ≠ contentPackPath revision count packs.length compression →
        next path = newer path) :
    PacksWritten compressors revision compression packs base disk (count + 1) next := by
  have hcount : count < packs.length := (List.getElem?_eq_some_iff.mp hpack).1
  constructor
  · refine h.agrees.update hnext fun path hpath => hother path ?_ ?_
    · rintro rfl
      exact hpath (Or.inr ⟨count, packs.length, compression, Or.inr rfl⟩)
    · rintro rfl
      exact hpath (Or.inr ⟨count, packs.length, compression, Or.inl rfl⟩)
  · intro packIndex hindex other hotherpack
    rcases Nat.lt_succ_iff_lt_or_eq.mp hindex with hearlier | rfl
    · obtain ⟨bytes, hbytes, hfile⟩ := h.written packIndex hearlier other hotherpack
      refine ⟨bytes, hbytes, (hother _ (contentPackPath_ne_temporary _ _ _ _ _) fun heq => ?_).trans hfile⟩
      have hname : contentPackFilename revision packIndex packs.length compression =
          contentPackFilename revision count packs.length compression := by
        simpa [contentPackPath, contentDirectory] using heq
      have hsame := contentPackFilename_index (by omega) hcount hname
      omega
    · cases hotherpack.symm.trans hpack
      exact ⟨encoded, hencode, hwritten⟩

theorem placePack_content (now : UInt64) (packCount packIndex : Nat) (entries : IndexEntries)
    (pack : List StagedContentItem) :
    (placePack revision now packCount compression packIndex entries pack).2 = packContent pack :=
  foldl_placeItem_content ..

theorem always_writePacks {now : UInt64} (hnext : base < revision)
    {Stopped : List FileEffect → Disk → Prop}
    {Finally : Except IoError IndexEntries → List FileEffect → Disk → Prop} {failed : List FileEffect}
    (hstop : ∀ failed' newer, (RootSyncFailed failed' ↔ RootSyncFailed failed) →
      AgreesBelow base disk newer → Stopped failed' newer ∧ ∀ error, Finally (.error error) failed' newer)
    (rest : List (List StagedContentItem)) {count : Nat} (hrest : packs.drop count = rest)
    {entries : IndexEntries} {newer : Disk}
    (h : PacksWritten compressors revision compression packs base disk count newer)
    (hok : ∀ next, PacksWritten compressors revision compression packs base disk packs.length next →
      Finally (.ok (placePacks revision now packs.length compression count rest entries)) failed next) :
    Always FileEffect.apply Stopped Finally
      (writePacks compressors revision now packs.length compression count rest entries).run
      failed newer := by
  induction rest generalizing count entries newer with
  | nil =>
    have hall : packs.length ≤ count := List.drop_eq_nil_iff.mp hrest
    refine hok newer ⟨h.agrees, fun packIndex hindex => h.written packIndex (by omega)⟩
  | cons pack rest ih =>
    have hpack : packs[count]? = some pack := by
      rw [← List.head?_drop, hrest]
      rfl
    have hdrop : packs.drop (count + 1) = rest := by
      rw [← List.drop_drop, hrest]
      rfl
    rw [writePacks]
    refine Always.andThen (Always.liftM ?_)
    rw [placePack_content]
    cases hencode : encodeContentPack compressors (packContent pack) compression with
    | error error => exact (hstop failed newer Iff.rfl h.agrees).2 error
    | ok encoded =>
      refine Always.andThen (always_install (fun failed' next hfailed hother => ?_)
        fun next hwritten hother => ?_)
      · have hagrees : AgreesBelow base disk next := h.agrees.update hnext fun path hpath =>
          hother path (by rintro rfl; exact hpath (Or.inr ⟨count, packs.length, compression, Or.inr rfl⟩))
        exact hstop failed' next hfailed hagrees
      · exact ih hdrop (h.step hnext hpack hencode hwritten hother) hok

end

end Unpack
