import Unpack.PackFileAtomicity

/-! A pack file that several readers share while publications write below the same root. What one reader finds
is what every later one finds, for as long as no file is taken away that the index references; the packs that
were read in between are kept in memory and change nothing. -/

namespace Unpack

open EffectProgram

namespace PackFile

/-- Nothing that was read is forgotten, and accesses do not matter. -/
structure Grown (packFile later : PackFile) : Prop where
  index : later.index = packFile.index
  collecting : later.allowCollectingMemory = packFile.allowCollectingMemory
  buffers : ∀ (file : PathBuf) (retained : RetainedContentPack),
    packFile.contentBuffers.lookup file = some retained → later.contentBuffers.lookup file = some retained

theorem Grown.refl (packFile : PackFile) : packFile.Grown packFile := ⟨rfl, rfl, fun _ _ h => h⟩

theorem Grown.trans {first second third : PackFile} (h : first.Grown second) (h' : second.Grown third) :
    first.Grown third :=
  ⟨h'.index.trans h.index, h'.collecting.trans h.collecting,
    fun file retained hretained => h'.buffers file retained (h.buffers file retained hretained)⟩

section

variable {compressors : Compressors} {disk newer : Disk} {packFile later : PackFile} {kind : RecordKind}
  {address : PackFileAddress} {etag : Option PackFileETag} {reference : ContentReference}
  {entry : PackFileIndexEntry}

theorem retainContent_eq_some {buffers : FxHashMap PathBuf RetainedContentPack}
    (h : packFile.retainContent compressors disk reference = some buffers) :
    (∀ (file : PathBuf) (retained : RetainedContentPack),
      packFile.contentBuffers.lookup file = some retained → buffers.lookup file = some retained) ∧
      ∃ retained, buffers.lookup reference.file = some retained := by
  unfold retainContent at h
  split_ifs at h with hmem
  · cases h
    exact ⟨fun _ _ hretained => hretained, Option.isSome_iff_exists.mp (AList.lookup_isSome.mpr hmem)⟩
  · obtain ⟨pack, -, hbuffers⟩ := Option.bind_eq_some_iff.mp h
    cases hbuffers
    refine ⟨fun file retained hretained => ?_, _, AList.lookup_insert _⟩
    rw [AList.lookup_insert_ne]
    · exact hretained
    · rintro rfl
      exact hmem (AList.lookup_isSome.mp (by rw [hretained]; rfl))

theorem grown_loadContent (packFile : PackFile) (disk : Disk) (reference : ContentReference) :
    packFile.Grown (packFile.loadContent compressors disk reference).2 := by
  unfold loadContent
  split_ifs with hcollecting huncompressed
  · exact Grown.refl packFile
  · exact Grown.refl packFile
  · cases hbuffers : packFile.retainContent compressors disk reference with
    | none => exact Grown.refl packFile
    | some buffers => exact ⟨rfl, rfl, (retainContent_eq_some hbuffers).1⟩

theorem grown_get (packFile : PackFile) (disk : Disk) (kind : RecordKind) (address : PackFileAddress)
    (etag : Option PackFileETag) : packFile.Grown (packFile.get compressors disk kind address etag).2 := by
  unfold get prepareRestore
  cases packFile.index.entries[address]? with
  | none => exact Grown.refl packFile
  | some entry =>
    dsimp only
    split_ifs with hetag hcodec
    · exact Grown.refl packFile
    · exact Grown.refl packFile
    · exact grown_loadContent packFile disk entry.content

theorem grown_touch (packFile : PackFile) (address : PackFileAddress) (etag : Option PackFileETag)
    (stamp : UInt64) : packFile.Grown (packFile.touch address etag stamp).2 := by
  unfold touch
  cases packFile.index.entries[address]? with
  | none => exact Grown.refl packFile
  | some entry =>
    dsimp only
    split_ifs with hetag
    · exact Grown.refl packFile
    · cases packFile.accessUpdates[address]? with
      | none => exact ⟨rfl, rfl, fun _ _ h => h⟩
      | some current =>
        dsimp only
        split_ifs
        · exact ⟨rfl, rfl, fun _ _ h => h⟩
        · exact Grown.refl packFile

theorem touch_buffers (packFile : PackFile) (address : PackFileAddress) (etag : Option PackFileETag)
    (stamp : UInt64) :
    (packFile.touch address etag stamp).2.contentBuffers = packFile.contentBuffers := by
  unfold touch
  cases packFile.index.entries[address]? with
  | none => rfl
  | some entry =>
    dsimp only
    split_ifs with hetag
    · rfl
    · cases packFile.accessUpdates[address]? with
      | none => rfl
      | some current =>
        dsimp only
        split_ifs <;> rfl

/-- A record is restored under the etag of its entry only. -/
theorem entry_of_get {record : CacheRecord}
    (h : (packFile.get compressors disk kind address etag).1 = some record) :
    ∃ entry, packFile.index.entries[address]? = some entry ∧ entry.etag = etag := by
  unfold get prepareRestore at h
  cases hentry : packFile.index.entries[address]? with
  | none =>
    rw [hentry] at h
    cases h
  | some entry =>
    rw [hentry] at h
    dsimp only at h
    split_ifs at h with hetag hcodec
    · cases h
    · cases h
    · push Not at hetag
      exact ⟨entry, rfl, hetag.1⟩

theorem readContentPack_of_file {path : PathBuf} (h : newer path = disk path)
    (compression : PackFileCompression) (size : UInt64) :
    readContentPack compressors newer path compression size =
      readContentPack compressors disk path compression size := by
  have hbounded : ∀ maximum, readBounded newer path maximum = readBounded disk path maximum := by
    intro maximum
    rw [readBounded, readBounded, h]
  unfold readContentPack
  simp only [hbounded]

theorem loadContent_of_file (h : newer reference.file = disk reference.file) (packFile : PackFile) :
    packFile.loadContent compressors newer reference = packFile.loadContent compressors disk reference := by
  have hreference : readContentReference compressors newer reference =
      readContentReference compressors disk reference := by
    unfold readContentReference
    rw [readContentPack_of_file h, h]
  unfold loadContent retainContent
  rw [hreference, readContentPack_of_file h]

/-- The disks have the same files for the entries of the pack file. -/
def SameFiles (packFile : PackFile) (disk newer : Disk) : Prop :=
  ∀ (address : PackFileAddress) (entry : PackFileIndexEntry),
    packFile.index.entries[address]? = some entry → newer entry.content.file = disk entry.content.file

theorem SameFiles.get_eq (h : packFile.SameFiles disk newer) (kind : RecordKind) (address : PackFileAddress)
    (etag : Option PackFileETag) :
    packFile.get compressors newer kind address etag = packFile.get compressors disk kind address etag := by
  unfold get prepareRestore
  cases hentry : packFile.index.entries[address]? with
  | none => rfl
  | some entry =>
    dsimp only
    rw [loadContent_of_file (h address entry hentry)]

theorem SameFiles.buffersSound (h : packFile.SameFiles disk newer)
    (hsound : packFile.BuffersSound compressors disk) : packFile.BuffersSound compressors newer := by
  intro file retained hlookup
  obtain ⟨⟨address, entry, hentry, hfile, hkind⟩, hread⟩ := hsound file retained hlookup
  refine ⟨⟨address, entry, hentry, hfile, hkind⟩, ?_⟩
  rw [readContentPack_of_file (hfile ▸ h address entry hentry), hread]

theorem SameFiles.symm (h : packFile.SameFiles disk newer) : packFile.SameFiles newer disk :=
  fun address entry hentry => (h address entry hentry).symm

theorem SameFiles.grown (h : packFile.SameFiles disk newer) (hgrown : packFile.Grown later) :
    later.SameFiles disk newer := by
  intro address entry hentry
  rw [hgrown.index] at hentry
  exact h address entry hentry

theorem loadContent_settled (hgrown : (packFile.loadContent compressors disk reference).2.Grown later)
    (hsound : later.BuffersSound compressors disk) :
    (later.loadContent compressors disk reference).1 =
      (packFile.loadContent compressors disk reference).1 := by
  have hcollecting : later.allowCollectingMemory = packFile.allowCollectingMemory :=
    ((grown_loadContent packFile disk reference).trans hgrown).collecting
  unfold loadContent
  rw [hcollecting]
  split_ifs with hcollects huncompressed
  · rfl
  · rfl
  · have hload : (packFile.loadContent compressors disk reference).2 =
        (packFile.retainContent compressors disk reference).elim packFile
          fun buffers => { packFile with contentBuffers := buffers } := by
      unfold loadContent
      rw [if_neg hcollects]
      cases packFile.retainContent compressors disk reference <;> rfl
    cases hbuffers : packFile.retainContent compressors disk reference with
    | some buffers =>
      -- The pack is in memory from then on.
      obtain ⟨-, retained, hretained⟩ := retainContent_eq_some hbuffers
      rw [hload, hbuffers] at hgrown
      have hlater := hgrown.buffers _ _ hretained
      have hmem : reference.file ∈ later.contentBuffers :=
        AList.lookup_isSome.mp (by rw [hlater]; rfl)
      have hsame : later.retainContent compressors disk reference = some later.contentBuffers := by
        rw [retainContent, if_pos hmem]
      rw [hsame]
      dsimp only
      rw [loadRetained, loadRetained, hlater, hretained]
    | none =>
      have hread : readContentPack compressors disk reference.file reference.compression
          reference.packSize = none := by
        unfold retainContent at hbuffers
        split_ifs at hbuffers
        cases hpack : readContentPack compressors disk reference.file reference.compression
            reference.packSize with
        | none => rfl
        | some pack =>
          rw [hpack] at hbuffers
          cases hbuffers
      by_cases hmem : reference.file ∈ later.contentBuffers
      · -- Another entry of the file was read, in a way in which this one is not.
        obtain ⟨retained, hretained⟩ := Option.isSome_iff_exists.mp (AList.lookup_isSome.mpr hmem)
        have hother := (hsound _ _ hretained).2
        rw [retainContent, if_pos hmem]
        dsimp only
        rw [loadRetained, hretained]
        refine if_pos ?_
        by_contra hsame
        push Not at hsame
        rw [hsame.1, hsame.2, hread] at hother
        cases hother
      · rw [retainContent, if_neg hmem, hread]
        rfl

/-- What a reader finds is what all later readers find. -/
theorem get_settled (hgrown : (packFile.get compressors disk kind address etag).2.Grown later)
    (hsound : later.BuffersSound compressors disk) :
    (later.get compressors disk kind address etag).1 = (packFile.get compressors disk kind address etag).1 := by
  have hindex : later.index = packFile.index :=
    ((grown_get packFile disk kind address etag).trans hgrown).index
  unfold get prepareRestore at hgrown ⊢
  rw [hindex]
  cases hentry : packFile.index.entries[address]? with
  | none => rfl
  | some entry =>
    rw [hentry] at hgrown
    dsimp only at hgrown ⊢
    split_ifs at hgrown ⊢ with hetag hcodec
    · rfl
    · rfl
    · dsimp only at hgrown ⊢
      rw [loadContent_settled hgrown hsound]

end

end PackFile

section

variable {compressors : Compressors} {guard : Option PackFileGuardDto} {base : PublicationBase}
  {batch : PackFileWriteBatch} {options : PackFilePublicationOptions} {disk newer : Disk}

theorem InstalledBy.named (h : InstalledBy compressors guard base batch options disk newer)
    (hnamed : (readIndex disk).Named) :
    (readIndex newer).Named ∧ (readIndex disk).revision ≤ (readIndex newer).revision := by
  obtain ⟨publication, packs, hinstalled⟩ := h
  have hprepared := of_preparePublication hinstalled.preparation
  rw [hinstalled.readIndex_eq]
  exact ⟨hprepared.named hinstalled.packed hnamed guard, UInt64.le_of_lt hprepared.revision⟩

theorem AgreesBelow.named (h : AgreesBelow (readIndex disk).revision disk newer)
    (hnamed : (readIndex disk).Named) :
    (readIndex newer).Named ∧ (readIndex disk).revision ≤ (readIndex newer).revision := by
  rw [readIndex_of_agrees h]
  exact ⟨hnamed, UInt64.le_refl _⟩

theorem ReturnedWith.named {outcome : Except IoError Unit} {failed : List FileEffect}
    (h : ReturnedWith disk (InstalledBy compressors guard base batch options disk) outcome failed newer)
    (hnamed : (readIndex disk).Named) :
    (readIndex newer).Named ∧ (readIndex disk).revision ≤ (readIndex newer).revision := by
  cases outcome with
  | ok value => exact h.2.named hnamed
  | error error => exact h.elim (fun h => h.2.named hnamed) fun h => h.2.named hnamed

variable (compressors) in
/-- The index is one that publications have left. Content packs can be missing or damaged, and so can the
index itself, which is empty then. -/
def WrittenRoot (disk : Disk) : Prop :=
  ∃ root, ReachableRoot compressors root ∧ readIndex disk = readIndex root

theorem ReachableRoot.named (h : ReachableRoot compressors disk) : (readIndex disk).Named := by
  induction h with
  | @fresh disk habsent =>
    have hplace : IndexInPlace disk {} := Or.inl ⟨habsent, rfl⟩
    rw [hplace.readIndex_eq]
    intro address entry hentry
    simp at hentry
  | @publish disk hdisk guard base batch options outcomes ih =>
    have hrun : exec FileEffect.apply outcomes
        (publishBatch compressors guard base batch options).run [] disk = _ := rfl
    rcases (guarded_publishBatch guard base batch options ih).always.exec_cases hrun with ⟨outcome, -, hreturned⟩ |
        ⟨-, -, hagrees | hinstalled⟩
    · exact (hreturned.named ih).1
    · exact (hagrees.named ih).1
    · exact (hinstalled.named ih).1

theorem WrittenRoot.named (h : WrittenRoot compressors disk) : (readIndex disk).Named := by
  obtain ⟨root, hroot, hindex⟩ := h
  rw [hindex]
  exact hroot.named

end

end Unpack
