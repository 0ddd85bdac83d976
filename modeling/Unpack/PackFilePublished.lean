import Unpack.PackFileCommit

/-! The index that a publication builds: where each of its entries comes from, that the reader accepts it,
and that it finds all payloads once the packs are written. -/

namespace Unpack

open EffectProgram Fallible

section

variable (compressors : Compressors)

/-- Every entry finds its payload on disk, in a pack of the index's revision or an earlier one. -/
structure IndexSound (disk : Disk) (index : PackFileIndex) (payload : PackFileAddress → List UInt8) :
    Prop where
  holds : ∀ (address : PackFileAddress) (entry : PackFileIndexEntry),
    index.entries[address]? = some entry → EntryHolds compressors disk entry (payload address)
  agree : EntriesAgree index.entries
  named : ∀ (address : PackFileAddress) (entry : PackFileIndexEntry),
    index.entries[address]? = some entry → ∃ revision packIndex packCount compression,
      revision ≤ index.revision ∧
        entry.content.file = contentPackPath revision packIndex packCount compression

/-- The entries are in packs of the index's revision or an earlier one. -/
def PackFileIndex.Named (index : PackFileIndex) : Prop :=
  ∀ (address : PackFileAddress) (entry : PackFileIndexEntry), index.entries[address]? = some entry →
    ∃ revision packIndex packCount compression, revision ≤ index.revision ∧
      entry.content.file = contentPackPath revision packIndex packCount compression

def Publication.index (publication : Publication) (guard : Option PackFileGuardDto)
    (options : PackFilePublicationOptions) (packs : List (List StagedContentItem)) : PackFileIndex :=
  ⟨publication.revision, guard, placePacks publication.revision options.retention.now packs.length
    options.compression 0 packs publication.entries⟩

/-- The index that a publication builds. -/
def publishedIndex (disk : Disk) (guard : Option PackFileGuardDto) (base : PublicationBase)
    (batch : PackFileWriteBatch) (options : PackFilePublicationOptions) : Except IoError PackFileIndex := do
  let publication ← preparePublication compressors disk base batch options
  let packs ← packItems options.maintenance.targetContentBytes publication.staged
  pure (publication.index guard options packs)

end

section

variable {compressors : Compressors} {disk newer : Disk} {index : PackFileIndex}
  {payload : PackFileAddress → List UInt8}

theorem IndexSound.of_files (h : IndexSound compressors disk index payload)
    (hfiles : ∀ (address : PackFileAddress) (entry : PackFileIndexEntry),
      index.entries[address]? = some entry → newer entry.content.file = disk entry.content.file) :
    IndexSound compressors newer index payload := by
  refine ⟨fun address entry hentry => ?_, h.agree, h.named⟩
  obtain ⟨frame, hencode, hframe, hchecksum⟩ := (h.holds address entry hentry).frame
  exact ⟨frame, hencode, (frameAt_of_file (hfiles address entry hentry)).trans hframe, hchecksum⟩

/-- Files of later revisions do not matter to an index. -/
theorem IndexSound.of_agrees (h : IndexSound compressors disk index payload)
    (hagrees : AgreesBelow index.revision disk newer) : IndexSound compressors newer index payload := by
  refine h.of_files fun address entry hentry => hagrees _ fun next hnext => ?_
  obtain ⟨revision, packIndex, packCount, compression, hle, hfile⟩ := h.named address entry hentry
  rw [hfile]
  exact contentPackPath_not_staging (UInt64.lt_of_le_of_lt hle hnext) packIndex packCount compression

theorem readIndex_of_agrees {base : UInt64} (hagrees : AgreesBelow base disk newer) :
    readIndex newer = readIndex disk := by
  have hindex : newer indexFile = disk indexFile :=
    hagrees indexFile fun next _ => indexFile_not_staging next
  unfold readIndex readBounded
  rw [hindex]

theorem wellFormed_readIndex (disk : Disk) : (readIndex disk).WellFormed := by
  unfold readIndex
  cases hindex : (readBounded disk indexFile maxIndexBytes).bind decodeIndex with
  | none =>
    intro address entry hentry
    simp at hentry
  | some index =>
    obtain ⟨bytes, -, hdecode⟩ := Option.bind_eq_some_iff.mp hindex
    exact wellFormed_decodeIndex hdecode

variable {base : PublicationBase} {batch : PackFileWriteBatch} {options : PackFilePublicationOptions}
  {publication : Publication} {guard : Option PackFileGuardDto}

theorem of_baseEntries {current : PackFileIndex} {entries : IndexEntries}
    (h : baseEntries current base = .ok entries) {address : PackFileAddress} {entry : PackFileIndexEntry}
    (hentry : entries[address]? = some entry) : current.entries[address]? = some entry := by
  cases base with
  | preserveEntries expected =>
    unfold baseEntries at h
    dsimp only at h
    split_ifs at h
    cases h
    exact hentry
  | replaceAll =>
    cases h
    simp at hentry

/-- What is prepared for a publication: a new revision, the carried entries and all staged items. -/
structure Prepared (compressors : Compressors) (disk : Disk) (base : PublicationBase)
    (batch : PackFileWriteBatch) (options : PackFilePublicationOptions) (publication : Publication) :
    Prop where
  revision : (readIndex disk).revision < publication.revision
  entries : ∃ entries, baseEntries (readIndex disk) base = .ok entries ∧
    publication.entries = carryEntries batch publication.revision options.retention entries
  staged : ∀ item ∈ publication.staged, StagedFor compressors disk batch publication.entries item
  all : ∀ address ∈ batch.items, ∃ item ∈ publication.staged, item.address = address

theorem of_preparePublication
    (h : preparePublication compressors disk base batch options = .ok publication) :
    Prepared compressors disk base batch options publication := by
  obtain ⟨entries, hentries, h⟩ := of_bind_ok h
  obtain ⟨revision, hrevision, h⟩ := of_bind_ok h
  obtain ⟨maintained, hmaintained, h⟩ := of_bind_ok h
  obtain ⟨pending, hpending, h⟩ := of_bind_ok h
  cases h
  obtain ⟨hstaged, hall⟩ := staged_stagePending compressors disk
    (carryEntries batch revision options.retention entries) hpending
  refine ⟨?_, ⟨entries, hentries, rfl⟩, fun item hitem => ?_, fun address haddress => ?_⟩
  · unfold nextRevision at hrevision
    split_ifs at hrevision with hsmall
    cases hrevision
    rw [UInt64.lt_iff_toNat_lt, UInt64.toNat_add]
    have hone : (1 : UInt64).toNat = 1 := rfl
    rw [hone, Nat.mod_eq_of_lt hsmall]
    omega
  · rcases List.mem_append.mp hitem with hitem | hitem
    · exact staged_stageMaintenance hmaintained item hitem
    · exact hstaged item hitem
  · obtain ⟨item, hitem, hsame⟩ := hall address haddress
    exact ⟨item, List.mem_append_right maintained hitem, hsame⟩

/-- A carried entry is an entry of the old index, used or not. -/
theorem Prepared.source (h : Prepared compressors disk base batch options publication)
    {address : PackFileAddress} {carried : PackFileIndexEntry}
    (hcarried : publication.entries[address]? = some carried) :
    ∃ source, (readIndex disk).entries[address]? = some source ∧
      carryEntry batch publication.revision address source = carried := by
  obtain ⟨entries, hbase, hentries⟩ := h.entries
  rw [hentries] at hcarried
  obtain ⟨source, hsource, hcarry⟩ := of_carryEntries hcarried
  exact ⟨source, of_baseEntries hbase hsource, hcarry⟩

theorem Prepared.agree (h : Prepared compressors disk base batch options publication)
    (hagree : EntriesAgree (readIndex disk).entries) : EntriesAgree publication.entries := by
  intro address other entry otherEntry hentry hother hfile
  obtain ⟨source, hsource, rfl⟩ := h.source hentry
  obtain ⟨otherSource, hotherSource, rfl⟩ := h.source hother
  rw [(carryEntry_keeps batch publication.revision address source).1,
    (carryEntry_keeps batch publication.revision other otherSource).1] at hfile ⊢
  exact hagree address other source otherSource hsource hotherSource hfile

/-- Content stays where it is, or its frame is in one of the new packs. -/
inductive Moved (compressors : Compressors) (disk : Disk) (revision : UInt64)
    (compression : PackFileCompression) (packs : List (List StagedContentItem))
    (source : ContentReference) : ContentReference → Prop
  | kept : Moved compressors disk revision compression packs source source
  | rewritten {content : ContentReference} {packIndex : Nat} {frame : List UInt8}
      (hcontent : PackContent revision compression packs packIndex content frame)
      (hframe : EntriesAgree (readIndex disk).entries → frameAt compressors disk source = some frame) :
      Moved compressors disk revision compression packs source content

section

variable {now : UInt64} {target : Nat} {compression : PackFileCompression}
  {packs : List (List StagedContentItem)} {address : PackFileAddress}

theorem Prepared.placed (h : Prepared compressors disk base batch options publication)
    (hpacks : packItems target publication.staged = .ok packs) (now : UInt64)
    (compression : PackFileCompression) :
    Placed publication.revision now publication.entries packs.flatten
      (placePacks publication.revision now packs.length compression 0 packs publication.entries)
      fun content frame =>
        ∃ packIndex, PackContent publication.revision compression packs packIndex content frame := by
  refine placed_placePacks (fun item hitem other hother haddress => ?_) packs List.drop_zero ⟨?_, ?_⟩
  · rw [(of_packItems hpacks).1, mem_sortStaged] at hitem hother
    rw [← (h.staged item hitem).pending_eq, ← (h.staged other hother).pending_eq, haddress]
  · exact fun address _ => rfl
  · simp

/-- The staged item that an address is placed for. -/
theorem Prepared.touched (h : Prepared compressors disk base batch options publication)
    (hpacks : packItems target publication.staged = .ok packs) (now : UInt64)
    (compression : PackFileCompression)
    (haddress : ∃ item ∈ packs.flatten, item.address = address) :
    ∃ item, StagedFor compressors disk batch publication.entries item ∧ item.address = address ∧
      ∃ packIndex content, PackContent publication.revision compression packs packIndex content item.frame ∧
        (placePacks publication.revision now packs.length compression 0 packs
          publication.entries)[address]? =
            placedEntry publication.revision now publication.entries[address]? item content := by
  obtain ⟨item, hitem, rfl⟩ := haddress
  obtain ⟨other, hother, hsame, content, ⟨packIndex, hcontent⟩, hentry⟩ :=
    (h.placed hpacks now compression).touched item hitem
  rw [(of_packItems hpacks).1, mem_sortStaged] at hother
  exact ⟨other, h.staged other hother, hsame, packIndex, content, hcontent, hentry⟩

theorem Prepared.getElem?_written (h : Prepared compressors disk base batch options publication)
    (hpacks : packItems target publication.staged = .ok packs) (now : UInt64)
    (compression : PackFileCompression) {pending : PendingPackFileItem}
    (hpending : batch.items[address]? = some pending) :
    ∃ packIndex content frame,
      PackContent publication.revision compression packs packIndex content frame ∧
        encodeContent pending.typeId pending.codecId pending.payload = .ok frame ∧
          (placePacks publication.revision now packs.length compression 0 packs
            publication.entries)[address]? =
              some ⟨pending.etag, pending.typeId, pending.codecId, content, now, publication.revision,
                none⟩ := by
  have hmem : address ∈ batch.items := by
    rw [← Std.ExtTreeMap.isSome_getElem?_iff_mem, hpending]
    rfl
  obtain ⟨staged, hstaged, hsame⟩ := h.all address hmem
  have hflat : staged ∈ packs.flatten := by
    rwa [(of_packItems hpacks).1, mem_sortStaged]
  obtain ⟨item, hitem, haddress, packIndex, content, hcontent, hentry⟩ :=
    h.touched hpacks now compression ⟨staged, hflat, hsame⟩
  have hitempending : item.pending = some pending := by
    rw [← hitem.pending_eq, haddress, hpending]
  refine ⟨packIndex, content, item.frame, hcontent, hitem.written pending hitempending, ?_⟩
  rw [hentry, placedEntry, hitempending]

theorem Prepared.getElem?_carried (h : Prepared compressors disk base batch options publication)
    (hpacks : packItems target publication.staged = .ok packs) (now : UInt64)
    (compression : PackFileCompression) (hbatch : batch.items[address]? = none)
    {carried : PackFileIndexEntry} (hcarried : publication.entries[address]? = some carried) :
    ∃ content, Moved compressors disk publication.revision compression packs carried.content content ∧
      (placePacks publication.revision now packs.length compression 0 packs
        publication.entries)[address]? = some { carried with content } := by
  by_cases hstaged : ∃ item ∈ packs.flatten, item.address = address
  · obtain ⟨item, hitem, rfl, packIndex, content, hcontent, hentry⟩ :=
      h.touched hpacks now compression hstaged
    have hitempending : item.pending = none := hitem.pending_eq.symm.trans hbatch
    obtain ⟨entry, hsame, hframe⟩ := hitem.carried hitempending
    cases hcarried.symm.trans hsame
    refine ⟨content, .rewritten hcontent fun hagree => hframe (h.agree hagree), ?_⟩
    rw [hentry, placedEntry, hitempending, hcarried]
    rfl
  · push Not at hstaged
    refine ⟨carried.content, .kept, ?_⟩
    rw [(h.placed hpacks now compression).untouched address hstaged, hcarried]

theorem Prepared.getElem?_absent (h : Prepared compressors disk base batch options publication)
    (hpacks : packItems target publication.staged = .ok packs) (now : UInt64)
    (compression : PackFileCompression) (hbatch : batch.items[address]? = none)
    (habsent : publication.entries[address]? = none) :
    (placePacks publication.revision now packs.length compression 0 packs
      publication.entries)[address]? = none := by
  by_cases hstaged : ∃ item ∈ packs.flatten, item.address = address
  · obtain ⟨item, hitem, rfl, packIndex, content, hcontent, hentry⟩ :=
      h.touched hpacks now compression hstaged
    rw [hentry, placedEntry, hitem.pending_eq.symm.trans hbatch, habsent]
    rfl
  · push Not at hstaged
    rw [(h.placed hpacks now compression).untouched address hstaged, habsent]

/-- An entry of the published index is written for the batch, or was carried from the old index. -/
theorem Prepared.of_getElem? (h : Prepared compressors disk base batch options publication)
    (hpacks : packItems target publication.staged = .ok packs) {entry : PackFileIndexEntry}
    (hentry : (placePacks publication.revision now packs.length compression 0 packs
      publication.entries)[address]? = some entry) :
    (∃ pending packIndex content frame, batch.items[address]? = some pending ∧
      PackContent publication.revision compression packs packIndex content frame ∧
        encodeContent pending.typeId pending.codecId pending.payload = .ok frame ∧
          entry = ⟨pending.etag, pending.typeId, pending.codecId, content, now, publication.revision,
            none⟩) ∨
    ∃ source content, batch.items[address]? = none ∧ (readIndex disk).entries[address]? = some source ∧
      Moved compressors disk publication.revision compression packs source.content content ∧
        entry = { carryEntry batch publication.revision address source with content } := by
  cases hbatch : batch.items[address]? with
  | some pending =>
    obtain ⟨packIndex, content, frame, hcontent, hencode, hsame⟩ :=
      h.getElem?_written hpacks now compression hbatch
    cases hentry.symm.trans hsame
    exact Or.inl ⟨pending, packIndex, content, frame, rfl, hcontent, hencode, rfl⟩
  | none =>
    cases hcarried : publication.entries[address]? with
    | none => cases hentry.symm.trans (h.getElem?_absent hpacks now compression hbatch hcarried)
    | some carried =>
      obtain ⟨content, hmoved, hsame⟩ := h.getElem?_carried hpacks now compression hbatch hcarried
      obtain ⟨source, hsource, rfl⟩ := h.source hcarried
      cases hentry.symm.trans hsame
      rw [(carryEntry_keeps batch publication.revision address source).1] at hmoved
      exact Or.inr ⟨source, content, rfl, hsource, hmoved, rfl⟩

theorem Moved.path {source content : ContentReference}
    (h : Moved compressors disk publication.revision compression packs source content)
    (hsource : ∃ revision packIndex packCount compression, revision ≤ (readIndex disk).revision ∧
      source.file = contentPackPath revision packIndex packCount compression)
    (hrevision : (readIndex disk).revision < publication.revision) :
    ∃ revision packIndex packCount compression, revision ≤ publication.revision ∧
      content.file = contentPackPath revision packIndex packCount compression := by
  cases h with
  | kept =>
    obtain ⟨revision, packIndex, packCount, compression, hle, hfile⟩ := hsource
    exact ⟨revision, packIndex, packCount, compression,
      UInt64.le_trans hle (UInt64.le_of_lt hrevision), hfile⟩
  | rewritten hcontent _ => exact ⟨_, _, _, _, UInt64.le_refl _, hcontent.file_eq.1⟩

theorem Prepared.wellFormed (h : Prepared compressors disk base batch options publication)
    (hpacks : packItems target publication.staged = .ok packs) (guard : Option PackFileGuardDto) :
    (publication.index guard options packs).WellFormed := by
  have hold := wellFormed_readIndex disk
  have hnew : ∀ {packIndex content frame},
      PackContent publication.revision options.compression packs packIndex content frame →
        IsRelativePath content.file ∧ content.IsBounded := by
    intro packIndex content frame hcontent
    refine ⟨?_, hcontent.isBounded (of_packItems hpacks).2⟩
    rw [hcontent.file_eq.1]
    exact isRelativePath_contentPackPath ..
  intro address entry hentry
  obtain ⟨pending, packIndex, content, frame, -, hcontent, -, rfl⟩ |
    ⟨source, content, -, hsource, hmoved, rfl⟩ := h.of_getElem? hpacks hentry
  · refine ⟨(hnew hcontent).1, (hnew hcontent).2, ?_⟩
    simp [PackFileIndexEntry.revisionsAreValid, Publication.index]
  · have hrevisions := carryEntry_revisions batch address h.revision (hold address source hsource).revisions
    cases hmoved with
    | kept => exact ⟨(hold address source hsource).path, (hold address source hsource).bounded, hrevisions⟩
    | rewritten hcontent _ => exact ⟨(hnew hcontent).1, (hnew hcontent).2, hrevisions⟩

theorem Prepared.named (h : Prepared compressors disk base batch options publication)
    (hpacks : packItems target publication.staged = .ok packs) (hnamed : (readIndex disk).Named)
    (guard : Option PackFileGuardDto) : (publication.index guard options packs).Named := by
  intro address entry hentry
  obtain ⟨pending, packIndex, content, frame, -, hcontent, -, rfl⟩ |
    ⟨source, content, -, hsource, hmoved, rfl⟩ := h.of_getElem? hpacks hentry
  · exact ⟨_, _, _, _, UInt64.le_refl _, hcontent.file_eq.1⟩
  · exact hmoved.path (hnamed address source hsource) h.revision

/-- Entries of one file agree in the new index: the packs of a revision are told apart by their names, and
its names are new. -/
theorem Prepared.agree_placed (h : Prepared compressors disk base batch options publication)
    (hpacks : packItems target publication.staged = .ok packs)
    (hsound : IndexSound compressors disk (readIndex disk) payload) (now : UInt64)
    (compression : PackFileCompression) :
    EntriesAgree (placePacks publication.revision now packs.length compression 0 packs
      publication.entries) := by
  have hsplit : ∀ {address : PackFileAddress} {entry : PackFileIndexEntry},
      (placePacks publication.revision now packs.length compression 0 packs
        publication.entries)[address]? = some entry →
      (∃ packIndex frame,
        PackContent publication.revision compression packs packIndex entry.content frame) ∨
      ∃ source, (readIndex disk).entries[address]? = some source ∧ entry.content = source.content := by
    intro address entry hentry
    obtain ⟨pending, packIndex, content, frame, -, hcontent, -, rfl⟩ |
      ⟨source, content, -, hsource, hmoved, rfl⟩ := h.of_getElem? hpacks hentry
    · exact Or.inl ⟨packIndex, frame, hcontent⟩
    · cases hmoved with
      | kept => exact Or.inr ⟨source, hsource, rfl⟩
      | rewritten hcontent _ => exact Or.inl ⟨_, _, hcontent⟩
  have hfresh : ∀ {address : PackFileAddress} {source : PackFileIndexEntry} {packIndex : Nat}
      {content : ContentReference} {frame : List UInt8},
      (readIndex disk).entries[address]? = some source →
      PackContent publication.revision compression packs packIndex content frame →
        source.content.file ≠ content.file := by
    intro address source packIndex content frame hsource hcontent hfile
    obtain ⟨revision, sourceIndex, packCount, sourceCompression, hle, hname⟩ :=
      hsound.named address source hsource
    rw [hname, hcontent.file_eq.1] at hfile
    refine contentPackPath_not_staging (UInt64.lt_of_le_of_lt hle h.revision) sourceIndex packCount
      sourceCompression ?_
    exact Or.inr ⟨packIndex, packs.length, compression, Or.inl hfile⟩
  intro address other entry otherEntry hentry hother hfile
  rcases hsplit hentry with ⟨packIndex, frame, hcontent⟩ | ⟨source, hsource, hcontent⟩
  · rcases hsplit hother with ⟨otherIndex, otherFrame, hotherContent⟩ | ⟨otherSource, hotherSource, hsame⟩
    · have hname : contentPackFilename publication.revision packIndex packs.length compression =
          contentPackFilename publication.revision otherIndex packs.length compression := by
        rw [hcontent.file_eq.1, hotherContent.file_eq.1] at hfile
        simpa [contentPackPath, contentDirectory] using hfile
      cases contentPackFilename_index hcontent.file_eq.2 hotherContent.file_eq.2 hname
      exact hcontent.agree hotherContent
    · rw [hsame] at hfile
      exact absurd hfile.symm (hfresh hotherSource hcontent)
  · rcases hsplit hother with ⟨otherIndex, otherFrame, hotherContent⟩ | ⟨otherSource, hotherSource, hsame⟩
    · rw [hcontent] at hfile
      exact absurd hfile (hfresh hsource hotherContent)
    · rw [hcontent, hsame] at hfile ⊢
      exact hsound.agree address other source otherSource hsource hotherSource hfile

/-- What is stored once the batch is published. -/
def publishedPayload (batch : PackFileWriteBatch) (payload : PackFileAddress → List UInt8)
    (address : PackFileAddress) : List UInt8 :=
  (batch.items[address]?).elim (payload address) (·.payload)

/-- Once all packs are written the new index finds all payloads, those of the batch and those it carries. -/
theorem Prepared.indexSound (h : Prepared compressors disk base batch options publication)
    (hpacks : packItems target publication.staged = .ok packs) (hlossless : compressors.Lossless)
    (hsound : IndexSound compressors disk (readIndex disk) payload) (guard : Option PackFileGuardDto)
    (hwritten : PacksWritten compressors publication.revision options.compression packs
      (readIndex disk).revision disk packs.length newer) :
    IndexSound compressors newer (publication.index guard options packs)
      (publishedPayload batch payload) := by
  have hframe : ∀ {packIndex content frame},
      PackContent publication.revision options.compression packs packIndex content frame →
        frameAt compressors newer content = some frame ∧ checksum frame = content.checksum := by
    intro packIndex content frame hcontent
    refine ⟨frameAt_packContent hlossless (of_packItems hpacks).2 hwritten hcontent, ?_⟩
    obtain ⟨pack, before, after, -, -, rfl⟩ := hcontent.inside
    rfl
  have hkept := hsound.of_agrees hwritten.agrees
  refine ⟨fun address entry hentry => ?_, ?_, fun address entry hentry => ?_⟩
  · obtain ⟨pending, packIndex, content, frame, hbatch, hcontent, hencode, rfl⟩ |
      ⟨source, content, hbatch, hsource, hmoved, rfl⟩ := h.of_getElem? hpacks hentry
    · have hpayload : publishedPayload batch payload address = pending.payload := by
        rw [publishedPayload, hbatch]
        rfl
      rw [hpayload]
      exact ⟨frame, hencode, hframe hcontent⟩
    · have hpayload : publishedPayload batch payload address = payload address := by
        rw [publishedPayload, hbatch]
        rfl
      obtain ⟨-, -, htype, hcodec⟩ := carryEntry_keeps batch publication.revision address source
      obtain ⟨frame, hencode, hloads, hchecksum⟩ := (hkept.holds address source hsource).frame
      rw [hpayload]
      cases hmoved with
      | kept => exact ⟨frame, by rw [htype, hcodec]; exact hencode, hloads, hchecksum⟩
      | rewritten hcontent hmoved =>
        obtain ⟨oldFrame, holdEncode, holdLoads, -⟩ := (hsound.holds address source hsource).frame
        cases (hmoved hsound.agree).symm.trans holdLoads
        exact ⟨_, by rw [htype, hcodec]; exact holdEncode, hframe hcontent⟩
  · exact h.agree_placed hpacks hsound _ _
  · exact h.named hpacks hsound.named guard address entry hentry

end

theorem of_publishedIndex (h : publishedIndex compressors disk guard base batch options = .ok index) :
    ∃ publication packs, Prepared compressors disk base batch options publication ∧
      packItems options.maintenance.targetContentBytes publication.staged = .ok packs ∧
        index = publication.index guard options packs := by
  obtain ⟨publication, hpublication, h⟩ := of_bind_ok h
  obtain ⟨packs, hpacks, h⟩ := of_bind_ok h
  cases h
  exact ⟨publication, packs, of_preparePublication hpublication, hpacks, rfl⟩

theorem wellFormed_publishedIndex
    (h : publishedIndex compressors disk guard base batch options = .ok index) : index.WellFormed := by
  obtain ⟨publication, packs, hprepared, hpacks, rfl⟩ := of_publishedIndex h
  exact hprepared.wellFormed hpacks guard

/-- A published index is read back as it was written, and so are the records of all four codecs, which accept
nothing else. -/
theorem persistentFormat_roundTrip
    (h : publishedIndex compressors disk guard base batch options = .ok index) :
    (∀ bytes, encodeIndex index = .ok bytes → decodeIndex bytes = some index ∧
      ∀ extra, extra ≠ [] → decodeIndex (bytes ++ extra) = none) ∧
    RoundTrip encodeResolveRecord decodeResolveRecord (fun _ => True) ∧
    RoundTrip encodeModuleBuildRecord decodeModuleBuildRecord (fun record => record.parsed.data.AssetTyped) ∧
    RoundTrip encodeCodeGenerationRecord decodeCodeGenerationRecord (fun _ => True) ∧
    RoundTrip encodeAssetRenderRecord decodeAssetRenderRecord fun _ => True := by
  refine ⟨fun bytes hencode => ?_, roundTrip_resolveRecord, roundTrip_moduleBuildRecord,
    roundTrip_codeGenerationRecord, roundTrip_assetRenderRecord⟩
  exact decodeIndex_encodeIndex (wellFormed_publishedIndex h) hencode

/-- Compression libraries that store their input. -/
def storingCompressors : Compressors := ⟨id, some, id, some⟩

theorem storingCompressors_lossless : storingCompressors.Lossless := ⟨fun _ => rfl, fun _ => rfl⟩

def emptyRoot : Disk := fun _ => none

def immediateOptions : PackFilePublicationOptions := ⟨⟨0, 0⟩, .none, .production⟩

def assetAddress : PackFileAddress := ⟨utf8Bytes "asset", utf8Bytes "main"⟩

/-- A batch of one rendered asset. -/
def assetBatch (text : String) : PackFileWriteBatch :=
  (PackFileWriteBatch.insert {} assetAddress none (.assetRender ⟨text, none⟩)).toOption.getD {}

/-- The index of the asset's publication is read back with its entry. -/
theorem persistentFormat_roundTrip_asset :
    ∃ index bytes, publishedIndex storingCompressors emptyRoot none (.preserveEntries 0) (assetBatch "main();")
        immediateOptions = .ok index ∧ (index.entries[assetAddress]?).isSome = true ∧
      encodeIndex index = .ok bytes ∧ decodeIndex bytes = some index := by
  have hruns : ((publishedIndex storingCompressors emptyRoot none (.preserveEntries 0) (assetBatch "main();")
      immediateOptions).toOption.any fun index => (index.entries[assetAddress]?).isSome &&
        (encodeIndex index).toOption.isSome) = true := by
    decide +kernel
  obtain ⟨index, hindex, hruns⟩ := (Option.any_eq_true _ _).mp hruns
  obtain ⟨hentry, hbytes⟩ := Bool.and_eq_true_iff.mp hruns
  obtain ⟨bytes, hbytes⟩ := Option.isSome_iff_exists.mp hbytes
  have hpublished := eq_ok_of_toOption hindex
  have hencoded := eq_ok_of_toOption hbytes
  exact ⟨index, bytes, hpublished, hentry, hencoded, ((persistentFormat_roundTrip hpublished).1 bytes hencoded).1⟩

end

end Unpack
