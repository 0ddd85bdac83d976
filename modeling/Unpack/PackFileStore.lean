import Unpack.PackFilePublication

/-! What an entry of the index finds on disk: its frame inside its pack, whatever way the pack is read, and
from it the record that was encoded. -/

namespace Unpack

open Codec Encoder Decoder

/-- What is written inside a frame. -/
def encodeContentBody (typeId : StableTypeId) (codecId : StableCodecId) (payload : List UInt8) :
    Encoder Unit := do
  writeRaw typeId.bytes
  writeRaw codecId.bytes
  writeU64 (UInt64.ofNat payload.length)
  writeU64 (checksum payload)
  writeRaw payload

theorem reads_contentBody {typeId : StableTypeId} {codecId : StableCodecId} {payload : List UInt8}
    (h : payload.length ≤ maxRecordBytes) :
    Reads (encodeContentBody typeId codecId payload) contentBody
      (typeId, codecId, checksum payload, payload) := by
  have hlength : (UInt64.ofNat payload.length).toNat = payload.length :=
    UInt64.toNat_ofNat_of_lt' (by rw [maxRecordBytes] at h; rw [UInt64.size]; omega)
  refine (reads_typeId typeId).bind ((reads_codecId codecId).bind ((reads_u64 _).bind ?_))
  rw [hlength, if_neg (by omega)]
  exact (reads_u64 (checksum payload)).bind ((reads_writeRaw payload).map _)

theorem encodeWhole_contentBody (typeId : StableTypeId) (codecId : StableCodecId) {payload : List UInt8}
    (h : payload.length ≤ maxRecordBytes) :
    encodeWhole (encodeContentBody typeId codecId payload) =
      .ok (typeId.bytes ++ (codecId.bytes ++ (Codec.littleEndian 8 payload.length ++
        (Codec.littleEndian 8 (checksum payload).toNat ++ payload)))) := by
  have hlength : (UInt64.ofNat payload.length).toNat = payload.length :=
    UInt64.toNat_ofNat_of_lt' (by rw [maxRecordBytes] at h; rw [UInt64.size]; omega)
  have hwrites : Writes (encodeContentBody typeId codecId payload) (typeId.bytes ++ (codecId.bytes ++
      (Codec.littleEndian 8 payload.length ++
        (Codec.littleEndian 8 (checksum payload).toNat ++ payload)))) := by
    refine (writes_writeRaw _).bind ((writes_writeRaw _).bind (Writes.bind ?_ (Writes.bind ?_ ?_)))
    · rw [writeU64, hlength]
      exact writes_writeRaw _
    · exact writes_writeRaw _
    · exact writes_writeRaw payload
  rw [encodeWhole, hwrites []]
  rfl

/-- The frame of a record is taken apart again, with and without a look at its own checksums. -/
theorem decode_encodeContent {typeId : StableTypeId} {codecId : StableCodecId} {payload frame : List UInt8}
    (h : encodeContent typeId codecId payload = .ok frame) :
    decodeContent frame = some (typeId, codecId, payload) ∧
      decodeIndexedContent frame (checksum frame) = some (typeId, codecId, payload) := by
  unfold encodeContent at h
  split_ifs at h with hbound
  have hpayload : payload.length ≤ maxRecordBytes := by omega
  obtain ⟨hframe, hunchecked, -⟩ := decodeFrame_encodeFrame h
  have hwhole := ((reads_contentBody hpayload).whole
    (encodeWhole_contentBody typeId codecId hpayload)).1
  constructor
  · rw [decodeContent, hframe]
    change decodeContentBody _ true = _
    rw [decodeContentBody, hwhole]
    simp
  · rw [decodeIndexedContent, if_neg (by simp), hunchecked]
    change decodeContentBody _ false = _
    rw [decodeContentBody, hwhole]
    simp

section

variable (compressors : Compressors)

/-- The frame that a reference points at. -/
def frameAt (disk : Disk) (reference : ContentReference) : Option (List UInt8) := do
  let pack ← readContentPack compressors disk reference.file reference.compression reference.packSize
  sliceBytes pack reference.offset.toNat (reference.offset.toNat + reference.length.toNat)

/-- The entry finds the frame of this payload on disk. -/
structure EntryHolds (disk : Disk) (entry : PackFileIndexEntry) (payload : List UInt8) : Prop where
  frame : ∃ frame, encodeContent entry.typeId entry.codecId payload = .ok frame ∧
    frameAt compressors disk entry.content = some frame ∧ checksum frame = entry.content.checksum

variable {compressors} {disk : Disk} {reference : ContentReference} {frame : List UInt8}

theorem length_of_readContentPack {path : PathBuf} {compression : PackFileCompression} {size : UInt64}
    {pack : List UInt8} (h : readContentPack compressors disk path compression size = some pack) :
    pack.length = size.toNat ∧ size.toNat ≤ maxContentBytes := by
  unfold readContentPack at h
  split_ifs at h with hlarge
  have hdecompressed : ∀ content, readDecompressedPack content size.toNat = some pack →
      pack.length = size.toNat := by
    intro content hcontent
    obtain ⟨content, -, hread⟩ := Option.bind_eq_some_iff.mp hcontent
    split_ifs at hread with hsize
    cases hread
    exact hsize
  refine ⟨?_, by omega⟩
  cases compression with
  | none =>
    obtain ⟨bytes, -, hbytes⟩ := Option.bind_eq_some_iff.mp h
    split_ifs at hbytes with hsize
    cases hbytes
    exact hsize
  | gzip =>
    obtain ⟨encoded, -, hencoded⟩ := Option.bind_eq_some_iff.mp h
    exact hdecompressed _ hencoded
  | brotli =>
    obtain ⟨encoded, -, hencoded⟩ := Option.bind_eq_some_iff.mp h
    exact hdecompressed _ hencoded

theorem sliceBytes_eq_some_iff {bytes slice : List UInt8} {start stop : Nat} :
    sliceBytes bytes start stop = some slice ↔
      (start ≤ stop ∧ stop ≤ bytes.length) ∧ (bytes.drop start).take (stop - start) = slice := by
  unfold sliceBytes
  split_ifs with hbounds
  · simp [hbounds]
  · simp [hbounds]

theorem sliceBytes_append (before slice after : List UInt8) :
    sliceBytes (before ++ slice ++ after) before.length (before.length + slice.length) = some slice := by
  rw [sliceBytes_eq_some_iff]
  refine ⟨⟨by omega, by simp⟩, ?_⟩
  rw [List.append_assoc, List.drop_left, Nat.add_sub_cancel_left, List.take_left]

theorem sliceBytes_all (bytes : List UInt8) : sliceBytes bytes 0 bytes.length = some bytes := by
  simp [sliceBytes]

/-- The pack that a frame is found in, and where. -/
theorem of_frameAt (h : frameAt compressors disk reference = some frame) :
    ∃ pack, readContentPack compressors disk reference.file reference.compression reference.packSize =
        some pack ∧
      contentFrameRange pack.length reference =
        some (reference.offset.toNat, reference.offset.toNat + reference.length.toNat) ∧
      sliceBytes pack reference.offset.toNat (reference.offset.toNat + reference.length.toNat) =
        some frame := by
  obtain ⟨pack, hpack, hslice⟩ := Option.bind_eq_some_iff.mp h
  have hbounds := (sliceBytes_eq_some_iff.mp hslice).1
  exact ⟨pack, hpack, if_pos hbounds.2, hslice⟩

theorem readContentReference_eq (hframe : frameAt compressors disk reference = some frame)
    (huncompressed : reference.compression = .none) :
    readContentReference compressors disk reference = some frame := by
  obtain ⟨pack, hpack, -, hslice⟩ := of_frameAt hframe
  obtain ⟨hsize, hbound⟩ := length_of_readContentPack hpack
  obtain ⟨⟨-, hstop⟩, -⟩ := sliceBytes_eq_some_iff.mp hslice
  have hdisk : disk reference.file = some pack := by
    unfold readContentPack at hpack
    rw [if_neg (by omega), huncompressed] at hpack
    obtain ⟨bytes, hread, hbytes⟩ := Option.bind_eq_some_iff.mp hpack
    obtain ⟨content, hcontent, hlength⟩ := Option.bind_eq_some_iff.mp hread
    split_ifs at hlength hbytes
    cases hlength
    cases hbytes
    exact hcontent
  unfold readContentReference
  rw [if_neg (by simp [huncompressed]), hdisk]
  change (if _ then _ else _) = _
  rw [if_neg (by omega), if_neg (by omega), if_neg (by omega)]
  exact hslice

end

/-- Entries of one file agree on how it is read. -/
def EntriesAgree (entries : IndexEntries) : Prop :=
  ∀ (address other : PackFileAddress) (entry otherEntry : PackFileIndexEntry),
    entries[address]? = some entry → entries[other]? = some otherEntry →
      entry.content.file = otherEntry.content.file →
        entry.content.compression = otherEntry.content.compression ∧
          entry.content.packSize = otherEntry.content.packSize

namespace PackFile

variable (compressors : Compressors) (disk : Disk)

/-- Every retained pack was read from disk for an entry of the index. -/
def BuffersSound (packFile : PackFile) : Prop :=
  ∀ (file : PathBuf) (retained : RetainedContentPack),
    packFile.contentBuffers.lookup file = some retained →
      (∃ (address : PackFileAddress) (entry : PackFileIndexEntry),
        packFile.index.entries[address]? = some entry ∧ entry.content.file = file ∧
          entry.content.compression = retained.compression ∧
            entry.content.packSize = retained.packSize) ∧
        readContentPack compressors disk file retained.compression retained.packSize =
          some retained.content

variable {compressors disk} {packFile : PackFile} {address : PackFileAddress}
  {entry : PackFileIndexEntry}

theorem buffersSound_open (collecting : Bool) :
    (openWithOptions disk collecting).BuffersSound compressors disk := by
  intro file retained hlookup
  rw [openWithOptions, AList.lookup_empty] at hlookup
  exact absurd hlookup.symm (Option.some_ne_none retained)

theorem buffersSound_insert (h : packFile.BuffersSound compressors disk)
    (hentry : packFile.index.entries[address]? = some entry) {pack : List UInt8}
    (hpack : readContentPack compressors disk entry.content.file entry.content.compression
      entry.content.packSize = some pack) :
    { packFile with
      contentBuffers := packFile.contentBuffers.insert entry.content.file
        ⟨entry.content.compression, entry.content.packSize, pack⟩ }.BuffersSound compressors disk := by
  intro file retained hlookup
  by_cases hfile : file = entry.content.file
  · rw [hfile, AList.lookup_insert] at hlookup
    cases hlookup
    rw [hfile]
    exact ⟨⟨address, entry, hentry, rfl, rfl, rfl⟩, hpack⟩
  · rw [AList.lookup_insert_ne hfile] at hlookup
    exact h file retained hlookup

/-- Loading changes the buffers only, and keeps them sound. -/
theorem loadContent_keeps (h : packFile.BuffersSound compressors disk)
    (hentry : packFile.index.entries[address]? = some entry) :
    (packFile.loadContent compressors disk entry.content).2.index = packFile.index ∧
      (packFile.loadContent compressors disk entry.content).2.BuffersSound compressors disk := by
  unfold loadContent
  split_ifs with hcollecting huncompressed
  · exact ⟨rfl, h⟩
  · exact ⟨rfl, h⟩
  · unfold retainContent
    split_ifs with hretained
    · exact ⟨rfl, h⟩
    · cases hpack : readContentPack compressors disk entry.content.file entry.content.compression
        entry.content.packSize with
      | none => exact ⟨rfl, h⟩
      | some pack => exact ⟨rfl, buffersSound_insert h hentry hpack⟩

theorem loadContent_frame (h : packFile.BuffersSound compressors disk)
    (hagree : EntriesAgree packFile.index.entries)
    (hentry : packFile.index.entries[address]? = some entry) {frame : List UInt8}
    (hframe : frameAt compressors disk entry.content = some frame) :
    ∃ loaded, (packFile.loadContent compressors disk entry.content).1 = some loaded ∧
      sliceBytes loaded.content loaded.start loaded.stop = some frame := by
  obtain ⟨pack, hpack, hrange, hslice⟩ := of_frameAt hframe
  unfold loadContent
  split_ifs with hcollecting huncompressed
  · rw [readContentReference_eq hframe huncompressed]
    exact ⟨_, rfl, sliceBytes_all frame⟩
  · rw [hpack]
    change ∃ loaded, (do
      let range ← contentFrameRange pack.length entry.content
      some (⟨pack, range.1, range.2⟩ : LoadedContent)) = some loaded ∧ _
    rw [hrange]
    exact ⟨_, rfl, hslice⟩
  · have hload : ∀ retained : RetainedContentPack, retained.compression = entry.content.compression →
        retained.packSize = entry.content.packSize → retained.content = pack →
        ∀ buffers : FxHashMap PathBuf RetainedContentPack,
          buffers.lookup entry.content.file = some retained →
          loadRetained buffers entry.content =
            some ⟨pack, entry.content.offset.toNat,
              entry.content.offset.toNat + entry.content.length.toNat⟩ := by
      rintro retained hcompression hsize rfl buffers hlookup
      rw [loadRetained, hlookup]
      change (if _ then _ else _) = _
      rw [if_neg (by simp [hcompression, hsize]), hrange]
      rfl
    unfold retainContent
    split_ifs with hretained
    · obtain ⟨retained, hlookup⟩ := Option.isSome_iff_exists.mp (AList.lookup_isSome.mpr hretained)
      obtain ⟨⟨other, otherEntry, hother, hfile, hcompression, hsize⟩, hread⟩ :=
        h entry.content.file retained hlookup
      obtain ⟨hsame, hsameSize⟩ := hagree address other entry otherEntry hentry hother hfile.symm
      rw [← hcompression, ← hsize, ← hsame, ← hsameSize, hpack] at hread
      exact ⟨_, hload retained (by rw [← hcompression, hsame]) (by rw [← hsize, hsameSize])
        (Option.some_inj.mp hread).symm packFile.contentBuffers hlookup, hslice⟩
    · rw [hpack]
      exact ⟨_, hload ⟨_, _, pack⟩ rfl rfl rfl _ (AList.lookup_insert _), hslice⟩

/-- An entry that holds on disk is restored under its etag as the record of its payload. -/
theorem get_eq {kind : RecordKind} {payload : List UInt8} (h : packFile.BuffersSound compressors disk)
    (hagree : EntriesAgree packFile.index.entries)
    (hentry : packFile.index.entries[address]? = some entry)
    (hholds : EntryHolds compressors disk entry payload) (htype : entry.typeId = kind.typeId)
    (hcodec : entry.codecId = kind.codecId) :
    (packFile.get compressors disk kind address entry.etag).1 = kind.decode payload := by
  obtain ⟨frame, hencode, hframe, hchecksum⟩ := hholds.frame
  obtain ⟨loaded, hloaded, hslice⟩ := loadContent_frame h hagree hentry hframe
  have hcodecs : Serializer.matchesCodec kind entry.codecId = true := by
    simp [Serializer.matchesCodec, hcodec]
  unfold get prepareRestore
  rw [hentry]
  dsimp only
  rw [if_neg (by simp [htype]), if_neg (by simp [hcodecs])]
  dsimp only
  rw [hloaded]
  change (do
    let frame ← sliceBytes loaded.content loaded.start loaded.stop
    let content ← decodeIndexedContent frame entry.content.checksum
    if content.1 ≠ entry.typeId ∨ content.2.1 ≠ entry.codecId then none
    else Serializer.decode kind content.1 content.2.1 content.2.2) = kind.decode payload
  rw [hslice]
  change (do
    let content ← decodeIndexedContent frame entry.content.checksum
    if content.1 ≠ entry.typeId ∨ content.2.1 ≠ entry.codecId then none
    else Serializer.decode kind content.1 content.2.1 content.2.2) = kind.decode payload
  rw [← hchecksum, (decode_encodeContent hencode).2]
  change (if _ then _ else Serializer.decode kind entry.typeId entry.codecId payload) = _
  rw [if_neg (by simp), Serializer.decode, if_neg (by simp [htype, hcodecs])]

theorem get_keeps (h : packFile.BuffersSound compressors disk) (kind : RecordKind)
    (address : PackFileAddress) (etag : Option PackFileETag) :
    (packFile.get compressors disk kind address etag).2.index = packFile.index ∧
      (packFile.get compressors disk kind address etag).2.BuffersSound compressors disk := by
  unfold get prepareRestore
  cases hentry : packFile.index.entries[address]? with
  | none => exact ⟨rfl, h⟩
  | some entry =>
    dsimp only
    split_ifs with hetag hcodec
    · exact ⟨rfl, h⟩
    · exact ⟨rfl, h⟩
    · exact loadContent_keeps h hentry

end PackFile

end Unpack
