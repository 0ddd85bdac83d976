import Unpack.PackFileRoundTrip
import Unpack.PackFilePath

/-! The index of a pack file: the entries with the content frames they point at, how the index is written
inside a checksummed frame, and that a well-formed index is read back as it was written. -/

namespace Unpack

open Codec Encoder Decoder

abbrev BTreeMap (α β : Type) [Ord α] := Std.ExtTreeMap α β

structure PackFileAddress where
  namespaceBytes : List UInt8
  identifier : List UInt8
  deriving DecidableEq

namespace PackFileAddress

/-- The derived order. -/
instance : Ord PackFileAddress := ⟨compareLex (compareOn namespaceBytes) (compareOn identifier)⟩

instance : Std.TransOrd PackFileAddress := inferInstanceAs (Std.TransCmp (compareLex _ _))

instance : Std.LawfulEqOrd PackFileAddress where
  eq_of_compare {left right} h := by
    obtain ⟨hnamespace, hidentifier⟩ := compareLex_eq_eq.mp h
    cases left
    cases right
    cases Std.LawfulEqOrd.eq_of_compare hnamespace
    cases Std.LawfulEqOrd.eq_of_compare hidentifier
    rfl

end PackFileAddress

abbrev PackFileETag := List UInt8

/-- Sixteen bytes. -/
structure StableTypeId where
  bytes : List UInt8
  length_eq : bytes.length = 16
  deriving DecidableEq

structure StableCodecId where
  bytes : List UInt8
  length_eq : bytes.length = 16
  deriving DecidableEq

structure ContentReference where
  file : PathBuf
  offset : UInt64
  length : UInt64
  checksum : UInt64
  packSize : UInt64
  compression : PackFileCompression
  deriving DecidableEq

/-- `unusedSinceRevision` is the first revision that carried the entry forward without an access. -/
structure PackFileIndexEntry where
  etag : Option PackFileETag
  typeId : StableTypeId
  codecId : StableCodecId
  content : ContentReference
  lastAccess : UInt64
  lastUsedRevision : UInt64
  unusedSinceRevision : Option UInt64
  deriving DecidableEq

structure PackFileGuardDto where
  version : List UInt8
  buildDependencies : SnapshotDto
  resolveBuildDependencies : SnapshotDto
  deriving DecidableEq

structure PackFileIndex where
  revision : UInt64 := 0
  guard : Option PackFileGuardDto := none
  entries : BTreeMap PackFileAddress PackFileIndexEntry := ∅

def maxIndexBytes : Nat := 16 * 1024 * 1024

def maxContentBytes : Nat := 32 * 1024 * 1024

def indexMagic : List UInt8 := utf8Bytes "UNPACK-PACKFILE-INDEX" ++ [0]

def contentMagic : List UInt8 := utf8Bytes "UNPACK-PACKFILE-CONTENT" ++ [0]

def checksum : List UInt8 → UInt64 := stableHashBytes

/-- The magic, the length and the checksum of the body, and the body. -/
def frameBytes (magic body : List UInt8) : List UInt8 :=
  magic ++ (Codec.littleEndian 8 body.length ++ Codec.littleEndian 8 (checksum body).toNat) ++ body

def encodeFrame (magic body : List UInt8) (maximum : Nat) : Except IoError (List UInt8) :=
  if 2 ^ 64 ≤ magic.length + 16 + body.length then .error (invalidData "PackFile frame overflow")
  else if maximum < magic.length + 16 + body.length then
    .error (invalidData "PackFile frame exceeds the configured bound")
  else .ok (frameBytes magic body)

def decodeFrameParts (bytes magic : List UInt8) (maximum : Nat) : Option (List UInt8 × UInt64) :=
  let header := (bytes.drop magic.length).take 16
  if maximum < bytes.length || !magic.isPrefixOf bytes then none
  else if header.length < 16 then none
  else if magic.length + 16 + ofLittleEndian (header.take 8) ≠ bytes.length then none
  else some (bytes.drop (magic.length + 16), UInt64.ofNat (ofLittleEndian (header.drop 8)))

def decodeFrame (bytes magic : List UInt8) (maximum : Nat) : Option (List UInt8) := do
  let (body, expectedChecksum) ← decodeFrameParts bytes magic maximum
  if checksum body = expectedChecksum then some body else none

def decodeFrameUnchecked (bytes magic : List UInt8) (maximum : Nat) : Option (List UInt8) := do
  let (body, _) ← decodeFrameParts bytes magic maximum
  some body

theorem length_frameBytes (magic body : List UInt8) :
    (frameBytes magic body).length = magic.length + 16 + body.length := by
  simp only [frameBytes, List.length_append, length_littleEndian]

theorem of_encodeFrame {magic body bytes : List UInt8} {maximum : Nat}
    (h : encodeFrame magic body maximum = .ok bytes) :
    bytes = frameBytes magic body ∧ bytes.length ≤ maximum ∧ bytes.length < 2 ^ 64 := by
  unfold encodeFrame at h
  split_ifs at h with hoverflow hbound
  cases h
  rw [length_frameBytes]
  exact ⟨rfl, by omega, by omega⟩

/-- What follows a frame makes it too long. -/
theorem decodeFrameParts_frameBytes {magic body : List UInt8} (maximum : Nat) (extra : List UInt8)
    (hbound : (frameBytes magic body ++ extra).length ≤ maximum)
    (hlarge : (frameBytes magic body).length < 2 ^ 64) :
    decodeFrameParts (frameBytes magic body ++ extra) magic maximum =
      if extra.isEmpty then some (body, checksum body) else none := by
  rw [length_frameBytes] at hlarge
  have hheader : (Codec.littleEndian 8 body.length ++
      Codec.littleEndian 8 (checksum body).toNat).length = 16 := by
    simp
  have hdrop : (frameBytes magic body ++ extra).drop magic.length =
      (Codec.littleEndian 8 body.length ++ Codec.littleEndian 8 (checksum body).toNat) ++
        (body ++ extra) := by
    rw [frameBytes, List.append_assoc, List.append_assoc, List.drop_left]
  have hbody : ofLittleEndian (Codec.littleEndian 8 body.length) = body.length :=
    ofLittleEndian_littleEndian (by omega)
  have hchecksum : ofLittleEndian (Codec.littleEndian 8 (checksum body).toNat) =
      (checksum body).toNat :=
    ofLittleEndian_littleEndian (checksum body).toNat_lt
  have hmagic : magic.isPrefixOf (frameBytes magic body ++ extra) := by
    rw [frameBytes, List.append_assoc, List.append_assoc]
    simp
  unfold decodeFrameParts
  dsimp only
  rw [← List.drop_drop, hdrop, List.take_left' hheader, List.drop_left' hheader, hheader,
    List.take_left' (length_littleEndian ..), List.drop_left' (length_littleEndian ..), hbody, hchecksum,
    UInt64.ofNat_toNat, hmagic, if_neg (by simpa using hbound), if_neg (by omega), List.length_append,
    length_frameBytes]
  cases extra with
  | nil => simp
  | cons byte extra =>
    rw [if_pos (by simp)]
    rfl

theorem decodeFrame_encodeFrame {magic body bytes : List UInt8} {maximum : Nat}
    (h : encodeFrame magic body maximum = .ok bytes) :
    decodeFrame bytes magic maximum = some body ∧ decodeFrameUnchecked bytes magic maximum = some body ∧
      ∀ extra, extra ≠ [] → decodeFrame (bytes ++ extra) magic maximum = none := by
  obtain ⟨rfl, hbound, hlarge⟩ := of_encodeFrame h
  have hparts := decodeFrameParts_frameBytes maximum [] (by rwa [List.append_nil]) hlarge
  rw [List.append_nil] at hparts
  refine ⟨?_, ?_, fun extra hextra => ?_⟩
  · rw [decodeFrame, hparts]
    exact if_pos rfl
  · rw [decodeFrameUnchecked, hparts]
    rfl
  · unfold decodeFrame
    by_cases hlong : (frameBytes magic body ++ extra).length ≤ maximum
    · rw [decodeFrameParts_frameBytes maximum extra hlong hlarge, if_neg (by simpa using hextra)]
      rfl
    · have hparts : decodeFrameParts (frameBytes magic body ++ extra) magic maximum = none := by
        unfold decodeFrameParts
        dsimp only
        rw [if_pos (by simpa using Or.inl hlong)]
      rw [hparts]
      rfl

def PackFileCompression.tag : PackFileCompression → UInt8
  | none => 0
  | gzip => 1
  | brotli => 2

def encodeGuard (guard : PackFileGuardDto) : Encoder Unit := do
  writeBytes guard.version
  encodeSnapshot guard.buildDependencies
  encodeSnapshot guard.resolveBuildDependencies

def encodeIndexEntry (item : PackFileAddress × PackFileIndexEntry) : Encoder Unit := do
  writeBytes item.1.namespaceBytes
  writeBytes item.1.identifier
  writeOptionalBytes item.2.etag
  writeRaw item.2.typeId.bytes
  writeRaw item.2.codecId.bytes
  writeString (pathText item.2.content.file)
  writeU64 item.2.content.offset
  writeU64 item.2.content.length
  writeU64 item.2.content.checksum
  writeU64 item.2.content.packSize
  writeU8 item.2.content.compression.tag
  writeU64 item.2.lastAccess
  writeU64 item.2.lastUsedRevision
  writeOptionalU64 item.2.unusedSinceRevision

def encodeIndexBody (index : PackFileIndex) : Encoder Unit := do
  writeU64 index.revision
  writeOptional encodeGuard index.guard
  writeMany encodeIndexEntry index.entries.toList

def encodeIndex (index : PackFileIndex) : Except IoError (List UInt8) := do
  let body ← encodeWhole (encodeIndexBody index)
  encodeFrame indexMagic body maxIndexBytes

def decodeGuard : Decoder PackFileGuardDto := do
  let version ← readBytes
  let buildDependencies ← decodeSnapshot
  let resolveBuildDependencies ← decodeSnapshot
  pure ⟨version, buildDependencies, resolveBuildDependencies⟩

def readTypeId : Decoder StableTypeId := do
  let bytes ← readArray 16
  pure ⟨bytes.1, bytes.2⟩

def readCodecId : Decoder StableCodecId := do
  let bytes ← readArray 16
  pure ⟨bytes.1, bytes.2⟩

def readSafePath : Decoder PathBuf := do
  let text ← readString
  StateT.lift (safeRelativePath text)

def decodeCompression : Decoder PackFileCompression := do
  match ← readU8 with
  | 0 => pure .none
  | 1 => pure .gzip
  | 2 => pure .brotli
  | _ => failure

/-- The frame lies inside its pack, and the pack is not too large. -/
def ContentReference.IsBounded (reference : ContentReference) : Prop :=
  reference.length.toNat ≤ maxContentBytes ∧ reference.packSize.toNat ≤ maxContentBytes ∧
    reference.offset.toNat + reference.length.toNat ≤ reference.packSize.toNat

instance (reference : ContentReference) : Decidable reference.IsBounded :=
  inferInstanceAs (Decidable (_ ∧ _))

def PackFileIndexEntry.revisionsAreValid (entry : PackFileIndexEntry) (revision : UInt64) : Bool :=
  entry.lastUsedRevision ≤ revision &&
    entry.unusedSinceRevision.all fun unusedSince =>
      unusedSince ≤ revision && entry.lastUsedRevision ≤ unusedSince

/-- The bounds and the revisions are checked once all of the entry has been read. -/
def decodeIndexEntry (revision : UInt64) : Decoder (PackFileAddress × PackFileIndexEntry) := do
  let namespaceBytes ← readBytes
  let identifier ← readBytes
  let etag ← readOptionalBytes
  let typeId ← readTypeId
  let codecId ← readCodecId
  let file ← readSafePath
  let offset ← readU64
  let length ← readU64
  let contentChecksum ← readU64
  let packSize ← readU64
  let compression ← decodeCompression
  let lastAccess ← readU64
  let lastUsedRevision ← readU64
  let unusedSinceRevision ← readOptionalU64
  let content : ContentReference := ⟨file, offset, length, contentChecksum, packSize, compression⟩
  let entry : PackFileIndexEntry :=
    ⟨etag, typeId, codecId, content, lastAccess, lastUsedRevision, unusedSinceRevision⟩
  if content.IsBounded ∧ entry.revisionsAreValid revision then
    pure (⟨namespaceBytes, identifier⟩, entry)
  else failure

def decodeIndexBody : Decoder PackFileIndex := do
  let revision ← readU64
  let guard ← readOptional decodeGuard
  let items ← readMany (decodeIndexEntry revision)
  pure ⟨revision, guard, .ofList items⟩

def decodeIndex (bytes : List UInt8) : Option PackFileIndex := do
  let body ← decodeFrame bytes indexMagic maxIndexBytes
  decodeWhole decodeIndexBody body

/-- What the reader of an index demands of an entry. -/
structure PackFileIndexEntry.WellFormed (entry : PackFileIndexEntry) (revision : UInt64) : Prop where
  path : IsRelativePath entry.content.file
  bounded : entry.content.IsBounded
  revisions : entry.revisionsAreValid revision

def PackFileIndex.WellFormed (index : PackFileIndex) : Prop :=
  ∀ (address : PackFileAddress) (entry : PackFileIndexEntry),
    index.entries[address]? = some entry → entry.WellFormed index.revision

theorem reads_guard (guard : PackFileGuardDto) : Reads (encodeGuard guard) decodeGuard guard :=
  (reads_bytesWithLimit _ _).bind ((reads_snapshot _).bind ((reads_snapshot _).map _))

theorem reads_typeId (typeId : StableTypeId) :
    Reads (ε := IoError) (writeRaw typeId.bytes) readTypeId typeId :=
  (reads_readArray ⟨typeId.bytes, typeId.length_eq⟩).map _

theorem reads_codecId (codecId : StableCodecId) :
    Reads (ε := IoError) (writeRaw codecId.bytes) readCodecId codecId :=
  (reads_readArray ⟨codecId.bytes, codecId.length_eq⟩).map _

theorem reads_safePath {path : PathBuf} (h : IsRelativePath path) :
    Reads (writeString (pathText path)) readSafePath path := by
  refine (reads_string (pathText path)).last ?_
  rw [safeRelativePath_pathText h]
  rfl

theorem reads_compression (compression : PackFileCompression) :
    Reads (writeU8 compression.tag) decodeCompression compression := by
  cases compression <;> exact (reads_u8 _).last rfl

theorem reads_indexEntry {item : PackFileAddress × PackFileIndexEntry} {revision : UInt64}
    (h : item.2.WellFormed revision) : Reads (encodeIndexEntry item) (decodeIndexEntry revision) item := by
  have hbytes : ∀ value, Reads (writeBytes value) readBytes value :=
    fun value => reads_bytesWithLimit value maxFieldBytes
  refine (hbytes _).bind ((hbytes _).bind ((reads_optional hbytes _).bind ?_))
  refine (reads_typeId _).bind ((reads_codecId _).bind ((reads_safePath h.path).bind ?_))
  refine (reads_u64 _).bind ((reads_u64 _).bind ((reads_u64 _).bind ((reads_u64 _).bind ?_)))
  refine (reads_compression _).bind ((reads_u64 _).bind ((reads_u64 _).bind ?_))
  refine (reads_optional reads_u64 _).last ?_
  exact if_pos ⟨h.bounded, h.revisions⟩

theorem ofList_toList {α β : Type} [Ord α] [Std.TransOrd α] [Std.LawfulEqOrd α] [DecidableEq α]
    (map : BTreeMap α β) : Std.ExtTreeMap.ofList map.toList = map := by
  apply Std.ExtTreeMap.ext_getElem?
  intro key
  cases hentry : map[key]? with
  | none =>
    apply Std.ExtTreeMap.getElem?_ofList_of_contains_eq_false
    rw [Std.ExtTreeMap.map_fst_toList_eq_keys]
    simpa using hentry
  | some value =>
    apply Std.ExtTreeMap.getElem?_ofList_of_mem Std.ReflCmp.compare_self
      Std.ExtTreeMap.distinct_keys_toList
    exact Std.ExtTreeMap.mem_toList_iff_getElem?_eq_some.mpr hentry

theorem mem_of_getElem?_ofList {α β : Type} [Ord α] [Std.TransOrd α] [Std.LawfulEqOrd α] [DecidableEq α]
    {items : List (α × β)} {key : α} {value : β}
    (h : (Std.ExtTreeMap.ofList items : BTreeMap α β)[key]? = some value) : (key, value) ∈ items := by
  induction items using List.reverseRecOn with
  | nil => simp at h
  | append_singleton items item ih =>
    rw [Std.ExtTreeMap.ofList_eq_foldl, List.foldl_concat, ← Std.ExtTreeMap.ofList_eq_foldl,
      Std.ExtTreeMap.getElem?_insert] at h
    split_ifs at h with heq
    · cases h
      rw [← Std.LawfulEqCmp.eq_of_compare heq]
      exact List.mem_append_right items List.mem_cons_self
    · exact List.mem_append_left _ (ih h)

theorem reads_indexBody {index : PackFileIndex} (h : index.WellFormed) :
    Reads (encodeIndexBody index) decodeIndexBody index := by
  have hitems : ∀ item ∈ index.entries.toList,
      Reads (encodeIndexEntry item) (decodeIndexEntry index.revision) item := by
    intro item hitem
    exact reads_indexEntry (h item.1 item.2 (Std.ExtTreeMap.mem_toList_iff_getElem?_eq_some.mp hitem))
  refine (reads_u64 _).bind ((reads_optional reads_guard _).bind ((reads_many hitems).last ?_))
  rw [ofList_toList]

theorem length_encodeIndex {index : PackFileIndex} {bytes : List UInt8}
    (h : encodeIndex index = .ok bytes) : bytes.length ≤ maxIndexBytes := by
  cases hbody : encodeWhole (encodeIndexBody index) with
  | error error => simp [encodeIndex, hbody, bind, Except.bind] at h
  | ok body =>
    have hframe : encodeFrame indexMagic body maxIndexBytes = .ok bytes := by
      simpa [encodeIndex, hbody, bind, Except.bind] using h
    exact (of_encodeFrame hframe).2.1

theorem decodeIndex_encodeIndex {index : PackFileIndex} {bytes : List UInt8} (h : index.WellFormed)
    (hencode : encodeIndex index = .ok bytes) :
    decodeIndex bytes = some index ∧ ∀ extra, extra ≠ [] → decodeIndex (bytes ++ extra) = none := by
  cases hbody : encodeWhole (encodeIndexBody index) with
  | error error => simp [encodeIndex, hbody, bind, Except.bind] at hencode
  | ok body =>
    have hframe : encodeFrame indexMagic body maxIndexBytes = .ok bytes := by
      simpa [encodeIndex, hbody, bind, Except.bind] using hencode
    obtain ⟨hdecode, -, hextra⟩ := decodeFrame_encodeFrame hframe
    refine ⟨?_, fun extra hne => ?_⟩
    · rw [decodeIndex, hdecode]
      exact ((reads_indexBody h).whole hbody).1
    · rw [decodeIndex, hextra extra hne]
      rfl

theorem returns_indexEntry (revision : UInt64) :
    Returns (decodeIndexEntry revision) fun item => item.2.WellFormed revision := by
  refine Returns.skip fun namespaceBytes => Returns.skip fun identifier => Returns.skip fun etag => ?_
  refine Returns.skip fun typeId => Returns.skip fun codecId => ?_
  have hpath : Returns readSafePath IsRelativePath :=
    Returns.skip fun text => Returns.lift fun path => isRelativePath_of_safe
  refine hpath.bind fun file hfile => Returns.skip fun offset => Returns.skip fun length => ?_
  refine Returns.skip fun contentChecksum => Returns.skip fun packSize => Returns.skip fun compression => ?_
  refine Returns.skip fun access => Returns.skip fun lastUsed => Returns.skip fun unusedSince => ?_
  dsimp only
  split_ifs with hvalid
  · exact Returns.pure ⟨hfile, hvalid.1, hvalid.2⟩
  · exact Returns.failure

theorem returns_indexBody : Returns decodeIndexBody PackFileIndex.WellFormed := by
  refine Returns.skip fun revision => Returns.skip fun guard => ?_
  have hitems : Returns (readMany (decodeIndexEntry revision))
      fun items => ∀ item ∈ items, item.2.WellFormed revision :=
    Returns.skip fun count => Returns.readTimes (returns_indexEntry revision) count
  refine hitems.bind fun items hall => Returns.pure fun address entry hentry => ?_
  exact hall (address, entry) (mem_of_getElem?_ofList hentry)

theorem wellFormed_decodeIndex {bytes : List UInt8} {index : PackFileIndex}
    (h : decodeIndex bytes = some index) : index.WellFormed := by
  obtain ⟨body, -, hbody⟩ := Option.bind_eq_some_iff.mp h
  exact returns_indexBody body index [] (run_of_decodeWhole hbody)

end Unpack
