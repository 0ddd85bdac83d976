import Unpack.PackFileIndex
import Unpack.ModuleGraph

/-! Pack files on disk: the kinds of records and their codecs, content frames, how a content pack is
compressed and read, and how an opened pack file restores a record, with or without keeping the packs that
it has read. -/

namespace Unpack

open Codec Decoder

inductive RecordKind where
  | resolve
  | moduleBuild
  | codeGeneration
  | assetRender
  deriving DecidableEq

/-- The records that the serializer has a codec for. -/
inductive CacheRecord where
  | resolve (record : ResolveRecordDto)
  | moduleBuild (record : ModuleBuildRecordDto)
  | codeGeneration (record : CodeGenerationRecordDto)
  | assetRender (record : AssetRenderRecordDto)
  deriving DecidableEq

def CacheRecord.kind : CacheRecord → RecordKind
  | resolve _ => .resolve
  | moduleBuild _ => .moduleBuild
  | codeGeneration _ => .codeGeneration
  | assetRender _ => .assetRender

namespace RecordKind

def typeId : RecordKind → StableTypeId
  | resolve => ⟨utf8Bytes "unpack.resolve.1", by decide +kernel⟩
  | moduleBuild => ⟨utf8Bytes "unpack.moduleb.1", by decide +kernel⟩
  | codeGeneration => ⟨utf8Bytes "unpack.codegen.1", by decide +kernel⟩
  | assetRender => ⟨utf8Bytes "unpack.asset-r.1", by decide +kernel⟩

def codecId : RecordKind → StableCodecId
  | resolve => ⟨utf8Bytes "unpack.rslv.c001", by decide +kernel⟩
  | moduleBuild => ⟨utf8Bytes "unpack.modb.c005", by decide +kernel⟩
  | codeGeneration => ⟨utf8Bytes "unpack.cgen.c003", by decide +kernel⟩
  | assetRender => ⟨utf8Bytes "unpack.astr.c001", by decide +kernel⟩

def decode : RecordKind → List UInt8 → Option CacheRecord
  | resolve, bytes => (decodeResolveRecord bytes).map .resolve
  | moduleBuild, bytes => (decodeModuleBuildRecord bytes).map .moduleBuild
  | codeGeneration, bytes => (decodeCodeGenerationRecord bytes).map .codeGeneration
  | assetRender, bytes => (decodeAssetRenderRecord bytes).map .assetRender

end RecordKind

namespace CacheRecord

def encode : CacheRecord → Except IoError (List UInt8)
  | resolve record => encodeResolveRecord record
  | moduleBuild record => encodeModuleBuildRecord record
  | codeGeneration record => encodeCodeGenerationRecord record
  | assetRender record => encodeAssetRenderRecord record

end CacheRecord

namespace Serializer

def encode (record : CacheRecord) : Except IoError (StableCodecId × List UInt8) := do
  let payload ← record.encode
  if maxRecordBytes < payload.length then
    .error (invalidData "serialized item exceeds the configured bound")
  else .ok (record.kind.codecId, payload)

def matchesCodec (kind : RecordKind) (codecId : StableCodecId) : Bool := kind.codecId = codecId

def decode (kind : RecordKind) (typeId : StableTypeId) (codecId : StableCodecId) (bytes : List UInt8) :
    Option CacheRecord :=
  if typeId ≠ kind.typeId ∨ !matchesCodec kind codecId then none else kind.decode bytes

end Serializer

def encodeContent (typeId : StableTypeId) (codecId : StableCodecId) (payload : List UInt8) :
    Except IoError (List UInt8) :=
  if maxRecordBytes < payload.length then
    .error (invalidData "PackFile record exceeds the configured bound")
  else
    encodeFrame contentMagic (typeId.bytes ++ (codecId.bytes ++ (Codec.littleEndian 8 payload.length ++
      (Codec.littleEndian 8 (checksum payload).toNat ++ payload)))) maxContentBytes

/-- The parts of the body of a frame, and the checksum that it records. -/
def contentBody : Decoder (StableTypeId × StableCodecId × UInt64 × List UInt8) := do
  let typeId ← readTypeId
  let codecId ← readCodecId
  let length ← readU64
  if maxRecordBytes < length.toNat then failure
  else do
    let expectedChecksum ← readU64
    let payload ← readExact length.toNat
    pure (typeId, codecId, expectedChecksum, payload)

def decodeContentBody (body : List UInt8) (verifyPayloadChecksum : Bool) :
    Option (StableTypeId × StableCodecId × List UInt8) := do
  let (typeId, codecId, expectedChecksum, payload) ← decodeWhole contentBody body
  if !verifyPayloadChecksum || checksum payload = expectedChecksum then some (typeId, codecId, payload)
  else none

def decodeContent (bytes : List UInt8) : Option (StableTypeId × StableCodecId × List UInt8) := do
  let body ← decodeFrame bytes contentMagic maxContentBytes
  decodeContentBody body true

def decodeIndexedContent (bytes : List UInt8) (expectedChecksum : UInt64) :
    Option (StableTypeId × StableCodecId × List UInt8) :=
  if checksum bytes ≠ expectedChecksum then none
  else do
    let body ← decodeFrameUnchecked bytes contentMagic maxContentBytes
    decodeContentBody body false

/-- The compression libraries: what each writes, and what it makes of an input. -/
structure Compressors where
  gzip : List UInt8 → List UInt8
  gunzip : List UInt8 → Option (List UInt8)
  brotli : List UInt8 → List UInt8
  unbrotli : List UInt8 → Option (List UInt8)

structure Compressors.Lossless (compressors : Compressors) : Prop where
  gunzip_gzip : ∀ bytes, compressors.gunzip (compressors.gzip bytes) = some bytes
  unbrotli_brotli : ∀ bytes, compressors.unbrotli (compressors.brotli bytes) = some bytes

def maxEncodedContentBytes : Nat := 40 * 1024 * 1024

/-- The files below the root. Directories are not kept: an effect on a file is not told apart by them. -/
abbrev Disk := PathBuf → Option (List UInt8)

section

variable (compressors : Compressors)

def encodeContentPack (content : List UInt8) (compression : PackFileCompression) :
    Except IoError (List UInt8) :=
  let encoded := match compression with
    | .none => content
    | .gzip => compressors.gzip content
    | .brotli => compressors.brotli content
  if maxEncodedContentBytes < encoded.length then
    .error (invalidData "encoded content pack exceeds the configured bound")
  else .ok encoded

def readBounded (disk : Disk) (path : PathBuf) (maximum : Nat) : Option (List UInt8) := do
  let bytes ← disk path
  if maximum < bytes.length then none else some bytes

/-- Decompression stops one byte after the expected size. -/
def readDecompressedPack (content : Option (List UInt8)) (expectedSize : Nat) : Option (List UInt8) := do
  let content ← content
  if content.length = expectedSize then some content else none

def readContentPack (disk : Disk) (path : PathBuf) (compression : PackFileCompression)
    (expectedSize : UInt64) : Option (List UInt8) :=
  if maxContentBytes < expectedSize.toNat then none
  else
    match compression with
    | .none => do
        let bytes ← readBounded disk path maxContentBytes
        if bytes.length = expectedSize.toNat then some bytes else none
    | .gzip => do
        let encoded ← readBounded disk path maxEncodedContentBytes
        readDecompressedPack (compressors.gunzip encoded) expectedSize.toNat
    | .brotli => do
        let encoded ← readBounded disk path maxEncodedContentBytes
        readDecompressedPack (compressors.unbrotli encoded) expectedSize.toNat

def contentFrameRange (packLength : Nat) (reference : ContentReference) : Option (Nat × Nat) :=
  let stop := reference.offset.toNat + reference.length.toNat
  if stop ≤ packLength then some (reference.offset.toNat, stop) else none

/-- `slice::get` of a range. -/
def sliceBytes (bytes : List UInt8) (start stop : Nat) : Option (List UInt8) :=
  if start ≤ stop ∧ stop ≤ bytes.length then some ((bytes.drop start).take (stop - start)) else none

def readContentReference (disk : Disk) (reference : ContentReference) : Option (List UInt8) :=
  if reference.compression ≠ .none then do
    let pack ← readContentPack compressors disk reference.file reference.compression reference.packSize
    let (start, stop) ← contentFrameRange pack.length reference
    sliceBytes pack start stop
  else do
    let bytes ← disk reference.file
    if maxContentBytes < bytes.length ∨ bytes.length ≠ reference.packSize.toNat then none
    else if bytes.length < reference.offset.toNat + reference.length.toNat then none
    else if maxContentBytes < reference.length.toNat then none
    else
      sliceBytes bytes reference.offset.toNat (reference.offset.toNat + reference.length.toNat)

end

structure RetainedContentPack where
  compression : PackFileCompression
  packSize : UInt64
  content : List UInt8

structure PackFile where
  index : PackFileIndex
  accessUpdates : BTreeMap PackFileAddress UInt64 := ∅
  allowCollectingMemory : Bool
  contentBuffers : FxHashMap PathBuf RetainedContentPack := ∅

structure LoadedContent where
  content : List UInt8
  start : Nat
  stop : Nat

structure PackFileRestore where
  kind : RecordKind
  typeId : StableTypeId
  codecId : StableCodecId
  checksum : UInt64
  loaded : LoadedContent

def PackFileRestore.decode (restore : PackFileRestore) : Option CacheRecord := do
  let frame ← sliceBytes restore.loaded.content restore.loaded.start restore.loaded.stop
  let (typeId, codecId, payload) ← decodeIndexedContent frame restore.checksum
  if typeId ≠ restore.typeId ∨ codecId ≠ restore.codecId then none
  else Serializer.decode restore.kind typeId codecId payload

def indexFile : PathBuf := ["index.pack"]

def readIndex (disk : Disk) : PackFileIndex :=
  ((readBounded disk indexFile maxIndexBytes).bind decodeIndex).getD {}

namespace PackFile

def openWithOptions (disk : Disk) (allowCollectingMemory : Bool) : PackFile where
  index := readIndex disk
  allowCollectingMemory

def touch (packFile : PackFile) (address : PackFileAddress) (etag : Option PackFileETag) (stamp : UInt64) :
    Bool × PackFile :=
  match packFile.index.entries[address]? with
  | none => (false, packFile)
  | some entry =>
      if entry.etag ≠ etag then (false, packFile)
      else
        let stamp := max stamp entry.lastAccess
        match packFile.accessUpdates[address]? with
        | none => (true, { packFile with accessUpdates := packFile.accessUpdates.insert address stamp })
        | some current =>
            if current < stamp then
              (true, { packFile with accessUpdates := packFile.accessUpdates.insert address stamp })
            else (false, packFile)

variable (compressors : Compressors)

/-- The pack of a reference, from the buffers or from disk, and the buffers after that. -/
def retainContent (packFile : PackFile) (disk : Disk) (reference : ContentReference) :
    Option (FxHashMap PathBuf RetainedContentPack) :=
  if reference.file ∈ packFile.contentBuffers then some packFile.contentBuffers
  else do
    let pack ← readContentPack compressors disk reference.file reference.compression reference.packSize
    some (packFile.contentBuffers.insert reference.file ⟨reference.compression, reference.packSize, pack⟩)

def loadRetained (buffers : FxHashMap PathBuf RetainedContentPack) (reference : ContentReference) :
    Option LoadedContent := do
  let retained ← buffers.lookup reference.file
  if retained.compression ≠ reference.compression ∨ retained.packSize ≠ reference.packSize then none
  else do
    let (start, stop) ← contentFrameRange retained.content.length reference
    some ⟨retained.content, start, stop⟩

def loadContent (packFile : PackFile) (disk : Disk) (reference : ContentReference) :
    Option LoadedContent × PackFile :=
  if packFile.allowCollectingMemory then
    if reference.compression = .none then
      ((readContentReference compressors disk reference).map fun content =>
        ⟨content, 0, content.length⟩, packFile)
    else
      (do
        let content ← readContentPack compressors disk reference.file reference.compression
          reference.packSize
        let (start, stop) ← contentFrameRange content.length reference
        some ⟨content, start, stop⟩, packFile)
  else
    match packFile.retainContent compressors disk reference with
    | none => (none, packFile)
    | some buffers => (loadRetained buffers reference, { packFile with contentBuffers := buffers })

def prepareRestore (packFile : PackFile) (disk : Disk) (kind : RecordKind) (address : PackFileAddress)
    (etag : Option PackFileETag) : Option PackFileRestore × PackFile :=
  match packFile.index.entries[address]? with
  | none => (none, packFile)
  | some entry =>
      if entry.etag ≠ etag ∨ entry.typeId ≠ kind.typeId then (none, packFile)
      else if !Serializer.matchesCodec kind entry.codecId then (none, packFile)
      else
        let (loaded, packFile) := packFile.loadContent compressors disk entry.content
        (loaded.map fun loaded => ⟨kind, entry.typeId, entry.codecId, entry.content.checksum, loaded⟩,
          packFile)

/-- `prepare_restore` and then `decode`. -/
def get (packFile : PackFile) (disk : Disk) (kind : RecordKind) (address : PackFileAddress)
    (etag : Option PackFileETag) : Option CacheRecord × PackFile :=
  let (restore, packFile) := packFile.prepareRestore compressors disk kind address etag
  (restore.bind PackFileRestore.decode, packFile)

end PackFile

end Unpack
