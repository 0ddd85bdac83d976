import Unpack.PackFile
import Unpack.Lib.EffectProgram
import Mathlib.Data.List.Sort

/-! Publication of a batch: which entries are carried over, which packs are rewritten with them, how the
staged frames are split into packs, and the effects on the files, from the content packs over the index to
the removal of packs that are no longer referenced. -/

namespace Unpack

open EffectProgram

structure PendingPackFileItem where
  etag : Option PackFileETag
  typeId : StableTypeId
  codecId : StableCodecId
  payload : List UInt8
  deriving DecidableEq

structure StagedContentItem where
  address : PackFileAddress
  pending : Option PendingPackFileItem
  frame : List UInt8
  used : Bool

structure PackFileWriteBatch where
  items : BTreeMap PackFileAddress PendingPackFileItem := ∅
  accesses : BTreeMap PackFileAddress UInt64 := ∅

namespace PackFileWriteBatch

def insert (batch : PackFileWriteBatch) (address : PackFileAddress) (etag : Option PackFileETag)
    (value : CacheRecord) : Except IoError PackFileWriteBatch := do
  let (codecId, payload) ← Serializer.encode value
  pure { batch with items := batch.items.insert address ⟨etag, value.kind.typeId, codecId, payload⟩ }

def recordAccess (batch : PackFileWriteBatch) (address : PackFileAddress) (stamp : UInt64) :
    PackFileWriteBatch :=
  { batch with
    accesses := batch.accesses.insert address ((batch.accesses[address]?).elim stamp (max · stamp)) }

end PackFileWriteBatch

/-- The maximum age is in nanoseconds. -/
structure PackFileRetention where
  now : UInt64
  maxAge : Nat

structure PackFileMaintenance where
  targetContentBytes : Nat
  smallContentBytes : Nat
  minimumCompactableWasteBytes : Nat

structure PackFilePublicationOptions where
  retention : PackFileRetention
  compression : PackFileCompression
  maintenance : PackFileMaintenance

def PackFileMaintenance.production : PackFileMaintenance where
  targetContentBytes := 4 * 1024 * 1024
  smallContentBytes := 256 * 1024
  minimumCompactableWasteBytes := 128 * 1024

inductive PublicationBase where
  | preserveEntries (expectedRevision : UInt64)
  | replaceAll
  deriving DecidableEq

abbrev IndexEntries := BTreeMap PackFileAddress PackFileIndexEntry

def entryIsExpired (entry : PackFileIndexEntry) (candidateRevision : UInt64)
    (retention : PackFileRetention) : Bool :=
  (entry.unusedSinceRevision.any (· < candidateRevision)) &&
    entry.lastAccess ≤ retention.now &&
      retention.maxAge < (retention.now - entry.lastAccess).toNat * 1000000

def baseEntries (current : PackFileIndex) : PublicationBase → Except IoError IndexEntries
  | .preserveEntries expectedRevision =>
      if current.revision = expectedRevision then .ok current.entries
      else .error ⟨.wouldBlock, "PackFile publication base revision changed"⟩
  | .replaceAll => .ok ∅

def nextRevision (current : PackFileIndex) : Except IoError UInt64 :=
  if current.revision.toNat + 1 < 2 ^ 64 then .ok (current.revision + 1)
  else .error (invalidData "PackFile revision overflow")

section

variable (batch : PackFileWriteBatch) (revision : UInt64)

/-- What a publication notes on an entry. -/
def carryEntry (address : PackFileAddress) (entry : PackFileIndexEntry) : PackFileIndexEntry :=
  if address ∈ batch.items then entry
  else
    match batch.accesses[address]? with
    | some access => { entry with
        lastAccess := max entry.lastAccess access
        lastUsedRevision := revision
        unusedSinceRevision := none }
    | none =>
        if entry.unusedSinceRevision.isNone then { entry with unusedSinceRevision := some revision }
        else entry

def carryEntries (retention : PackFileRetention) (entries : IndexEntries) : IndexEntries :=
  (entries.map (carryEntry batch revision)).filter fun address entry =>
    address ∈ batch.items || !entryIsExpired entry revision retention

end

section

variable (entries : IndexEntries)

/-- The carried addresses by the file of their content. -/
def entriesByContentFile (batch : PackFileWriteBatch) : BTreeMap PathBuf (List PackFileAddress) :=
  entries.toList.foldl (fun files item =>
    if item.1 ∈ batch.items then files
    else files.insert item.2.content.file ((files[item.2.content.file]?).getD [] ++ [item.1])) ∅

def isSmallUsed (maintenance : PackFileMaintenance) (addresses : List PackFileAddress) : Bool :=
  match addresses.head?.bind (entries[·]?) with
  | none => false
  | some first =>
      first.content.packSize.toNat ≤ maintenance.smallContentBytes &&
        addresses.any fun address => (entries[address]?).any (·.unusedSinceRevision.isNone)

/-- The live bytes of a pack, unless they overflow. -/
def liveBytes (addresses : List PackFileAddress) : Option Nat :=
  addresses.foldlM (fun total address => do
    let entry ← entries[address]?
    let sum := total + entry.content.length.toNat
    if sum < 2 ^ 64 then some sum else none) 0

def needsMaintenance (maintenance : PackFileMaintenance) (mergeSmallFiles : Bool)
    (addresses : List PackFileAddress) : Bool :=
  match addresses.head?.bind (entries[·]?), liveBytes entries addresses with
  | some first, some live =>
      let packSize := first.content.packSize.toNat
      let waste := packSize - live
      let compactable := maintenance.minimumCompactableWasteBytes ≤ waste && packSize * 25 ≤ waste * 100
      let oversized := maintenance.targetContentBytes < packSize
      compactable || oversized || (mergeSmallFiles && isSmallUsed entries maintenance addresses)
  | _, _ => false

def maintenanceSourceFiles (maintenance : PackFileMaintenance)
    (files : BTreeMap PathBuf (List PackFileAddress)) : List (PathBuf × List PackFileAddress) :=
  let smallUsedFiles := files.toList.filter fun item => isSmallUsed entries maintenance item.2
  files.toList.filter fun item =>
    needsMaintenance entries maintenance (2 ≤ smallUsedFiles.length) item.2

def stageFrame (pack : List UInt8) (address : PackFileAddress) (entry : PackFileIndexEntry) :
    Except IoError StagedContentItem :=
  let start := entry.content.offset.toNat
  match sliceBytes pack start (start + entry.content.length.toNat) with
  | none => .error (invalidData "content reference is out of bounds")
  | some frame =>
      let validFrame := checksum frame = entry.content.checksum ∧
        (decodeContent frame).any fun content =>
          content.1 = entry.typeId && content.2.1 = entry.codecId
      if validFrame then .ok ⟨address, none, frame, entry.unusedSinceRevision.isNone⟩
      else .error (invalidData "PackFile maintenance found invalid content")

def stageFile (compressors : Compressors) (disk : Disk) (item : PathBuf × List PackFileAddress) :
    Except IoError (List StagedContentItem) :=
  match item.2.head?.bind (entries[·]?) with
  | none => .ok []
  | some first =>
      match readContentPack compressors disk item.1 first.content.compression first.content.packSize with
      | none => .error (invalidData ("PackFile maintenance could not read " ++ pathText item.1))
      | some pack =>
          let carried := item.2.filterMap fun address => (entries[address]?).map fun entry =>
            (address, entry)
          (carried.insertionSort fun left right =>
            left.2.content.offset ≤ right.2.content.offset).mapM fun item => stageFrame pack item.1 item.2

def stageMaintenance (compressors : Compressors) (disk : Disk)
    (files : List (PathBuf × List PackFileAddress)) : Except IoError (List StagedContentItem) := do
  let staged ← files.mapM (stageFile entries compressors disk)
  pure staged.flatten

end

def stagePending (batch : PackFileWriteBatch) : Except IoError (List StagedContentItem) :=
  batch.items.toList.mapM fun item => do
    let frame ← encodeContent item.2.typeId item.2.codecId item.2.payload
    pure ⟨item.1, some item.2, frame, true⟩

structure Packing where
  packs : List (List StagedContentItem) := []
  currentPack : List StagedContentItem := []
  currentPackBytes : Nat := 0
  currentPackUsed : Option Bool := none

/-- The pack is full, or holds items that differ in use. -/
def Packing.isComplete (packing : Packing) (targetContentBytes : Nat) (item : StagedContentItem) : Bool :=
  !packing.currentPack.isEmpty && (packing.currentPackUsed ≠ some item.used ||
    targetContentBytes < packing.currentPackBytes + item.frame.length)

def Packing.close (packing : Packing) : Packing :=
  { packing with packs := packing.packs ++ [packing.currentPack], currentPack := [], currentPackBytes := 0 }

def Packing.push (targetContentBytes : Nat) (packing : Packing) (item : StagedContentItem) :
    Except IoError Packing :=
  let packing := if packing.isComplete targetContentBytes item then packing.close else packing
  let bytes := packing.currentPackBytes + item.frame.length
  if 2 ^ 64 ≤ bytes then .error (invalidData "content pack size overflow")
  else if maxContentBytes < bytes then
    .error (invalidData "content pack exceeds the configured bound")
  else
    .ok { packing with
      currentPack := packing.currentPack ++ [item]
      currentPackBytes := bytes
      currentPackUsed := some item.used }

/-- The used items come first. -/
def sortStaged (items : List StagedContentItem) : List StagedContentItem :=
  items.filter (·.used) ++ items.filter (!·.used)

def packItems (targetContentBytes : Nat) (items : List StagedContentItem) :
    Except IoError (List (List StagedContentItem)) := do
  let packing ← (sortStaged items).foldlM (Packing.push targetContentBytes) {}
  pure (if packing.currentPack.isEmpty then packing.packs else packing.packs ++ [packing.currentPack])

section

variable (revision now : UInt64) (file : PathBuf) (packSize : UInt64)
  (compression : PackFileCompression)

/-- The entry of a staged item behind the content before it. A carried item is in the index. -/
def placeItem (placed : IndexEntries × List UInt8) (item : StagedContentItem) :
    IndexEntries × List UInt8 :=
  let content : ContentReference :=
    ⟨file, UInt64.ofNat placed.2.length, UInt64.ofNat item.frame.length, checksum item.frame, packSize,
      compression⟩
  let entries := match item.pending with
    | some pending => placed.1.insert item.address
        ⟨pending.etag, pending.typeId, pending.codecId, content, now, revision, none⟩
    | none => placed.1.modify item.address fun entry => { entry with content }
  (entries, placed.2 ++ item.frame)

def placeItems (entries : IndexEntries) (pack : List StagedContentItem) : IndexEntries × List UInt8 :=
  pack.foldl (placeItem revision now file packSize compression) (entries, [])

end

def packBytes (pack : List StagedContentItem) : Nat := (pack.map (·.frame.length)).sum

/-- The entries once a pack is written. -/
def placePack (revision now : UInt64) (packCount : Nat) (compression : PackFileCompression)
    (packIndex : Nat) (entries : IndexEntries) (pack : List StagedContentItem) :
    IndexEntries × List UInt8 :=
  placeItems revision now (contentPackPath revision packIndex packCount compression)
    (UInt64.ofNat (packBytes pack)) compression entries pack

inductive FileEffect where
  | createDirAll (path : PathBuf)
  | create (path : PathBuf)
  | write (path : PathBuf) (bytes : List UInt8)
  | sync (path : PathBuf)
  | syncDirectory (path : PathBuf)
  | rename (source target : PathBuf)
  | removeFile (path : PathBuf)
  deriving DecidableEq

def Disk.set (disk : Disk) (path : PathBuf) (content : Option (List UInt8)) : Disk :=
  Function.update disk path content

def FileEffect.apply : FileEffect → Disk → Disk
  | createDirAll _, disk | sync _, disk | syncDirectory _, disk => disk
  | create path, disk => disk.set path (some [])
  | write path bytes, disk => disk.set path (some ((disk path).getD [] ++ bytes))
  | rename source target, disk =>
      (disk source).elim disk fun content => (disk.set source none).set target (some content)
  | removeFile path, disk => disk.set path none

abbrev FileAction := Action Disk FileEffect IoError

def writeSynced (path : PathBuf) (bytes : List UInt8) : FileAction Unit := do
  act (.create path)
  act (.write path bytes)
  act (.sync path)

/-- The temporary file is removed when it cannot be renamed. -/
def renameTemporary (temporary target : PathBuf) : FileAction Unit := do
  match ← attempt (.rename temporary target) with
  | .ok _ => pure ()
  | .error error => do
      let _ ← attempt (.removeFile temporary)
      throw error

def installFile (temporary target : PathBuf) (bytes : List UInt8) : FileAction Unit := do
  writeSynced temporary bytes
  renameTemporary temporary target

def temporaryContentPath (filename : String) : PathBuf := contentDirectory ++ ["." ++ filename ++ ".tmp"]

def temporaryIndexPath (revision : UInt64) : PathBuf :=
  [".index.pack-" ++ String.ofList (paddedHexadecimal 16 revision.toNat) ++ ".tmp"]

section

variable (compressors : Compressors)

def writePacks (revision now : UInt64) (packCount : Nat) (compression : PackFileCompression) :
    Nat → List (List StagedContentItem) → IndexEntries → FileAction IndexEntries
  | _, [], entries => pure entries
  | packIndex, pack :: packs, entries => do
      let filename := contentPackFilename revision packIndex packCount compression
      let placed := placePack revision now packCount compression packIndex entries pack
      let encoded ← liftM (encodeContentPack compressors placed.2 compression)
      installFile (temporaryContentPath filename)
        (contentPackPath revision packIndex packCount compression) encoded
      writePacks revision now packCount compression (packIndex + 1) packs placed.1

/-- Removes the files, and tells whether one was removed. -/
def removeFiles : List PathBuf → Bool → FileAction Bool
  | [], removed => pure removed
  | file :: files, removed => do
      let outcome ← attempt (.removeFile file)
      removeFiles files (removed || outcome.isOk)

def referencedFiles (entries : IndexEntries) : Std.ExtTreeSet PathBuf :=
  .ofList (entries.toList.map (·.2.content.file))

/-- What is staged for a publication, before its first effect. -/
structure Publication where
  revision : UInt64
  entries : IndexEntries
  staged : List StagedContentItem

def preparePublication (disk : Disk) (base : PublicationBase) (batch : PackFileWriteBatch)
    (options : PackFilePublicationOptions) : Except IoError Publication := do
  let current := readIndex disk
  let entries ← baseEntries current base
  let revision ← nextRevision current
  let entries := carryEntries batch revision options.retention entries
  let files := entriesByContentFile entries batch
  let maintained ← stageMaintenance entries compressors disk
    (maintenanceSourceFiles entries options.maintenance files)
  let pending ← stagePending batch
  pure ⟨revision, entries, maintained ++ pending⟩

def removeSuperseded (previous referenced : Std.ExtTreeSet PathBuf) : FileAction Unit := do
  let removed ← removeFiles (previous.toList.filter (· ∉ referenced)) false
  if removed then
    let _ ← attempt (.syncDirectory contentDirectory)
    pure ()
  else pure ()

/-- The index is written beside the old one and replaces it. -/
def commitIndex (index : PackFileIndex) : FileAction Unit := do
  let bytes ← liftM (encodeIndex index)
  installFile (temporaryIndexPath index.revision) indexFile bytes
  act (.syncDirectory [])

def publishBatch (guard : Option PackFileGuardDto) (base : PublicationBase) (batch : PackFileWriteBatch)
    (options : PackFilePublicationOptions) : FileAction Unit :=
  if options.maintenance.targetContentBytes = 0 ∨
      maxContentBytes < options.maintenance.targetContentBytes then
    throw ⟨.invalidInput, "PackFile target content size is outside the configured bound"⟩
  else do
    let previous ← observed fun disk => referencedFiles (readIndex disk).entries
    let prepared ← observed fun disk => preparePublication compressors disk base batch options
    let publication ← liftM prepared
    act (.createDirAll [])
    act (.createDirAll contentDirectory)
    let packs ← liftM (packItems options.maintenance.targetContentBytes publication.staged)
    let entries ← writePacks compressors publication.revision options.retention.now packs.length
      options.compression 0 packs publication.entries
    if 0 < packs.length then act (.syncDirectory contentDirectory)
    let index : PackFileIndex := ⟨publication.revision, guard, entries⟩
    commitIndex index
    removeSuperseded previous (referencedFiles index.entries)

end

end Unpack
