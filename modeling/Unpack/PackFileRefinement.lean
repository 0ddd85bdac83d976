import Unpack.PackFileAtomicity

/-! A root under successful publications refines an abstract store: a map from addresses to etags and records,
from which what was left unused for too long is dropped when a batch is stored. What the store holds for an
address is what an opened pack file restores. -/

namespace Unpack

open EffectProgram Codec Fallible

/-- What the program persists: asset parser data has the type of an asset module. -/
def CacheRecord.Persistable : CacheRecord → Prop
  | .moduleBuild record => record.parsed.data.AssetTyped
  | .resolve _ | .codeGeneration _ | .assetRender _ => True

structure StoredItem where
  etag : Option PackFileETag
  record : CacheRecord
  lastAccess : UInt64
  unused : Bool
  deriving DecidableEq

/-- A batch as the store sees it: the last record written for an address, and its latest access. -/
structure StoreBatch where
  written : PackFileAddress → Option (Option PackFileETag × CacheRecord) := fun _ => none
  accessed : PackFileAddress → Option UInt64 := fun _ => none

abbrev Store := PackFileAddress → Option StoredItem

/-- Unused since an earlier publication, and older than the maximum age. -/
def StoredItem.IsExpired (item : StoredItem) (retention : PackFileRetention) : Prop :=
  item.unused = true ∧ item.lastAccess.toNat ≤ retention.now.toNat ∧
    retention.maxAge < (retention.now.toNat - item.lastAccess.toNat) * 1000000

instance (item : StoredItem) (retention : PackFileRetention) : Decidable (item.IsExpired retention) :=
  inferInstanceAs (Decidable (_ ∧ _))

/-- The items that a publication starts from. -/
def Store.base (store : Store) : PublicationBase → Store
  | .preserveEntries _ => store
  | .replaceAll => fun _ => none

/-- An item that is not written. -/
def StoredItem.retain (item : StoredItem) (access : Option UInt64) (retention : PackFileRetention) :
    Option StoredItem :=
  match access with
  | some access => some { item with lastAccess := max item.lastAccess access, unused := false }
  | none => if item.IsExpired retention then none else some { item with unused := true }

def Store.publish (store : Store) (base : PublicationBase) (batch : StoreBatch)
    (retention : PackFileRetention) : Store := fun address =>
  match batch.written address with
  | some (etag, record) => some ⟨etag, record, retention.now, false⟩
  | none => (store.base base address).bind fun item => item.retain (batch.accessed address) retention

/-- The records that are inserted are those that the program persists. -/
inductive BatchOperation where
  | insert (address : PackFileAddress) (etag : Option PackFileETag)
      (record : {record : CacheRecord // record.Persistable})
  | recordAccess (address : PackFileAddress) (stamp : UInt64)

namespace BatchOperation

def perform (batch : PackFileWriteBatch) : BatchOperation → Except IoError PackFileWriteBatch
  | insert address etag record => batch.insert address etag record.1
  | recordAccess address stamp => .ok (batch.recordAccess address stamp)

def note (batch : StoreBatch) : BatchOperation → StoreBatch
  | insert address etag record =>
      { batch with written := Function.update batch.written address (some (etag, record.1)) }
  | recordAccess address stamp =>
      { batch with accessed :=
          Function.update batch.accessed address (some ((batch.accessed address).elim stamp (max · stamp))) }

end BatchOperation

def buildBatch (operations : List BatchOperation) : Except IoError PackFileWriteBatch :=
  operations.foldlM BatchOperation.perform {}

def storeBatch (operations : List BatchOperation) : StoreBatch :=
  operations.foldl BatchOperation.note {}

section

variable (compressors : Compressors)

/-- A root after successful publications, and the store that they amount to. -/
inductive Published : Disk → Store → Prop
  | fresh {disk : Disk} (habsent : disk indexFile = none) : Published disk fun _ => none
  | publish {disk : Disk} {store : Store} (hdisk : Published disk store)
      (guard : Option PackFileGuardDto) (base : PublicationBase) (operations : List BatchOperation)
      (options : PackFilePublicationOptions) {batch : PackFileWriteBatch}
      (hbatch : buildBatch operations = .ok batch) (outcomes : List (Option IoError)) {newer : Disk}
      {failed : List FileEffect}
      (hrun : exec FileEffect.apply outcomes (publishBatch compressors guard base batch options).run
        [] disk = ⟨.done (.ok ()), failed, newer⟩) :
      Published newer (store.publish base (storeBatch operations) options.retention)

/-- A pack file that was opened on a disk, after any number of restores. -/
inductive OpenedPackFile (disk : Disk) (collecting : Bool) : PackFile → Prop
  | opened : OpenedPackFile disk collecting (PackFile.openWithOptions disk collecting)
  | restored {packFile : PackFile} (hopened : OpenedPackFile disk collecting packFile) (kind : RecordKind)
      (address : PackFileAddress) (etag : Option PackFileETag) :
      OpenedPackFile disk collecting (packFile.get compressors disk kind address etag).2

end

theorem CacheRecord.Persistable.decode_encode {record : CacheRecord} (h : record.Persistable)
    {payload : List UInt8} (hencode : record.encode = .ok payload) :
    record.kind.decode payload = some record := by
  cases record with
  | resolve record =>
    rw [kind, RecordKind.decode, roundTrip_resolveRecord.decode_encode record payload trivial hencode]
    rfl
  | moduleBuild record =>
    rw [kind, RecordKind.decode, roundTrip_moduleBuildRecord.decode_encode record payload h hencode]
    rfl
  | codeGeneration record =>
    rw [kind, RecordKind.decode,
      roundTrip_codeGenerationRecord.decode_encode record payload trivial hencode]
    rfl
  | assetRender record =>
    rw [kind, RecordKind.decode, roundTrip_assetRenderRecord.decode_encode record payload trivial hencode]
    rfl

/-- The batch holds the encodings of what was written. -/
structure PackFileWriteBatch.Represents (batch : PackFileWriteBatch) (stored : StoreBatch) : Prop where
  absent : ∀ address : PackFileAddress, stored.written address = none → batch.items[address]? = none
  written : ∀ (address : PackFileAddress) (etag : Option PackFileETag) (record : CacheRecord),
    stored.written address = some (etag, record) → record.Persistable ∧ ∃ payload,
      record.encode = .ok payload ∧
        batch.items[address]? = some ⟨etag, record.kind.typeId, record.kind.codecId, payload⟩
  accessed : ∀ address : PackFileAddress, batch.accesses[address]? = stored.accessed address

theorem getElem?_insert_eq_update {β : Type} (map : BTreeMap PackFileAddress β) (address other : PackFileAddress)
    (value : β) : (map.insert address value)[other]? =
      Function.update (fun address => map[address]?) address (some value) other := by
  rw [Std.ExtTreeMap.getElem?_insert, Function.update_apply]
  by_cases hsame : other = address
  · rw [if_pos (by rw [hsame]; exact Std.ReflCmp.compare_self), if_pos hsame]
  · rw [if_neg fun heq => hsame (Std.LawfulEqCmp.eq_of_compare heq).symm, if_neg hsame]

theorem PackFileWriteBatch.Represents.perform {batch result : PackFileWriteBatch} {stored : StoreBatch}
    (h : batch.Represents stored) (operation : BatchOperation) (hperform : operation.perform batch = .ok result) :
    result.Represents (operation.note stored) := by
  cases operation with
  | insert address etag record =>
    obtain ⟨⟨codecId, payload⟩, hencode, hresult⟩ := of_bind_ok hperform
    cases hresult
    obtain ⟨payload', hpayload, hsized⟩ := of_bind_ok hencode
    split_ifs at hsized
    cases hsized
    refine ⟨fun other hother => ?_, fun other otherEtag otherRecord hother => ?_, h.accessed⟩
    · change Function.update stored.written address (some (etag, record.1)) other = none at hother
      rw [getElem?_insert_eq_update]
      by_cases hsame : other = address
      · rw [hsame, Function.update_self] at hother
        cases hother
      · rw [Function.update_of_ne hsame] at hother ⊢
        exact h.absent other hother
    · change Function.update stored.written address (some (etag, record.1)) other = _ at hother
      rw [getElem?_insert_eq_update]
      by_cases hsame : other = address
      · rw [hsame, Function.update_self] at hother ⊢
        cases hother
        exact ⟨record.2, payload, hpayload, rfl⟩
      · rw [Function.update_of_ne hsame] at hother ⊢
        exact h.written other otherEtag otherRecord hother
  | recordAccess address stamp =>
    cases hperform
    refine ⟨h.absent, h.written, fun other => ?_⟩
    have haccesses : (fun address => batch.accesses[address]?) = stored.accessed := funext h.accessed
    rw [PackFileWriteBatch.recordAccess, getElem?_insert_eq_update, haccesses, h.accessed address]
    rfl

theorem represents_buildBatch {operations : List BatchOperation} {batch : PackFileWriteBatch}
    (h : buildBatch operations = .ok batch) : batch.Represents (storeBatch operations) := by
  have hfold : ∀ (operations : List BatchOperation) (start result : PackFileWriteBatch)
      (stored : StoreBatch), start.Represents stored →
      operations.foldlM BatchOperation.perform start = .ok result →
        result.Represents (operations.foldl BatchOperation.note stored) := by
    intro operations
    induction operations with
    | nil =>
      intro start result stored hstart hresult
      cases hresult
      exact hstart
    | cons operation operations ih =>
      intro start result stored hstart hresult
      rw [List.foldlM_cons] at hresult
      obtain ⟨next, hnext, hrest⟩ := of_bind_ok hresult
      exact ih next result _ (hstart.perform operation hnext) hrest
  refine hfold operations {} batch {} ⟨fun address _ => ?_, fun address etag record hwritten => ?_,
    fun address => ?_⟩ h
  · exact Std.ExtTreeMap.getElem?_empty
  · cases hwritten
  · exact Std.ExtTreeMap.getElem?_empty

/-- The entry holds what is stored. -/
structure PackFileIndexEntry.Stores (entry : PackFileIndexEntry) (payload : List UInt8) (item : StoredItem) :
    Prop where
  etag : entry.etag = item.etag
  typeId : entry.typeId = item.record.kind.typeId
  codecId : entry.codecId = item.record.kind.codecId
  lastAccess : entry.lastAccess = item.lastAccess
  unused : entry.unusedSinceRevision.isSome = item.unused
  encoded : item.record.encode = .ok payload
  persistable : item.record.Persistable

/-- The index has an entry for each stored item, and no other. -/
structure PackFileIndex.Represents (index : PackFileIndex) (payload : PackFileAddress → List UInt8)
    (store : Store) : Prop where
  absent : ∀ address : PackFileAddress, store address = none → index.entries[address]? = none
  stored : ∀ (address : PackFileAddress) (item : StoredItem), store address = some item →
    ∃ entry, index.entries[address]? = some entry ∧ entry.Stores (payload address) item

section

variable {compressors : Compressors} {disk newer : Disk} {store : Store}
  {payload : PackFileAddress → List UInt8} {base : PublicationBase} {batch : PackFileWriteBatch}
  {options : PackFilePublicationOptions} {publication : Publication}

theorem entryIsExpired_iff {entry : PackFileIndexEntry} {revision : UInt64} {retention : PackFileRetention} :
    entryIsExpired entry revision retention = true ↔
      (∃ since, entry.unusedSinceRevision = some since ∧ since < revision) ∧
        entry.lastAccess.toNat ≤ retention.now.toNat ∧
          retention.maxAge < (retention.now.toNat - entry.lastAccess.toNat) * 1000000 := by
  unfold entryIsExpired
  simp only [Bool.and_eq_true, Option.any_eq_true, decide_eq_true_eq, UInt64.le_iff_toNat_le]
  constructor
  · rintro ⟨⟨hsince, hle⟩, hage⟩
    rw [UInt64.toNat_sub_of_le _ _ (UInt64.le_iff_toNat_le.mpr hle)] at hage
    exact ⟨hsince, hle, hage⟩
  · rintro ⟨hsince, hle, hage⟩
    rw [UInt64.toNat_sub_of_le _ _ (UInt64.le_iff_toNat_le.mpr hle)]
    exact ⟨⟨hsince, hle⟩, hage⟩

theorem carryEntry_accessed {entry : PackFileIndexEntry} {address : PackFileAddress} {access : UInt64}
    (hbatch : address ∉ batch.items) (haccess : batch.accesses[address]? = some access) (revision : UInt64) :
    carryEntry batch revision address entry = { entry with
      lastAccess := max entry.lastAccess access
      lastUsedRevision := revision
      unusedSinceRevision := none } := by
  rw [carryEntry, if_neg hbatch, haccess]

theorem carryEntry_unused {entry : PackFileIndexEntry} {address : PackFileAddress}
    (hbatch : address ∉ batch.items) (haccess : batch.accesses[address]? = none) (revision : UInt64) :
    carryEntry batch revision address entry =
      { entry with unusedSinceRevision := some (entry.unusedSinceRevision.getD revision) } := by
  rw [carryEntry, if_neg hbatch, haccess]
  obtain ⟨etag, typeId, codecId, content, lastAccess, lastUsedRevision, unusedSince⟩ := entry
  cases unusedSince with
  | none => rfl
  | some since => rfl

/-- Carrying an entry is what the store does with an item that is not written. -/
theorem carry_retain {entry : PackFileIndexEntry} {item : StoredItem} {bytes : List UInt8}
    {address : PackFileAddress} {revision next : UInt64} (hstores : entry.Stores bytes item)
    (hbatch : address ∉ batch.items) (hvalid : entry.revisionsAreValid revision) (hnext : revision < next)
    (retention : PackFileRetention) :
    match item.retain batch.accesses[address]? retention with
    | none => entryIsExpired (carryEntry batch next address entry) next retention = true
    | some retained => entryIsExpired (carryEntry batch next address entry) next retention = false ∧
        (carryEntry batch next address entry).Stores bytes retained := by
  cases haccess : batch.accesses[address]? with
  | some access =>
    rw [carryEntry_accessed hbatch haccess]
    refine ⟨Bool.eq_false_iff.mpr fun hexpired => ?_, ?_⟩
    · obtain ⟨⟨since, hsince, -⟩, -⟩ := entryIsExpired_iff.mp hexpired
      cases hsince
    · exact { hstores with
        lastAccess := congrArg (max · access) hstores.lastAccess
        unused := rfl }
  | none =>
    rw [carryEntry_unused hbatch haccess]
    have hexpired : entryIsExpired
        { entry with unusedSinceRevision := some (entry.unusedSinceRevision.getD next) } next retention =
          true ↔ item.IsExpired retention := by
      rw [entryIsExpired_iff, StoredItem.IsExpired, ← hstores.lastAccess, ← hstores.unused]
      refine and_congr_left fun _ => ?_
      cases hunused : entry.unusedSinceRevision with
      | none => simp
      | some since =>
        have hle : since ≤ revision := by
          rw [PackFileIndexEntry.revisionsAreValid, hunused] at hvalid
          simp only [Option.all_some, Bool.and_eq_true, decide_eq_true_eq] at hvalid
          exact hvalid.2.1
        simpa using UInt64.lt_of_le_of_lt hle hnext
    unfold StoredItem.retain
    dsimp only
    split_ifs with hitem
    · exact hexpired.mpr hitem
    · exact ⟨Bool.eq_false_iff.mpr fun h => hitem (hexpired.mp h), { hstores with unused := rfl }⟩

theorem baseEntries_eq {current : PackFileIndex} {entries : IndexEntries}
    (h : baseEntries current base = .ok entries) :
    entries = match base with
      | .preserveEntries _ => current.entries
      | .replaceAll => ∅ := by
  cases base with
  | preserveEntries expected =>
    unfold baseEntries at h
    dsimp only at h
    split_ifs at h
    cases h
    rfl
  | replaceAll =>
    cases h
    rfl

/-- What is carried for an address that is not in the batch. -/
theorem Prepared.carried_retain {stored : StoreBatch} (hbatch : batch.Represents stored)
    (h : (readIndex disk).Represents payload store)
    (hprepared : Prepared compressors disk base batch options publication) {address : PackFileAddress}
    (hnone : batch.items[address]? = none) :
    match (store.base base address).bind fun item =>
      item.retain (stored.accessed address) options.retention with
    | none => publication.entries[address]? = none
    | some retained => ∃ carried, publication.entries[address]? = some carried ∧
        carried.Stores (payload address) retained := by
  have hnotMem : address ∉ batch.items := by
    rw [← Std.ExtTreeMap.isSome_getElem?_iff_mem, hnone]
    exact Bool.false_ne_true
  obtain ⟨entries, hentries, hcarried⟩ := hprepared.entries
  rw [hcarried, getElem?_carryEntries, baseEntries_eq hentries]
  cases base with
  | replaceAll =>
    dsimp only [Store.base, Option.bind_none]
    rw [Std.ExtTreeMap.getElem?_empty]
    rfl
  | preserveEntries expected =>
    dsimp only [Store.base]
    cases hitem : store address with
    | none =>
      rw [h.absent address hitem]
      rfl
    | some item =>
      obtain ⟨entry, hentry, hstores⟩ := h.stored address item hitem
      have hretain := carry_retain hstores hnotMem (wellFormed_readIndex disk address entry hentry).revisions
        hprepared.revision options.retention
      rw [hbatch.accessed address] at hretain
      rw [hentry, Option.bind_some, Option.map_some]
      cases hretained : item.retain (stored.accessed address) options.retention with
      | none =>
        rw [hretained] at hretain
        simp [Option.filter, hnotMem, hretain]
      | some retained =>
        rw [hretained] at hretain
        exact ⟨_, by simp [Option.filter, hretain.1], hretain.2⟩

/-- One publication does to the index what it does to the store. -/
theorem PackFileIndex.Represents.publish {stored : StoreBatch} (hbatch : batch.Represents stored)
    (h : (readIndex disk).Represents payload store) (guard : Option PackFileGuardDto)
    (hprepared : Prepared compressors disk base batch options publication)
    {packs : List (List StagedContentItem)}
    (hpacks : packItems options.maintenance.targetContentBytes publication.staged = .ok packs) :
    (publication.index guard options packs).Represents (publishedPayload batch payload)
      (store.publish base stored options.retention) := by
  constructor
  · intro address habsent
    cases hwritten : stored.written address with
    | some written =>
      rw [Store.publish, hwritten] at habsent
      cases habsent
    | none =>
      rw [Store.publish, hwritten] at habsent
      have hnone := hbatch.absent address hwritten
      have hcarried := hprepared.carried_retain hbatch h hnone
      dsimp only at habsent
      rw [habsent] at hcarried
      exact hprepared.getElem?_absent hpacks _ _ hnone hcarried
  · intro address item hitem
    cases hwritten : stored.written address with
    | some written =>
      obtain ⟨etag, record⟩ := written
      rw [Store.publish, hwritten] at hitem
      cases hitem
      obtain ⟨hpersistable, bytes, hencode, hpending⟩ := hbatch.written address etag record hwritten
      obtain ⟨packIndex, content, frame, -, -, hentry⟩ := hprepared.getElem?_written hpacks
        options.retention.now options.compression hpending
      refine ⟨_, hentry, ⟨rfl, rfl, rfl, rfl, rfl, ?_, hpersistable⟩⟩
      rw [publishedPayload, hpending]
      exact hencode
    | none =>
      rw [Store.publish, hwritten] at hitem
      have hnone := hbatch.absent address hwritten
      have hcarried := hprepared.carried_retain hbatch h hnone
      dsimp only at hitem
      rw [hitem] at hcarried
      obtain ⟨carried, hentry, hstores⟩ := hcarried
      obtain ⟨content, -, hplaced⟩ := hprepared.getElem?_carried hpacks options.retention.now
        options.compression hnone hentry
      refine ⟨_, hplaced, ?_⟩
      rw [publishedPayload, hnone]
      exact { hstores with }

/-- After successful publications the index represents the store, and all that it references is there. -/
theorem Published.represents (hlossless : compressors.Lossless) (h : Published compressors disk store) :
    ∃ payload, IndexSound compressors disk (readIndex disk) payload ∧
      (readIndex disk).Represents payload store := by
  induction h with
  | @fresh disk habsent =>
    obtain ⟨-, payload, hsound⟩ := (ReachableRoot.fresh habsent).sound hlossless
    have hplace : IndexInPlace disk {} := Or.inl ⟨habsent, rfl⟩
    refine ⟨payload, hsound, fun address _ => ?_, fun address item hitem => ?_⟩
    · rw [hplace.readIndex_eq]
      exact Std.ExtTreeMap.getElem?_empty
    · cases hitem
  | @publish disk store hdisk guard base operations options batch hbatch outcomes newer failed hrun ih =>
    obtain ⟨payload, hsound, hrepresents⟩ := ih
    rcases (always_publishBatch guard base batch options hlossless hsound).exec_cases hrun with
      ⟨outcome, hrest, hreturned⟩ | ⟨hrest, -⟩
    · cases hrest
      obtain ⟨-, index, hindex, hcommitted⟩ := hreturned
      obtain ⟨publication, packs, hprepared, hpacks, rfl⟩ := of_publishedIndex hindex
      have hread := hcommitted.readIndex_eq
      refine ⟨publishedPayload batch payload, ?_, ?_⟩
      · rw [hread]
        exact hcommitted.sound
      · rw [hread]
        exact hrepresents.publish (represents_buildBatch hbatch) guard hprepared hpacks
    · exact absurd rfl (hrest (.ok ()))

theorem OpenedPackFile.sound {collecting : Bool} {packFile : PackFile}
    (h : OpenedPackFile compressors disk collecting packFile) :
    packFile.index = readIndex disk ∧ packFile.BuffersSound compressors disk := by
  induction h with
  | opened => exact ⟨rfl, PackFile.buffersSound_open collecting⟩
  | restored _ kind address etag ih =>
    obtain ⟨hindex, hbuffers⟩ := ih
    obtain ⟨hsame, hkept⟩ := PackFile.get_keeps hbuffers kind address etag
    exact ⟨hsame.trans hindex, hkept⟩

/-- What is seen of an entry besides its content. -/
def PackFileIndexEntry.metadata (entry : PackFileIndexEntry) :
    Option PackFileETag × StableTypeId × StableCodecId × UInt64 × Bool :=
  (entry.etag, entry.typeId, entry.codecId, entry.lastAccess, entry.unusedSinceRevision.isSome)

def StoredItem.metadata (item : StoredItem) :
    Option PackFileETag × StableTypeId × StableCodecId × UInt64 × Bool :=
  (item.etag, item.record.kind.typeId, item.record.kind.codecId, item.lastAccess, item.unused)

/-- After any successful publications of records that the program persists, an opened root has the entries of the
abstract store, and restores each record as it was last written, with or without collecting memory and whatever it
has restored before. -/
theorem published_refines_store (hlossless : compressors.Lossless) (h : Published compressors disk store)
    (collecting : Bool) {packFile : PackFile}
    (hopened : OpenedPackFile compressors disk collecting packFile) (address : PackFileAddress) :
    (packFile.index.entries[address]?).map PackFileIndexEntry.metadata =
        (store address).map StoredItem.metadata ∧
      ∀ item, store address = some item →
        (packFile.get compressors disk item.record.kind address item.etag).1 = some item.record := by
  obtain ⟨payload, hsound, hrepresents⟩ := h.represents hlossless
  obtain ⟨hindex, hbuffers⟩ := hopened.sound
  rw [← hindex] at hsound hrepresents
  cases hitem : store address with
  | none =>
    rw [hrepresents.absent address hitem]
    refine ⟨rfl, fun item hsome => ?_⟩
    cases hsome
  | some item =>
    obtain ⟨entry, hentry, hstores⟩ := hrepresents.stored address item hitem
    constructor
    · rw [hentry, Option.map_some, Option.map_some, PackFileIndexEntry.metadata, StoredItem.metadata,
        hstores.etag, hstores.typeId, hstores.codecId, hstores.lastAccess, hstores.unused]
    · intro other hother
      cases hother
      rw [← hstores.etag, PackFile.get_eq hbuffers hsound.agree hentry
        (hsound.holds address entry hentry) hstores.typeId hstores.codecId]
      exact hstores.persistable.decode_encode hstores.encoded

end

/-- A batch of one rendered asset. -/
def assetOperations : List BatchOperation :=
  [.insert assetAddress none ⟨.assetRender ⟨"main();", none⟩, trivial⟩]

def libraryAddress : PackFileAddress := ⟨utf8Bytes "asset", utf8Bytes "lib"⟩

/-- Another asset, when the first is not used any more. -/
def libraryOperations : List BatchOperation :=
  [.insert libraryAddress none ⟨.assetRender ⟨"lib();", none⟩, trivial⟩]

def laterOptions : PackFilePublicationOptions := ⟨⟨5, 0⟩, .none, .production⟩

/-- A publication in which no effect fails. -/
def publishAll (disk : Disk) (base : PublicationBase) (operations : List BatchOperation)
    (options : PackFilePublicationOptions) : Option Disk :=
  match buildBatch operations with
  | .error _ => none
  | .ok batch =>
      let stop := exec FileEffect.apply (List.replicate 20 none)
        (publishBatch storingCompressors none base batch options).run [] disk
      match stop.rest with
      | .done (.ok ()) => some stop.state
      | _ => none

theorem Published.publishAll {disk newer : Disk} {store : Store} (h : Published storingCompressors disk store)
    {base : PublicationBase} {operations : List BatchOperation} {options : PackFilePublicationOptions}
    (hrun : Unpack.publishAll disk base operations options = some newer) :
    Published storingCompressors newer (store.publish base (storeBatch operations) options.retention) := by
  unfold Unpack.publishAll at hrun
  split at hrun
  · cases hrun
  · rename_i batch hbatch
    dsimp only at hrun
    split at hrun
    · rename_i hrest
      cases hrun
      exact h.publish none base operations options hbatch (List.replicate 20 none) (Stop.eq_of_rest hrest)
    · cases hrun

/-- After both publications both assets are restored, the first as one that is not used any more. -/
theorem published_refines_store_assets :
    ∃ disk store, Published storingCompressors disk store ∧
      store assetAddress = some ⟨none, .assetRender ⟨"main();", none⟩, 0, true⟩ ∧
      store libraryAddress = some ⟨none, .assetRender ⟨"lib();", none⟩, 5, false⟩ ∧
      ((PackFile.openWithOptions disk false).get storingCompressors disk .assetRender assetAddress none).1 =
        some (.assetRender ⟨"main();", none⟩) ∧
      ((PackFile.openWithOptions disk false).get storingCompressors disk .assetRender libraryAddress none).1 =
        some (.assetRender ⟨"lib();", none⟩) := by
  have hruns : ((publishAll emptyRoot (.preserveEntries 0) assetOperations immediateOptions).any fun first =>
      (publishAll first (.preserveEntries 1) libraryOperations laterOptions).isSome) = true := by
    decide +kernel
  obtain ⟨first, hfirst, hruns⟩ := (Option.any_eq_true _ _).mp hruns
  obtain ⟨disk, hsecond⟩ := Option.isSome_iff_exists.mp hruns
  have hfresh : Published storingCompressors emptyRoot fun _ => none := .fresh rfl
  have hpublished := (hfresh.publishAll hfirst).publishAll hsecond
  have hitems : Store.publish (Store.publish (fun _ => none) (.preserveEntries 0) (storeBatch assetOperations)
        immediateOptions.retention) (.preserveEntries 1) (storeBatch libraryOperations) laterOptions.retention
          assetAddress = some ⟨none, .assetRender ⟨"main();", none⟩, 0, true⟩ ∧
      Store.publish (Store.publish (fun _ => none) (.preserveEntries 0) (storeBatch assetOperations)
        immediateOptions.retention) (.preserveEntries 1) (storeBatch libraryOperations) laterOptions.retention
          libraryAddress = some ⟨none, .assetRender ⟨"lib();", none⟩, 5, false⟩ := by
    decide +kernel
  have hrefines := published_refines_store storingCompressors_lossless hpublished false .opened
  exact ⟨disk, _, hpublished, hitems.1, hitems.2, (hrefines assetAddress).2 _ hitems.1,
    (hrefines libraryAddress).2 _ hitems.2⟩

end Unpack
