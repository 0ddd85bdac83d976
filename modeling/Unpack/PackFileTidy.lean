import Unpack.PackFileRewriting
import Unpack.PackFileAtomicity
import Mathlib.Algebra.Order.BigOperators.Group.List

/-! What a publication leaves on the files of its index: the new packs are fully live and, but for single frames,
not above the target size, and no file has more live bytes than its pack. So a later publication takes up a new
pack again only for what it loses, for its size or to merge it. -/

namespace Unpack

open EffectProgram Fallible

def lengthAt (entries : IndexEntries) (address : PackFileAddress) : Nat :=
  ((entries[address]?).map (·.content.length.toNat)).getD 0

theorem liveLength_eq {entries : IndexEntries} {batch : PackFileWriteBatch} {file : PathBuf} :
    liveLength (liveEntries entries batch file) =
      (((liveEntries entries batch file).map (·.1)).map (lengthAt entries)).sum := by
  rw [liveLength, List.map_map]
  refine congrArg List.sum (List.map_congr_left fun item hitem => ?_)
  rw [Function.comp_apply, lengthAt, (mem_liveEntries.mp hitem).1]
  rfl

section

variable {compressors : Compressors} {disk : Disk} {base : PublicationBase} {batch : PackFileWriteBatch}
  {options : PackFilePublicationOptions} {publication : Publication} {packs : List (List StagedContentItem)}
  {guard : Option PackFileGuardDto} {address : PackFileAddress} {item : StagedContentItem}

theorem staged_of_preparePublication
    (h : preparePublication compressors disk base batch options = .ok publication) :
    StagedExactly publication.entries batch options.maintenance publication.staged := by
  obtain ⟨entries, _, h⟩ := of_bind_ok h
  obtain ⟨revision, _, h⟩ := of_bind_ok h
  obtain ⟨maintained, hmaintained, h⟩ := of_bind_ok h
  obtain ⟨pending, hpending, h⟩ := of_bind_ok h
  cases h
  exact stagedExactly hmaintained hpending

theorem perm_sortStaged (items : List StagedContentItem) : (sortStaged items).Perm items :=
  List.filter_append_perm (fun item : StagedContentItem => item.used) items

/-- What is known of a publication that has packed what it has staged. -/
structure Packed (compressors : Compressors) (disk : Disk) (base : PublicationBase) (batch : PackFileWriteBatch)
    (options : PackFilePublicationOptions) (publication : Publication) (packs : List (List StagedContentItem)) :
    Prop where
  prepared : preparePublication compressors disk base batch options = .ok publication
  packed : packItems options.maintenance.targetContentBytes publication.staged = .ok packs

namespace Packed

variable (h : Packed compressors disk base batch options publication packs)

include h

theorem perm : packs.flatten.Perm publication.staged := by
  rw [(of_packItems h.packed).1]
  exact perm_sortStaged publication.staged

theorem nodup : (packs.flatten.map (·.address)).Nodup :=
  (h.perm.map _).nodup_iff.mpr (staged_of_preparePublication h.prepared).nodup

theorem mem_staged {index : Nat} {pack : List StagedContentItem} (hpack : packs[index]? = some pack)
    (hitem : item ∈ pack) : item ∈ publication.staged :=
  h.perm.mem_iff.mp (List.mem_flatten.mpr ⟨pack, List.mem_of_getElem? hpack, hitem⟩)

theorem exists_entry {index : Nat} {pack : List StagedContentItem} (hpack : packs[index]? = some pack)
    (hitem : item ∈ pack) : ∃ entry, (publication.index guard options packs).entries[item.address]? = some entry ∧
      PlacedIn (contentPackPath publication.revision index packs.length options.compression)
        (UInt64.ofNat (packBytes pack)) item publication.entries[item.address]? entry := by
  have hstaged := staged_of_preparePublication h.prepared
  have hmem := h.mem_staged hpack hitem
  have hknown : item.pending.isSome ∨ (publication.entries[item.address]?).isSome := by
    by_cases hbatch : item.address ∈ batch.items
    · exact Or.inl (hstaged.pending item hmem hbatch)
    · obtain ⟨entry, hentry, _⟩ := hstaged.carried item hmem hbatch
      exact Or.inr (Option.isSome_of_eq_some hentry)
  have hplaced := @placePacks_self publication.revision options.retention.now options.compression
    publication.entries item packs.length packs 0 index pack h.nodup hpack hitem hknown
  rwa [Nat.zero_add] at hplaced

theorem entry_of_notMem (haddress : address ∉ publication.staged.map (·.address)) :
    (publication.index guard options packs).entries[address]? = publication.entries[address]? := by
  refine placePacks_of_notMem 0 fun hmem => haddress ?_
  exact (h.perm.map _).mem_iff.mp hmem

/-- An entry of the new index is that of an item in its pack, or has been carried over with its content. -/
theorem cases_entry {entry : PackFileIndexEntry}
    (hentry : (publication.index guard options packs).entries[address]? = some entry) :
    (∃ index pack item, packs[index]? = some pack ∧ item ∈ pack ∧ item.address = address ∧
      PlacedIn (contentPackPath publication.revision index packs.length options.compression)
        (UInt64.ofNat (packBytes pack)) item publication.entries[address]? entry) ∨
    address ∉ publication.staged.map (·.address) ∧ publication.entries[address]? = some entry := by
  by_cases hmem : address ∈ publication.staged.map (·.address)
  · obtain ⟨item, hitem, rfl⟩ := List.mem_map.mp ((h.perm.map _).mem_iff.mpr hmem)
    obtain ⟨pack, hpack, hitem⟩ := List.mem_flatten.mp hitem
    obtain ⟨index, hindex⟩ := List.getElem?_of_mem hpack
    obtain ⟨same, hsame, hplaced⟩ := @Packed.exists_entry _ _ _ _ _ _ _ guard _ h _ _ hindex hitem
    rw [hentry] at hsame
    cases hsame
    exact Or.inl ⟨index, pack, item, hindex, hitem, rfl, hplaced⟩
  · rw [h.entry_of_notMem hmem] at hentry
    exact Or.inr ⟨hmem, hentry⟩

theorem frame_length {index : Nat} {pack : List StagedContentItem} (hpack : packs[index]? = some pack)
    (hitem : item ∈ pack) : (UInt64.ofNat item.frame.length).toNat = item.frame.length ∧
      (UInt64.ofNat (packBytes pack)).toNat = packBytes pack := by
  have hbound := (of_packItems h.packed).2 pack (List.mem_of_getElem? hpack)
  have hframe : item.frame.length ≤ packBytes pack :=
    List.single_le_sum (fun _ _ => Nat.zero_le _) _ (List.mem_map_of_mem hitem)
  rw [maxContentBytes] at hbound
  constructor
  · exact UInt64.toNat_ofNat_of_lt' (by rw [UInt64.size]; omega)
  · exact UInt64.toNat_ofNat_of_lt' (by rw [UInt64.size]; omega)

/-- New names are not those of packs that the old index knows, nor of each other. -/
theorem index_eq (hnamed : (readIndex disk).Named) {index : Nat} {pack : List StagedContentItem}
    (hpack : packs[index]? = some pack) {entry : PackFileIndexEntry}
    (hentry : (publication.index guard options packs).entries[address]? = some entry)
    (hfile : entry.content.file = contentPackPath publication.revision index packs.length options.compression) :
    ∃ item ∈ pack, item.address = address := by
  have hindex : index < packs.length := (List.getElem?_eq_some_iff.mp hpack).1
  rcases h.cases_entry hentry with ⟨other, otherPack, item, hother, hitem, haddress, hplaced⟩ | ⟨_, hcarried⟩
  · have hname : contentPackFilename publication.revision index packs.length options.compression =
        contentPackFilename publication.revision other packs.length options.compression := by
      rw [hplaced.file] at hfile
      simpa [contentPackPath, contentDirectory] using hfile.symm
    cases contentPackFilename_index hindex (List.getElem?_eq_some_iff.mp hother).1 hname
    cases hpack.symm.trans hother
    exact ⟨item, hitem, haddress⟩
  · have hprepared := of_preparePublication h.prepared
    obtain ⟨source, hsource, rfl⟩ := hprepared.source hcarried
    obtain ⟨revision, sourceIndex, packCount, compression, hle, hname⟩ := hnamed address source hsource
    rw [(carryEntry_keeps batch publication.revision address source).1, hname] at hfile
    refine absurd ?_ (contentPackPath_not_staging (UInt64.lt_of_le_of_lt hle hprepared.revision) sourceIndex
      packCount compression)
    exact Or.inr ⟨index, packs.length, options.compression, Or.inl hfile⟩

end Packed

/-- What is found later was there before with the same content. -/
def CarriedFrom (entries later : IndexEntries) : Prop :=
  ∀ (address : PackFileAddress) (entry : PackFileIndexEntry), later[address]? = some entry →
    ∃ source, entries[address]? = some source ∧ source.content = entry.content

theorem CarriedFrom.refl (entries : IndexEntries) : CarriedFrom entries entries :=
  fun _ entry hentry => ⟨entry, hentry, rfl⟩

theorem carriedFrom_next (h : preparePublication compressors disk base batch options = .ok publication) :
    CarriedFrom (readIndex disk).entries publication.entries := by
  intro address entry hentry
  obtain ⟨source, hsource, rfl⟩ := (of_preparePublication h).source hentry
  exact ⟨source, hsource, (carryEntry_keeps batch publication.revision address source).1.symm⟩

/-- The items of a pack that are live later. -/
def stillLive (later : IndexEntries) (batch : PackFileWriteBatch) (pack : List StagedContentItem) :
    List StagedContentItem := pack.filter fun item => (later[item.address]?).isSome ∧ item.address ∉ batch.items

theorem packBytes_stillLive (later : IndexEntries) (nextBatch : PackFileWriteBatch)
    (pack : List StagedContentItem) : packBytes (stillLive later nextBatch pack) ≤ packBytes pack :=
  (List.filter_sublist.map _).sum_le_sum fun _ _ => Nat.zero_le _

namespace Packed

variable {later : IndexEntries} {nextBatch : PackFileWriteBatch} {index : Nat} {pack : List StagedContentItem}
  (h : Packed compressors disk base batch options publication packs) (hnamed : (readIndex disk).Named)
  (hcarried : CarriedFrom (publication.index guard options packs).entries later)
  (hpack : packs[index]? = some pack)

include h hcarried hpack

theorem later_entry (hitem : item ∈ pack) {entry : PackFileIndexEntry} (hentry : later[item.address]? = some entry) :
    entry.content.file = contentPackPath publication.revision index packs.length options.compression ∧
      entry.content.length.toNat = item.frame.length ∧ entry.content.packSize.toNat = packBytes pack := by
  obtain ⟨source, hsource, hcontent⟩ := hcarried _ _ hentry
  obtain ⟨placed, hplaced, hplace⟩ := @Packed.exists_entry _ _ _ _ _ _ _ guard _ h _ _ hpack hitem
  rw [hplaced] at hsource
  cases hsource
  obtain ⟨hframe, hsize⟩ := h.frame_length hpack hitem
  rw [← hcontent, hplace.file, hplace.length, hplace.packSize]
  exact ⟨rfl, hframe, hsize⟩

include hnamed

variable (nextBatch) in
theorem perm_stillLive : ((liveEntries later nextBatch
      (contentPackPath publication.revision index packs.length options.compression)).map (·.1)).Perm
    ((stillLive later nextBatch pack).map (·.address)) := by
  have hsublist : pack.Sublist packs.flatten := List.sublist_flatten_of_mem (List.mem_of_getElem? hpack)
  have hkept : (stillLive later nextBatch pack).Sublist pack := List.filter_sublist
  have hnodup := h.nodup.sublist ((hkept.trans hsublist).map (·.address))
  refine (List.perm_ext_iff_of_nodup nodup_liveAddresses hnodup).mpr fun address => ?_
  constructor
  · intro hlive
    obtain ⟨⟨address, entry⟩, hmem, rfl⟩ := List.mem_map.mp hlive
    obtain ⟨hentry, hbatch, hfile⟩ := mem_liveEntries.mp hmem
    obtain ⟨source, hsource, hcontent⟩ := hcarried _ _ hentry
    rw [← hcontent] at hfile
    obtain ⟨item, hitem, rfl⟩ := h.index_eq hnamed hpack hsource hfile
    refine List.mem_map_of_mem (List.mem_filter.mpr ⟨hitem, decide_eq_true ⟨?_, hbatch⟩⟩)
    exact Option.isSome_of_eq_some hentry
  · intro hmem
    obtain ⟨item, hstill, rfl⟩ := List.mem_map.mp hmem
    obtain ⟨hitem, hkept⟩ := List.mem_filter.mp hstill
    obtain ⟨hsome, hbatch⟩ := of_decide_eq_true hkept
    obtain ⟨entry, hentry⟩ := Option.isSome_iff_exists.mp hsome
    have hfile := (h.later_entry hcarried hpack hitem hentry).1
    exact List.mem_map.mpr ⟨(item.address, entry), mem_liveEntries.mpr ⟨hentry, hbatch, hfile⟩, rfl⟩

variable (nextBatch) in
theorem liveLength_stillLive : liveLength (liveEntries later nextBatch
      (contentPackPath publication.revision index packs.length options.compression)) =
    packBytes (stillLive later nextBatch pack) := by
  rw [liveLength_eq, ((h.perm_stillLive nextBatch hnamed hcarried hpack).map _).sum_eq, packBytes, List.map_map]
  refine congrArg List.sum (List.map_congr_left fun item hmem => ?_)
  obtain ⟨hitem, hkept⟩ := List.mem_filter.mp hmem
  obtain ⟨entry, hentry⟩ := Option.isSome_iff_exists.mp (of_decide_eq_true hkept).1
  rw [Function.comp_apply, lengthAt, hentry]
  exact (h.later_entry hcarried hpack hitem hentry).2.1

/-- When a later publication takes up a pack again. -/
theorem mem_rewrittenFiles_later {maintenance : PackFileMaintenance} :
    contentPackPath publication.revision index packs.length options.compression ∈
        rewrittenFiles later nextBatch maintenance ↔
      stillLive later nextBatch pack ≠ [] ∧
        (maintenance.Compactable (packBytes pack) (packBytes pack - packBytes (stillLive later nextBatch pack)) ∨
          maintenance.targetContentBytes < packBytes pack ∨
            contentPackPath publication.revision index packs.length options.compression ∈
              mergedFiles later nextBatch maintenance) := by
  have hperm := h.perm_stillLive nextBatch hnamed hcarried hpack
  have hlength := h.liveLength_stillLive nextBatch hnamed hcarried hpack
  by_cases hnone : liveEntries later nextBatch
      (contentPackPath publication.revision index packs.length options.compression) = []
  · have hdead : stillLive later nextBatch pack = [] := by
      rw [hnone, List.map_nil] at hperm
      exact List.map_eq_nil_iff.mp hperm.nil_eq.symm
    rw [hdead]
    exact Iff.intro (fun hmem => absurd hmem (notMem_rewrittenFiles hnone)) fun hlive => absurd rfl hlive.1
  · obtain ⟨first, rest, hlive⟩ := List.exists_cons_of_ne_nil hnone
    have hfirst := mem_liveEntries.mp (hlive ▸ List.mem_cons_self : first ∈ liveEntries later nextBatch
      (contentPackPath publication.revision index packs.length options.compression))
    have hmem : first.1 ∈ (stillLive later nextBatch pack).map (·.address) := by
      refine hperm.mem_iff.mp ?_
      rw [hlive]
      exact List.mem_cons_self
    obtain ⟨item, hitem, haddress⟩ := List.mem_map.mp hmem
    have hsome : stillLive later nextBatch pack ≠ [] := List.ne_nil_of_mem hitem
    rw [← haddress] at hfirst
    have hsize := (h.later_entry hcarried hpack (List.mem_filter.mp hitem).1 hfirst.1).2.2
    have hbound := (of_packItems h.packed).2 pack (List.mem_of_getElem? hpack)
    have hkept := packBytes_stillLive later nextBatch pack
    have hhead : (liveEntries later nextBatch
        (contentPackPath publication.revision index packs.length options.compression)).head? = some first := by
      rw [hlive]
      rfl
    have hsmall : packBytes (stillLive later nextBatch pack) < 2 ^ 64 := by
      rw [maxContentBytes] at hbound
      omega
    rw [mem_rewrittenFiles hhead (hlength ▸ hsmall), hlength, hsize, and_iff_right hsome]

end Packed

/-- The entries of a file agree on its size, which they do not exceed. -/
structure Tidy (entries : IndexEntries) : Prop where
  sized : ∀ (address other : PackFileAddress) (entry otherEntry : PackFileIndexEntry),
    entries[address]? = some entry → entries[other]? = some otherEntry →
      entry.content.file = otherEntry.content.file → entry.content.packSize = otherEntry.content.packSize
  filled : ∀ (address : PackFileAddress) (entry : PackFileIndexEntry), entries[address]? = some entry →
    liveLength (liveEntries entries {} entry.content.file) ≤ entry.content.packSize.toNat

theorem notMem_emptyBatch (address : PackFileAddress) : address ∉ ({} : PackFileWriteBatch).items :=
  Std.ExtTreeMap.not_mem_empty

/-- A file does not gain live bytes by being carried. -/
theorem CarriedFrom.liveLength_le {entries later : IndexEntries} {nextBatch : PackFileWriteBatch} {file : PathBuf}
    (hcarried : ∀ item ∈ liveEntries later nextBatch file,
      ∃ source, entries[item.1]? = some source ∧ source.content = item.2.content) :
    liveLength (liveEntries later nextBatch file) ≤ liveLength (liveEntries entries {} file) := by
  have hsubset : (liveEntries later nextBatch file).map (·.1) ⊆ (liveEntries entries {} file).map (·.1) := by
    intro address haddress
    obtain ⟨item, hitem, rfl⟩ := List.mem_map.mp haddress
    obtain ⟨source, hsource, hcontent⟩ := hcarried item hitem
    have hfile := (mem_liveEntries.mp hitem).2.2
    refine List.mem_map.mpr ⟨(item.1, source), mem_liveEntries.mpr ⟨hsource, notMem_emptyBatch _, ?_⟩, rfl⟩
    rw [hcontent, hfile]
  have hlengths : ((liveEntries later nextBatch file).map (·.1)).map (lengthAt later) =
      ((liveEntries later nextBatch file).map (·.1)).map (lengthAt entries) := by
    refine List.map_congr_left fun address haddress => ?_
    obtain ⟨item, hitem, rfl⟩ := List.mem_map.mp haddress
    obtain ⟨source, hsource, hcontent⟩ := hcarried item hitem
    rw [lengthAt, lengthAt, hsource, (mem_liveEntries.mp hitem).1, Option.map_some, Option.map_some, hcontent]
  obtain ⟨listed, hperm, hsublist⟩ := List.subperm_of_subset nodup_liveAddresses hsubset
  rw [liveLength_eq, liveLength_eq, hlengths, ← (hperm.map _).sum_eq]
  exact (hsublist.map _).sum_le_sum fun _ _ => Nat.zero_le _

namespace Packed

variable (h : Packed compressors disk base batch options publication packs) (hnamed : (readIndex disk).Named)

include h hnamed

/-- An entry is in one of the new packs, or in an old one that has not been rewritten. -/
theorem cases_file {entry : PackFileIndexEntry}
    (hentry : (publication.index guard options packs).entries[address]? = some entry) :
    (∃ (index : Nat) (pack : List StagedContentItem), packs[index]? = some pack ∧
      entry.content.file = contentPackPath publication.revision index packs.length options.compression) ∨
    (∀ index, entry.content.file ≠ contentPackPath publication.revision index packs.length options.compression) ∧
      address ∉ publication.staged.map (·.address) ∧ publication.entries[address]? = some entry := by
  rcases h.cases_entry hentry with ⟨index, pack, _, hpack, _, _, hplaced⟩ | ⟨hkept, hcarried⟩
  · exact Or.inl ⟨index, pack, hpack, hplaced.file⟩
  · refine Or.inr ⟨fun index hfile => ?_, hkept, hcarried⟩
    have hprepared := of_preparePublication h.prepared
    obtain ⟨source, hsource, hcontent⟩ := carriedFrom_next h.prepared _ _ hcarried
    obtain ⟨revision, sourceIndex, packCount, compression, hle, hname⟩ := hnamed address source hsource
    rw [← hcontent, hname] at hfile
    refine absurd ?_ (contentPackPath_not_staging (UInt64.lt_of_le_of_lt hle hprepared.revision) sourceIndex
      packCount compression)
    exact Or.inr ⟨index, packs.length, options.compression, Or.inl hfile⟩

/-- The entries of an old file have been carried over. -/
theorem carried_of_old {file : PathBuf}
    (hold : ∀ index, file ≠ contentPackPath publication.revision index packs.length options.compression)
    {entry : PackFileIndexEntry} (hfile : entry.content.file = file)
    (hentry : (publication.index guard options packs).entries[address]? = some entry) :
    address ∉ publication.staged.map (·.address) ∧ publication.entries[address]? = some entry := by
  rcases h.cases_file hnamed hentry with ⟨index, _, _, hnew⟩ | ⟨_, hkept⟩
  · exact absurd (hfile.symm.trans hnew) (hold index)
  · exact hkept

theorem tidy (htidy : Tidy (readIndex disk).entries) : Tidy (publication.index guard options packs).entries := by
  have hself := CarriedFrom.refl (publication.index guard options packs).entries
  have hsize : ∀ {index : Nat} {pack : List StagedContentItem} {address : PackFileAddress}
      {entry : PackFileIndexEntry}, packs[index]? = some pack →
      (publication.index guard options packs).entries[address]? = some entry →
        entry.content.file = contentPackPath publication.revision index packs.length options.compression →
          entry.content.packSize.toNat = packBytes pack := by
    intro index pack address entry hpack hentry hfile
    obtain ⟨item, hitem, rfl⟩ := h.index_eq hnamed hpack hentry hfile
    exact (h.later_entry hself hpack hitem hentry).2.2
  constructor
  · intro address other entry otherEntry hentry hother hfile
    rcases h.cases_file hnamed hentry with ⟨index, pack, hpack, hnew⟩ | ⟨hold, _, hcarried⟩
    · refine UInt64.toNat_inj.mp ?_
      rw [hsize hpack hentry hnew, hsize hpack hother (hfile.symm.trans hnew)]
    · obtain ⟨_, hotherCarried⟩ := h.carried_of_old hnamed hold hfile.symm hother
      obtain ⟨source, hsource, hcontent⟩ := carriedFrom_next h.prepared _ _ hcarried
      obtain ⟨otherSource, hotherSource, hotherContent⟩ := carriedFrom_next h.prepared _ _ hotherCarried
      rw [← hcontent, ← hotherContent] at hfile ⊢
      exact htidy.sized address other source otherSource hsource hotherSource hfile
  · intro address entry hentry
    rcases h.cases_file hnamed hentry with ⟨index, pack, hpack, hnew⟩ | ⟨hold, _, hcarried⟩
    · rw [hsize hpack hentry hnew, hnew, h.liveLength_stillLive _ hnamed hself hpack]
      exact packBytes_stillLive _ _ pack
    · obtain ⟨source, hsource, hcontent⟩ := carriedFrom_next h.prepared _ _ hcarried
      have hle : liveLength (liveEntries (publication.index guard options packs).entries {} entry.content.file) ≤
          liveLength (liveEntries (readIndex disk).entries {} entry.content.file) := by
        refine CarriedFrom.liveLength_le fun item hitem => ?_
        obtain ⟨hitemEntry, _, hitemFile⟩ := mem_liveEntries.mp hitem
        obtain ⟨_, hitemCarried⟩ := h.carried_of_old hnamed hold hitemFile hitemEntry
        exact carriedFrom_next h.prepared _ _ hitemCarried
      refine hle.trans ?_
      rw [← hcontent]
      exact htidy.filled address source hsource

end Packed

end

section

variable (compressors : Compressors) (maintenance : PackFileMaintenance)

/-- A publication that succeeds, and what it has prepared and packed. -/
structure Succeeded (disk : Disk) (guard : Option PackFileGuardDto) (base : PublicationBase)
    (batch : PackFileWriteBatch) (options : PackFilePublicationOptions) (publication : Publication)
    (packs : List (List StagedContentItem)) (newer : Disk) : Prop where
  maintenance : options.maintenance = maintenance
  packed : Packed compressors disk base batch options publication packs
  run : ∃ outcomes failed, exec FileEffect.apply outcomes (publishBatch compressors guard base batch options).run
    [] disk = ⟨.done (.ok ()), failed, newer⟩

/-- Roots after successful publications with fixed settings. -/
inductive MaintainedRoot : Disk → Prop
  | fresh {disk : Disk} (habsent : disk indexFile = none) : MaintainedRoot disk
  | publish {disk newer : Disk} (hdisk : MaintainedRoot disk) {guard : Option PackFileGuardDto}
      {base : PublicationBase} {batch : PackFileWriteBatch} {options : PackFilePublicationOptions}
      {publication : Publication} {packs : List (List StagedContentItem)}
      (hstep : Succeeded compressors maintenance disk guard base batch options publication packs newer) :
      MaintainedRoot newer

variable {compressors maintenance} {disk newer : Disk} {guard : Option PackFileGuardDto} {base : PublicationBase}
  {batch : PackFileWriteBatch} {options : PackFilePublicationOptions} {publication : Publication}
  {packs : List (List StagedContentItem)}

theorem Succeeded.readIndex_eq (hnamed : (readIndex disk).Named)
    (h : Succeeded compressors maintenance disk guard base batch options publication packs newer) :
    readIndex newer = publication.index guard options packs := by
  obtain ⟨outcomes, failed, hrun⟩ := h.run
  rcases (guarded_publishBatch guard base batch options hnamed).always.exec_cases hrun with
    ⟨outcome, hdone, hreturned⟩ | ⟨hrest, _⟩
  · cases hdone
    obtain ⟨_, installed, installedPacks, hinstalled⟩ := hreturned
    have hpublication := hinstalled.preparation.symm.trans h.packed.prepared
    cases hpublication
    have hpacks := hinstalled.packed.symm.trans h.packed.packed
    cases hpacks
    exact hinstalled.readIndex_eq
  · exact absurd rfl (hrest (.ok ()))

theorem MaintainedRoot.named_tidy (h : MaintainedRoot compressors maintenance disk) :
    (readIndex disk).Named ∧ Tidy (readIndex disk).entries := by
  induction h with
  | @fresh disk habsent =>
      have hempty : readIndex disk = {} := by
        rw [readIndex, readBounded, habsent]
        rfl
      rw [hempty]
      refine ⟨fun address entry hentry => ?_, fun address other entry otherEntry hentry => ?_,
        fun address entry hentry => ?_⟩
      all_goals simp at hentry
  | publish hdisk hstep ih =>
      obtain ⟨hnamed, htidy⟩ := ih
      rw [hstep.readIndex_eq hnamed]
      exact ⟨(of_preparePublication hstep.packed.prepared).named hstep.packed.packed hnamed _,
        hstep.packed.tidy hnamed htidy⟩

end

end Unpack
