import Unpack.PackFileStore
import Unpack.Lib.Fallible

/-! Where a publication puts its entries: what carrying an entry keeps, which entries are staged again for
maintenance, how packing keeps all staged items, and what the index holds once all packs are placed. -/

namespace Unpack

open Fallible

section

variable {batch : PackFileWriteBatch} {revision : UInt64} {retention : PackFileRetention}
  {entries : IndexEntries} {address : PackFileAddress} {entry : PackFileIndexEntry}

/-- Carrying an entry changes when it was used, and nothing else. -/
theorem carryEntry_keeps (batch : PackFileWriteBatch) (revision : UInt64) (address : PackFileAddress)
    (entry : PackFileIndexEntry) :
    (carryEntry batch revision address entry).content = entry.content ∧
      (carryEntry batch revision address entry).etag = entry.etag ∧
        (carryEntry batch revision address entry).typeId = entry.typeId ∧
          (carryEntry batch revision address entry).codecId = entry.codecId := by
  unfold carryEntry
  cases batch.accesses[address]? with
  | some access => split_ifs <;> exact ⟨rfl, rfl, rfl, rfl⟩
  | none =>
    dsimp only
    split_ifs <;> exact ⟨rfl, rfl, rfl, rfl⟩

/-- Valid revisions stay valid when an entry is carried to a later revision. -/
theorem carryEntry_revisions (batch : PackFileWriteBatch) (address : PackFileAddress) {next : UInt64}
    (hnext : revision < next) (h : entry.revisionsAreValid revision) :
    (carryEntry batch next address entry).revisionsAreValid next := by
  have hlater : ∀ {value : UInt64}, value ≤ revision → value ≤ next :=
    fun hle => UInt64.le_trans hle (UInt64.le_of_lt hnext)
  have hentry : entry.revisionsAreValid next ∧ entry.lastUsedRevision ≤ next := by
    unfold PackFileIndexEntry.revisionsAreValid at h ⊢
    cases hunused : entry.unusedSinceRevision with
    | none =>
      rw [hunused] at h
      simp only [Option.all_none, Bool.and_true, decide_eq_true_eq] at h ⊢
      exact ⟨hlater h, hlater h⟩
    | some unusedSince =>
      rw [hunused] at h
      simp only [Option.all_some, Bool.and_eq_true, decide_eq_true_eq] at h ⊢
      exact ⟨⟨hlater h.1, hlater h.2.1, h.2.2⟩, hlater h.1⟩
  unfold carryEntry
  by_cases hbatch : address ∈ batch.items
  · rw [if_pos hbatch]
    exact hentry.1
  · rw [if_neg hbatch]
    cases batch.accesses[address]? with
    | some access => simp [PackFileIndexEntry.revisionsAreValid]
    | none =>
      dsimp only
      split_ifs with hunused
      · simp [PackFileIndexEntry.revisionsAreValid, hentry.2]
      · exact hentry.1

theorem getElem?_carryEntries (batch : PackFileWriteBatch) (revision : UInt64)
    (retention : PackFileRetention) (entries : IndexEntries) (address : PackFileAddress) :
    (carryEntries batch revision retention entries)[address]? =
      (entries[address]?.map (carryEntry batch revision address)).filter fun entry =>
        address ∈ batch.items || !entryIsExpired entry revision retention := by
  rw [carryEntries, Std.ExtTreeMap.getElem?_filter', Std.ExtTreeMap.getElem?_map]

theorem of_carryEntries
    (h : (carryEntries batch revision retention entries)[address]? = some entry) :
    ∃ base, entries[address]? = some base ∧ carryEntry batch revision address base = entry := by
  rw [getElem?_carryEntries, Option.filter_eq_some_iff] at h
  exact Option.map_eq_some_iff.mp h.1

end

/-- A staged item is one of the batch, or an entry that is not in the batch, with the frame it finds. -/
structure StagedFor (compressors : Compressors) (disk : Disk) (batch : PackFileWriteBatch)
    (entries : IndexEntries) (item : StagedContentItem) : Prop where
  pending_eq : batch.items[item.address]? = item.pending
  written : ∀ pending, item.pending = some pending →
    encodeContent pending.typeId pending.codecId pending.payload = .ok item.frame
  carried : item.pending = none → ∃ entry, entries[item.address]? = some entry ∧
    (EntriesAgree entries → frameAt compressors disk entry.content = some item.frame)

section

variable {compressors : Compressors} {disk : Disk} {batch : PackFileWriteBatch} {entries : IndexEntries}

/-- The addresses of a file are carried entries whose content is in that file. -/
theorem of_entriesByContentFile {file : PathBuf} {addresses : List PackFileAddress}
    (h : (entriesByContentFile entries batch)[file]? = some addresses) :
    ∀ address ∈ addresses, address ∉ batch.items ∧
      ∃ entry, entries[address]? = some entry ∧ entry.content.file = file := by
  have hfold : ∀ (items : List (PackFileAddress × PackFileIndexEntry)),
      (∀ item ∈ items, entries[item.1]? = some item.2) →
      ∀ (file : PathBuf) (addresses : List PackFileAddress),
        (items.foldl (fun files item =>
          if item.1 ∈ batch.items then files
          else files.insert item.2.content.file ((files[item.2.content.file]?).getD [] ++ [item.1]))
          (∅ : BTreeMap PathBuf (List PackFileAddress)))[file]? = some addresses →
        ∀ address ∈ addresses, address ∉ batch.items ∧
          ∃ entry, entries[address]? = some entry ∧ entry.content.file = file := by
    intro items
    induction items using List.reverseRecOn with
    | nil =>
      intro _ file addresses haddresses
      simp at haddresses
    | append_singleton items item ih =>
      intro hitems file addresses haddresses address haddress
      have hbefore := ih fun other hother => hitems other (List.mem_append_left _ hother)
      rw [List.foldl_concat] at haddresses
      split_ifs at haddresses with hpending
      · exact hbefore file addresses haddresses address haddress
      · rw [Std.ExtTreeMap.getElem?_insert] at haddresses
        split_ifs at haddresses with hfile
        · cases haddresses
          have hsame := Std.LawfulEqCmp.eq_of_compare hfile
          rcases List.mem_append.mp haddress with hold | hnew
          · cases hrow : (items.foldl (fun files item =>
                if item.1 ∈ batch.items then files
                else files.insert item.2.content.file
                  ((files[item.2.content.file]?).getD [] ++ [item.1]))
                (∅ : BTreeMap PathBuf (List PackFileAddress)))[item.2.content.file]? with
            | none =>
              rw [hrow] at hold
              exact absurd hold List.not_mem_nil
            | some row =>
              rw [hrow] at hold
              rw [← hsame]
              exact hbefore _ row hrow address hold
          · rw [List.mem_singleton] at hnew
            rw [hnew]
            exact ⟨hpending, item.2, hitems item (by simp), hsame⟩
        · exact hbefore file addresses haddresses address haddress
  exact hfold _ (fun item hitem => Std.ExtTreeMap.mem_toList_iff_getElem?_eq_some.mp hitem) file addresses h

theorem staged_stageFrame {pack : List UInt8} {address : PackFileAddress} {entry : PackFileIndexEntry}
    {item : StagedContentItem} (h : stageFrame pack address entry = .ok item) :
    item.address = address ∧ item.pending = none ∧ sliceBytes pack entry.content.offset.toNat
      (entry.content.offset.toNat + entry.content.length.toNat) = some item.frame := by
  unfold stageFrame at h
  dsimp only at h
  split at h
  · cases h
  · rename_i frame hslice
    split_ifs at h
    cases h
    exact ⟨rfl, rfl, hslice⟩

theorem staged_stageFile {file : PathBuf} {addresses : List PackFileAddress}
    {items : List StagedContentItem}
    (hfile : (entriesByContentFile entries batch)[file]? = some addresses)
    (h : stageFile entries compressors disk (file, addresses) = .ok items) :
    ∀ item ∈ items, StagedFor compressors disk batch entries item := by
  have haddresses := of_entriesByContentFile hfile
  unfold stageFile at h
  dsimp only at h
  split at h
  · cases h
    simp
  · rename_i first hfirst
    split at h
    · cases h
    · rename_i pack hpack
      obtain ⟨address, hhead, hentry⟩ := Option.bind_eq_some_iff.mp hfirst
      obtain ⟨-, same, hsame, hsamefile⟩ := haddresses address (List.mem_of_mem_head? hhead)
      cases hentry.symm.trans hsame
      intro item hitem
      obtain ⟨source, hsource, hstage⟩ := (of_mapM h).1 item hitem
      obtain ⟨haddress, hpending, hslice⟩ := staged_stageFrame hstage
      rw [List.mem_insertionSort] at hsource
      obtain ⟨carried, hcarried, hmap⟩ := List.mem_filterMap.mp hsource
      obtain ⟨entry, hentry', hpair⟩ := Option.map_eq_some_iff.mp hmap
      cases hpair
      obtain ⟨hbatch, entry', hentry'', hentryfile⟩ := haddresses carried hcarried
      cases hentry'.symm.trans hentry''
      refine ⟨?_, fun pending hsome => ?_, fun _ => ?_⟩
      · rw [hpending, haddress]
        exact Std.ExtTreeMap.getElem?_eq_none hbatch
      · exact absurd (hpending.symm.trans hsome) (Option.some_ne_none pending).symm
      · rw [haddress]
        refine ⟨entry, hentry', fun hagree => ?_⟩
        obtain ⟨hcompression, hsize⟩ := hagree carried address entry first hentry' hentry
          (hentryfile.trans hsamefile.symm)
        rw [frameAt, hentryfile, hcompression, hsize, hpack]
        exact hslice

theorem staged_stageMaintenance {maintenance : PackFileMaintenance} {items : List StagedContentItem}
    (h : stageMaintenance entries compressors disk
      (maintenanceSourceFiles entries maintenance (entriesByContentFile entries batch)) = .ok items) :
    ∀ item ∈ items, StagedFor compressors disk batch entries item := by
  obtain ⟨staged, hstaged, hflatten⟩ := of_bind_ok h
  cases hflatten
  intro item hitem
  obtain ⟨list, hlist, hmem⟩ := List.mem_flatten.mp hitem
  obtain ⟨source, hsource, hstage⟩ := (of_mapM hstaged).1 list hlist
  have hfile := Std.ExtTreeMap.mem_toList_iff_getElem?_eq_some.mp (List.mem_filter.mp hsource).1
  exact staged_stageFile hfile hstage item hmem

/-- All of the batch is staged, and nothing else. -/
theorem staged_stagePending (compressors : Compressors) (disk : Disk) (entries : IndexEntries)
    {items : List StagedContentItem} (h : stagePending batch = .ok items) :
    (∀ item ∈ items, StagedFor compressors disk batch entries item) ∧
      ∀ address ∈ batch.items, ∃ item ∈ items, item.address = address := by
  have hstage : ∀ {source : PackFileAddress × PendingPackFileItem} {item : StagedContentItem},
      (do
        let frame ← encodeContent source.2.typeId source.2.codecId source.2.payload
        pure (⟨source.1, some source.2, frame, true⟩ : StagedContentItem)) = Except.ok item →
      item.address = source.1 ∧ item.pending = some source.2 ∧
        encodeContent source.2.typeId source.2.codecId source.2.payload = .ok item.frame := by
    intro source item hitem
    obtain ⟨frame, hframe, hpure⟩ := of_bind_ok hitem
    cases hpure
    exact ⟨rfl, rfl, hframe⟩
  obtain ⟨hback, hforth⟩ := of_mapM h
  constructor
  · intro item hitem
    obtain ⟨source, hsource, hencode⟩ := hback item hitem
    obtain ⟨haddress, hpending, hframe⟩ := hstage hencode
    refine ⟨?_, fun pending hsome => ?_, fun hnone => ?_⟩
    · rw [hpending, haddress]
      exact Std.ExtTreeMap.mem_toList_iff_getElem?_eq_some.mp hsource
    · cases hpending.symm.trans hsome
      exact hframe
    · exact absurd (hpending.symm.trans hnone) (Option.some_ne_none _)
  · intro address haddress
    obtain ⟨pending, hpending⟩ := Std.ExtTreeMap.isSome_getElem?_iff_mem.mpr haddress |>
      Option.isSome_iff_exists.mp
    obtain ⟨item, hitem, hencode⟩ :=
      hforth (address, pending) (Std.ExtTreeMap.mem_toList_iff_getElem?_eq_some.mpr hpending)
    exact ⟨item, hitem, (hstage hencode).1⟩

end

/-- All items so far, in their order. -/
def Packing.items (packing : Packing) : List StagedContentItem :=
  packing.packs.flatten ++ packing.currentPack

/-- The open pack knows its size, and no pack is too large. -/
structure Packing.Bounded (packing : Packing) : Prop where
  bytes : packing.currentPackBytes = packBytes packing.currentPack
  current : packBytes packing.currentPack ≤ maxContentBytes
  packs : ∀ pack ∈ packing.packs, packBytes pack ≤ maxContentBytes

theorem packBytes_append (pack : List StagedContentItem) (item : StagedContentItem) :
    packBytes (pack ++ [item]) = packBytes pack + item.frame.length := by
  simp [packBytes]

theorem Packing.bounded_close {packing : Packing} (h : packing.Bounded) :
    packing.close.Bounded ∧ packing.close.items = packing.items := by
  refine ⟨⟨rfl, Nat.zero_le _, fun pack hpack => ?_⟩, ?_⟩
  · rcases List.mem_append.mp hpack with hpack | hpack
    · exact h.packs pack hpack
    · rw [List.mem_singleton.mp hpack]
      exact h.current
  · simp [Packing.items, Packing.close]

theorem Packing.push_spec {packing result : Packing} {target : Nat} {item : StagedContentItem}
    (hbounded : packing.Bounded) (h : packing.push target item = .ok result) :
    result.Bounded ∧ result.items = packing.items ++ [item] := by
  have hspec : ∀ ready : Packing, ready.Bounded → ready.items = packing.items →
      ready.currentPackBytes + item.frame.length ≤ maxContentBytes →
      result = { ready with
        currentPack := ready.currentPack ++ [item]
        currentPackBytes := ready.currentPackBytes + item.frame.length
        currentPackUsed := some item.used } →
      result.Bounded ∧ result.items = packing.items ++ [item] := by
    rintro ready hready hitems hsize rfl
    have hbytes := packBytes_append ready.currentPack item
    refine ⟨⟨?_, ?_, hready.packs⟩, ?_⟩
    · rw [hbytes, ← hready.bytes]
    · rw [hbytes, ← hready.bytes]
      exact hsize
    · rw [← hitems]
      simp [Packing.items]
  unfold Packing.push at h
  dsimp only at h
  split_ifs at h with hcomplete hoverflow hbound hoverflow hbound
  · cases h
    exact hspec packing.close (bounded_close hbounded).1 (bounded_close hbounded).2 (by omega) rfl
  · cases h
    exact hspec packing hbounded rfl (by omega) rfl

theorem of_packItems {target : Nat} {items : List StagedContentItem}
    {packs : List (List StagedContentItem)} (h : packItems target items = .ok packs) :
    packs.flatten = sortStaged items ∧ ∀ pack ∈ packs, packBytes pack ≤ maxContentBytes := by
  have hfold : ∀ (items : List StagedContentItem) (packing result : Packing), packing.Bounded →
      items.foldlM (Packing.push target) packing = .ok result →
        result.Bounded ∧ result.items = packing.items ++ items := by
    intro items
    induction items with
    | nil =>
      intro packing result hbounded hresult
      cases hresult
      exact ⟨hbounded, (List.append_nil _).symm⟩
    | cons item items ih =>
      intro packing result hbounded hresult
      rw [List.foldlM_cons] at hresult
      obtain ⟨next, hnext, hrest⟩ := of_bind_ok hresult
      obtain ⟨hnextBounded, hnextItems⟩ := Packing.push_spec hbounded hnext
      obtain ⟨hresultBounded, hresultItems⟩ := ih next result hnextBounded hrest
      refine ⟨hresultBounded, ?_⟩
      rw [hresultItems, hnextItems, List.append_assoc, List.singleton_append]
  obtain ⟨packing, hpacking, hpure⟩ := of_bind_ok h
  cases hpure
  obtain ⟨hbounded, hitems⟩ := hfold _ {} packing
    ⟨rfl, Nat.zero_le _, fun pack hpack => absurd hpack List.not_mem_nil⟩ hpacking
  rw [← show packing.items = sortStaged items from hitems]
  split_ifs with hempty
  · refine ⟨?_, hbounded.packs⟩
    rw [Packing.items, List.isEmpty_iff.mp hempty, List.append_nil]
  · refine ⟨by simp [Packing.items], fun pack hpack => ?_⟩
    rcases List.mem_append.mp hpack with hpack | hpack
    · exact hbounded.packs pack hpack
    · rw [List.mem_singleton.mp hpack]
      exact hbounded.current

theorem mem_sortStaged {items : List StagedContentItem} {item : StagedContentItem} :
    item ∈ sortStaged items ↔ item ∈ items := by
  rw [sortStaged, List.mem_append, List.mem_filter, List.mem_filter]
  cases item.used <;> simp

/-- The entry of an item whose frame is where the reference says. -/
def placedEntry (revision now : UInt64) (carried : Option PackFileIndexEntry) (item : StagedContentItem)
    (content : ContentReference) : Option PackFileIndexEntry :=
  match item.pending with
  | some pending =>
      some ⟨pending.etag, pending.typeId, pending.codecId, content, now, revision, none⟩
  | none => carried.map fun entry => { entry with content }

/-- What the entries hold once some items are placed. -/
structure Placed (revision now : UInt64) (carried : IndexEntries) (done : List StagedContentItem)
    (entries : IndexEntries) (Good : ContentReference → List UInt8 → Prop) : Prop where
  untouched : ∀ address : PackFileAddress, (∀ item ∈ done, item.address ≠ address) →
    entries[address]? = carried[address]?
  touched : ∀ item ∈ done, ∃ other ∈ done, other.address = item.address ∧
    ∃ content, Good content other.frame ∧
      entries[item.address]? = placedEntry revision now carried[item.address]? other content

/-- Items of one address are of one pending item, or all carried. -/
def Coherent (items : List StagedContentItem) : Prop :=
  ∀ item ∈ items, ∀ other ∈ items, item.address = other.address → item.pending = other.pending

section

variable {revision now : UInt64} {carried entries : IndexEntries} {done : List StagedContentItem}
  {Good Good' : ContentReference → List UInt8 → Prop}

theorem Placed.withItem {file : PathBuf} {packSize : UInt64} {compression : PackFileCompression}
    {bytes : List UInt8} {item : StagedContentItem} (hcoherent : Coherent (done ++ [item]))
    (h : Placed revision now carried done entries Good)
    (hgood : Good ⟨file, UInt64.ofNat bytes.length, UInt64.ofNat item.frame.length,
      checksum item.frame, packSize, compression⟩ item.frame) :
    Placed revision now carried (done ++ [item])
      (placeItem revision now file packSize compression (entries, bytes) item).1 Good := by
  have hother : ∀ address, item.address ≠ address →
      (placeItem revision now file packSize compression (entries, bytes) item).1[address]? =
        entries[address]? := by
    intro address hne
    have hcompare : compare item.address address ≠ .eq := fun heq =>
      hne (Std.LawfulEqCmp.eq_of_compare heq)
    unfold placeItem
    cases item.pending with
    | some pending => exact Std.ExtTreeMap.getElem?_insert.trans (if_neg hcompare)
    | none => exact Std.ExtTreeMap.getElem?_modify.trans (if_neg hcompare)
  have hown : ∃ content, Good content item.frame ∧
      (placeItem revision now file packSize compression (entries, bytes) item).1[item.address]? =
        placedEntry revision now carried[item.address]? item content := by
    refine ⟨_, hgood, ?_⟩
    unfold placeItem placedEntry
    cases hpending : item.pending with
    | some pending => simp
    | none =>
      dsimp only
      rw [Std.ExtTreeMap.getElem?_modify, if_pos Std.ReflCmp.compare_self]
      by_cases hdone : ∃ earlier ∈ done, earlier.address = item.address
      · obtain ⟨earlier, hearlier, haddress⟩ := hdone
        obtain ⟨placed, hplaced, hsame, content, -, hentry⟩ := h.touched earlier hearlier
        have hcarried : placed.pending = none :=
          (hcoherent placed (List.mem_append_left _ hplaced) item (by simp)
            (hsame.trans haddress)).trans hpending
        rw [← haddress, hentry, placedEntry, hcarried]
        cases carried[earlier.address]? <;> rfl
      · push Not at hdone
        rw [h.untouched item.address hdone]
  constructor
  · intro address haddress
    rw [hother address (haddress item (by simp))]
    exact h.untouched address fun earlier hearlier => haddress earlier (List.mem_append_left _ hearlier)
  · intro target htarget
    by_cases hsame : item.address = target.address
    · obtain ⟨content, hcontent, hentry⟩ := hown
      exact ⟨item, by simp, hsame, content, hcontent, by rw [← hsame]; exact hentry⟩
    · rcases List.mem_append.mp htarget with hdone | hnew
      · obtain ⟨other, hmem, haddress, content, hcontent, hentry⟩ := h.touched target hdone
        refine ⟨other, List.mem_append_left _ hmem, haddress, content, hcontent, ?_⟩
        rw [hother _ hsame, hentry]
      · rw [List.mem_singleton.mp hnew] at hsame
        exact absurd rfl hsame

theorem foldl_placeItem_content (revision now : UInt64) (file : PathBuf) (packSize : UInt64)
    (compression : PackFileCompression) (pack : List StagedContentItem) (placed : IndexEntries × List UInt8) :
    (pack.foldl (placeItem revision now file packSize compression) placed).2 =
      placed.2 ++ (pack.map (·.frame)).flatten := by
  induction pack generalizing placed with
  | nil => simp
  | cons item pack ih =>
    rw [List.foldl_cons, ih, List.map_cons, List.flatten_cons, ← List.append_assoc]
    rfl

/-- A pack is placed item by item, each behind the bytes of those before it. -/
theorem Placed.withPack {file : PathBuf} {packSize : UInt64} {compression : PackFileCompression}
    {content : List UInt8} (hgood : ∀ before frame after, content = before ++ frame ++ after →
      Good ⟨file, UInt64.ofNat before.length, UInt64.ofNat frame.length, checksum frame, packSize,
        compression⟩ frame)
    (pack : List StagedContentItem) {bytes : List UInt8}
    (hcontent : content = bytes ++ (pack.map (·.frame)).flatten) (hcoherent : Coherent (done ++ pack))
    (h : Placed revision now carried done entries Good) :
    Placed revision now carried (done ++ pack)
      (pack.foldl (placeItem revision now file packSize compression) (entries, bytes)).1 Good := by
  induction pack generalizing done entries bytes with
  | nil =>
    rw [List.append_nil]
    exact h
  | cons item pack ih =>
    have hfirst : Coherent (done ++ [item]) := fun left hleft right hright =>
      hcoherent left (by simp at hleft ⊢; tauto) right (by simp at hright ⊢; tauto)
    have hitem := h.withItem hfirst (hgood bytes item.frame (pack.map (·.frame)).flatten
      (by simpa [List.append_assoc] using hcontent))
    rw [List.foldl_cons, ← List.singleton_append, ← List.append_assoc]
    refine ih ?_ (by simpa [List.append_assoc] using hcoherent) hitem
    rw [hcontent]
    simp

end

/-- The entries once all packs are placed. -/
def placePacks (revision now : UInt64) (packCount : Nat) (compression : PackFileCompression) :
    Nat → List (List StagedContentItem) → IndexEntries → IndexEntries
  | _, [], entries => entries
  | packIndex, pack :: packs, entries =>
      placePacks revision now packCount compression (packIndex + 1) packs
        (placePack revision now packCount compression packIndex entries pack).1

def packContent (pack : List StagedContentItem) : List UInt8 := (pack.map (·.frame)).flatten

theorem length_packContent (pack : List StagedContentItem) : (packContent pack).length = packBytes pack := by
  simp [packContent, packBytes, List.length_flatten, Function.comp_def]

/-- The reference points at the frame inside one of the packs. -/
structure PackContent (revision : UInt64) (compression : PackFileCompression)
    (packs : List (List StagedContentItem)) (packIndex : Nat) (content : ContentReference)
    (frame : List UInt8) : Prop where
  inside : ∃ pack before after, packs[packIndex]? = some pack ∧
    packContent pack = before ++ frame ++ after ∧
      content = ⟨contentPackPath revision packIndex packs.length compression, UInt64.ofNat before.length,
        UInt64.ofNat frame.length, checksum frame, UInt64.ofNat (packBytes pack), compression⟩

section

variable {revision now : UInt64} {compression : PackFileCompression}
  {packs : List (List StagedContentItem)} {carried entries : IndexEntries} {packIndex : Nat}
  {content : ContentReference} {frame : List UInt8}

theorem PackContent.file_eq (h : PackContent revision compression packs packIndex content frame) :
    content.file = contentPackPath revision packIndex packs.length compression ∧
      packIndex < packs.length := by
  obtain ⟨pack, before, after, hpack, -, rfl⟩ := h.inside
  exact ⟨rfl, (List.getElem?_eq_some_iff.mp hpack).1⟩

theorem PackContent.agree {other : ContentReference} {otherFrame : List UInt8}
    (h : PackContent revision compression packs packIndex content frame)
    (hother : PackContent revision compression packs packIndex other otherFrame) :
    content.compression = other.compression ∧ content.packSize = other.packSize := by
  obtain ⟨pack, before, after, hpack, -, rfl⟩ := h.inside
  obtain ⟨otherPack, otherBefore, otherAfter, hotherPack, -, rfl⟩ := hother.inside
  cases hpack.symm.trans hotherPack
  exact ⟨rfl, rfl⟩

theorem PackContent.isBounded (hbounds : ∀ pack ∈ packs, packBytes pack ≤ maxContentBytes)
    (h : PackContent revision compression packs packIndex content frame) : content.IsBounded := by
  obtain ⟨pack, before, after, hpack, hsplit, rfl⟩ := h.inside
  have hbound := hbounds pack (List.mem_of_getElem? hpack)
  have hparts : before.length + frame.length + after.length = packBytes pack := by
    rw [← length_packContent, hsplit, List.length_append, List.length_append]
  have hsmall : ∀ value ≤ packBytes pack, (UInt64.ofNat value).toNat = value := by
    intro value hvalue
    refine UInt64.toNat_ofNat_of_lt' ?_
    rw [maxContentBytes] at hbound
    rw [UInt64.size]
    omega
  unfold ContentReference.IsBounded
  dsimp only
  rw [hsmall before.length (by omega), hsmall frame.length (by omega), hsmall (packBytes pack) le_rfl]
  omega

/-- Packs are placed one after the other, by induction on those that are left. -/
theorem placed_placePacks (hcoherent : Coherent packs.flatten) (rest : List (List StagedContentItem))
    {count : Nat} (hrest : packs.drop count = rest)
    (h : Placed revision now carried (packs.take count).flatten entries
      fun content frame => ∃ packIndex, PackContent revision compression packs packIndex content frame) :
    Placed revision now carried packs.flatten
      (placePacks revision now packs.length compression count rest entries)
      fun content frame =>
        ∃ packIndex, PackContent revision compression packs packIndex content frame := by
  induction rest generalizing count entries with
  | nil =>
    rw [List.take_of_length_le (List.drop_eq_nil_iff.mp hrest)] at h
    exact h
  | cons pack rest ih =>
    have hpack : packs[count]? = some pack := by
      rw [← List.head?_drop, hrest]
      rfl
    have hdrop : packs.drop (count + 1) = rest := by
      rw [← List.drop_drop, hrest]
      rfl
    have htake : (packs.take (count + 1)).flatten = (packs.take count).flatten ++ pack := by
      rw [List.take_add_one, hpack]
      simp
    have hsplit : packs.flatten = (packs.take count).flatten ++ pack ++ rest.flatten := by
      rw [← htake, ← hdrop, ← List.flatten_append, List.take_append_drop]
    have hdone : Coherent ((packs.take count).flatten ++ pack) := by
      intro left hleft right hright
      refine hcoherent left ?_ right ?_
      · rw [hsplit]
        exact List.mem_append_left _ hleft
      · rw [hsplit]
        exact List.mem_append_left _ hright
    refine ih hdrop ?_
    rw [htake]
    exact Placed.withPack (fun before frame after hcontent =>
      ⟨count, ⟨pack, before, after, hpack, hcontent, rfl⟩⟩) pack (List.nil_append _).symm hdone h

end

end Unpack
