import Unpack.PackFileMaintenance

/-! What a publication rewrites and where it puts it: each address is staged once, packs above the target size
hold one frame, and each staged item is found in its own pack. -/

namespace Unpack

open Fallible

section

variable {compressors : Compressors} {disk : Disk} {entries : IndexEntries} {batch : PackFileWriteBatch}
  {maintenance : PackFileMaintenance}

/-- What is staged of a carried entry. -/
structure StagedCarried (item : StagedContentItem) (entry : PackFileIndexEntry) : Prop where
  pending : item.pending = none
  frame : item.frame ≠ []
  length : item.frame.length = entry.content.length.toNat

theorem length_of_sliceBytes {bytes slice : List UInt8} {start stop : Nat}
    (h : sliceBytes bytes start stop = some slice) : slice.length = stop - start := by
  obtain ⟨⟨hstart, hstop⟩, rfl⟩ := sliceBytes_eq_some_iff.mp h
  rw [List.length_take, List.length_drop]
  omega

theorem stagedCarried_stageFrame {pack : List UInt8} {address : PackFileAddress} {entry : PackFileIndexEntry}
    {item : StagedContentItem} (h : stageFrame pack address entry = .ok item) :
    item.address = address ∧ StagedCarried item entry := by
  obtain ⟨haddress, hpending, hslice⟩ := staged_stageFrame h
  refine ⟨haddress, hpending, ?_, ?_⟩
  · intro hnil
    unfold stageFrame at h
    dsimp only at h
    split at h
    · cases h
    · rename_i frame _
      split_ifs at h with hvalid
      cases h
      have hempty : decodeContent [] = none := by decide
      rw [show frame = [] from hnil, hempty] at hvalid
      cases hvalid.2
  · rw [length_of_sliceBytes hslice, Nat.add_sub_cancel_left]

/-- A file is staged with its live entries. -/
theorem stageFile_live {file : PathBuf} {items : List StagedContentItem}
    (hsome : liveEntries entries batch file ≠ [])
    (h : stageFile entries compressors disk (file, (liveEntries entries batch file).map (·.1)) = .ok items) :
    (items.map (·.address)).Perm ((liveEntries entries batch file).map (·.1)) ∧
      ∀ item ∈ items, ∃ entry, entries[item.address]? = some entry ∧ StagedCarried item entry := by
  have hcarried : ((liveEntries entries batch file).map (·.1)).filterMap
      (fun address => (entries[address]?).map fun entry => (address, entry)) = liveEntries entries batch file := by
    rw [List.filterMap_map]
    refine (List.filterMap_congr fun item hitem => ?_).trans List.filterMap_some
    rw [Function.comp_apply, (mem_liveEntries.mp hitem).1]
    rfl
  unfold stageFile at h
  dsimp only at h
  split at h
  · rename_i hfirst
    obtain ⟨first, live, hlive⟩ := List.exists_cons_of_ne_nil hsome
    have hentry := (mem_liveEntries.mp (hlive ▸ List.mem_cons_self : first ∈ liveEntries entries batch file)).1
    rw [hlive, List.map_cons, List.head?_cons, Option.bind_some, hentry] at hfirst
    cases hfirst
  · split at h
    · cases h
    · rw [hcarried] at h
      have hsorted := List.perm_insertionSort
        (fun left right : PackFileAddress × PackFileIndexEntry => left.2.content.offset ≤ right.2.content.offset)
        (liveEntries entries batch file)
      have haddresses := map_eq_of_mapM (fun _ _ hstage => (stagedCarried_stageFrame hstage).1) h
      constructor
      · rw [haddresses]
        exact hsorted.map _
      · intro item hitem
        obtain ⟨source, hsource, hstage⟩ := (of_mapM h).1 item hitem
        obtain ⟨haddress, hstaged⟩ := stagedCarried_stageFrame hstage
        rw [haddress]
        exact ⟨source.2, (mem_liveEntries.mp (hsorted.mem_iff.mp hsource)).1, hstaged⟩

/-- All files that are rewritten are staged with all of their live entries. -/
theorem stageMaintenance_live {items : List StagedContentItem}
    (h : stageMaintenance entries compressors disk
      (maintenanceSourceFiles entries maintenance (entriesByContentFile entries batch)) = .ok items) :
    (items.map (·.address)).Perm ((rewrittenFiles entries batch maintenance).flatMap fun file =>
        (liveEntries entries batch file).map (·.1)) ∧
      ∀ item ∈ items, ∃ entry, entries[item.address]? = some entry ∧ StagedCarried item entry := by
  obtain ⟨staged, hstaged, hflatten⟩ := of_bind_ok h
  cases hflatten
  have hlisted : ∀ source ∈ maintenanceSourceFiles entries maintenance (entriesByContentFile entries batch),
      liveEntries entries batch source.1 ≠ [] ∧ source.2 = (liveEntries entries batch source.1).map (·.1) := by
    intro source hsource
    have hfile := @getElem?_entriesByContentFile entries batch source.1
    rw [Std.ExtTreeMap.mem_toList_iff_getElem?_eq_some.mp (List.mem_filter.mp hsource).1] at hfile
    by_cases hnone : liveEntries entries batch source.1 = []
    · rw [if_pos hnone] at hfile
      cases hfile
    · rw [if_neg hnone] at hfile
      exact ⟨hnone, Option.some.inj hfile⟩
  rw [rewrittenFiles]
  generalize maintenanceSourceFiles entries maintenance (entriesByContentFile entries batch) = sources
    at hlisted hstaged
  have hall := forall₂_of_mapM hstaged
  clear hstaged h
  induction hall with
  | nil => exact ⟨List.Perm.refl _, fun _ h => absurd h List.not_mem_nil⟩
  | cons hfirst _ ih =>
      obtain ⟨hsome, haddresses⟩ := hlisted _ List.mem_cons_self
      obtain ⟨hperm, hcarried⟩ := ih fun source hsource => hlisted source (List.mem_cons_of_mem _ hsource)
      obtain ⟨hpermFirst, hcarriedFirst⟩ := stageFile_live hsome (by rw [← haddresses]; exact hfirst)
      constructor
      · rw [List.flatten_cons, List.map_append, List.map_cons, List.flatMap_cons]
        exact hpermFirst.append hperm
      · intro item hitem
        rw [List.flatten_cons, List.mem_append] at hitem
        exact hitem.elim (hcarriedFirst item) (hcarried item)

theorem nodup_rewrittenFiles : (rewrittenFiles entries batch maintenance).Nodup :=
  (nodup_keys (entriesByContentFile entries batch)).sublist (List.filter_sublist.map _)

theorem nodup_rewrittenAddresses : ((rewrittenFiles entries batch maintenance).flatMap fun file =>
    (liveEntries entries batch file).map (·.1)).Nodup := by
  refine List.nodup_flatMap.mpr ⟨fun file _ => nodup_liveAddresses, ?_⟩
  refine nodup_rewrittenFiles.imp fun hne address hleft hright => hne ?_
  obtain ⟨left, hleftLive, rfl⟩ := List.mem_map.mp hleft
  obtain ⟨right, hrightLive, hsame⟩ := List.mem_map.mp hright
  obtain ⟨hleftEntry, _, hleftFile⟩ := mem_liveEntries.mp hleftLive
  obtain ⟨hrightEntry, _, hrightFile⟩ := mem_liveEntries.mp hrightLive
  rw [hsame, hleftEntry] at hrightEntry
  rw [← hleftFile, ← hrightFile, Option.some.inj hrightEntry]

/-- What the staged items of a publication are. -/
structure StagedExactly (entries : IndexEntries) (batch : PackFileWriteBatch) (maintenance : PackFileMaintenance)
    (staged : List StagedContentItem) : Prop where
  nodup : (staged.map (·.address)).Nodup
  mem : ∀ address, address ∈ staged.map (·.address) ↔ address ∈ batch.items ∨
    ∃ file ∈ rewrittenFiles entries batch maintenance, address ∈ (liveEntries entries batch file).map (·.1)
  frame : ∀ item ∈ staged, item.frame ≠ []
  carried : ∀ item ∈ staged, item.address ∉ batch.items →
    ∃ entry, entries[item.address]? = some entry ∧ StagedCarried item entry
  pending : ∀ item ∈ staged, item.address ∈ batch.items → item.pending.isSome

theorem stagedExactly {maintained pending : List StagedContentItem}
    (hmaintained : stageMaintenance entries compressors disk
      (maintenanceSourceFiles entries maintenance (entriesByContentFile entries batch)) = .ok maintained)
    (hpending : stagePending batch = .ok pending) :
    StagedExactly entries batch maintenance (maintained ++ pending) := by
  obtain ⟨hperm, hcarried⟩ := stageMaintenance_live hmaintained
  have hitem : ∀ (source : PackFileAddress × PendingPackFileItem) (item : StagedContentItem),
      (do
        let frame ← encodeContent source.2.typeId source.2.codecId source.2.payload
        pure (⟨source.1, some source.2, frame, true⟩ : StagedContentItem)) = Except.ok item →
      item.address = source.1 ∧ item.pending.isSome ∧ item.frame ≠ [] := by
    intro source item hitem
    obtain ⟨frame, hframe, hpure⟩ := of_bind_ok hitem
    cases hpure
    refine ⟨rfl, rfl, ?_⟩
    rintro rfl
    have hdecodes := (decode_encodeContent hframe).1
    rw [show decodeContent [] = none by decide] at hdecodes
    cases hdecodes
  have haddresses := map_eq_of_mapM (fun source item hstage => (hitem source item hstage).1) hpending
  have hinBatch : ∀ address, address ∈ pending.map (·.address) ↔ address ∈ batch.items := by
    intro address
    rw [haddresses, List.mem_map, ← Std.ExtTreeMap.isSome_getElem?_iff_mem, Option.isSome_iff_exists]
    constructor
    · rintro ⟨source, hsource, rfl⟩
      exact ⟨source.2, Std.ExtTreeMap.mem_toList_iff_getElem?_eq_some.mp hsource⟩
    · rintro ⟨item, hitem⟩
      exact ⟨(address, item), Std.ExtTreeMap.mem_toList_iff_getElem?_eq_some.mpr hitem, rfl⟩
  have hnotInBatch : ∀ address, address ∈ maintained.map (·.address) → address ∉ batch.items := by
    intro address haddress
    obtain ⟨file, _, hlisted⟩ := List.mem_flatMap.mp (hperm.mem_iff.mp haddress)
    obtain ⟨item, hlive, rfl⟩ := List.mem_map.mp hlisted
    exact (mem_liveEntries.mp hlive).2.1
  refine ⟨?_, fun address => ?_, fun item hmem => ?_, fun item hmem hbatch => ?_, fun item hmem hbatch => ?_⟩
  · rw [List.map_append]
    refine List.nodup_append.mpr ⟨hperm.nodup_iff.mpr nodup_rewrittenAddresses, haddresses ▸ nodup_keys batch.items, ?_⟩
    rintro address hleft _ hright rfl
    exact hnotInBatch address hleft ((hinBatch address).mp hright)
  · rw [List.map_append, List.mem_append, hinBatch, hperm.mem_iff, List.mem_flatMap, or_comm]
  · rcases List.mem_append.mp hmem with hmem | hmem
    · obtain ⟨_, _, hstaged⟩ := hcarried item hmem
      exact hstaged.frame
    · obtain ⟨source, _, hstage⟩ := (of_mapM hpending).1 item hmem
      exact (hitem source item hstage).2.2
  · rcases List.mem_append.mp hmem with hmem | hmem
    · exact hcarried item hmem
    · exact absurd ((hinBatch _).mp (List.mem_map_of_mem hmem)) hbatch
  · rcases List.mem_append.mp hmem with hmem | hmem
    · exact absurd hbatch (hnotInBatch _ (List.mem_map_of_mem hmem))
    · obtain ⟨source, _, hstage⟩ := (of_mapM hpending).1 item hmem
      exact (hitem source item hstage).2.1

end

/-- A pack is not above the target size unless it holds one item. -/
def Fits (target : Nat) (pack : List StagedContentItem) : Prop :=
  packBytes pack ≤ target ∨ ∃ item, pack = [item]

structure Packing.Fitting (target : Nat) (packing : Packing) : Prop where
  bytes : packing.currentPackBytes = packBytes packing.currentPack
  current : Fits target packing.currentPack
  packs : ∀ pack ∈ packing.packs, pack ≠ [] ∧ Fits target pack

theorem Packing.Fitting.push {target : Nat} {packing result : Packing} {item : StagedContentItem}
    (hfitting : packing.Fitting target) (h : packing.push target item = .ok result) : result.Fitting target := by
  unfold Packing.push at h
  dsimp only at h
  split_ifs at h with hcomplete hoverflow hbound hoverflow hbound
  · cases h
    obtain ⟨hopen, _⟩ := Bool.and_eq_true_iff.mp hcomplete
    refine ⟨?_, Or.inr ⟨item, rfl⟩, fun pack hpack => ?_⟩
    · rw [packBytes_append]
      rfl
    · rcases List.mem_append.mp hpack with hpack | hpack
      · exact hfitting.packs pack hpack
      · rw [List.mem_singleton.mp hpack]
        refine ⟨fun hnil => ?_, hfitting.current⟩
        rw [hnil] at hopen
        cases hopen
  · cases h
    refine ⟨?_, ?_, hfitting.packs⟩
    · rw [packBytes_append, hfitting.bytes]
    · rw [isComplete, Bool.not_eq_true, Bool.and_eq_false_iff, Bool.or_eq_false_iff] at hcomplete
      rcases hcomplete with hempty | ⟨_, hsmall⟩
      · rw [Bool.not_eq_false', List.isEmpty_iff] at hempty
        rw [hempty]
        exact Or.inr ⟨item, rfl⟩
      · refine Or.inl ?_
        rw [packBytes_append, ← hfitting.bytes]
        exact Nat.le_of_not_lt (of_decide_eq_false hsmall)

theorem fits_packItems {target : Nat} {items : List StagedContentItem} {packs : List (List StagedContentItem)}
    (h : packItems target items = .ok packs) : ∀ pack ∈ packs, pack ≠ [] ∧ Fits target pack := by
  have hfold : ∀ (items : List StagedContentItem) (packing result : Packing), packing.Fitting target →
      items.foldlM (Packing.push target) packing = .ok result → result.Fitting target := by
    intro items
    induction items with
    | nil =>
        intro packing result hfitting hresult
        cases hresult
        exact hfitting
    | cons item items ih =>
        intro packing result hfitting hresult
        rw [List.foldlM_cons] at hresult
        obtain ⟨next, hnext, hrest⟩ := of_bind_ok hresult
        exact ih next result (hfitting.push hnext) hrest
  obtain ⟨packing, hpacking, hpure⟩ := of_bind_ok h
  cases hpure
  have hfitting := hfold _ {} packing ⟨rfl, Or.inl (Nat.zero_le _), nofun⟩ hpacking
  split_ifs with hempty
  · exact hfitting.packs
  · intro pack hpack
    rcases List.mem_append.mp hpack with hpack | hpack
    · exact hfitting.packs pack hpack
    · rw [List.mem_singleton.mp hpack]
      exact ⟨fun hnil => hempty (List.isEmpty_iff.mpr hnil), hfitting.current⟩

theorem Fits.le_iff {target : Nat} {pack : List StagedContentItem} (h : Fits target pack) :
    packBytes pack ≤ target ↔ ∀ item ∈ pack, item.frame.length ≤ target := by
  constructor
  · intro hsmall item hitem
    exact (List.single_le_sum (fun _ _ => Nat.zero_le _) _ (List.mem_map_of_mem hitem)).trans hsmall
  · rintro hframes
    rcases h with hsmall | ⟨item, rfl⟩
    · exact hsmall
    · simpa [packBytes] using hframes item (List.mem_singleton_self item)

theorem packBytes_pos {pack : List StagedContentItem} (hsome : pack ≠ []) (hframes : ∀ item ∈ pack, item.frame ≠ []) :
    0 < packBytes pack := by
  obtain ⟨item, rest, rfl⟩ := List.exists_cons_of_ne_nil hsome
  have hfirst := List.length_pos_iff.mpr (hframes item List.mem_cons_self)
  rw [packBytes, List.map_cons, List.sum_cons]
  omega

section

variable {revision now : UInt64} {file : PathBuf} {packSize : UInt64} {compression : PackFileCompression}
  {entries : IndexEntries} {bytes : List UInt8} {item : StagedContentItem} {address : PackFileAddress}

/-- The entry of an item that was placed in a pack. -/
structure PlacedIn (file : PathBuf) (packSize : UInt64) (item : StagedContentItem)
    (before : Option PackFileIndexEntry) (entry : PackFileIndexEntry) : Prop where
  file : entry.content.file = file
  length : entry.content.length = UInt64.ofNat item.frame.length
  packSize : entry.content.packSize = packSize
  carried : item.pending = none → before.map (·.unusedSinceRevision) = some entry.unusedSinceRevision

theorem placeItem_of_ne (h : item.address ≠ address) :
    (placeItem revision now file packSize compression (entries, bytes) item).1[address]? = entries[address]? := by
  have hcompare : compare item.address address ≠ .eq := fun heq => h (Std.LawfulEqCmp.eq_of_compare heq)
  unfold placeItem
  cases item.pending with
  | some pending => exact Std.ExtTreeMap.getElem?_insert.trans (if_neg hcompare)
  | none => exact Std.ExtTreeMap.getElem?_modify.trans (if_neg hcompare)

theorem placeItem_self (h : item.pending.isSome ∨ (entries[item.address]?).isSome) :
    ∃ entry, (placeItem revision now file packSize compression (entries, bytes) item).1[item.address]? = some entry ∧
      PlacedIn file packSize item entries[item.address]? entry := by
  unfold placeItem
  cases hpending : item.pending with
  | some pending =>
      refine ⟨_, Std.ExtTreeMap.getElem?_insert_self, rfl, rfl, rfl, fun hnone => ?_⟩
      rw [hpending] at hnone
      cases hnone
  | none =>
      rw [hpending] at h
      obtain ⟨old, hold⟩ := Option.isSome_iff_exists.mp (h.resolve_left nofun)
      dsimp only
      rw [Std.ExtTreeMap.getElem?_modify, if_pos Std.ReflCmp.compare_self, hold]
      exact ⟨_, rfl, rfl, rfl, rfl, fun _ => rfl⟩

theorem foldl_placeItem_of_notMem {pack : List StagedContentItem} {placed : IndexEntries × List UInt8}
    (h : address ∉ pack.map (·.address)) :
    (pack.foldl (placeItem revision now file packSize compression) placed).1[address]? = placed.1[address]? := by
  induction pack generalizing placed with
  | nil => rfl
  | cons first pack ih =>
      rw [List.map_cons, List.mem_cons, not_or] at h
      rw [List.foldl_cons, ih h.2]
      exact placeItem_of_ne (Ne.symm h.1)

theorem foldl_placeItem_self {pack : List StagedContentItem} {placed : IndexEntries × List UInt8}
    (hnodup : (pack.map (·.address)).Nodup) (hitem : item ∈ pack)
    (h : item.pending.isSome ∨ (placed.1[item.address]?).isSome) :
    ∃ entry, (pack.foldl (placeItem revision now file packSize compression) placed).1[item.address]? = some entry ∧
      PlacedIn file packSize item placed.1[item.address]? entry := by
  induction pack generalizing placed with
  | nil => cases hitem
  | cons first pack ih =>
      rw [List.map_cons, List.nodup_cons] at hnodup
      rw [List.foldl_cons]
      rcases List.mem_cons.mp hitem with rfl | hlater
      · rw [foldl_placeItem_of_notMem hnodup.1]
        exact placeItem_self h
      · have hne : first.address ≠ item.address := fun heq => hnodup.1 (heq ▸ List.mem_map_of_mem hlater)
        have hsame : (placeItem revision now file packSize compression placed first).1[item.address]? =
            placed.1[item.address]? := placeItem_of_ne hne
        rw [← hsame] at h ⊢
        exact ih hnodup.2 hlater h

theorem placePacks_of_notMem {packCount : Nat} {packs : List (List StagedContentItem)} (packIndex : Nat)
    (h : address ∉ packs.flatten.map (·.address)) :
    (placePacks revision now packCount compression packIndex packs entries)[address]? = entries[address]? := by
  induction packs generalizing packIndex entries with
  | nil => rfl
  | cons pack packs ih =>
      rw [List.flatten_cons, List.map_append, List.mem_append, not_or] at h
      rw [placePacks, ih (packIndex + 1) h.2]
      exact foldl_placeItem_of_notMem h.1

theorem placePacks_self {packCount : Nat} {packs : List (List StagedContentItem)} {packIndex index : Nat}
    {pack : List StagedContentItem} (hnodup : (packs.flatten.map (·.address)).Nodup)
    (hpack : packs[index]? = some pack) (hitem : item ∈ pack)
    (h : item.pending.isSome ∨ (entries[item.address]?).isSome) :
    ∃ entry, (placePacks revision now packCount compression packIndex packs entries)[item.address]? = some entry ∧
      PlacedIn (contentPackPath revision (packIndex + index) packCount compression)
        (UInt64.ofNat (packBytes pack)) item entries[item.address]? entry := by
  induction packs generalizing packIndex index entries with
  | nil => cases hpack
  | cons first packs ih =>
      rw [List.flatten_cons, List.map_append, List.nodup_append] at hnodup
      obtain ⟨hfirst, hrest, hapart⟩ := hnodup
      cases index with
      | zero =>
          cases hpack
          have hlater : item.address ∉ packs.flatten.map (·.address) := fun hmem =>
            hapart _ (List.mem_map_of_mem hitem) _ hmem rfl
          rw [placePacks, placePacks_of_notMem _ hlater]
          exact foldl_placeItem_self hfirst hitem h
      | succ index =>
          have hmem : item ∈ packs.flatten := List.mem_flatten.mpr ⟨pack, List.mem_of_getElem? hpack, hitem⟩
          have hbefore : item.address ∉ first.map (·.address) := fun hfound =>
            hapart _ hfound _ (List.mem_map_of_mem hmem) rfl
          have hsame : (placePack revision now packCount compression packIndex entries first).1[item.address]? =
              entries[item.address]? := foldl_placeItem_of_notMem hbefore
          rw [← hsame] at h ⊢
          rw [placePacks, Nat.add_comm index 1, ← Nat.add_assoc]
          exact ih hrest hpack h

end

end Unpack
