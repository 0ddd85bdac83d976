import Unpack.PackFileTidy
import Unpack.PackFileRefinement
import Mathlib.Logic.Relation

/-! Whether maintenance comes to rest. A publication without new items, accesses and expiries leaves every entry
unused and every pack settled, so that the next one like it rewrites only packs above the target size; those hold
a frame that is larger than a pack should be. -/

namespace Unpack

open EffectProgram Fallible

/-- Nothing is written, read or expired. -/
structure Quiet (disk : Disk) (base : PublicationBase) (batch : PackFileWriteBatch) (publication : Publication) :
    Prop where
  batch : batch = {}
  base : ∃ expectedRevision, base = .preserveEntries expectedRevision
  kept : ∀ address, address ∈ (readIndex disk).entries → address ∈ publication.entries

/-- All entries are unused, and a pack is neither compactable nor too large but for one of its frames. -/
structure Settled (maintenance : PackFileMaintenance) (entries : IndexEntries) : Prop where
  unused : ∀ (address : PackFileAddress) (entry : PackFileIndexEntry), entries[address]? = some entry →
    entry.unusedSinceRevision ≠ none
  notCompactable : ∀ (address : PackFileAddress) (entry : PackFileIndexEntry), entries[address]? = some entry →
    ¬ maintenance.Compactable entry.content.packSize.toNat
      (entry.content.packSize.toNat - liveLength (liveEntries entries {} entry.content.file))
  oversized : ∀ (address : PackFileAddress) (entry : PackFileIndexEntry), entries[address]? = some entry →
    maintenance.targetContentBytes < entry.content.packSize.toNat →
      ∃ other, maintenance.targetContentBytes < lengthAt entries other

section

variable {compressors : Compressors} {disk : Disk} {base : PublicationBase} {batch : PackFileWriteBatch}
  {options : PackFilePublicationOptions} {publication : Publication} {packs : List (List StagedContentItem)}
  {guard : Option PackFileGuardDto} {address : PackFileAddress} {entry : PackFileIndexEntry}

theorem Quiet.getElem?_entries (hquiet : Quiet disk base batch publication)
    (h : preparePublication compressors disk base batch options = .ok publication) (address : PackFileAddress) :
    publication.entries[address]? =
      ((readIndex disk).entries[address]?).map (carryEntry {} publication.revision address) := by
  obtain ⟨rfl, ⟨expectedRevision, rfl⟩, hkept⟩ := hquiet
  obtain ⟨entries, hbase, hentries⟩ := (of_preparePublication h).entries
  have hsame : entries = (readIndex disk).entries := by
    rw [baseEntries] at hbase
    split_ifs at hbase
    exact (Except.ok.inj hbase).symm
  have hfilter := getElem?_carryEntries {} publication.revision options.retention entries address
  rw [← hentries, hsame] at hfilter
  cases hsource : (readIndex disk).entries[address]? with
  | none =>
      rw [hsource] at hfilter
      exact hfilter
  | some source =>
      have hmem : address ∈ (readIndex disk).entries :=
        Std.ExtTreeMap.isSome_getElem?_iff_mem.mp (Option.isSome_of_eq_some hsource)
      have hsome := Std.ExtTreeMap.isSome_getElem?_iff_mem.mpr (hkept address hmem)
      obtain ⟨carried, hcarried⟩ := Option.isSome_iff_exists.mp hsome
      rw [hcarried] at hfilter ⊢
      rw [hsource] at hfilter
      exact (Option.filter_eq_some_iff.mp hfilter.symm).1.symm

theorem carryEntry_unused_ne (revision : UInt64) (address : PackFileAddress) (entry : PackFileIndexEntry) :
    (carryEntry {} revision address entry).unusedSinceRevision ≠ none := by
  have haccess : ({} : PackFileWriteBatch).accesses[address]? = none := Std.ExtTreeMap.getElem?_empty
  rw [carryEntry, if_neg (notMem_emptyBatch address), haccess]
  cases hunused : entry.unusedSinceRevision with
  | none =>
      intro hsome
      cases hsome
  | some revision => simp [hunused]

/-- Every entry is carried with its content, and unused. -/
theorem Quiet.carried (hquiet : Quiet disk base batch publication)
    (h : preparePublication compressors disk base batch options = .ok publication) (address : PackFileAddress) :
    (publication.entries[address]?).map (·.content) = ((readIndex disk).entries[address]?).map (·.content) ∧
      ∀ entry, publication.entries[address]? = some entry → entry.unusedSinceRevision ≠ none := by
  rw [hquiet.getElem?_entries h address]
  constructor
  · rw [Option.map_map]
    refine congrArg (Option.map · _) (funext fun entry => ?_)
    exact (carryEntry_keeps {} publication.revision address entry).1
  · intro entry hentry
    obtain ⟨source, _, rfl⟩ := Option.map_eq_some_iff.mp hentry
    exact carryEntry_unused_ne publication.revision address source

theorem lengthAt_congr {entries later : IndexEntries}
    (h : (later[address]?).map (·.content) = (entries[address]?).map (·.content)) :
    lengthAt later address = lengthAt entries address := by
  have hlength := congrArg (Option.map fun content : ContentReference => content.length.toNat) h
  rw [Option.map_map, Option.map_map] at hlength
  exact congrArg (Option.getD · 0) hlength

theorem exists_content {entries later : IndexEntries}
    (h : (later[address]?).map (·.content) = (entries[address]?).map (·.content))
    (hentry : later[address]? = some entry) :
    ∃ source, entries[address]? = some source ∧ source.content = entry.content := by
  rw [hentry, Option.map_some] at h
  exact Option.map_eq_some_iff.mp h.symm

theorem liveLength_congr {entries later : IndexEntries} {file : PathBuf}
    (h : ∀ address : PackFileAddress,
      (later[address]?).map (·.content) = (entries[address]?).map (·.content)) :
    liveLength (liveEntries later {} file) = liveLength (liveEntries entries {} file) := by
  refine Nat.le_antisymm (CarriedFrom.liveLength_le fun item hitem => ?_)
    (CarriedFrom.liveLength_le fun item hitem => ?_)
  · exact exists_content (h item.1) (mem_liveEntries.mp hitem).1
  · exact exists_content (h item.1).symm (mem_liveEntries.mp hitem).1

section

variable (hquiet : Quiet disk base batch publication)
  (h : Packed compressors disk base batch options publication packs)

include hquiet h

theorem Quiet.carried_of_staged {item : StagedContentItem} (hitem : item ∈ publication.staged) :
    ∃ entry, publication.entries[item.address]? = some entry ∧ StagedCarried item entry := by
  refine (staged_of_preparePublication h.prepared).carried item hitem ?_
  rw [hquiet.batch]
  exact notMem_emptyBatch item.address

/-- No frame changes its length. -/
theorem Quiet.lengthAt_eq (address : PackFileAddress) :
    lengthAt (publication.index guard options packs).entries address = lengthAt (readIndex disk).entries address := by
  have hcarried := lengthAt_congr (hquiet.carried h.prepared address).1
  rw [← hcarried]
  by_cases hmem : address ∈ publication.staged.map (·.address)
  · obtain ⟨item, hitem, rfl⟩ := List.mem_map.mp ((h.perm.map _).mem_iff.mpr hmem)
    obtain ⟨pack, hpack, hitem⟩ := List.mem_flatten.mp hitem
    obtain ⟨index, hindex⟩ := List.getElem?_of_mem hpack
    obtain ⟨entry, hentry, hplaced⟩ := @Packed.exists_entry _ _ _ _ _ _ _ guard _ h _ _ hindex hitem
    obtain ⟨old, hold, hstaged⟩ := hquiet.carried_of_staged h (h.mem_staged hindex hitem)
    rw [lengthAt, lengthAt, hentry, hold, Option.map_some, Option.map_some, Option.getD_some, Option.getD_some,
      hplaced.length, (h.frame_length hindex hitem).1, hstaged.length]
  · rw [lengthAt, lengthAt, h.entry_of_notMem hmem]

/-- The entries of an old file that is not rewritten are those that were carried. -/
theorem Quiet.liveLength_old (hnamed : (readIndex disk).Named) {file : PathBuf}
    (hold : ∀ index, file ≠ contentPackPath publication.revision index packs.length options.compression)
    (hkept : file ∉ rewrittenFiles publication.entries batch options.maintenance) :
    liveLength (liveEntries (publication.index guard options packs).entries {} file) =
      liveLength (liveEntries publication.entries {} file) := by
  refine Nat.le_antisymm (CarriedFrom.liveLength_le fun item hitem => ?_)
    (CarriedFrom.liveLength_le fun item hitem => ?_)
  · obtain ⟨hentry, _, hfile⟩ := mem_liveEntries.mp hitem
    exact ⟨item.2, (h.carried_of_old hnamed hold hfile hentry).2, rfl⟩
  · obtain ⟨hentry, _, hfile⟩ := mem_liveEntries.mp hitem
    have hnot : item.1 ∉ publication.staged.map (·.address) := by
      intro hmem
      rcases ((staged_of_preparePublication h.prepared).mem item.1).mp hmem with hbatch | ⟨other, hother, hlive⟩
      · rw [hquiet.batch] at hbatch
        exact notMem_emptyBatch _ hbatch
      · obtain ⟨listed, hlisted, hsame⟩ := List.mem_map.mp hlive
        obtain ⟨hlistedEntry, _, hlistedFile⟩ := mem_liveEntries.mp hlisted
        rw [hsame, hentry] at hlistedEntry
        rw [← hlistedFile, ← Option.some.inj hlistedEntry, hfile] at hother
        exact hkept hother
    exact ⟨item.2, (h.entry_of_notMem hnot).trans hentry, rfl⟩

/-- A carried file that is not rewritten needs no maintenance. -/
theorem Quiet.small (htidy : Tidy (readIndex disk).entries) (hentry : publication.entries[address]? = some entry)
    (hkept : entry.content.file ∉ rewrittenFiles publication.entries batch options.maintenance) :
    ¬ options.maintenance.Compactable entry.content.packSize.toNat
        (entry.content.packSize.toNat - liveLength (liveEntries publication.entries {} entry.content.file)) ∧
      ¬ options.maintenance.targetContentBytes < entry.content.packSize.toNat := by
  have hcontent := fun address => (hquiet.carried h.prepared address).1
  obtain rfl := hquiet.batch
  have hmem : (address, entry) ∈ liveEntries publication.entries {} entry.content.file :=
    mem_liveEntries.mpr ⟨hentry, notMem_emptyBatch address, rfl⟩
  obtain ⟨first, rest, hlive⟩ := List.exists_cons_of_ne_nil (List.ne_nil_of_mem hmem)
  have hfirst := mem_liveEntries.mp (hlive ▸ List.mem_cons_self :
    first ∈ liveEntries publication.entries {} entry.content.file)
  obtain ⟨source, hsource, hsame⟩ := exists_content (hcontent address) hentry
  obtain ⟨firstSource, hfirstSource, hfirstSame⟩ := exists_content (hcontent first.1) hfirst.1
  have hsize : first.2.content.packSize = entry.content.packSize := by
    rw [← hsame, ← hfirstSame]
    refine htidy.sized first.1 address firstSource source hfirstSource hsource ?_
    rw [hsame, hfirstSame]
    exact hfirst.2.2
  have hfilled := htidy.filled address source hsource
  rw [hsame, ← liveLength_congr hcontent] at hfilled
  have hbound := entry.content.packSize.toNat_lt
  have hhead : (liveEntries publication.entries {} entry.content.file).head? = some first := by
    rw [hlive]
    rfl
  rw [mem_rewrittenFiles hhead (Nat.lt_of_le_of_lt hfilled hbound), hsize, not_or, not_or] at hkept
  exact ⟨hkept.1, hkept.2.1⟩

theorem Quiet.settled (hnamed : (readIndex disk).Named) (htidy : Tidy (readIndex disk).entries) :
    Settled options.maintenance (publication.index guard options packs).entries := by
  have hself := CarriedFrom.refl (publication.index guard options packs).entries
  have hunused := fun address => (hquiet.carried h.prepared address).2
  -- a new pack is fully live, and above the target size only with a single frame
  have hnewPack : ∀ {index : Nat} {pack : List StagedContentItem} {address : PackFileAddress}
      {entry : PackFileIndexEntry}, packs[index]? = some pack →
      (publication.index guard options packs).entries[address]? = some entry →
        entry.content.file = contentPackPath publication.revision index packs.length options.compression →
          ∃ item ∈ pack, item.address = address ∧ entry.content.packSize.toNat = packBytes pack ∧
            entry.content.length.toNat = item.frame.length ∧
              liveLength (liveEntries (publication.index guard options packs).entries {} entry.content.file) =
                packBytes pack := by
    intro index pack address entry hpack hentry hfile
    obtain ⟨item, hitem, rfl⟩ := h.index_eq hnamed hpack hentry hfile
    obtain ⟨_, hlength, hsize⟩ := h.later_entry hself hpack hitem hentry
    have hall : stillLive (publication.index guard options packs).entries {} pack = pack := by
      refine List.filter_eq_self.mpr fun other hother => decide_eq_true ⟨?_, notMem_emptyBatch _⟩
      obtain ⟨_, hsome, _⟩ := @Packed.exists_entry _ _ _ _ _ _ _ guard _ h _ _ hpack hother
      exact Option.isSome_of_eq_some hsome
    refine ⟨item, hitem, rfl, hsize, hlength, ?_⟩
    rw [hfile, h.liveLength_stillLive {} hnamed hself hpack, hall]
  -- an old file that is still referenced has not been rewritten
  have hkept : ∀ {address : PackFileAddress} {entry : PackFileIndexEntry},
      publication.entries[address]? = some entry → address ∉ publication.staged.map (·.address) →
        entry.content.file ∉ rewrittenFiles publication.entries batch options.maintenance := by
    intro address entry hentry hnot hmem
    refine hnot (((staged_of_preparePublication h.prepared).mem address).mpr (Or.inr ⟨_, hmem, ?_⟩))
    refine List.mem_map.mpr ⟨(address, entry), mem_liveEntries.mpr ⟨hentry, ?_, rfl⟩, rfl⟩
    rw [hquiet.batch]
    exact notMem_emptyBatch address
  refine ⟨?_, ?_, ?_⟩
  · intro address entry hentry
    rcases h.cases_entry hentry with ⟨index, pack, item, hpack, hitem, rfl, hplaced⟩ | ⟨_, hcarried⟩
    · obtain ⟨old, hold, hstaged⟩ := hquiet.carried_of_staged h (h.mem_staged hpack hitem)
      have hsame := hplaced.carried hstaged.pending
      rw [hold] at hsame
      rw [← Option.some.inj hsame]
      exact hunused _ old hold
    · exact hunused address entry hcarried
  · intro address entry hentry
    rcases h.cases_file hnamed hentry with ⟨index, pack, hpack, hfile⟩ | ⟨hold, hnot, hcarried⟩
    · obtain ⟨item, hitem, _, hsize, _, hlive⟩ := hnewPack hpack hentry hfile
      rintro ⟨_, hpercent⟩
      have hframes : ∀ other ∈ pack, other.frame ≠ [] := fun other hother =>
        (staged_of_preparePublication h.prepared).frame other (h.mem_staged hpack hother)
      have hpos := packBytes_pos (List.ne_nil_of_mem hitem) hframes
      rw [hlive, hsize] at hpercent
      omega
    · have hfile := hkept hcarried hnot
      rw [hquiet.liveLength_old h hnamed hold hfile]
      exact (hquiet.small h htidy hcarried hfile).1
  · intro address entry hentry hlarge
    rcases h.cases_file hnamed hentry with ⟨index, pack, hpack, hfile⟩ | ⟨_, hnot, hcarried⟩
    · obtain ⟨item, hitem, _, hsize, hlength, _⟩ := hnewPack hpack hentry hfile
      rw [hsize] at hlarge
      rcases (fits_packItems h.packed pack (List.mem_of_getElem? hpack)).2 with hfits | ⟨single, rfl⟩
      · exact absurd hlarge hfits.not_gt
      · refine ⟨address, ?_⟩
        rw [lengthAt, hentry, Option.map_some, Option.getD_some, hlength, List.mem_singleton.mp hitem]
        simpa [packBytes] using hlarge
    · exact absurd hlarge (hquiet.small h htidy hcarried (hkept hcarried hnot)).2

end

/-- Once settled, only packs above the target size are rewritten; they hold one frame that is too long. -/
theorem Quiet.rewrittenFiles_eq_nil_iff (hquiet : Quiet disk base batch publication)
    (h : preparePublication compressors disk base batch options = .ok publication)
    (htidy : Tidy (readIndex disk).entries) (hsettled : Settled options.maintenance (readIndex disk).entries) :
    rewrittenFiles publication.entries batch options.maintenance = [] ↔
      ∀ address, lengthAt (readIndex disk).entries address ≤ options.maintenance.targetContentBytes := by
  have hcontent := fun address => (hquiet.carried h address).1
  have hunused := fun address => (hquiet.carried h address).2
  obtain rfl := hquiet.batch
  have hfile : ∀ {address : PackFileAddress} {entry source : PackFileIndexEntry},
      publication.entries[address]? = some entry → (readIndex disk).entries[address]? = some source →
        source.content = entry.content →
          liveLength (liveEntries publication.entries {} entry.content.file) =
              liveLength (liveEntries (readIndex disk).entries {} source.content.file) ∧
            liveLength (liveEntries (readIndex disk).entries {} source.content.file) ≤
              source.content.packSize.toNat := by
    intro address entry source hentry hsource hsame
    refine ⟨?_, htidy.filled address source hsource⟩
    rw [hsame]
    exact liveLength_congr hcontent
  have hrewritten : ∀ {first : PackFileAddress × PackFileIndexEntry} {file : PathBuf},
      (liveEntries publication.entries {} file).head? = some first →
        (file ∈ rewrittenFiles publication.entries {} options.maintenance ↔
          options.maintenance.targetContentBytes < first.2.content.packSize.toNat) := by
    intro first file hhead
    obtain ⟨hfirst, _, rfl⟩ := mem_liveEntries.mp (List.mem_of_mem_head? hhead)
    obtain ⟨source, hsource, hsame⟩ := exists_content (hcontent first.1) hfirst
    obtain ⟨hlive, hfilled⟩ := hfile hfirst hsource hsame
    have hbound := source.content.packSize.toNat_lt
    have hcompactable := hsettled.notCompactable first.1 source hsource
    have hmerged : first.2.content.file ∉ mergedFiles publication.entries {} options.maintenance :=
      notMem_mergedFiles fun item hitem => hunused item.1 item.2 (mem_liveEntries.mp hitem).1
    rw [mem_rewrittenFiles hhead (hlive ▸ Nat.lt_of_le_of_lt hfilled hbound), hlive, ← hsame,
      or_iff_right hcompactable, hsame, or_iff_left hmerged]
  constructor
  · intro hnil address
    by_contra hlong
    have hsome : ((readIndex disk).entries[address]?).isSome := by
      rw [Option.isSome_iff_ne_none]
      intro hnone
      rw [lengthAt, hnone] at hlong
      exact hlong (Nat.zero_le _)
    obtain ⟨source, hsource⟩ := Option.isSome_iff_exists.mp hsome
    obtain ⟨entry, hentry, hsame⟩ := exists_content (hcontent address).symm hsource
    have hmem : (address, entry) ∈ liveEntries publication.entries {} entry.content.file :=
      mem_liveEntries.mpr ⟨hentry, notMem_emptyBatch address, rfl⟩
    obtain ⟨first, rest, hlist⟩ := List.exists_cons_of_ne_nil (List.ne_nil_of_mem hmem)
    have hhead : (liveEntries publication.entries {} entry.content.file).head? = some first := by
      rw [hlist]
      rfl
    have hfirst := mem_liveEntries.mp (List.mem_of_mem_head? hhead)
    obtain ⟨firstSource, hfirstSource, hfirstSame⟩ := exists_content (hcontent first.1) hfirst.1
    obtain ⟨hlive, hfilled⟩ := hfile hfirst.1 hfirstSource hfirstSame
    rw [← hlive, hfirst.2.2] at hfilled
    have hlength : entry.content.length.toNat ≤ liveLength (liveEntries publication.entries {} entry.content.file) :=
      List.single_le_sum (fun _ _ => Nat.zero_le _) _ (List.mem_map.mpr ⟨(address, entry), hmem, rfl⟩)
    rw [lengthAt, hsource, Option.map_some, Option.getD_some, ← hsame] at hlong
    have hlarge : options.maintenance.targetContentBytes < first.2.content.packSize.toNat := by
      rw [← hfirstSame]
      omega
    have hchosen := (hrewritten hhead).mpr hlarge
    rw [hnil] at hchosen
    cases hchosen
  · intro hframes
    refine List.eq_nil_iff_forall_not_mem.mpr fun file hmem => ?_
    by_cases hnone : liveEntries publication.entries {} file = []
    · exact notMem_rewrittenFiles hnone hmem
    · obtain ⟨first, rest, hlist⟩ := List.exists_cons_of_ne_nil hnone
      have hhead : (liveEntries publication.entries {} file).head? = some first := by
        rw [hlist]
        rfl
      have hlarge := (hrewritten hhead).mp hmem
      obtain ⟨source, hsource, hsame⟩ := exists_content (hcontent first.1)
        (mem_liveEntries.mp (List.mem_of_mem_head? hhead)).1
      rw [← hsame] at hlarge
      obtain ⟨other, hother⟩ := hsettled.oversized first.1 source hsource hlarge
      exact absurd (hframes other) hother.not_ge

end

section

variable {compressors : Compressors} {maintenance : PackFileMaintenance} {disk settled : Disk}

/-- A quiet publication that succeeds. -/
def QuietStep (compressors : Compressors) (maintenance : PackFileMaintenance) (disk newer : Disk) : Prop :=
  ∃ guard base batch options publication packs,
    Succeeded compressors maintenance disk guard base batch options publication packs newer ∧
      Quiet disk base batch publication

theorem QuietStep.leaves (hdisk : MaintainedRoot compressors maintenance disk)
    (h : QuietStep compressors maintenance disk settled) :
    MaintainedRoot compressors maintenance settled ∧ Settled maintenance (readIndex settled).entries ∧
      ∀ address, lengthAt (readIndex settled).entries address = lengthAt (readIndex disk).entries address := by
  obtain ⟨guard, base, batch, options, publication, packs, hstep, hquiet⟩ := h
  obtain ⟨hnamed, htidy⟩ := hdisk.named_tidy
  rw [hstep.readIndex_eq hnamed]
  refine ⟨.publish hdisk hstep, ?_, hquiet.lengthAt_eq hstep.packed⟩
  rw [← hstep.maintenance]
  exact hquiet.settled hstep.packed hnamed htidy

/-- A run of quiet publications settles with the first and changes no length. -/
theorem quietRun_leaves (hdisk : MaintainedRoot compressors maintenance disk)
    (h : Relation.TransGen (QuietStep compressors maintenance) disk settled) :
    MaintainedRoot compressors maintenance settled ∧ Settled maintenance (readIndex settled).entries ∧
      ∀ address, lengthAt (readIndex settled).entries address = lengthAt (readIndex disk).entries address := by
  induction h with
  | single hstep => exact hstep.leaves hdisk
  | tail _ hstep ih =>
      obtain ⟨hroot, _, hlength⟩ := ih
      obtain ⟨hnewer, hsettled, hsame⟩ := hstep.leaves hroot
      exact ⟨hnewer, hsettled, fun address => (hsame address).trans (hlength address)⟩

/-- When maintenance comes to rest. The next publication takes up a pack again only to merge it, unless one of its
frames is above the target size or the publication itself loses enough of it; and after any quiet run nothing is
rewritten any more, unless a frame was above the target size from the start. -/
theorem MaintainedRoot.rests_iff (hdisk : MaintainedRoot compressors maintenance disk) :
    (∀ {guard : Option PackFileGuardDto} {base nextBase : PublicationBase} {batch nextBatch : PackFileWriteBatch}
        {options nextOptions : PackFilePublicationOptions} {publication next : Publication}
        {packs : List (List StagedContentItem)} {newer : Disk},
      Succeeded compressors maintenance disk guard base batch options publication packs newer →
      preparePublication compressors newer nextBase nextBatch nextOptions = .ok next →
      nextOptions.maintenance = maintenance →
      ∀ {index : Nat} {pack : List StagedContentItem}, packs[index]? = some pack →
        let file := contentPackPath publication.revision index packs.length options.compression
        let left := stillLive next.entries nextBatch pack
        ((file ∈ rewrittenFiles next.entries nextBatch nextOptions.maintenance →
            file ∈ mergedFiles next.entries nextBatch nextOptions.maintenance) ↔
          file ∈ mergedFiles next.entries nextBatch maintenance ∨ left = [] ∨
            (∀ item ∈ pack, item.frame.length ≤ maintenance.targetContentBytes) ∧
              ¬ maintenance.Compactable (packBytes pack) (packBytes pack - packBytes left))) ∧
      ∀ {settled : Disk}, Relation.TransGen (QuietStep compressors maintenance) disk settled →
        ∀ {base : PublicationBase} {batch : PackFileWriteBatch} {options : PackFilePublicationOptions}
            {publication : Publication},
          preparePublication compressors settled base batch options = .ok publication →
          Quiet settled base batch publication → options.maintenance = maintenance →
            (rewrittenFiles publication.entries batch options.maintenance = [] ↔
              ∀ address, lengthAt (readIndex disk).entries address ≤ maintenance.targetContentBytes) := by
  obtain ⟨hnamed, _⟩ := hdisk.named_tidy
  constructor
  · intro guard base nextBase batch nextBatch options nextOptions publication next packs newer hstep hnext
      hmaintenance index pack hpack
    have hcarried := carriedFrom_next hnext
    rw [hstep.readIndex_eq hnamed] at hcarried
    have hfits := (fits_packItems hstep.packed.packed pack (List.mem_of_getElem? hpack)).2
    have hlarge := hfits.le_iff
    rw [hstep.maintenance] at hlarge
    dsimp only
    rw [hmaintenance, hstep.packed.mem_rewrittenFiles_later hnamed hcarried hpack, ← hlarge, ← not_lt]
    tauto
  · intro settled hrun base batch options publication hprepared hquiet hmaintenance
    obtain ⟨hroot, hsettled, hlength⟩ := quietRun_leaves hdisk hrun
    have hnil := hquiet.rewrittenFiles_eq_nil_iff hprepared hroot.named_tidy.2 (hmaintenance ▸ hsettled)
    rw [hmaintenance] at hnil ⊢
    simpa only [hlength] using hnil

/-- A target size that no frame meets. -/
def smallTargetOptions : PackFilePublicationOptions := { immediateOptions with maintenance := ⟨10, 5, 1⟩ }

/-- A publication that writes one pack. -/
def smallTargetRun (disk : Disk) (base : PublicationBase) (batch : PackFileWriteBatch) :
    Option (Publication × List StagedContentItem × Disk) :=
  let stop := exec FileEffect.apply (List.replicate 20 none)
    (publishBatch storingCompressors none base batch smallTargetOptions).run [] disk
  match preparePublication storingCompressors disk base batch smallTargetOptions, stop.rest with
  | .ok publication, .done (.ok ()) =>
    match packItems smallTargetOptions.maintenance.targetContentBytes publication.staged with
    | .ok [pack] => some (publication, pack, stop.state)
    | _ => none
  | _, _ => none

theorem succeeded_smallTargetRun {disk newer : Disk} {base : PublicationBase} {batch : PackFileWriteBatch}
    {publication : Publication} {pack : List StagedContentItem}
    (h : smallTargetRun disk base batch = some (publication, pack, newer)) :
    Succeeded storingCompressors smallTargetOptions.maintenance disk none base batch smallTargetOptions publication
      [pack] newer := by
  unfold smallTargetRun at h
  dsimp only at h
  split at h
  · rename_i hprepared hrest
    split at h
    · rename_i hpacked
      cases h
      exact ⟨rfl, ⟨hprepared, hpacked⟩, List.replicate 20 none, _, Stop.eq_of_rest hrest⟩
    · cases h
  · cases h

/-- One asset is published, and then a quiet publication is prepared. -/
theorem exists_smallTargetRun : ∃ batch publication pack newer next,
    Succeeded storingCompressors smallTargetOptions.maintenance emptyRoot none (.preserveEntries 0) batch
        smallTargetOptions publication [pack] newer ∧
      preparePublication storingCompressors newer (.preserveEntries 1) {} smallTargetOptions = .ok next ∧
      stillLive next.entries {} pack = pack ∧
      contentPackPath publication.revision 0 1 smallTargetOptions.compression ∈
        rewrittenFiles next.entries {} smallTargetOptions.maintenance ∧
      contentPackPath publication.revision 0 1 smallTargetOptions.compression ∉
        mergedFiles next.entries {} smallTargetOptions.maintenance := by
  have hruns : ((buildBatch assetOperations).toOption.any fun batch =>
      (smallTargetRun emptyRoot (.preserveEntries 0) batch).any fun first =>
        (preparePublication storingCompressors first.2.2 (.preserveEntries 1) {} smallTargetOptions).toOption.any
          fun next =>
            let file := contentPackPath first.1.revision 0 1 smallTargetOptions.compression
            decide ((stillLive next.entries {} first.2.1).length = first.2.1.length ∧
              file ∈ rewrittenFiles next.entries {} smallTargetOptions.maintenance ∧
              file ∉ mergedFiles next.entries {} smallTargetOptions.maintenance)) = true := by
    decide +kernel
  obtain ⟨batch, _, hruns⟩ := (Option.any_eq_true _ _).mp hruns
  obtain ⟨⟨publication, pack, newer⟩, hfirst, hruns⟩ := (Option.any_eq_true _ _).mp hruns
  obtain ⟨next, hnext, hruns⟩ := (Option.any_eq_true _ _).mp hruns
  obtain ⟨hlength, hchosen, hmerged⟩ := of_decide_eq_true hruns
  exact ⟨batch, publication, pack, newer, next, succeeded_smallTargetRun hfirst, eq_ok_of_toOption hnext,
    List.filter_sublist.eq_of_length hlength, hchosen, hmerged⟩

/-- The pack of one asset is taken up again by a publication that merges nothing and loses nothing. -/
theorem MaintainedRoot.not_rests : ¬ ∀ {maintenance : PackFileMaintenance} {disk newer : Disk}
    {base nextBase : PublicationBase} {batch nextBatch : PackFileWriteBatch}
    {options nextOptions : PackFilePublicationOptions} {publication next : Publication}
    {packs : List (List StagedContentItem)} (index : Nat) {pack : List StagedContentItem},
    MaintainedRoot storingCompressors maintenance disk →
    Succeeded storingCompressors maintenance disk none base batch options publication packs newer →
    preparePublication storingCompressors newer nextBase nextBatch nextOptions = .ok next →
    nextOptions.maintenance = maintenance → packs[index]? = some pack → stillLive next.entries nextBatch pack = pack →
      contentPackPath publication.revision index packs.length options.compression ∈
          rewrittenFiles next.entries nextBatch maintenance →
        contentPackPath publication.revision index packs.length options.compression ∈
          mergedFiles next.entries nextBatch maintenance := by
  intro h
  have hfresh : MaintainedRoot storingCompressors smallTargetOptions.maintenance emptyRoot := .fresh rfl
  obtain ⟨batch, publication, pack, newer, next, hstep, hnext, hleft, hchosen, hmerged⟩ := exists_smallTargetRun
  exact absurd (h 0 hfresh hstep hnext rfl List.getElem?_cons_zero hleft hchosen) hmerged

/-- The publication has come to its end, without an error. -/
def hasSucceeded {σ ι ε ε' : Type} : Program σ ι ε (Except ε' Unit) → Bool
  | .done (.ok ()) => true
  | _ => false

theorem eq_done_of_hasSucceeded {σ ι ε ε' : Type} {program : Program σ ι ε (Except ε' Unit)}
    (h : hasSucceeded program = true) : program = .done (.ok ()) := by
  unfold hasSucceeded at h
  split at h
  · rfl
  · cases h

/-- A quiet publication on the empty root, and the next one. -/
theorem exists_quietRun : ∃ settled next,
    QuietStep storingCompressors smallTargetOptions.maintenance emptyRoot settled ∧
      preparePublication storingCompressors settled (.preserveEntries 1) {} smallTargetOptions = .ok next ∧
      Quiet settled (.preserveEntries 1) {} next := by
  have hruns :
      ((preparePublication storingCompressors emptyRoot (.preserveEntries 0) {} smallTargetOptions).toOption.any
      fun publication =>
        (packItems smallTargetOptions.maintenance.targetContentBytes publication.staged).toOption.any fun _ =>
          let stop := exec FileEffect.apply (List.replicate 20 none)
            (publishBatch storingCompressors none (.preserveEntries 0) {} smallTargetOptions).run [] emptyRoot
          hasSucceeded stop.rest &&
          (preparePublication storingCompressors stop.state (.preserveEntries 1) {} smallTargetOptions).toOption.any
            fun next => decide (∀ address ∈ (readIndex stop.state).entries.keys, address ∈ next.entries)) = true := by
    decide +kernel
  obtain ⟨publication, hprepared, hruns⟩ := (Option.any_eq_true _ _).mp hruns
  obtain ⟨packs, hpacked, hruns⟩ := (Option.any_eq_true _ _).mp hruns
  obtain ⟨hdone, hruns⟩ := Bool.and_eq_true_iff.mp hruns
  obtain ⟨next, hnext, hkept⟩ := (Option.any_eq_true _ _).mp hruns
  have hempty : Quiet emptyRoot (.preserveEntries 0) {} publication :=
    ⟨rfl, ⟨0, rfl⟩, fun address hmem => absurd hmem Std.ExtTreeMap.not_mem_empty⟩
  exact ⟨_, next, ⟨none, .preserveEntries 0, {}, smallTargetOptions, publication, packs,
    ⟨rfl, ⟨eq_ok_of_toOption hprepared, eq_ok_of_toOption hpacked⟩, List.replicate 20 none, _,
      Stop.eq_of_rest (eq_done_of_hasSucceeded hdone)⟩, hempty⟩, eq_ok_of_toOption hnext, rfl, ⟨1, rfl⟩,
    fun address hmem => of_decide_eq_true hkept address (Std.ExtTreeMap.mem_keys.mpr hmem)⟩

theorem MaintainedRoot.rests_iff_asset :
    (∃ batch publication pack newer next,
      Succeeded storingCompressors smallTargetOptions.maintenance emptyRoot none (.preserveEntries 0) batch
          smallTargetOptions publication [pack] newer ∧
        preparePublication storingCompressors newer (.preserveEntries 1) {} smallTargetOptions = .ok next ∧
        let file := contentPackPath publication.revision 0 1 smallTargetOptions.compression
        let left := stillLive next.entries {} pack
        ((file ∈ rewrittenFiles next.entries {} smallTargetOptions.maintenance →
            file ∈ mergedFiles next.entries {} smallTargetOptions.maintenance) ↔
          file ∈ mergedFiles next.entries {} smallTargetOptions.maintenance ∨ left = [] ∨
            (∀ item ∈ pack, item.frame.length ≤ smallTargetOptions.maintenance.targetContentBytes) ∧
              ¬ smallTargetOptions.maintenance.Compactable (packBytes pack) (packBytes pack - packBytes left))) ∧
      ∃ settled next, QuietStep storingCompressors smallTargetOptions.maintenance emptyRoot settled ∧
        preparePublication storingCompressors settled (.preserveEntries 1) {} smallTargetOptions = .ok next ∧
        Quiet settled (.preserveEntries 1) {} next ∧
        (rewrittenFiles next.entries {} smallTargetOptions.maintenance = [] ↔
          ∀ address, lengthAt (readIndex emptyRoot).entries address ≤
            smallTargetOptions.maintenance.targetContentBytes) := by
  have hfresh : MaintainedRoot storingCompressors smallTargetOptions.maintenance emptyRoot := .fresh rfl
  constructor
  · obtain ⟨batch, publication, pack, newer, next, hstep, hnext, _⟩ := exists_smallTargetRun
    exact ⟨batch, publication, pack, newer, next, hstep, hnext,
      (MaintainedRoot.rests_iff hfresh).1 hstep hnext rfl rfl⟩
  · obtain ⟨settled, next, hquietStep, hnext, hquiet⟩ := exists_quietRun
    exact ⟨settled, next, hquietStep, hnext, hquiet,
      (MaintainedRoot.rests_iff hfresh).2 (.single hquietStep) hnext hquiet rfl⟩

end

end Unpack
