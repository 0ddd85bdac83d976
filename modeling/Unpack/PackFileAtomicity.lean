import Unpack.PackFilePublished

/-! A publication from a disk whose index is sound: wherever it stops, the old index or the new one is in
place with all that it references, and only the sync of the root can fail once the new one is. -/

namespace Unpack

open EffectProgram

/-- The index is in place with all that it references. -/
structure Committed (compressors : Compressors) (index : PackFileIndex)
    (payload : PackFileAddress → List UInt8) (disk : Disk) : Prop where
  decodes : (readBounded disk indexFile maxIndexBytes).bind decodeIndex = some index
  sound : IndexSound compressors disk index payload

section

variable {compressors : Compressors} {index : PackFileIndex} {payload : PackFileAddress → List UInt8}
  {disk newer : Disk}

theorem Committed.readIndex_eq (h : Committed compressors index payload disk) : readIndex disk = index := by
  rw [readIndex, h.decodes]
  rfl

end

section

variable {Stopped : List FileEffect → Disk → Prop} {failed : List FileEffect} {disk : Disk}

theorem always_removeFiles {Holds : Disk → Prop} (files : List PathBuf) (removed : Bool)
    {Finally : Except IoError Bool → List FileEffect → Disk → Prop} (h : Holds disk)
    (hkeeps : ∀ file ∈ files, ∀ later, Holds later → Holds (later.set file none))
    (hstop : ∀ failed' later, (RootSyncFailed failed' ↔ RootSyncFailed failed) → Holds later →
      Stopped failed' later ∧ ∀ removed, Finally (.ok removed) failed' later) :
    Always FileEffect.apply Stopped Finally (removeFiles files removed).run failed disk := by
  induction files generalizing removed failed disk with
  | nil => exact (hstop failed disk Iff.rfl h).2 removed
  | cons file files ih =>
    have hlater := fun other hother => hkeeps other (List.mem_cons_of_mem file hother)
    refine ⟨(hstop failed disk Iff.rfl h).1, ?_, fun error => ?_⟩
    · exact ih _ (hkeeps file List.mem_cons_self disk h) hlater hstop
    · refine ih _ h hlater fun failed' later hfailed => hstop failed' later (hfailed.trans ?_)
      simp [RootSyncFailed]

theorem always_removeSuperseded {Holds : Disk → Prop} {previous referenced : Std.ExtTreeSet PathBuf}
    {Finally : Except IoError Unit → List FileEffect → Disk → Prop} (h : Holds disk)
    (hkeeps : ∀ file ∈ previous, file ∉ referenced → ∀ later, Holds later → Holds (later.set file none))
    (hstop : ∀ failed' later, (RootSyncFailed failed' ↔ RootSyncFailed failed) → Holds later →
      Stopped failed' later ∧ Finally (.ok ()) failed' later) :
    Always FileEffect.apply Stopped Finally (removeSuperseded previous referenced).run failed disk := by
  refine Always.andThen (always_removeFiles _ false h (fun file hfile => ?_)
    fun failed' later hfailed hholds => ⟨(hstop failed' later hfailed hholds).1, fun removed => ?_⟩)
  · obtain ⟨hmem, hnot⟩ := List.mem_filter.mp hfile
    exact hkeeps file (Std.ExtTreeSet.mem_toList.mp hmem) (by simpa using hnot)
  · have hsynced : ¬FileEffect.syncDirectory [] = .syncDirectory contentDirectory := by
      rw [contentDirectory]
      simp
    cases removed with
    | false => exact (hstop failed' later hfailed hholds).2
    | true =>
      refine ⟨(hstop failed' later hfailed hholds).1, (hstop failed' later hfailed hholds).2,
        fun error => (hstop _ later ?_ hholds).2⟩
      rw [← hfailed, RootSyncFailed, RootSyncFailed, List.mem_cons]
      simp [hsynced]

theorem always_commitIndex {index : PackFileIndex}
    {Finally : Except IoError Unit → List FileEffect → Disk → Prop} {base : UInt64} {old : Disk}
    (hnext : base < index.revision) (hagrees : AgreesBelow base old disk)
    (hstop : ∀ failed' newer, (RootSyncFailed failed' ↔ RootSyncFailed failed) →
      AgreesBelow base old newer → Stopped failed' newer ∧ ∀ error, Finally (.error error) failed' newer)
    (hok : ∀ bytes, encodeIndex index = .ok bytes → ∀ newer : Disk, newer indexFile = some bytes →
      (∀ path, path ≠ temporaryIndexPath index.revision → path ≠ indexFile → newer path = disk path) →
        Stopped failed newer ∧ Finally (.ok ()) failed newer ∧
          ∀ error, Finally (.error error) (.syncDirectory [] :: failed) newer) :
    Always FileEffect.apply Stopped Finally (commitIndex index).run failed disk := by
  refine Always.andThen (Always.liftM ?_)
  cases hencode : encodeIndex index with
  | error error => exact (hstop failed disk Iff.rfl hagrees).2 error
  | ok bytes =>
    refine Always.andThen (always_install (fun failed' newer hfailed hother => ?_)
      fun newer hwritten hother => ?_)
    · refine hstop failed' newer hfailed (hagrees.update hnext fun path hpath => hother path ?_)
      rintro rfl
      exact hpath (Or.inl rfl)
    · exact hok bytes hencode newer hwritten hother

end

section

variable (compressors : Compressors) (guard : Option PackFileGuardDto) (base : PublicationBase)
  (batch : PackFileWriteBatch) (options : PackFilePublicationOptions)
  (payload : PackFileAddress → List UInt8) (disk : Disk)

/-- The index of this publication is in place, and so is every pack that it references. -/
structure Installed (publication : Publication) (packs : List (List StagedContentItem)) (newer : Disk) :
    Prop where
  preparation : preparePublication compressors disk base batch options = .ok publication
  packed : packItems options.maintenance.targetContentBytes publication.staged = .ok packs
  decodes : (readBounded newer indexFile maxIndexBytes).bind decodeIndex =
    some (publication.index guard options packs)
  files : ∃ written, PacksWritten compressors publication.revision options.compression packs
      (readIndex disk).revision disk packs.length written ∧
    ∀ (address : PackFileAddress) (entry : PackFileIndexEntry),
      (publication.index guard options packs).entries[address]? = some entry →
        newer entry.content.file = written entry.content.file

def InstalledBy (newer : Disk) : Prop :=
  ∃ publication packs, Installed compressors guard base batch options disk publication packs newer

/-- The index of this publication is in place. -/
def CommittedBy (newer : Disk) : Prop :=
  ∃ index, publishedIndex compressors disk guard base batch options = .ok index ∧
    Committed compressors index (publishedPayload batch payload) newer

/-- Where a publication can stop, when it is through once `Done` holds. -/
def StoppedWith (Done : Disk → Prop) (failed : List FileEffect) (newer : Disk) : Prop :=
  ¬RootSyncFailed failed ∧ (AgreesBelow (readIndex disk).revision disk newer ∨ Done newer)

def ReturnedWith (Done : Disk → Prop) (outcome : Except IoError Unit) (failed : List FileEffect)
    (newer : Disk) : Prop :=
  match outcome with
  | .ok () => ¬RootSyncFailed failed ∧ Done newer
  | .error _ => ¬RootSyncFailed failed ∧ AgreesBelow (readIndex disk).revision disk newer ∨
      RootSyncFailed failed ∧ Done newer

/-- Where a publication can stop. -/
def PublicationStopped (failed : List FileEffect) (newer : Disk) : Prop :=
  ¬RootSyncFailed failed ∧ (AgreesBelow (readIndex disk).revision disk newer ∨
    CommittedBy compressors guard base batch options payload disk newer)

/-- What a publication can return. -/
def PublicationReturned (outcome : Except IoError Unit) (failed : List FileEffect) (newer : Disk) : Prop :=
  match outcome with
  | .ok () => ¬RootSyncFailed failed ∧ CommittedBy compressors guard base batch options payload disk newer
  | .error _ => ¬RootSyncFailed failed ∧ AgreesBelow (readIndex disk).revision disk newer ∨
      RootSyncFailed failed ∧ CommittedBy compressors guard base batch options payload disk newer

variable {compressors guard base batch options payload disk}

theorem Installed.published {publication : Publication} {packs : List (List StagedContentItem)}
    {newer : Disk} (h : Installed compressors guard base batch options disk publication packs newer) :
    publishedIndex compressors disk guard base batch options = .ok (publication.index guard options packs) := by
  rw [publishedIndex, h.preparation]
  change (packItems _ publication.staged >>= _) = _
  rw [h.packed]
  rfl

theorem Installed.readIndex_eq {publication : Publication} {packs : List (List StagedContentItem)}
    {newer : Disk} (h : Installed compressors guard base batch options disk publication packs newer) :
    readIndex newer = publication.index guard options packs := by
  rw [readIndex, h.decodes]
  rfl

/-- A file that the index does not reference can be removed. -/
theorem Installed.remove {publication : Publication} {packs : List (List StagedContentItem)} {newer : Disk}
    (h : Installed compressors guard base batch options disk publication packs newer) {file : PathBuf}
    (hindex : file ≠ indexFile)
    (hfile : file ∉ referencedFiles (publication.index guard options packs).entries) :
    Installed compressors guard base batch options disk publication packs (newer.set file none) := by
  obtain ⟨written, hwritten, hfiles⟩ := h.files
  refine ⟨h.preparation, h.packed, ?_, written, hwritten, fun address entry hentry => ?_⟩
  · have hsame : (newer.set file none) indexFile = newer indexFile := newer.set_of_ne hindex.symm none
    rw [readBounded, hsame]
    exact h.decodes
  · refine (newer.set_of_ne ?_ none).trans (hfiles address entry hentry)
    rintro rfl
    refine hfile (Std.ExtTreeSet.mem_ofList.mpr ?_)
    rw [List.contains_iff_mem]
    exact List.mem_map_of_mem (Std.ExtTreeMap.mem_toList_iff_getElem?_eq_some.mpr hentry)

/-- The new index finds all payloads when the old one did. -/
theorem InstalledBy.committed {newer : Disk}
    (h : InstalledBy compressors guard base batch options disk newer) (hlossless : compressors.Lossless)
    (hsound : IndexSound compressors disk (readIndex disk) payload) :
    CommittedBy compressors guard base batch options payload disk newer := by
  obtain ⟨publication, packs, hinstalled⟩ := h
  obtain ⟨written, hwritten, hfiles⟩ := hinstalled.files
  refine ⟨_, hinstalled.published, hinstalled.decodes, IndexSound.of_files ?_ hfiles⟩
  exact (of_preparePublication hinstalled.preparation).indexSound hinstalled.packed hlossless hsound guard
    hwritten

theorem mem_referencedFiles {entries : IndexEntries} {file : PathBuf} :
    file ∈ referencedFiles entries ↔
      ∃ (address : PackFileAddress) (entry : PackFileIndexEntry),
        entries[address]? = some entry ∧ entry.content.file = file := by
  rw [referencedFiles, Std.ExtTreeSet.mem_ofList, List.contains_iff_mem, List.mem_map]
  simp only [Prod.exists, Std.ExtTreeMap.mem_toList_iff_getElem?_eq_some]

theorem stoppedWith_of_agrees {Done : Disk → Prop} {failed : List FileEffect} {newer : Disk}
    (hfailed : RootSyncFailed failed ↔ RootSyncFailed [])
    (hagrees : AgreesBelow (readIndex disk).revision disk newer) :
    (StoppedWith disk Done failed newer ∧ AgreesOnPacks (readIndex disk).revision disk newer) ∧
      ∀ error, ReturnedWith disk Done (.error error) failed newer ∧
        AgreesOnPacks (readIndex disk).revision disk newer := by
  have hnone : ¬RootSyncFailed failed := hfailed.not.mpr List.not_mem_nil
  exact ⟨⟨⟨hnone, Or.inl hagrees⟩, hagrees.onPacks⟩,
    fun _ => ⟨Or.inl ⟨hnone, hagrees⟩, hagrees.onPacks⟩⟩

variable (guard) in
/-- The effects once all packs are written. The old packs are removed when nothing can fail any more. -/
theorem guarded_installed (hnamed : (readIndex disk).Named) {publication : Publication}
    (hpublication : preparePublication compressors disk base batch options = .ok publication)
    {packs : List (List StagedContentItem)}
    (hpacks : packItems options.maintenance.targetContentBytes publication.staged = .ok packs)
    {newer : Disk} (hwritten : PacksWritten compressors publication.revision options.compression packs
      (readIndex disk).revision disk packs.length newer) :
    Guarded FileEffect.apply (StoppedWith disk (InstalledBy compressors guard base batch options disk))
      (ReturnedWith disk (InstalledBy compressors guard base batch options disk))
      (AgreesOnPacks (readIndex disk).revision disk)
      (do
        commitIndex (publication.index guard options packs)
        removeSuperseded (referencedFiles (readIndex disk).entries)
          (referencedFiles (publication.index guard options packs).entries) : FileAction Unit).run
      [] newer := by
  have hprepared := of_preparePublication hpublication
  have hnone : ¬RootSyncFailed [] := List.not_mem_nil
  refine Guarded.andThen (always_commitIndex hprepared.revision hwritten.agrees
    (fun failed later hfailed hagrees => stoppedWith_of_agrees hfailed hagrees)
    fun bytes hencode later hindex hother => ?_)
  have hinstalled : Installed compressors guard base batch options disk publication packs later := by
    refine ⟨hpublication, hpacks, ?_, newer, hwritten, fun address entry hentry => ?_⟩
    · rw [readBounded, hindex]
      change (if maxIndexBytes < bytes.length then none else some bytes : Option _).bind decodeIndex = _
      rw [if_neg (by have := length_encodeIndex hencode; omega)]
      exact (decodeIndex_encodeIndex (hprepared.wellFormed hpacks guard) hencode).1
    · obtain ⟨revision, packIndex, packCount, compression, -, hfile⟩ :=
        hprepared.named hpacks hnamed guard address entry hentry
      rw [hfile]
      exact hother _ (contentPackPath_ne_temporaryIndex _ _ _ _ _) (contentPackPath_ne_indexFile _ _ _ _)
  have hkept : AgreesOnPacks (readIndex disk).revision disk later := by
    intro revision packIndex packCount compression hle
    rw [hother _ (contentPackPath_ne_temporaryIndex _ _ _ _ _) (contentPackPath_ne_indexFile _ _ _ _)]
    exact hwritten.agrees.onPacks revision packIndex packCount compression hle
  have hremoved : ∀ {Stopped : List FileEffect → Disk → Prop}
      {Finally : Except IoError Unit → List FileEffect → Disk → Prop},
      (∀ failed' last, (RootSyncFailed failed' ↔ RootSyncFailed []) →
        Installed compressors guard base batch options disk publication packs last →
          Stopped failed' last ∧ Finally (.ok ()) failed' last) →
      Always FileEffect.apply Stopped Finally (removeSuperseded (referencedFiles (readIndex disk).entries)
        (referencedFiles (publication.index guard options packs).entries)).run [] later := by
    intro Stopped Finally hstop
    refine always_removeSuperseded hinstalled (fun file hfile hnot last hlast => hlast.remove ?_ hnot) hstop
    obtain ⟨address, entry, hentry, rfl⟩ := mem_referencedFiles.mp hfile
    obtain ⟨revision, packIndex, packCount, compression, -, hname⟩ := hnamed address entry hentry
    rw [hname]
    exact contentPackPath_ne_indexFile _ _ _ _
  refine ⟨⟨⟨hnone, Or.inr ⟨_, _, hinstalled⟩⟩, hkept⟩, ?_, fun error => ⟨Or.inr ?_, hkept⟩⟩
  · refine Succeeds.guarded (hremoved fun _ _ _ _ => ⟨trivial, rfl⟩)
      (hremoved fun failed' last hfailed hlast => ?_)
    have hsame : ¬RootSyncFailed failed' := hfailed.not.mpr hnone
    exact ⟨⟨hsame, Or.inr ⟨_, _, hlast⟩⟩, hsame, _, _, hlast⟩
  · exact ⟨List.mem_cons_self, _, _, hinstalled⟩

variable (guard base) in
/-- Old packs stay for as long as the publication can fail, on any disk whose index names packs as
publications do. -/
theorem guarded_publishBatch (batch : PackFileWriteBatch) (options : PackFilePublicationOptions)
    (hnamed : (readIndex disk).Named) :
    Guarded FileEffect.apply (StoppedWith disk (InstalledBy compressors guard base batch options disk))
      (ReturnedWith disk (InstalledBy compressors guard base batch options disk))
      (AgreesOnPacks (readIndex disk).revision disk)
      (publishBatch compressors guard base batch options).run [] disk := by
  have hstart := AgreesBelow.refl (readIndex disk).revision disk
  have hstop := fun {failed : List FileEffect} {newer : Disk} =>
    @stoppedWith_of_agrees disk (InstalledBy compressors guard base batch options disk) failed newer
  unfold publishBatch
  split_ifs with htarget
  · exact ⟨((hstop Iff.rfl hstart).2 _).1, Or.inr hstart.onPacks⟩
  refine Guarded.andThen (Always.observed (Guarded.andThen (Always.observed (Guarded.andThen
    (Always.liftM ?_)))))
  cases hpublication : preparePublication compressors disk base batch options with
  | error error => exact (hstop Iff.rfl hstart).2 error
  | ok publication =>
    have hprepared := of_preparePublication hpublication
    refine Guarded.andThen (Always.act (hstop Iff.rfl hstart).1 ?_ fun error => ?_)
    · refine Guarded.andThen (Always.act (hstop Iff.rfl hstart).1 ?_ fun error => ?_)
      · refine Guarded.andThen (Always.liftM ?_)
        cases hpacks : packItems options.maintenance.targetContentBytes publication.staged with
        | error error => exact (hstop Iff.rfl hstart).2 error
        | ok packs =>
          refine Guarded.andThen (always_writePacks hprepared.revision
            (fun failed newer hfailed hagrees => ?_) packs List.drop_zero ⟨hstart, ?_⟩
            fun newer hwritten => ?_)
          · exact hstop hfailed hagrees
          · intro packIndex hindex
            omega
          · have hinstalled := guarded_installed guard hnamed hpublication hpacks hwritten
            dsimp only [Next]
            split_ifs with hcount
            · refine Guarded.andThen (Always.act (hstop Iff.rfl hwritten.agrees).1 hinstalled
                fun error => ?_)
              exact (hstop (by simp [RootSyncFailed, contentDirectory]) hwritten.agrees).2 error
            · exact hinstalled
      · exact (hstop (by simp [RootSyncFailed, contentDirectory]) hstart).2 error
    · exact (hstop (by simp [RootSyncFailed]) hstart).2 error

variable (guard base) in
theorem always_publishBatch (batch : PackFileWriteBatch) (options : PackFilePublicationOptions)
    (hlossless : compressors.Lossless)
    (hsound : IndexSound compressors disk (readIndex disk) payload) :
    Always FileEffect.apply (PublicationStopped compressors guard base batch options payload disk)
      (PublicationReturned compressors guard base batch options payload disk)
      (publishBatch compressors guard base batch options).run [] disk := by
  have hcommitted := fun {newer : Disk}
    (h : InstalledBy compressors guard base batch options disk newer) => h.committed hlossless hsound
  refine (guarded_publishBatch guard base batch options hsound.named).always.mono
    (fun failed newer hstopped => ?_) fun outcome failed newer hreturned => ?_
  · exact ⟨hstopped.1, hstopped.2.imp_right hcommitted⟩
  · cases outcome with
    | ok value => exact ⟨hreturned.1, hcommitted hreturned.2⟩
    | error error => exact hreturned.imp_right fun h => ⟨h.1, hcommitted h.2⟩

variable (guard base) in
/-- How a run of a publication can end. -/
theorem publishBatch_cases (batch : PackFileWriteBatch) (options : PackFilePublicationOptions)
    (hlossless : compressors.Lossless)
    (hsound : IndexSound compressors disk (readIndex disk) payload) (outcomes : List (Option IoError)) :
    let stop := exec FileEffect.apply outcomes
      (publishBatch compressors guard base batch options).run [] disk
    (¬RootSyncFailed stop.failed ∧ AgreesBelow (readIndex disk).revision disk stop.state) ∨
    (¬RootSyncFailed stop.failed ∧
      CommittedBy compressors guard base batch options payload disk stop.state ∧
        ∀ error, stop.rest ≠ .done (.error error)) ∨
    (RootSyncFailed stop.failed ∧
      CommittedBy compressors guard base batch options payload disk stop.state ∧
        ∃ error, stop.rest = .done (.error error)) := by
  intro stop
  rcases (always_publishBatch guard base batch options hlossless hsound).exec_cases rfl with
    ⟨outcome, hrest, hreturned⟩ | ⟨hrest, hsynced, hstopped⟩
  · cases outcome with
    | ok value =>
      refine Or.inr (Or.inl ⟨hreturned.1, hreturned.2, fun error herror => ?_⟩)
      cases hrest.symm.trans herror
    | error error =>
      rcases hreturned with ⟨hsynced, hagrees⟩ | ⟨hfailed, hcommitted⟩
      · exact Or.inl ⟨hsynced, hagrees⟩
      · exact Or.inr (Or.inr ⟨hfailed, hcommitted, error, hrest⟩)
  · rcases hstopped with hagrees | hcommitted
    · exact Or.inl ⟨hsynced, hagrees⟩
    · exact Or.inr (Or.inl ⟨hsynced, hcommitted, fun error => hrest (.error error)⟩)

end

section

variable (compressors : Compressors)

/-- The disks below a root that only publications write to. Each can stop anywhere, and some of its effects
can fail. -/
inductive ReachableRoot : Disk → Prop
  | fresh {disk : Disk} (habsent : disk indexFile = none) : ReachableRoot disk
  | publish {disk : Disk} (hdisk : ReachableRoot disk) (guard : Option PackFileGuardDto)
      (base : PublicationBase) (batch : PackFileWriteBatch) (options : PackFilePublicationOptions)
      (outcomes : List (Option IoError)) :
      ReachableRoot (exec FileEffect.apply outcomes
        (publishBatch compressors guard base batch options).run [] disk).state

/-- `index.pack` decodes to this index, or there is none and the index is empty. -/
def IndexInPlace (disk : Disk) (index : PackFileIndex) : Prop :=
  disk indexFile = none ∧ index = {} ∨ (readBounded disk indexFile maxIndexBytes).bind decodeIndex = some index

/-- All that the index references is on disk, with the checksums that it records. -/
def IndexIntact (disk : Disk) (index : PackFileIndex) : Prop :=
  ∀ (address : PackFileAddress) (entry : PackFileIndexEntry), index.entries[address]? = some entry →
    ∃ frame, frameAt compressors disk entry.content = some frame ∧ checksum frame = entry.content.checksum

/-- The old index or the new one is in place with all that it references, and after an error it is the old
one, so that the base is accepted once more. -/
structure PublicationAtomic (guard : Option PackFileGuardDto) (base : PublicationBase)
    (batch : PackFileWriteBatch) (options : PackFilePublicationOptions) (disk : Disk)
    (stop : Stop Disk FileEffect IoError (Except IoError Unit)) : Prop where
  index : ∃ index, (index = readIndex disk ∨
      publishedIndex compressors disk guard base batch options = .ok index) ∧
    IndexInPlace stop.state index ∧ IndexIntact compressors stop.state index
  old : ∀ error, stop.rest = .done (.error error) → stop.state indexFile = disk indexFile
  retry : ∀ error, stop.rest = .done (.error error) → ∀ entries,
    baseEntries (readIndex disk) base = .ok entries →
      baseEntries (readIndex stop.state) base = .ok entries

variable {compressors} {guard : Option PackFileGuardDto} {base : PublicationBase}
  {batch : PackFileWriteBatch} {options : PackFilePublicationOptions}
  {payload : PackFileAddress → List UInt8} {disk newer : Disk} {index : PackFileIndex}

theorem IndexInPlace.readIndex_eq (h : IndexInPlace disk index) : readIndex disk = index := by
  rcases h with ⟨habsent, rfl⟩ | hdecodes
  · rw [readIndex, readBounded, habsent]
    rfl
  · rw [readIndex, hdecodes]
    rfl

theorem IndexSound.intact (h : IndexSound compressors disk index payload) :
    IndexIntact compressors disk index := by
  intro address entry hentry
  obtain ⟨frame, -, hframe, hchecksum⟩ := (h.holds address entry hentry).frame
  exact ⟨frame, hframe, hchecksum⟩

theorem IndexInPlace.of_agrees {revision : UInt64} (h : IndexInPlace disk index)
    (hagrees : AgreesBelow revision disk newer) : IndexInPlace newer index := by
  have hsame : newer indexFile = disk indexFile :=
    hagrees indexFile fun next _ => indexFile_not_staging next
  unfold IndexInPlace readBounded
  rw [hsame]
  exact h

/-- The index of a reachable root is in place with all that it references. -/
theorem ReachableRoot.sound (hlossless : compressors.Lossless) (h : ReachableRoot compressors disk) :
    IndexInPlace disk (readIndex disk) ∧ ∃ payload, IndexSound compressors disk (readIndex disk) payload := by
  induction h with
  | @fresh disk habsent =>
    have hplace : IndexInPlace disk {} := Or.inl ⟨habsent, rfl⟩
    rw [hplace.readIndex_eq]
    refine ⟨hplace, fun _ => [], ?_, ?_, ?_⟩
    · intro address entry hentry
      simp at hentry
    · intro address other entry otherEntry hentry
      simp at hentry
    · intro address entry hentry
      simp at hentry
  | @publish disk hdisk guard base batch options outcomes ih =>
    obtain ⟨hplace, payload, hsound⟩ := ih
    rcases publishBatch_cases guard base batch options hlossless hsound outcomes with
      ⟨-, hagrees⟩ | ⟨-, ⟨index, -, hcommitted⟩, -⟩ |
        ⟨-, ⟨index, -, hcommitted⟩, -⟩
    · rw [readIndex_of_agrees hagrees]
      exact ⟨hplace.of_agrees hagrees, payload, hsound.of_agrees hagrees⟩
    · rw [hcommitted.readIndex_eq]
      exact ⟨Or.inr hcommitted.decodes, _, hcommitted.sound⟩
    · rw [hcommitted.readIndex_eq]
      exact ⟨Or.inr hcommitted.decodes, _, hcommitted.sound⟩

theorem PublicationAtomic.of_synced (hlossless : compressors.Lossless)
    (hreachable : ReachableRoot compressors disk) {outcomes : List (Option IoError)}
    (hsynced : ¬RootSyncFailed (exec FileEffect.apply outcomes
      (publishBatch compressors guard base batch options).run [] disk).failed) :
    PublicationAtomic compressors guard base batch options disk
      (exec FileEffect.apply outcomes (publishBatch compressors guard base batch options).run [] disk) := by
  obtain ⟨hplace, payload, hsound⟩ := hreachable.sound hlossless
  rcases publishBatch_cases guard base batch options hlossless hsound outcomes with
    ⟨-, hagrees⟩ | ⟨-, ⟨index, hindex, hcommitted⟩, hok⟩ | ⟨hfailed, -⟩
  · refine ⟨⟨readIndex disk, Or.inl rfl, hplace.of_agrees hagrees, (hsound.of_agrees hagrees).intact⟩,
      fun _ _ => ?_, fun _ _ entries hentries => ?_⟩
    · exact hagrees indexFile fun next _ => indexFile_not_staging next
    · rwa [readIndex_of_agrees hagrees]
  · refine ⟨⟨index, Or.inr hindex, Or.inr hcommitted.decodes, hcommitted.sound.intact⟩,
      fun error herror => ?_, fun error herror => ?_⟩
    · exact absurd herror (hok error)
    · exact absurd herror (hok error)
  · exact absurd hfailed hsynced

/-- The error of the sync is returned when the new index is in place already. -/
theorem not_publicationAtomic (hlossless : compressors.Lossless)
    (hreachable : ReachableRoot compressors disk) {outcomes : List (Option IoError)}
    (hfailed : RootSyncFailed (exec FileEffect.apply outcomes
      (publishBatch compressors guard base batch options).run [] disk).failed) :
    ¬PublicationAtomic compressors guard base batch options disk
      (exec FileEffect.apply outcomes (publishBatch compressors guard base batch options).run [] disk) := by
  obtain ⟨-, payload, hsound⟩ := hreachable.sound hlossless
  rcases publishBatch_cases guard base batch options hlossless hsound outcomes with ⟨hsynced, -⟩ | ⟨hsynced, -⟩ |
      ⟨-, ⟨index, hindex, hcommitted⟩, error, herror⟩
  · exact absurd hfailed hsynced
  · exact absurd hfailed hsynced
  · intro hatomic
    have hsame := hatomic.old error herror
    have hread : index = readIndex disk := by
      rw [← hcommitted.readIndex_eq, readIndex, readBounded, hsame]
      rfl
    obtain ⟨publication, packs, hprepared, -, rfl⟩ := of_publishedIndex hindex
    have hnewer := hprepared.revision
    rw [← hread] at hnewer
    exact UInt64.lt_irrefl _ hnewer

/-- Wherever a publication stops, the old index or the new one is in place with all that it references, and
an error leaves the old one, exactly when the sync of the root does not fail. -/
theorem publishBatch_atomic_iff (hlossless : compressors.Lossless)
    (hreachable : ReachableRoot compressors disk) (guard : Option PackFileGuardDto)
    (base : PublicationBase) (batch : PackFileWriteBatch) (options : PackFilePublicationOptions)
    (outcomes : List (Option IoError)) :
    PublicationAtomic compressors guard base batch options disk
        (exec FileEffect.apply outcomes (publishBatch compressors guard base batch options).run [] disk) ↔
      ¬RootSyncFailed (exec FileEffect.apply outcomes
        (publishBatch compressors guard base batch options).run [] disk).failed := by
  constructor
  · intro hatomic hfailed
    exact not_publicationAtomic hlossless hreachable hfailed hatomic
  · intro hsynced
    exact PublicationAtomic.of_synced hlossless hreachable hsynced

theorem emptyRoot_reachable : ReachableRoot storingCompressors emptyRoot := .fresh rfl

/-- All effects succeed but the sync of the root, after which an error is returned and the new index stays. -/
theorem publishBatch_rootSync_not_atomic :
    ReachableRoot storingCompressors emptyRoot ∧
      ¬PublicationAtomic storingCompressors none (.preserveEntries 0) {} immediateOptions emptyRoot
        (exec FileEffect.apply [none, none, none, none, none, none, some ⟨.other, "sync failed"⟩]
          (publishBatch storingCompressors none (.preserveEntries 0) {} immediateOptions).run
          [] emptyRoot) := by
  have hfailed : FileEffect.syncDirectory [] ∈
      (exec FileEffect.apply [none, none, none, none, none, none, some ⟨.other, "sync failed"⟩]
        (publishBatch storingCompressors none (.preserveEntries 0) {} immediateOptions).run
        [] emptyRoot).failed := by
    decide +kernel
  exact ⟨emptyRoot_reachable,
    not_publicationAtomic storingCompressors_lossless emptyRoot_reachable hfailed⟩

/-- The root after the publication of one asset. -/
def publishedRoot : Disk :=
  (exec FileEffect.apply (List.replicate 16 none) (publishBatch storingCompressors none (.preserveEntries 0)
    (assetBatch "main();") immediateOptions).run [] emptyRoot).state

theorem publishedRoot_reachable : ReachableRoot storingCompressors publishedRoot :=
  .publish emptyRoot_reachable none (.preserveEntries 0) (assetBatch "main();") immediateOptions
    (List.replicate 16 none)

/-- A publication that replaces the asset stops in the middle, and the old index is in place with its pack. -/
theorem publishBatch_atomic_iff_publishedRoot :
    ((readIndex publishedRoot).entries[assetAddress]?).isSome = true ∧
      PublicationAtomic storingCompressors none (.preserveEntries 1) (assetBatch "other();") immediateOptions
        publishedRoot (exec FileEffect.apply (List.replicate 4 none ++ [some ⟨.other, "no space"⟩])
          (publishBatch storingCompressors none (.preserveEntries 1) (assetBatch "other();")
            immediateOptions).run [] publishedRoot) := by
  have hsynced : FileEffect.syncDirectory [] ∉ (exec FileEffect.apply
      (List.replicate 4 none ++ [some ⟨.other, "no space"⟩]) (publishBatch storingCompressors none
        (.preserveEntries 1) (assetBatch "other();") immediateOptions).run [] publishedRoot).failed := by
    decide +kernel
  exact ⟨by decide +kernel, (publishBatch_atomic_iff storingCompressors_lossless publishedRoot_reachable none
    (.preserveEntries 1) (assetBatch "other();") immediateOptions _).mpr hsynced⟩

end

end Unpack
