import Unpack.ChunkRegistry

/-! Membership is kept on both sides. A chunk lists its modules and its groups, a module and a group list
their chunks; the lists say the same and none repeats itself. -/

namespace Unpack

namespace ChunkGraph

structure Membership (chunkGraph : ChunkGraph) : Prop where
  modules : ∀ chunk module,
    chunk ∈ chunkGraph.moduleChunks module ↔ module ∈ chunkGraph.chunkModules chunk
  groups : ∀ chunk group,
    chunk ∈ chunkGraph.groupChunks group ↔ group ∈ chunkGraph.chunkGroupsOf chunk
  nodup_chunkModules : ∀ chunk, (chunkGraph.chunkModules chunk).Nodup
  nodup_moduleChunks : ∀ module, (chunkGraph.moduleChunks module).Nodup
  nodup_groupChunks : ∀ group, (chunkGraph.groupChunks group).Nodup
  nodup_chunkGroupsOf : ∀ chunk, (chunkGraph.chunkGroupsOf chunk).Nodup
  listed : chunkGraph.chunkModuleLists.length = chunkGraph.chunks.length

theorem membership_empty : Membership {} := by
  refine ⟨?_, ?_, ?_, ?_, ?_, ?_, rfl⟩ <;> intros <;>
    simp [moduleChunks, chunkModules, groupChunks, chunkGroupsOf, chunkGroup, chunk]

/-- Rows without repetitions, after an update of one row that adds none. -/
theorem nodup_getD_modify {α : Type} {rows : List (List α)} {f : List α → List α}
    (hf : ∀ row, row.Nodup → (f row).Nodup) (hrows : ∀ index, (rows.getD index []).Nodup)
    (index other : Nat) : ((rows.modify index f).getD other []).Nodup := by
  rw [getD_modify]
  split_ifs
  · exact hf _ (hrows other)
  · exact hrows other

variable {chunkGraph : ChunkGraph}

theorem groupChunks_lt {chunk : ChunkHandle} {group : ChunkGroupHandle}
    (hmem : chunk ∈ chunkGraph.groupChunks group) : group < chunkGraph.chunkGroups.length := by
  rw [groupChunks, chunkGroup] at hmem
  by_contra hge
  rw [List.getElem?_eq_none (Nat.le_of_not_lt hge)] at hmem
  exact List.not_mem_nil hmem

/-- The chunks of each group are read off the groups alone. -/
theorem groupChunks_congr {after : ChunkGraph}
    (hgroups : after.chunkGroups.map (·.chunks) = chunkGraph.chunkGroups.map (·.chunks)) :
    after.groupChunks = chunkGraph.groupChunks := by
  funext group
  have hrow := congrArg (fun rows : List (List ChunkHandle) => rows.getD group []) hgroups
  simp only [List.getD_eq_getElem?_getD, List.getElem?_map] at hrow
  rw [groupChunks, groupChunks, chunkGroup, chunkGroup]
  cases hafter : after.chunkGroups[group]? <;> cases hbefore : chunkGraph.chunkGroups[group]? <;>
    simp_all

theorem Membership.of_same (h : chunkGraph.Membership) {after : ChunkGraph}
    (hchunks : after.chunkGroupsOf = chunkGraph.chunkGroupsOf)
    (hgroups : after.groupChunks = chunkGraph.groupChunks)
    (hmodules : after.chunkModules = chunkGraph.chunkModules)
    (hback : after.moduleChunks = chunkGraph.moduleChunks)
    (hlisted : after.chunkModuleLists.length = after.chunks.length) : after.Membership where
  modules := by
    rw [hmodules, hback]
    exact h.modules
  groups := by
    rw [hchunks, hgroups]
    exact h.groups
  nodup_chunkModules := hmodules ▸ h.nodup_chunkModules
  nodup_moduleChunks := hback ▸ h.nodup_moduleChunks
  nodup_groupChunks := hgroups ▸ h.nodup_groupChunks
  nodup_chunkGroupsOf := hchunks ▸ h.nodup_chunkGroupsOf
  listed := hlisted

/-- The connecting phase leaves every membership. -/
theorem Membership.of_sameContents (h : chunkGraph.Membership) {after : ChunkGraph}
    (hsame : SameContents chunkGraph after) : after.Membership := by
  refine h.of_same ?_ ?_ ?_ ?_ ?_
  · funext chunk
    rw [chunkGroupsOf, ChunkGraph.chunk, hsame.chunks]
    rfl
  · have hchunks := congrArg (List.map fun made : ChunkGroupKind × Option AsyncBlockOrigin ×
      List ChunkHandle => made.2.2) hsame.groups
    rw [List.map_map, List.map_map] at hchunks
    exact groupChunks_congr hchunks
  · funext chunk
    rw [chunkModules, hsame.chunkModuleLists]
    rfl
  · funext module
    rw [moduleChunks, hsame.moduleChunkLists]
    rfl
  · rw [hsame.chunkModuleLists, hsame.chunks, h.listed]

theorem chunkGroupsOf_addChunk (chunkGraph : ChunkGraph) (name : Option String)
    (rootModules : List ModuleHandle) :
    (chunkGraph.addChunk name rootModules).2.chunkGroupsOf = chunkGraph.chunkGroupsOf := by
  funext chunk
  rw [chunkGroupsOf, ChunkGraph.chunk, chunkGroupsOf, ChunkGraph.chunk]
  rcases Nat.lt_or_ge chunk chunkGraph.chunks.length with hlt | hge
  · rw [addChunk, List.getElem?_append_left hlt]
  · rw [addChunk, List.getElem?_append_right hge, List.getElem?_eq_none hge]
    cases chunk - chunkGraph.chunks.length <;> rfl

theorem Membership.addChunk (h : chunkGraph.Membership) (name : Option String)
    (rootModules : List ModuleHandle) : (chunkGraph.addChunk name rootModules).2.Membership := by
  refine h.of_same (chunkGroupsOf_addChunk _ _ _) rfl (chunkModules_addChunk _ _ _) rfl ?_
  simp [ChunkGraph.addChunk, h.listed]

theorem groupChunks_addChunkGroup (chunkGraph : ChunkGraph) (kind : ChunkGroupKind)
    (origin : Option AsyncBlockOrigin) :
    (chunkGraph.addChunkGroup kind origin).2.groupChunks = chunkGraph.groupChunks := by
  funext group
  rw [groupChunks, chunkGroup, groupChunks, chunkGroup]
  rcases Nat.lt_or_ge group chunkGraph.chunkGroups.length with hlt | hge
  · rw [addChunkGroup, List.getElem?_append_left hlt]
  · rw [addChunkGroup, List.getElem?_append_right hge, List.getElem?_eq_none hge]
    cases group - chunkGraph.chunkGroups.length <;> rfl

theorem Membership.addChunkGroup (h : chunkGraph.Membership) (kind : ChunkGroupKind)
    (origin : Option AsyncBlockOrigin) : (chunkGraph.addChunkGroup kind origin).2.Membership :=
  h.of_same rfl (groupChunks_addChunkGroup _ _ _) rfl rfl h.listed

theorem mem_chunkGroupsOf_connect {chunk : ChunkHandle} (group member : ChunkGroupHandle)
    (hchunk : chunk < chunkGraph.chunks.length) (other : ChunkHandle) :
    member ∈ (chunkGraph.connectChunkAndGroup chunk group).chunkGroupsOf other ↔
      member ∈ chunkGraph.chunkGroupsOf other ∨ other = chunk ∧ member = group := by
  rw [chunkGroupsOf, ChunkGraph.chunk, connectChunkAndGroup, List.getElem?_modify, chunkGroupsOf,
    ChunkGraph.chunk]
  by_cases heq : chunk = other
  · subst heq
    rw [List.getElem?_eq_getElem hchunk]
    simp [Chunk.addGroup]
  · cases h : chunkGraph.chunks[other]? with
    | none => simp [Ne.symm heq]
    | some found => simp [heq, Ne.symm heq]

theorem Membership.connectChunkAndGroup (h : chunkGraph.Membership) {chunk : ChunkHandle}
    {group : ChunkGroupHandle} (hchunk : chunk < chunkGraph.chunks.length)
    (hgroup : group < chunkGraph.chunkGroups.length) :
    (chunkGraph.connectChunkAndGroup chunk group).Membership where
  modules := h.modules
  groups := by
    intro member other
    rw [mem_groupChunks_connect _ _ _ hgroup, mem_chunkGroupsOf_connect _ _ hchunk, h.groups]
  nodup_chunkModules := h.nodup_chunkModules
  nodup_moduleChunks := h.nodup_moduleChunks
  nodup_groupChunks := by
    intro other
    have hrow := h.nodup_groupChunks other
    rw [groupChunks, chunkGroup] at hrow
    rw [groupChunks, chunkGroup, ChunkGraph.connectChunkAndGroup, List.getElem?_modify]
    cases hfound : chunkGraph.chunkGroups[other]? with
    | none => exact List.nodup_nil
    | some found =>
        rw [hfound] at hrow
        show (Option.elim (some (if group = other then found.pushChunk chunk else found)) []
          (·.chunks)).Nodup
        split_ifs
        · exact nodup_pushNew hrow chunk
        · exact hrow
  nodup_chunkGroupsOf := by
    intro other
    have hrow := h.nodup_chunkGroupsOf other
    rw [chunkGroupsOf, ChunkGraph.chunk] at hrow
    rw [chunkGroupsOf, ChunkGraph.chunk, ChunkGraph.connectChunkAndGroup, List.getElem?_modify]
    cases hfound : chunkGraph.chunks[other]? with
    | none => exact List.nodup_nil
    | some found =>
        rw [hfound] at hrow
        show (Option.elim (some (if chunk = other then found.addGroup group else found)) []
          (·.groups)).Nodup
        split_ifs
        · exact nodup_pushNew hrow group
        · exact hrow
  listed := h.listed.trans (List.length_modify ..).symm

theorem Membership.connectChunkAndModule (h : chunkGraph.Membership) {chunk : ChunkHandle}
    (hchunk : chunk < chunkGraph.chunks.length) (module : ModuleHandle) :
    (chunkGraph.connectChunkAndModule chunk module).Membership where
  modules := by
    intro other member
    rw [mem_chunkModules_connect _ _ _ _ _ (h.listed.symm ▸ hchunk), mem_moduleChunks_connect,
      h.modules]
  groups := h.groups
  nodup_chunkModules := nodup_getD_modify (fun _ hrow => nodup_pushNew hrow module)
    h.nodup_chunkModules chunk
  nodup_moduleChunks := by
    refine nodup_getD_modify (fun _ hrow => nodup_pushNew hrow chunk) (fun index => ?_) module
    rw [getD_growTo]
    exact h.nodup_moduleChunks index
  nodup_groupChunks := h.nodup_groupChunks
  nodup_chunkGroupsOf := h.nodup_chunkGroupsOf
  listed := (List.length_modify ..).trans h.listed

theorem Membership.disconnectChunkAndModule (h : chunkGraph.Membership) (chunk : ChunkHandle)
    (module : ModuleHandle) : (chunkGraph.disconnectChunkAndModule chunk module).Membership where
  modules := by
    intro other member
    rw [mem_chunkModules_disconnect, mem_moduleChunks_disconnect, h.modules]
  groups := h.groups
  nodup_chunkModules := nodup_getD_modify (fun _ hrow => hrow.filter _) h.nodup_chunkModules chunk
  nodup_moduleChunks := nodup_getD_modify (fun _ hrow => hrow.filter _) h.nodup_moduleChunks module
  nodup_groupChunks := h.nodup_groupChunks
  nodup_chunkGroupsOf := h.nodup_chunkGroupsOf
  listed := (List.length_modify ..).trans h.listed

/-- Membership next to a fixed number of chunks. -/
def MembershipOf (count : Nat) (chunkGraph : ChunkGraph) : Prop :=
  chunkGraph.Membership ∧ chunkGraph.chunks.length = count

theorem Membership.addGroupWithChunk (h : chunkGraph.Membership) (name : Option String)
    (root : ModuleHandle) (kind : ChunkGroupKind) (origin : Option AsyncBlockOrigin)
    (modules : List ModuleHandle) :
    (Unpack.addGroupWithChunk chunkGraph name root kind origin modules).2.Membership := by
  have hadd := (h.addChunk name [root]).addChunkGroup kind origin
  refine (foldl_keeps (P := MembershipOf (chunkGraph.chunks.length + 1))
    (fun start module hkept => ⟨hkept.1.connectChunkAndModule
      (by rw [hkept.2]; exact Nat.lt_succ_self _) module, hkept.2⟩) modules ⟨?_, ?_⟩).1
  · refine hadd.connectChunkAndGroup ?_ ?_
    · simp [ChunkGraph.addChunk, ChunkGraph.addChunkGroup]
    · simp [ChunkGraph.addChunk, ChunkGraph.addChunkGroup]
  · simp [ChunkGraph.connectChunkAndGroup]

theorem membership_layGroups (graph : ModuleGraph) (reachable : ModuleHandle → List ModuleHandle)
    (options : CompilerOptions) (entries : List ModuleHandle) (planning : AsyncPlanning) :
    (layGroups graph reachable options entries planning).Membership := by
  refine foldl_keeps (fun start target hkept => ?_) _ (foldl_keeps (fun start entry hkept => ?_) _
    membership_empty)
  · rw [addAsyncGroup]
    split
    · exact hkept.addGroupWithChunk _ _ _ _ _
    · exact hkept
  · exact (hkept.addGroupWithChunk _ _ _ _ _).of_same rfl rfl rfl rfl
      (hkept.addGroupWithChunk _ _ _ _ _).listed

/-- The new chunk joins groups that are there. -/
theorem MembershipOf.joinGroups {count : Nat} {newChunk : ChunkHandle} (hnew : newChunk < count)
    (groups : List ChunkGroupHandle) (h : MembershipOf count chunkGraph)
    (hgroups : ∀ group ∈ groups, group < chunkGraph.chunkGroups.length) :
    MembershipOf count (groups.foldl (fun chunkGraph group =>
      chunkGraph.connectChunkAndGroup newChunk group) chunkGraph) := by
  induction groups generalizing chunkGraph with
  | nil => exact h
  | cons group groups ih =>
      refine ih ⟨h.1.connectChunkAndGroup (h.2.symm ▸ hnew) (hgroups group List.mem_cons_self),
        (List.length_modify ..).trans h.2⟩ fun other hother => ?_
      exact (hgroups other (List.mem_cons_of_mem _ hother)).trans_eq (List.length_modify ..).symm

theorem MembershipOf.splitSource {count : Nat} {newChunk : ChunkHandle} (hnew : newChunk < count)
    (h : MembershipOf count chunkGraph) (source : ChunkHandle) :
    MembershipOf count (ChunkGraph.splitSource newChunk chunkGraph source) := by
  unfold ChunkGraph.splitSource
  split
  next original horiginal =>
    refine h.joinGroups hnew original.groups fun group hgroup => ?_
    refine @groupChunks_lt _ source _ ((h.1.groups source group).mpr ?_)
    rw [chunkGroupsOf, horiginal]
    exact hgroup
  · exact h

/-- A candidate adds one chunk. -/
theorem Membership.applySplitCandidate (h : chunkGraph.Membership) (name : Option String)
    (candidate : List ChunkHandle × List ModuleHandle) :
    MembershipOf (chunkGraph.chunks.length + 1)
      (ChunkGraph.applySplitCandidate name chunkGraph candidate) := by
  let count := chunkGraph.chunks.length + 1
  have hnew : chunkGraph.chunks.length < count := Nat.lt_succ_self _
  have hsplit : ∀ rootModules,
      MembershipOf count (chunkGraph.addSplitChunk candidate.1 name rootModules).2 := by
    intro rootModules
    refine foldl_keeps (P := MembershipOf count)
      (fun start source hkept => hkept.splitSource hnew source) candidate.1
      ⟨h.addChunk name rootModules, ?_⟩
    simp [count]
  refine foldl_keeps (P := MembershipOf count) (fun start module hkept => ?_) _ (hsplit _)
  have hmoved := foldl_keeps (P := MembershipOf count) (fun start chunk hkept =>
    ⟨hkept.1.disconnectChunkAndModule chunk module, hkept.2⟩) candidate.1 hkept
  exact ⟨hmoved.1.connectChunkAndModule (hmoved.2.symm ▸ hnew) module, hmoved.2⟩

theorem Membership.applySplitChunks (h : chunkGraph.Membership) (minChunks : Nat)
    (name : Option String) : (chunkGraph.applySplitChunks minChunks name).Membership :=
  foldl_keeps (fun _ candidate hkept => (hkept.applySplitCandidate name candidate).1) _ h

end ChunkGraph

/-- Every chunk graph of the planning keeps membership on both sides. -/
theorem membership_buildGroups (graph : ModuleGraph) (reachable : ModuleHandle → List ModuleHandle)
    (options : CompilerOptions) (entries : List ModuleHandle) :
    (buildGroups graph reachable options entries).Membership := by
  rw [buildGroups_eq]
  obtain ⟨-, hsame, -⟩ := connectedAfter_spec graph reachable options entries
    (List.append_nil _).symm
  exact (ChunkGraph.membership_layGroups graph reachable options entries _).of_sameContents hsame

end Unpack
