import Unpack.ReachableGroups

/-! The registry of chunks. Whatever builds the chunk graph gives each chunk its position as its handle
and a module list, and puts only chunks that are there into groups. -/

namespace Unpack

namespace ChunkGraph

structure Registered (chunkGraph : ChunkGraph) : Prop where
  handles : ∀ (index : Nat) (chunk : Chunk), chunkGraph.chunks[index]? = some chunk →
    chunk.handle = index
  listed : chunkGraph.chunkModuleLists.length = chunkGraph.chunks.length
  grouped : ∀ group ∈ chunkGraph.chunkGroups, ∀ chunk ∈ group.chunks,
    chunk < chunkGraph.chunks.length

variable {chunkGraph : ChunkGraph}

theorem registered_empty : Registered {} := ⟨by simp, rfl, by simp⟩

/-- Updates that leave the chunks and their groups as they are. -/
theorem Registered.of_same {after : ChunkGraph} (h : chunkGraph.Registered)
    (hchunks : after.chunks = chunkGraph.chunks)
    (hlists : after.chunkModuleLists.length = chunkGraph.chunkModuleLists.length)
    (hgroups : after.chunkGroups.map (·.chunks) = chunkGraph.chunkGroups.map (·.chunks)) :
    after.Registered where
  handles := by
    rw [hchunks]
    exact h.handles
  listed := by rw [hlists, hchunks, h.listed]
  grouped := by
    intro group hgroup
    rw [hchunks]
    have hmem : group.chunks ∈ after.chunkGroups.map (·.chunks) := List.mem_map_of_mem hgroup
    rw [hgroups, List.mem_map] at hmem
    obtain ⟨other, hother, heq⟩ := hmem
    rw [← heq]
    exact h.grouped other hother

theorem Registered.addChunk (h : chunkGraph.Registered) (name : Option String)
    (rootModules : List ModuleHandle) : (chunkGraph.addChunk name rootModules).2.Registered where
  handles := by
    intro index chunk hchunk
    rcases Nat.lt_or_ge index chunkGraph.chunks.length with hlt | hge
    · exact h.handles index chunk ((List.getElem?_append_left hlt).symm.trans hchunk)
    · obtain ⟨hlast, heq⟩ := List.getElem?_eq_some_iff.mp
        ((List.getElem?_append_right hge).symm.trans hchunk)
      have hzero : index - chunkGraph.chunks.length = 0 := Nat.lt_one_iff.mp hlast
      simp only [hzero, List.getElem_cons_zero] at heq
      rw [← heq]
      exact Nat.le_antisymm hge (Nat.sub_eq_zero_iff_le.mp hzero)
  listed := by
    simp only [ChunkGraph.addChunk, List.length_append, h.listed]
    rfl
  grouped := by
    intro group hgroup chunk hchunk
    have hlt := h.grouped group hgroup chunk hchunk
    exact Nat.lt_of_lt_of_le hlt (by simp [ChunkGraph.addChunk])

theorem Registered.addChunkGroup (h : chunkGraph.Registered) (kind : ChunkGroupKind)
    (origin : Option AsyncBlockOrigin) : (chunkGraph.addChunkGroup kind origin).2.Registered where
  handles := h.handles
  listed := h.listed
  grouped := by
    intro group hgroup
    rcases List.mem_append.mp hgroup with hold | hnew
    · exact h.grouped group hold
    · obtain rfl := List.mem_singleton.mp hnew
      exact fun chunk hchunk => absurd hchunk List.not_mem_nil

theorem Registered.connectChunkAndGroup (h : chunkGraph.Registered) {chunk : ChunkHandle}
    (hlt : chunk < chunkGraph.chunks.length) (group : ChunkGroupHandle) :
    (chunkGraph.connectChunkAndGroup chunk group).Registered where
  handles := by
    intro index found hfound
    rw [ChunkGraph.connectChunkAndGroup, List.getElem?_modify] at hfound
    obtain ⟨old, hold, hsame⟩ := Option.map_eq_some_iff.mp hfound
    rw [← h.handles index old hold, ← hsame]
    split_ifs <;> rfl
  listed := h.listed.trans (List.length_modify ..).symm
  grouped := by
    intro found hfound member hmember
    rw [ChunkGraph.connectChunkAndGroup, List.length_modify]
    obtain ⟨index, hindex⟩ := List.mem_iff_getElem?.mp hfound
    rw [ChunkGraph.connectChunkAndGroup, List.getElem?_modify] at hindex
    obtain ⟨old, hold, hsame⟩ := Option.map_eq_some_iff.mp hindex
    have hgrouped := h.grouped old (List.mem_of_getElem? hold)
    rw [← hsame] at hmember
    split_ifs at hmember
    · rcases mem_pushNew.mp hmember with hin | rfl
      · exact hgrouped member hin
      · exact hlt
    · exact hgrouped member hmember

/-- A fold keeps what each step keeps. -/
theorem foldl_keeps {α : Type} {P : ChunkGraph → Prop} {f : ChunkGraph → α → ChunkGraph}
    (hf : ∀ chunkGraph item, P chunkGraph → P (f chunkGraph item)) (items : List α)
    {chunkGraph : ChunkGraph} (h : P chunkGraph) : P (items.foldl f chunkGraph) := by
  induction items generalizing chunkGraph with
  | nil => exact h
  | cons item items ih => exact ih (hf chunkGraph item h)

theorem Registered.connectChunkAndModule (h : chunkGraph.Registered) (chunk : ChunkHandle)
    (module : ModuleHandle) : (chunkGraph.connectChunkAndModule chunk module).Registered :=
  h.of_same rfl (List.length_modify ..) rfl

theorem Registered.disconnectChunkAndModule (h : chunkGraph.Registered) (chunk : ChunkHandle)
    (module : ModuleHandle) : (chunkGraph.disconnectChunkAndModule chunk module).Registered :=
  h.of_same rfl (List.length_modify ..) rfl

/-- Laying a group and its chunk. -/
theorem Registered.addGroupWithChunk (h : chunkGraph.Registered) (name : Option String)
    (root : ModuleHandle) (kind : ChunkGroupKind) (origin : Option AsyncBlockOrigin)
    (modules : List ModuleHandle) :
    (addGroupWithChunk chunkGraph name root kind origin modules).2.Registered := by
  have hadd := (h.addChunk name [root]).addChunkGroup kind origin
  refine foldl_keeps (fun start module hkept => hkept.connectChunkAndModule _ module) modules
    (hadd.connectChunkAndGroup ?_ _)
  simp [ChunkGraph.addChunk, ChunkGraph.addChunkGroup]

/-- Connecting leaves the chunks and the groups they are in. -/
theorem Registered.of_sameContents (h : chunkGraph.Registered) {after : ChunkGraph}
    (hsame : SameContents chunkGraph after) : after.Registered := by
  refine h.of_same hsame.chunks (congrArg List.length hsame.chunkModuleLists) ?_
  have hchunks := congrArg (List.map fun made : ChunkGroupKind × Option AsyncBlockOrigin ×
    List ChunkHandle => made.2.2) hsame.groups
  rw [List.map_map, List.map_map] at hchunks
  exact hchunks

/-- The chunk joins the groups of one more source. -/
theorem Registered.splitSource {newChunk : ChunkHandle} {length : Nat} (hlt : newChunk < length)
    (source : ChunkHandle) (h : chunkGraph.Registered ∧ chunkGraph.chunks.length = length) :
    (ChunkGraph.splitSource newChunk chunkGraph source).Registered ∧
      (ChunkGraph.splitSource newChunk chunkGraph source).chunks.length = length := by
  unfold ChunkGraph.splitSource
  split
  · refine foldl_keeps (P := fun chunkGraph =>
      chunkGraph.Registered ∧ chunkGraph.chunks.length = length) ?_ _ h
    intro chunkGraph group hkept
    exact ⟨hkept.1.connectChunkAndGroup (hkept.2 ▸ hlt) group,
      (List.length_modify ..).trans hkept.2⟩
  · exact h

theorem Registered.applySplitCandidate (name : Option String) (h : chunkGraph.Registered)
    (candidate : List ChunkHandle × List ModuleHandle) :
    (ChunkGraph.applySplitCandidate name chunkGraph candidate).Registered := by
  have hsplit : ∀ rootModules,
      (chunkGraph.addSplitChunk candidate.1 name rootModules).2.Registered := by
    intro rootModules
    refine (foldl_keeps (P := fun chunkGraph' => chunkGraph'.Registered ∧
      chunkGraph'.chunks.length = chunkGraph.chunks.length + 1) ?_ candidate.1
      ⟨h.addChunk name rootModules, ?_⟩).1
    · exact fun start source hkept => Registered.splitSource (Nat.lt_succ_self _) source hkept
    · simp [ChunkGraph.addChunk]
  refine foldl_keeps (fun chunkGraph' module hkept => ?_) _ (hsplit _)
  exact (foldl_keeps (fun chunkGraph'' chunk hkept' =>
    hkept'.disconnectChunkAndModule chunk module) candidate.1 hkept).connectChunkAndModule _ module

theorem registered_layGroups (graph : ModuleGraph) (reachable : ModuleHandle → List ModuleHandle)
    (options : CompilerOptions) (entries : List ModuleHandle) (planning : AsyncPlanning) :
    (layGroups graph reachable options entries planning).Registered := by
  refine foldl_keeps (fun start target hkept => ?_) _ (foldl_keeps (fun start entry hkept => ?_) _
    registered_empty)
  · rw [addAsyncGroup]
    split
    · exact hkept.addGroupWithChunk _ _ _ _ _
    · exact hkept
  · exact (hkept.addGroupWithChunk _ _ _ _ _).of_same rfl rfl rfl

end ChunkGraph

/-- **Every chunk of a built group is in the registry.** -/
theorem registered_buildChunkGraphFrom (graph : ModuleGraph)
    (reachable : ModuleHandle → List ModuleHandle) (options : CompilerOptions)
    (entries : List ModuleHandle) :
    (buildChunkGraphFrom graph reachable options entries).Registered := by
  have hgroups : (buildGroups graph reachable options entries).Registered := by
    rw [buildGroups_eq]
    obtain ⟨-, hsame, -⟩ := connectedAfter_spec graph reachable options entries
      (List.append_nil _).symm
    exact (ChunkGraph.registered_layGroups graph reachable options entries _).of_sameContents hsame
  rw [buildChunkGraphFrom]
  cases options.splitChunks with
  | none => exact hgroups
  | some splitChunks =>
      exact ChunkGraph.foldl_keeps
        (fun start candidate hkept => hkept.applySplitCandidate splitChunks.name candidate) _ hgroups

end Unpack
