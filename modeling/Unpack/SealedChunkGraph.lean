import Unpack.ModuleConcatenation
import Unpack.IdAssignment

/-! The chunk graph that code generation reads: built, concatenated when the option says so, and given
its render ids. The ids change nothing else, and exactly the modules left in a chunk have one. -/

namespace Unpack

namespace ChunkGraph

/-- What rendering reads of a chunk graph beside the render ids. -/
structure SameContent (before after : ChunkGraph) : Prop where
  entrypoints : after.entrypoints = before.entrypoints
  runtimeChildren : after.runtimeChildren = before.runtimeChildren
  blockChunkGroup : after.blockChunkGroup = before.blockChunkGroup
  chunkGroup : after.chunkGroup = before.chunkGroup
  concatenatedModule : after.concatenatedModule = before.concatenatedModule
  chunkModules : after.chunkModules = before.chunkModules
  moduleChunks : after.moduleChunks = before.moduleChunks

theorem SameContent.trans {first second third : ChunkGraph} (h : SameContent first second)
    (h' : SameContent second third) : SameContent first third where
  entrypoints := h'.entrypoints.trans h.entrypoints
  runtimeChildren := h'.runtimeChildren.trans h.runtimeChildren
  blockChunkGroup := h'.blockChunkGroup.trans h.blockChunkGroup
  chunkGroup := h'.chunkGroup.trans h.chunkGroup
  concatenatedModule := h'.concatenatedModule.trans h.concatenatedModule
  chunkModules := h'.chunkModules.trans h.chunkModules
  moduleChunks := h'.moduleChunks.trans h.moduleChunks

theorem sameContent_foldl {α : Type} (f : ChunkGraph → α → ChunkGraph)
    (hf : ∀ chunkGraph item, SameContent chunkGraph (f chunkGraph item)) (items : List α)
    (chunkGraph : ChunkGraph) : SameContent chunkGraph (items.foldl f chunkGraph) := by
  induction items generalizing chunkGraph with
  | nil => exact ⟨rfl, rfl, rfl, rfl, rfl, rfl, rfl⟩
  | cons item items ih => exact (hf chunkGraph item).trans (ih (f chunkGraph item))

theorem sameContent_assignModuleRenderIds (context : RenderPathContext) (moduleGraph : ModuleGraph)
    (chunkGraph : ChunkGraph) :
    SameContent chunkGraph (assignModuleRenderIds context moduleGraph chunkGraph) :=
  sameContent_foldl (fun chunkGraph (assignment : Nat × RenderId) =>
    chunkGraph.setModuleRenderId assignment.1 assignment.2)
    (fun _ _ => ⟨rfl, rfl, rfl, rfl, rfl, rfl, rfl⟩) _ chunkGraph

theorem sameContent_assignChunkRenderIds (context : RenderPathContext) (moduleGraph : ModuleGraph)
    (chunkGraph : ChunkGraph) :
    SameContent chunkGraph (assignChunkRenderIds context moduleGraph chunkGraph) :=
  sameContent_foldl (fun chunkGraph (assignment : Nat × RenderId) =>
    chunkGraph.setChunkRenderId assignment.1 assignment.2)
    (fun _ _ => ⟨rfl, rfl, rfl, rfl, rfl, rfl, rfl⟩) _ chunkGraph

theorem moduleRenderId_setModuleRenderId (chunkGraph : ChunkGraph) (module other : ModuleHandle)
    (renderId : RenderId) : (chunkGraph.setModuleRenderId module renderId).moduleRenderId other =
      if other = module then some renderId else chunkGraph.moduleRenderId other := by
  have hlength := length_growTo chunkGraph.moduleRenderIds (module + 1) none
  have hgrow := getD_growTo chunkGraph.moduleRenderIds (module + 1) none other
  have hjoin : ∀ items : List (Option RenderId), items[other]?.join = items.getD other none := by
    intro items
    rw [List.getD_eq_getElem?_getD]
    cases items[other]? <;> rfl
  rw [moduleRenderId, moduleRenderId, hjoin, hjoin, setModuleRenderId]
  by_cases hsame : other = module
  · subst hsame
    rw [if_pos rfl, List.getD_eq_getElem?_getD, List.getElem?_set_self (by omega)]
    rfl
  · rw [if_neg hsame, List.getD_eq_getElem?_getD, List.getElem?_set_ne (Ne.symm hsame),
      ← List.getD_eq_getElem?_getD, hgrow]

theorem isSome_moduleRenderId_foldl (assignments : List (Nat × RenderId)) (chunkGraph : ChunkGraph)
    (module : ModuleHandle) (h : (∃ id, (module, id) ∈ assignments) ∨
      (chunkGraph.moduleRenderId module).isSome) :
    ((assignments.foldl (fun chunkGraph assignment =>
      chunkGraph.setModuleRenderId assignment.1 assignment.2) chunkGraph).moduleRenderId
        module).isSome := by
  induction assignments generalizing chunkGraph with
  | nil => exact h.resolve_left (by simp)
  | cons assignment assignments ih =>
      refine ih _ ?_
      rw [moduleRenderId_setModuleRenderId]
      rcases h with ⟨id, hmem⟩ | hsome
      · rcases List.mem_cons.mp hmem with rfl | hmem
        · exact Or.inr (by simp)
        · exact Or.inl ⟨id, hmem⟩
      · refine Or.inr ?_
        split_ifs
        · rfl
        · exact hsome

end ChunkGraph

/-- `module_render_ids` of code generation: the ids of the modules that are in a chunk. -/
def ModuleGraph.moduleRenderIds (graph : ModuleGraph) (chunkGraph : ChunkGraph)
    (module : ModuleHandle) : Option RenderId :=
  (graph.module module).bind fun _ =>
    if (chunkGraph.moduleChunks module).isEmpty then none else chunkGraph.moduleRenderId module

namespace Compilation

variable (compilation : Compilation) (context : RenderPathContext)

def optimizedChunkGraph : ChunkGraph :=
  if compilation.options.concatenateModules then compilation.concatenatedChunkGraph
  else compilation.chunkGraph

/-- The chunk graph after `assign_render_ids`. -/
def sealedChunkGraph : ChunkGraph :=
  assignChunkRenderIds context compilation.moduleGraph
    (assignModuleRenderIds context compilation.moduleGraph compilation.optimizedChunkGraph)

def moduleRenderId (module : ModuleHandle) : Option RenderId :=
  compilation.moduleGraph.moduleRenderIds (compilation.sealedChunkGraph context) module

theorem sameContent_sealed :
    ChunkGraph.SameContent compilation.optimizedChunkGraph (compilation.sealedChunkGraph context) :=
  (ChunkGraph.sameContent_assignModuleRenderIds _ _ _).trans
    (ChunkGraph.sameContent_assignChunkRenderIds _ _ _)

theorem moduleRenderId_assignChunkRenderIds (moduleGraph : ModuleGraph) (chunkGraph : ChunkGraph) :
    (assignChunkRenderIds context moduleGraph chunkGraph).moduleRenderId =
      chunkGraph.moduleRenderId := by
  rw [assignChunkRenderIds]
  generalize assignNamedIds _ _ ++ assignNamedIdsWithReserved _ _ _ = assignments
  induction assignments generalizing chunkGraph with
  | nil => rfl
  | cons assignment assignments ih => exact ih _

/-- Exactly the modules in a chunk have a render id. -/
theorem isSome_moduleRenderId {module : ModuleHandle}
    (hlt : module < compilation.moduleGraph.modules.length) :
    (compilation.moduleRenderId context module).isSome ↔
      (compilation.sealedChunkGraph context).moduleChunks module ≠ [] := by
  obtain ⟨found, hfound⟩ := ModuleGraph.Indexed.exists_module hlt
  have hhandle := compilation.indexed.handle_eq hfound
  rw [moduleRenderId, ModuleGraph.moduleRenderIds, hfound, Option.bind_some]
  by_cases hempty : (compilation.sealedChunkGraph context).moduleChunks module = []
  · simp [hempty]
  · rw [if_neg (by simpa using hempty)]
    refine ⟨fun _ => hempty, fun _ => ?_⟩
    rw [sealedChunkGraph, moduleRenderId_assignChunkRenderIds]
    refine ChunkGraph.isSome_moduleRenderId_foldl _ _ module (Or.inl ?_)
    refine (mem_assignNamedIdsWithReserved _ _ _).mpr ⟨_, List.mem_map.mpr ⟨found,
      List.mem_filter.mpr ⟨ModuleGraph.Indexed.mem_modules hfound, ?_⟩, rfl⟩, hhandle⟩
    rw [hhandle]
    rw [(compilation.sameContent_sealed context).moduleChunks] at hempty
    simpa using hempty

end Compilation

/-- With or without concatenation, some disjoint configurations were applied. -/
theorem OptimizedCompilation.optimized (compilation : OptimizedCompilation) :
    ∃ applied, Concatenated compilation.moduleGraph compilation.chunkGraph compilation.entries applied
      compilation.optimizedChunkGraph := by
  unfold Compilation.optimizedChunkGraph
  split_ifs
  · exact compilation.concatenated
  · exact ⟨[], concatenated_nil compilation.built⟩

end Unpack
