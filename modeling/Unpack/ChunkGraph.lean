import Unpack.ModuleGraph
import Mathlib.Data.List.Basic

/-! Chunks, chunk groups and the chunk graph. The runtime modules of a chunk stand in the tables of the
runtime requirements. -/

namespace Unpack

abbrev ChunkHandle := Nat
abbrev ChunkGroupHandle := Nat

inductive RenderId where
  | string (value : String)
  | number (value : UInt32)
  deriving DecidableEq

structure AsyncBlockOrigin where
  module : ModuleHandle
  block : AsyncDependenciesBlockIndex
  deriving DecidableEq

inductive ChunkGroupKind where
  | entrypoint (name : String)
  | async
  deriving DecidableEq

/-- A vector push that keeps the vector free of repetitions. -/
def pushNew {α : Type} [DecidableEq α] (items : List α) (item : α) : List α :=
  if item ∈ items then items else items ++ [item]

@[simp] theorem mem_pushNew {α : Type} [DecidableEq α] {items : List α} {item other : α} :
    other ∈ pushNew items item ↔ other ∈ items ∨ other = item := by
  rw [pushNew]
  split_ifs with h
  · exact ⟨Or.inl, fun hor => hor.elim id fun heq => heq ▸ h⟩
  · rw [List.mem_append, List.mem_singleton]

theorem nodup_pushNew {α : Type} [DecidableEq α] {items : List α} (hitems : items.Nodup) (item : α) :
    (pushNew items item).Nodup := by
  rw [pushNew]
  split_ifs with hmem
  · exact hitems
  · exact List.nodup_append.mpr ⟨hitems, List.nodup_singleton item, fun other hother last hlast heq =>
      hmem (by rw [← List.mem_singleton.mp hlast, ← heq]; exact hother)⟩

structure Chunk where
  handle : ChunkHandle
  name : Option String
  rootModules : List ModuleHandle
  renderId : Option RenderId := none
  filenameOverride : Option String := none
  groups : List ChunkGroupHandle := []
  deriving DecidableEq

def Chunk.addGroup (chunk : Chunk) (group : ChunkGroupHandle) : Chunk :=
  { chunk with groups := pushNew chunk.groups group }

structure ChunkGroup where
  handle : ChunkGroupHandle
  kind : ChunkGroupKind
  chunks : List ChunkHandle := []
  parents : List ChunkGroupHandle := []
  children : List ChunkGroupHandle := []
  origin : Option AsyncBlockOrigin
  deriving DecidableEq

namespace ChunkGroup

def pushChunk (group : ChunkGroup) (chunk : ChunkHandle) : ChunkGroup :=
  { group with chunks := pushNew group.chunks chunk }

def addParent (group : ChunkGroup) (parent : ChunkGroupHandle) : ChunkGroup :=
  { group with parents := pushNew group.parents parent }

def addChild (group : ChunkGroup) (child : ChunkGroupHandle) : ChunkGroup :=
  { group with children := pushNew group.children child }

end ChunkGroup

structure ConcatenatedModule where
  rootModule : ModuleHandle
  modules : List ModuleHandle
  deriving DecidableEq

def ConcatenatedModule.innerModules (module : ConcatenatedModule) : List ModuleHandle :=
  module.modules.filter (· ≠ module.rootModule)

structure ChunkGraph where
  chunks : List Chunk := []
  chunkGroups : List ChunkGroup := []
  entrypoints : List ChunkGroupHandle := []
  chunkModuleLists : List (List ModuleHandle) := []
  moduleChunkLists : List (List ChunkHandle) := []
  moduleRenderIds : List (Option RenderId) := []
  blockChunkGroups : FxHashMap AsyncBlockOrigin ChunkGroupHandle := ∅
  runtimeChunkGroupChildren : List (List ChunkGroupHandle) := []
  concatenatedModules : FxHashMap ModuleHandle ConcatenatedModule := ∅

namespace ChunkGraph

def chunkModules (graph : ChunkGraph) (chunk : ChunkHandle) : List ModuleHandle :=
  graph.chunkModuleLists.getD chunk []

def moduleChunks (graph : ChunkGraph) (module : ModuleHandle) : List ChunkHandle :=
  graph.moduleChunkLists.getD module []

def runtimeChildren (graph : ChunkGraph) (group : ChunkGroupHandle) : List ChunkGroupHandle :=
  graph.runtimeChunkGroupChildren.getD group []

def moduleRenderId (graph : ChunkGraph) (module : ModuleHandle) : Option RenderId :=
  graph.moduleRenderIds[module]?.join

def blockChunkGroup (graph : ChunkGraph) (origin : AsyncBlockOrigin) : Option ChunkGroupHandle :=
  graph.blockChunkGroups.lookup origin

def chunk (graph : ChunkGraph) (handle : ChunkHandle) : Option Chunk := graph.chunks[handle]?

def chunkGroup (graph : ChunkGraph) (handle : ChunkGroupHandle) : Option ChunkGroup :=
  graph.chunkGroups[handle]?

def concatenatedModule (graph : ChunkGraph) (root : ModuleHandle) : Option ConcatenatedModule :=
  graph.concatenatedModules.lookup root

/-- The chunks of a group, none for a handle that is not there. -/
def groupChunks (graph : ChunkGraph) (group : ChunkGroupHandle) : List ChunkHandle :=
  (graph.chunkGroup group).elim [] (·.chunks)

/-- The groups of a chunk, none for a handle that is not there. -/
def chunkGroupsOf (graph : ChunkGraph) (chunk : ChunkHandle) : List ChunkGroupHandle :=
  (graph.chunk chunk).elim [] (·.groups)

def addChunk (graph : ChunkGraph) (name : Option String) (rootModules : List ModuleHandle) :
    ChunkHandle × ChunkGraph :=
  let handle := graph.chunks.length
  (handle, { graph with
    chunks := graph.chunks ++ [{ handle, name, rootModules }]
    chunkModuleLists := graph.chunkModuleLists ++ [[]] })

def addChunkGroup (graph : ChunkGraph) (kind : ChunkGroupKind) (origin : Option AsyncBlockOrigin) :
    ChunkGroupHandle × ChunkGraph :=
  let handle := graph.chunkGroups.length
  (handle, { graph with
    chunkGroups := graph.chunkGroups ++ [{ handle, kind, origin }]
    runtimeChunkGroupChildren := graph.runtimeChunkGroupChildren ++ [[]] })

def connectChunkAndGroup (graph : ChunkGraph) (chunk : ChunkHandle) (group : ChunkGroupHandle) :
    ChunkGraph :=
  { graph with
    chunks := graph.chunks.modify chunk (·.addGroup group)
    chunkGroups := graph.chunkGroups.modify group (·.pushChunk chunk) }

def connectRuntimeChunkGroups (graph : ChunkGraph) (parent child : ChunkGroupHandle) : ChunkGraph :=
  { graph with
    runtimeChunkGroupChildren := graph.runtimeChunkGroupChildren.modify parent (pushNew · child) }

def connectChunkGroups (graph : ChunkGraph) (parent child : ChunkGroupHandle) : ChunkGraph :=
  { graph with
    chunkGroups := (graph.chunkGroups.modify parent (·.addChild child)).modify child
      (·.addParent parent) }.connectRuntimeChunkGroups parent child

def addEntrypoint (graph : ChunkGraph) (entrypoint : ChunkGroupHandle) : ChunkGraph :=
  { graph with entrypoints := graph.entrypoints ++ [entrypoint] }

def connectBlockAndChunkGroup (graph : ChunkGraph) (origin : AsyncBlockOrigin)
    (group : ChunkGroupHandle) : ChunkGraph :=
  { graph with blockChunkGroups := graph.blockChunkGroups.insert origin group }

/-- `resize_with(len, default)` where it only ever grows the vector. -/
def growTo {α : Type} (items : List α) (length : Nat) (default : α) : List α :=
  items ++ List.replicate (length - items.length) default

def connectChunkAndModule (graph : ChunkGraph) (chunk : ChunkHandle) (module : ModuleHandle) :
    ChunkGraph :=
  { graph with
    chunkModuleLists := graph.chunkModuleLists.modify chunk (pushNew · module)
    moduleChunkLists := (growTo graph.moduleChunkLists (module + 1) []).modify module
      (pushNew · chunk)
    moduleRenderIds := growTo graph.moduleRenderIds (module + 1) none }

def disconnectChunkAndModule (graph : ChunkGraph) (chunk : ChunkHandle) (module : ModuleHandle) :
    ChunkGraph :=
  { graph with
    chunkModuleLists := graph.chunkModuleLists.modify chunk (·.filter (· ≠ module))
    moduleChunkLists := graph.moduleChunkLists.modify module (·.filter (· ≠ chunk)) }

/-- `Chunk::split`: the new chunk joins every group of the original. -/
def split (graph : ChunkGraph) (original : Chunk) (newChunk : ChunkHandle) : ChunkGraph :=
  original.groups.foldl (fun graph group => graph.connectChunkAndGroup newChunk group) graph

def splitSource (newChunk : ChunkHandle) (graph : ChunkGraph) (sourceChunk : ChunkHandle) :
    ChunkGraph :=
  match graph.chunk sourceChunk with
  | some original => graph.split original newChunk
  | none => graph

def addSplitChunk (graph : ChunkGraph) (sourceChunks : List ChunkHandle) (name : Option String)
    (rootModules : List ModuleHandle) : ChunkHandle × ChunkGraph :=
  let (newChunk, graph) := graph.addChunk name rootModules
  (newChunk, sourceChunks.foldl (splitSource newChunk) graph)

def addConcatenatedModule (graph : ChunkGraph) (module : ConcatenatedModule) : ChunkGraph :=
  let rootChunks := graph.moduleChunks module.rootModule
  let graph := module.innerModules.foldl (fun graph inner =>
    rootChunks.foldl (fun graph chunk => graph.disconnectChunkAndModule chunk inner) graph) graph
  { graph with
    concatenatedModules := graph.concatenatedModules.insert module.rootModule module }

def setModuleRenderId (graph : ChunkGraph) (module : ModuleHandle) (renderId : RenderId) :
    ChunkGraph :=
  { graph with
    moduleRenderIds := (growTo graph.moduleRenderIds (module + 1) none).set module renderId }

def setChunkRenderId (graph : ChunkGraph) (chunk : ChunkHandle) (renderId : RenderId) : ChunkGraph :=
  { graph with chunks := graph.chunks.modify chunk fun chunk => { chunk with renderId } }

section Accessors

variable (graph : ChunkGraph)

theorem getD_growTo {α : Type} (items : List α) (length : Nat) (default : α) (index : Nat) :
    (growTo items length default).getD index default = items.getD index default := by
  rw [growTo]
  by_cases hlt : index < items.length
  · rw [List.getD_append _ _ _ _ hlt]
  · rw [List.getD_append_right _ _ _ _ (Nat.le_of_not_lt hlt), List.getD_eq_default items _
      (Nat.le_of_not_lt hlt)]
    rw [List.getD_eq_getElem?_getD, List.getElem?_replicate]
    split_ifs <;> rfl

theorem length_growTo {α : Type} (items : List α) (length : Nat) (default : α) :
    length ≤ (growTo items length default).length := by
  rw [growTo, List.length_append, List.length_replicate]
  omega

theorem getD_modify {α : Type} (items : List α) (f : α → α) (index other : Nat) (default : α) :
    (items.modify index f).getD other default =
      if index = other ∧ other < items.length then f (items.getD other default)
      else items.getD other default := by
  simp only [List.getD_eq_getElem?_getD, List.getElem?_modify]
  by_cases hlt : other < items.length
  · by_cases heq : index = other <;> simp [heq, hlt]
  · simp [hlt]

theorem chunkModules_addChunk (name : Option String) (rootModules : List ModuleHandle) :
    (graph.addChunk name rootModules).2.chunkModules = graph.chunkModules := by
  funext chunk
  simp only [addChunk, chunkModules]
  by_cases hlt : chunk < graph.chunkModuleLists.length
  · rw [List.getD_append _ _ _ _ hlt]
  · rw [List.getD_append_right _ _ _ _ (Nat.le_of_not_lt hlt), List.getD_eq_default _ _
      (Nat.le_of_not_lt hlt)]
    cases chunk - graph.chunkModuleLists.length <;> rfl

theorem runtimeChildren_addChunkGroup (kind : ChunkGroupKind) (origin : Option AsyncBlockOrigin) :
    (graph.addChunkGroup kind origin).2.runtimeChildren = graph.runtimeChildren := by
  funext group
  simp only [addChunkGroup, runtimeChildren]
  by_cases hlt : group < graph.runtimeChunkGroupChildren.length
  · rw [List.getD_append _ _ _ _ hlt]
  · rw [List.getD_append_right _ _ _ _ (Nat.le_of_not_lt hlt), List.getD_eq_default _ _
      (Nat.le_of_not_lt hlt)]
    cases group - graph.runtimeChunkGroupChildren.length <;> rfl

theorem mem_chunkModules_connect (chunk other : ChunkHandle) (module member : ModuleHandle)
    (hchunk : chunk < graph.chunkModuleLists.length) :
    member ∈ (graph.connectChunkAndModule chunk module).chunkModules other ↔
      member ∈ graph.chunkModules other ∨ other = chunk ∧ member = module := by
  rw [chunkModules, connectChunkAndModule, getD_modify]
  split_ifs with h
  · rw [mem_pushNew, ← h.1]
    exact or_congr Iff.rfl ⟨fun heq => ⟨rfl, heq⟩, fun hand => hand.2⟩
  · rw [← chunkModules]
    refine ⟨Or.inl, fun hor => hor.elim id fun hand => absurd ?_ h⟩
    exact ⟨hand.1.symm, hand.1 ▸ hchunk⟩

theorem mem_moduleChunks_connect (chunk member : ChunkHandle) (module other : ModuleHandle) :
    member ∈ (graph.connectChunkAndModule chunk module).moduleChunks other ↔
      member ∈ graph.moduleChunks other ∨ member = chunk ∧ other = module := by
  rw [moduleChunks, connectChunkAndModule, getD_modify, getD_growTo, ← moduleChunks]
  split_ifs with h
  · rw [mem_pushNew, h.1]
    exact or_congr Iff.rfl ⟨fun heq => ⟨heq, rfl⟩, fun hand => hand.1⟩
  · refine ⟨Or.inl, fun hor => hor.elim id fun hand => absurd ?_ h⟩
    rw [hand.2]
    exact ⟨rfl, Nat.lt_of_lt_of_le (Nat.lt_succ_self module)
      (length_growTo graph.moduleChunkLists (module + 1) [])⟩

theorem mem_chunkModules_disconnect (chunk other : ChunkHandle) (module member : ModuleHandle) :
    member ∈ (graph.disconnectChunkAndModule chunk module).chunkModules other ↔
      member ∈ graph.chunkModules other ∧ ¬ (other = chunk ∧ member = module) := by
  rw [chunkModules, disconnectChunkAndModule, getD_modify, ← chunkModules]
  split_ifs with h
  · simp [h.1]
  · refine ⟨fun hmem => ⟨hmem, fun hand => h ⟨hand.1.symm, ?_⟩⟩, fun hand => hand.1⟩
    by_contra hge
    rw [chunkModules, List.getD_eq_default _ _ (Nat.le_of_not_lt hge)] at hmem
    exact List.not_mem_nil hmem

theorem mem_moduleChunks_disconnect (chunk member : ChunkHandle) (module other : ModuleHandle) :
    member ∈ (graph.disconnectChunkAndModule chunk module).moduleChunks other ↔
      member ∈ graph.moduleChunks other ∧ ¬ (member = chunk ∧ other = module) := by
  rw [moduleChunks, disconnectChunkAndModule, getD_modify, ← moduleChunks]
  split_ifs with h
  · simp [h.1]
  · refine ⟨fun hmem => ⟨hmem, fun hand => h ⟨hand.2.symm, ?_⟩⟩, fun hand => hand.1⟩
    by_contra hge
    rw [moduleChunks, List.getD_eq_default _ _ (Nat.le_of_not_lt hge)] at hmem
    exact List.not_mem_nil hmem

end Accessors

end ChunkGraph

end Unpack
