import Unpack.SettledPlanning

/-! The materialised groups. Chunk `i` and group `i` belong together, entry groups come first and the
async groups follow in the order of their targets; the connecting phase adds edges and block groups
and touches nothing else. -/

namespace Unpack

/-- What one group was made with. -/
structure GroupContent where
  kind : ChunkGroupKind
  origin : Option AsyncBlockOrigin
  modules : List ModuleHandle

/-- The chunk graph has one chunk and one group for each of these, and no edges yet. -/
structure Laid (chunkGraph : ChunkGraph) (contents : List GroupContent) : Prop where
  chunks_length : chunkGraph.chunks.length = contents.length
  groups_length : chunkGraph.chunkGroups.length = contents.length
  lists_length : chunkGraph.chunkModuleLists.length = contents.length
  children_length : chunkGraph.runtimeChunkGroupChildren.length = contents.length
  chunk_spec : ∀ index < contents.length, ∃ chunk, chunkGraph.chunk index = some chunk ∧
    chunk.handle = index ∧ chunk.groups = [index]
  group_spec : ∀ (index : Nat) (content : GroupContent), contents[index]? = some content →
    ∃ group, chunkGraph.chunkGroup index = some group ∧ group.chunks = [index] ∧
      group.kind = content.kind ∧ group.origin = content.origin
  modules_spec : ∀ (index : Nat) (content : GroupContent), contents[index]? = some content →
    ∀ module, module ∈ chunkGraph.chunkModules index ↔ module ∈ content.modules
  moduleChunks_spec : ∀ chunk module,
    chunk ∈ chunkGraph.moduleChunks module ↔ module ∈ chunkGraph.chunkModules chunk
  no_children : ∀ group, chunkGraph.runtimeChildren group = []
  no_blocks : chunkGraph.blockChunkGroups = ∅
  no_concatenations : chunkGraph.concatenatedModules = ∅

theorem laid_empty : Laid {} [] := by
  refine ⟨rfl, rfl, rfl, rfl, ?_, ?_, ?_, ?_, ?_, rfl, rfl⟩
  · intro index hlt
    exact absurd hlt (Nat.not_lt_zero index)
  · intro index content hcontent
    exact absurd hcontent (by simp)
  · intro index content hcontent
    exact absurd hcontent (by simp)
  · intro chunk module
    simp [ChunkGraph.moduleChunks, ChunkGraph.chunkModules]
  · intro group
    rfl

section

variable {chunkGraph : ChunkGraph} {contents : List GroupContent}

theorem Laid.chunkModules_of_ge (h : Laid chunkGraph contents) {chunk : ChunkHandle}
    (hge : contents.length ≤ chunk) : chunkGraph.chunkModules chunk = [] :=
  List.getD_eq_default _ _ (h.lists_length ▸ hge)

theorem modify_append_singleton {α : Type} (items : List α) (item : α) (f : α → α) :
    (items ++ [item]).modify items.length f = items ++ [f item] := by
  induction items with
  | nil => rfl
  | cons first items ih => exact congrArg (first :: ·) ih

/-- Connecting modules to a chunk changes the two membership tables and nothing else. -/
theorem foldl_connectChunkAndModule (chunkGraph : ChunkGraph) (chunk : ChunkHandle)
    (modules : List ModuleHandle) (hchunk : chunk < chunkGraph.chunkModuleLists.length) :
    let result := modules.foldl (fun chunkGraph module =>
      chunkGraph.connectChunkAndModule chunk module) chunkGraph
    result.chunks = chunkGraph.chunks ∧ result.chunkGroups = chunkGraph.chunkGroups ∧
      result.entrypoints = chunkGraph.entrypoints ∧
      result.runtimeChunkGroupChildren = chunkGraph.runtimeChunkGroupChildren ∧
      result.blockChunkGroups = chunkGraph.blockChunkGroups ∧
      result.concatenatedModules = chunkGraph.concatenatedModules ∧
      result.chunkModuleLists.length = chunkGraph.chunkModuleLists.length ∧
      (∀ other module, module ∈ result.chunkModules other ↔
        module ∈ chunkGraph.chunkModules other ∨ other = chunk ∧ module ∈ modules) ∧
      ∀ other module, other ∈ result.moduleChunks module ↔
        other ∈ chunkGraph.moduleChunks module ∨ other = chunk ∧ module ∈ modules := by
  induction modules generalizing chunkGraph with
  | nil => simp
  | cons first modules ih =>
      have hlength : (chunkGraph.connectChunkAndModule chunk first).chunkModuleLists.length =
          chunkGraph.chunkModuleLists.length := List.length_modify _ _ _
      obtain ⟨hchunks, hgroups, hentries, hchildren, hblocks, hconcat, hlists, hmodules, hback⟩ :=
        ih (chunkGraph.connectChunkAndModule chunk first) (hlength.symm ▸ hchunk)
      refine ⟨hchunks, hgroups, hentries, hchildren, hblocks, hconcat, hlists.trans hlength, ?_, ?_⟩
      · intro other module
        rw [List.foldl_cons, hmodules, ChunkGraph.mem_chunkModules_connect _ _ _ _ _ hchunk,
          List.mem_cons]
        tauto
      · intro other module
        rw [List.foldl_cons, hback, ChunkGraph.mem_moduleChunks_connect, List.mem_cons]
        tauto

theorem Laid.add (h : Laid chunkGraph contents) (name : Option String)
    (root : ModuleHandle) (content : GroupContent) :
    (addGroupWithChunk chunkGraph name root content.kind content.origin content.modules).1 =
        contents.length ∧
      Laid (addGroupWithChunk chunkGraph name root content.kind content.origin content.modules).2
        (contents ++ [content]) ∧
      (addGroupWithChunk chunkGraph name root content.kind content.origin content.modules).2.entrypoints
        = chunkGraph.entrypoints := by
  -- The graph before the modules are connected: a bare chunk in a bare group.
  let bare := ((chunkGraph.addChunk name [root]).2.addChunkGroup content.kind
    content.origin).2.connectChunkAndGroup chunkGraph.chunks.length chunkGraph.chunkGroups.length
  have hresult : addGroupWithChunk chunkGraph name root content.kind content.origin content.modules =
      (chunkGraph.chunkGroups.length, content.modules.foldl (fun chunkGraph' module =>
        chunkGraph'.connectChunkAndModule chunkGraph.chunks.length module) bare) := rfl
  have hbareLists : bare.chunkModuleLists = chunkGraph.chunkModuleLists ++ [[]] := rfl
  have hbareModules : bare.chunkModules = chunkGraph.chunkModules :=
    ChunkGraph.chunkModules_addChunk chunkGraph name [root]
  have hbareChunks : ∃ chunk, bare.chunks = chunkGraph.chunks ++ [chunk] ∧
      chunk.handle = contents.length ∧ chunk.groups = [contents.length] := by
    refine ⟨(⟨chunkGraph.chunks.length, name, [root], none, none, []⟩ : Chunk).addGroup
      chunkGraph.chunkGroups.length, ?_, h.chunks_length, ?_⟩
    · exact modify_append_singleton chunkGraph.chunks _ _
    · rw [h.groups_length]
      rfl
  have hbareGroups : bare.chunkGroups = chunkGraph.chunkGroups ++
      [(⟨contents.length, content.kind, [contents.length], [], [], content.origin⟩ : ChunkGroup)] := by
    refine (modify_append_singleton chunkGraph.chunkGroups _ _).trans ?_
    show _ ++ [(⟨chunkGraph.chunkGroups.length, content.kind, [chunkGraph.chunks.length], [], [],
      content.origin⟩ : ChunkGroup)] = _
    rw [h.groups_length, h.chunks_length]
  rw [h.chunks_length, h.groups_length] at hresult
  have hlt : contents.length < bare.chunkModuleLists.length := by
    rw [hbareLists, List.length_append, h.lists_length, List.length_singleton]
    exact Nat.lt_succ_self _
  obtain ⟨hchunks, hgroups, hentries, hchildren, hblocks, hconcat, hlists, hmodules, hback⟩ :=
    foldl_connectChunkAndModule bare contents.length content.modules hlt
  rw [hresult]
  refine ⟨rfl, ⟨?_, ?_, ?_, ?_, ?_, ?_, ?_, ?_, ?_, ?_, ?_⟩, hentries⟩
  · obtain ⟨chunk, hbare, -⟩ := hbareChunks
    rw [hchunks, hbare, List.length_append, List.length_append, h.chunks_length]
    rfl
  · rw [hgroups, hbareGroups, List.length_append, List.length_append, h.groups_length]
    rfl
  · rw [hlists, hbareLists, List.length_append, List.length_append, h.lists_length]
    rfl
  · rw [hchildren]
    show (chunkGraph.runtimeChunkGroupChildren ++ [[]]).length = _
    rw [List.length_append, List.length_append, h.children_length]
    rfl
  · intro index hindex
    obtain ⟨added, hbare, hhandle, hgroup⟩ := hbareChunks
    rw [ChunkGraph.chunk, hchunks, hbare]
    rw [List.length_append, List.length_singleton] at hindex
    rcases Nat.lt_succ_iff_lt_or_eq.mp hindex with hold | hnew
    · obtain ⟨chunk, hchunk, hspec⟩ := h.chunk_spec index hold
      refine ⟨chunk, ?_, hspec⟩
      rw [List.getElem?_append_left (h.chunks_length.symm ▸ hold)]
      exact hchunk
    · rw [hnew, List.getElem?_append_right (Nat.le_of_eq h.chunks_length), h.chunks_length,
        Nat.sub_self]
      exact ⟨added, rfl, hhandle, hgroup⟩
  · intro index other hother
    rw [ChunkGraph.chunkGroup, hgroups, hbareGroups]
    by_cases hold : index < contents.length
    · rw [List.getElem?_append_left hold] at hother
      rw [List.getElem?_append_left (h.groups_length.symm ▸ hold)]
      exact h.group_spec index other hother
    · have hge := Nat.le_of_not_lt hold
      rw [List.getElem?_append_right hge] at hother
      have hindex : index = contents.length := by
        have := (List.getElem?_eq_some_iff.mp hother).choose
        rw [List.length_singleton] at this
        omega
      rw [hindex, Nat.sub_self] at hother
      obtain rfl := Option.some.inj hother
      rw [hindex, List.getElem?_append_right (Nat.le_of_eq h.groups_length), h.groups_length,
        Nat.sub_self]
      exact ⟨_, rfl, rfl, rfl, rfl⟩
  · intro index other hother module
    rw [hmodules, hbareModules]
    by_cases hold : index < contents.length
    · rw [List.getElem?_append_left hold] at hother
      rw [h.modules_spec index other hother module]
      exact ⟨fun hor => hor.resolve_right fun hand => Nat.ne_of_lt hold hand.1, Or.inl⟩
    · have hge := Nat.le_of_not_lt hold
      rw [List.getElem?_append_right hge] at hother
      have hindex : index = contents.length := by
        have := (List.getElem?_eq_some_iff.mp hother).choose
        rw [List.length_singleton] at this
        omega
      rw [hindex, Nat.sub_self] at hother
      obtain rfl := Option.some.inj hother
      rw [hindex, h.chunkModules_of_ge (Nat.le_refl _)]
      simp
  · intro chunk module
    rw [hback, hmodules, hbareModules]
    exact or_congr (h.moduleChunks_spec chunk module) Iff.rfl
  · intro group
    rw [ChunkGraph.runtimeChildren, hchildren]
    show (chunkGraph.addChunkGroup content.kind content.origin).2.runtimeChildren group = []
    rw [ChunkGraph.runtimeChildren_addChunkGroup]
    exact h.no_children group
  · rw [hblocks]
    exact h.no_blocks
  · rw [hconcat]
    exact h.no_concatenations

end

/-- What connecting leaves of a group. -/
def ChunkGroup.made (group : ChunkGroup) :
    ChunkGroupKind × Option AsyncBlockOrigin × List ChunkHandle :=
  (group.kind, group.origin, group.chunks)

/-- The connecting phase leaves chunks, membership and what groups were made with as they are. -/
structure SameContents (before after : ChunkGraph) : Prop where
  chunks : after.chunks = before.chunks
  chunkModuleLists : after.chunkModuleLists = before.chunkModuleLists
  moduleChunkLists : after.moduleChunkLists = before.moduleChunkLists
  entrypoints : after.entrypoints = before.entrypoints
  concatenatedModules : after.concatenatedModules = before.concatenatedModules
  groups : after.chunkGroups.map ChunkGroup.made = before.chunkGroups.map ChunkGroup.made
  children_length : after.runtimeChunkGroupChildren.length = before.runtimeChunkGroupChildren.length

theorem SameContents.refl (chunkGraph : ChunkGraph) : SameContents chunkGraph chunkGraph :=
  ⟨rfl, rfl, rfl, rfl, rfl, rfl, rfl⟩

theorem SameContents.trans {first second third : ChunkGraph} (h : SameContents first second)
    (h' : SameContents second third) : SameContents first third :=
  ⟨h'.chunks.trans h.chunks, h'.chunkModuleLists.trans h.chunkModuleLists,
    h'.moduleChunkLists.trans h.moduleChunkLists, h'.entrypoints.trans h.entrypoints,
    h'.concatenatedModules.trans h.concatenatedModules, h'.groups.trans h.groups,
    h'.children_length.trans h.children_length⟩

theorem map_modify_of_same {α β : Type} (items : List α) (index : Nat) (f : α → α) (g : α → β)
    (hsame : ∀ item, g (f item) = g item) : (items.modify index f).map g = items.map g := by
  induction items generalizing index with
  | nil => cases index <;> rfl
  | cons item items ih =>
      cases index with
      | zero => exact congrArg (· :: items.map g) (hsame item)
      | succ index => exact congrArg (g item :: ·) (ih index)

section

variable (chunkGraph : ChunkGraph) (childGroup : ChunkGroupHandle)

theorem connectRuntimeChunkGroups_sameContents (parent : ChunkGroupHandle) :
    SameContents chunkGraph (chunkGraph.connectRuntimeChunkGroups parent childGroup) :=
  ⟨rfl, rfl, rfl, rfl, rfl, rfl, List.length_modify _ _ _⟩

theorem connectChunkGroups_sameContents (parent : ChunkGroupHandle) :
    SameContents chunkGraph (chunkGraph.connectChunkGroups parent childGroup) := by
  refine ⟨rfl, rfl, rfl, rfl, rfl, ?_, List.length_modify _ _ _⟩
  let adopt := fun group : ChunkGroup => group.addParent parent
  let attach := fun group : ChunkGroup => group.addChild childGroup
  exact (map_modify_of_same _ childGroup adopt ChunkGroup.made fun _ => rfl).trans
    (map_modify_of_same _ parent attach ChunkGroup.made fun _ => rfl)

theorem mem_runtimeChildren_connectRuntime {parent : ChunkGroupHandle}
    (hparent : parent < chunkGraph.runtimeChunkGroupChildren.length)
    (other child : ChunkGroupHandle) :
    child ∈ (chunkGraph.connectRuntimeChunkGroups parent childGroup).runtimeChildren other ↔
      child ∈ chunkGraph.runtimeChildren other ∨ other = parent ∧ child = childGroup := by
  rw [ChunkGraph.runtimeChildren, ChunkGraph.connectRuntimeChunkGroups, ChunkGraph.getD_modify]
  split_ifs with h
  · rw [mem_pushNew, ← h.1]
    exact or_congr Iff.rfl ⟨fun heq => ⟨rfl, heq⟩, fun hand => hand.2⟩
  · rw [← ChunkGraph.runtimeChildren]
    refine ⟨Or.inl, fun hor => hor.elim id fun hand => absurd ?_ h⟩
    exact ⟨hand.1.symm, hand.1 ▸ hparent⟩

theorem foldl_connectBlockAndChunkGroup (origins : List AsyncBlockOrigin) :
    let result := origins.foldl (fun chunkGraph origin =>
      chunkGraph.connectBlockAndChunkGroup origin childGroup) chunkGraph
    SameContents chunkGraph result ∧ result.runtimeChildren = chunkGraph.runtimeChildren ∧
      ∀ origin, result.blockChunkGroup origin =
        if origin ∈ origins then some childGroup else chunkGraph.blockChunkGroup origin := by
  induction origins generalizing chunkGraph with
  | nil => exact ⟨SameContents.refl _, rfl, fun origin => by simp⟩
  | cons first origins ih =>
      obtain ⟨hsame, hchildren, hblocks⟩ :=
        ih (chunkGraph.connectBlockAndChunkGroup first childGroup)
      have hfirst : SameContents chunkGraph
          (chunkGraph.connectBlockAndChunkGroup first childGroup) :=
        ⟨rfl, rfl, rfl, rfl, rfl, rfl, rfl⟩
      refine ⟨hfirst.trans hsame, hchildren, ?_⟩
      intro origin
      rw [List.foldl_cons, hblocks]
      by_cases hmem : origin ∈ origins
      · rw [if_pos hmem, if_pos (List.mem_cons_of_mem _ hmem)]
      · rw [if_neg hmem, ChunkGraph.blockChunkGroup, ChunkGraph.connectBlockAndChunkGroup]
        by_cases heq : origin = first
        · rw [heq, AList.lookup_insert, if_pos List.mem_cons_self]
        · rw [AList.lookup_insert_ne heq, if_neg (by simp [heq, hmem])]
          rfl

/-- One loading edge: the child becomes a runtime child, cycle or not, and the edge's blocks load it. -/
theorem connectLoadingEdge_spec (edge : ChunkGroupHandle × List AsyncBlockOrigin)
    (hparent : edge.1 < chunkGraph.runtimeChunkGroupChildren.length) :
    SameContents chunkGraph (connectLoadingEdge childGroup chunkGraph edge) ∧
      (∀ other child, child ∈ (connectLoadingEdge childGroup chunkGraph edge).runtimeChildren other ↔
        child ∈ chunkGraph.runtimeChildren other ∨ other = edge.1 ∧ child = childGroup) ∧
      ∀ origin, (connectLoadingEdge childGroup chunkGraph edge).blockChunkGroup origin =
        if origin ∈ edge.2 then some childGroup else chunkGraph.blockChunkGroup origin := by
  let connected :=
    if chunkGroupReaches chunkGraph edge.1 (reachFuel chunkGraph) [childGroup] [] then
      chunkGraph.connectRuntimeChunkGroups edge.1 childGroup
    else chunkGraph.connectChunkGroups edge.1 childGroup
  have hconnected : SameContents chunkGraph connected ∧
      (∀ other child, child ∈ connected.runtimeChildren other ↔
        child ∈ chunkGraph.runtimeChildren other ∨ other = edge.1 ∧ child = childGroup) ∧
      connected.blockChunkGroup = chunkGraph.blockChunkGroup := by
    show SameContents chunkGraph (if _ then _ else _) ∧ _
    simp only [connected]
    split_ifs
    · exact ⟨connectRuntimeChunkGroups_sameContents _ _ _,
        mem_runtimeChildren_connectRuntime _ _ hparent, rfl⟩
    · exact ⟨connectChunkGroups_sameContents _ _ _,
        mem_runtimeChildren_connectRuntime _ _ hparent, rfl⟩
  obtain ⟨hsame, hchildren, hblocks⟩ := foldl_connectBlockAndChunkGroup connected childGroup edge.2
  refine ⟨hconnected.1.trans hsame, fun other child => ?_, fun origin => ?_⟩
  · rw [← hconnected.2.1]
    exact iff_of_eq (congrArg (child ∈ · other) hchildren)
  · rw [← hconnected.2.2]
    exact hblocks origin

/-- All the edges to one child. -/
theorem foldl_connectLoadingEdge (edges : List (ChunkGroupHandle × List AsyncBlockOrigin))
    (hparents : ∀ edge ∈ edges, edge.1 < chunkGraph.runtimeChunkGroupChildren.length) :
    let result := edges.foldl (connectLoadingEdge childGroup) chunkGraph
    SameContents chunkGraph result ∧
      (∀ other child, child ∈ result.runtimeChildren other ↔
        child ∈ chunkGraph.runtimeChildren other ∨
          child = childGroup ∧ ∃ edge ∈ edges, other = edge.1) ∧
      ∀ origin group, result.blockChunkGroup origin = some group ↔
        (∃ edge ∈ edges, origin ∈ edge.2) ∧ group = childGroup ∨
          (¬ ∃ edge ∈ edges, origin ∈ edge.2) ∧ chunkGraph.blockChunkGroup origin = some group := by
  induction edges generalizing chunkGraph with
  | nil => exact ⟨SameContents.refl _, by simp, by simp⟩
  | cons edge edges ih =>
      obtain ⟨hsame, hchildren, hblocks⟩ :=
        connectLoadingEdge_spec chunkGraph childGroup edge (hparents edge List.mem_cons_self)
      obtain ⟨hsame', hchildren', hblocks'⟩ := ih (connectLoadingEdge childGroup chunkGraph edge)
        fun other hother =>
          hsame.children_length.symm ▸ hparents other (List.mem_cons_of_mem _ hother)
      refine ⟨hsame.trans hsame', fun other child => ?_, fun origin group => ?_⟩
      · rw [List.foldl_cons, hchildren', hchildren]
        simp only [List.mem_cons, exists_eq_or_imp]
        tauto
      · rw [List.foldl_cons, hblocks', hblocks]
        simp only [List.mem_cons, exists_eq_or_imp]
        by_cases hedge : origin ∈ edge.2 <;> by_cases hrest : ∃ other ∈ edges, origin ∈ other.2 <;>
          simp [hedge, hrest, eq_comm]

end

end Unpack
