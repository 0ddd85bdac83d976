import Unpack.ChunkMembership
import Unpack.Lib.Run

/-! Any sequence of operations on the chunk graph leaves its relationship stores inverse. Membership is kept as
before; parents and children are rows of the groups, and an operation pushes to a row of either kind or leaves
it. -/

namespace Unpack

namespace ChunkGraph

def parentsOf (graph : ChunkGraph) (group : ChunkGroupHandle) : List ChunkGroupHandle :=
  (graph.chunkGroup group).elim [] (·.parents)

def childrenOf (graph : ChunkGraph) (group : ChunkGroupHandle) : List ChunkGroupHandle :=
  (graph.chunkGroup group).elim [] (·.children)

def splitChunk (graph : ChunkGraph) (chunk : ChunkHandle) (renderId filename : String) :
    Option (ChunkHandle × ChunkGraph) :=
  match graph.chunk chunk with
  | none => none
  | some original =>
      let (newChunk, graph) := graph.addChunk none []
      let graph := graph.setChunkRenderId newChunk (.string renderId)
      let graph := { graph with
        chunks := graph.chunks.modify newChunk fun chunk => { chunk with filenameOverride := some filename } }
      some (newChunk, graph.split original newChunk)

inductive Operation where
  | addChunk (name : Option String) (rootModules : List ModuleHandle)
  | addChunkGroup (kind : ChunkGroupKind) (origin : Option AsyncBlockOrigin)
  | connectChunkAndGroup (chunk : ChunkHandle) (group : ChunkGroupHandle)
  | connectChunkGroups (parent child : ChunkGroupHandle)
  | connectRuntimeChunkGroups (parent child : ChunkGroupHandle)
  | addEntrypoint (entrypoint : ChunkGroupHandle)
  | connectBlockAndChunkGroup (origin : AsyncBlockOrigin) (group : ChunkGroupHandle)
  | connectChunkAndModule (chunk : ChunkHandle) (module : ModuleHandle)
  | disconnectChunkAndModule (chunk : ChunkHandle) (module : ModuleHandle)
  | split (original newChunk : ChunkHandle)
  | splitChunk (chunk : ChunkHandle) (renderId filename : String)
  | addSplitChunk (sourceChunks : List ChunkHandle) (name : Option String) (rootModules : List ModuleHandle)
  | addConcatenatedModule (module : ConcatenatedModule)
  | setModuleRenderId (module : ModuleHandle) (renderId : RenderId)
  | setChunkRenderId (chunk : ChunkHandle) (renderId : RenderId)
  deriving DecidableEq

/-- The chunks and groups that are named exist. A module is any. -/
def Operation.Valid (graph : ChunkGraph) : Operation → Prop
  | connectChunkAndGroup chunk group => chunk < graph.chunks.length ∧ group < graph.chunkGroups.length
  | connectChunkGroups parent child | connectRuntimeChunkGroups parent child =>
      parent < graph.chunkGroups.length ∧ child < graph.chunkGroups.length
  | addEntrypoint group | connectBlockAndChunkGroup _ group => group < graph.chunkGroups.length
  | connectChunkAndModule chunk _ | disconnectChunkAndModule chunk _ | setChunkRenderId chunk _
  | splitChunk chunk _ _ => chunk < graph.chunks.length
  | split original newChunk => original < graph.chunks.length ∧ newChunk < graph.chunks.length
  | addSplitChunk sourceChunks _ _ => ∀ chunk ∈ sourceChunks, chunk < graph.chunks.length
  | addChunk _ _ | addChunkGroup _ _ | addConcatenatedModule _ | setModuleRenderId _ _ => True

instance (graph : ChunkGraph) (operation : Operation) : Decidable (operation.Valid graph) := by
  cases operation <;> rw [Operation.Valid] <;> infer_instance

def apply (graph : ChunkGraph) : Operation → ChunkGraph
  | .addChunk name rootModules => (graph.addChunk name rootModules).2
  | .addChunkGroup kind origin => (graph.addChunkGroup kind origin).2
  | .connectChunkAndGroup chunk group => graph.connectChunkAndGroup chunk group
  | .connectChunkGroups parent child => graph.connectChunkGroups parent child
  | .connectRuntimeChunkGroups parent child => graph.connectRuntimeChunkGroups parent child
  | .addEntrypoint entrypoint => graph.addEntrypoint entrypoint
  | .connectBlockAndChunkGroup origin group => graph.connectBlockAndChunkGroup origin group
  | .connectChunkAndModule chunk module => graph.connectChunkAndModule chunk module
  | .disconnectChunkAndModule chunk module => graph.disconnectChunkAndModule chunk module
  | .split original newChunk => ChunkGraph.splitSource newChunk graph original
  | .splitChunk chunk renderId filename => ((graph.splitChunk chunk renderId filename).map Prod.snd).getD graph
  | .addSplitChunk sourceChunks name rootModules => (graph.addSplitChunk sourceChunks name rootModules).2
  | .addConcatenatedModule module => graph.addConcatenatedModule module
  | .setModuleRenderId module renderId => graph.setModuleRenderId module renderId
  | .setChunkRenderId chunk renderId => graph.setChunkRenderId chunk renderId

def step (graph : ChunkGraph) (operation : Operation) : Option ChunkGraph :=
  if operation.Valid graph then some (graph.apply operation) else none

/-- A new chunk graph and what has been done to it. -/
abbrev OperationRun : List (ChunkGraph × Operation) → ChunkGraph → Prop :=
  Interleaving.Run (· = {}) fun graph operation next => graph.step operation = some next

section

variable {groups : List ChunkGroup} {f : ChunkGroup → List ChunkGroupHandle} {update : ChunkGroup → ChunkGroup}
  {index : Nat} {value : ChunkGroupHandle}

/-- A row of one kind, none for a group that is not there. -/
def groupRow (f : ChunkGroup → List ChunkGroupHandle) (groups : List ChunkGroup) (group : ChunkGroupHandle) :
    List ChunkGroupHandle := (groups[group]?).elim [] f

theorem groupRow_modify_same (h : ∀ group, f (update group) = f group) :
    groupRow f (groups.modify index update) = groupRow f groups := by
  funext other
  rw [groupRow, groupRow, List.getElem?_modify]
  cases groups[other]? with
  | none => rfl
  | some group =>
      show f (if index = other then update group else group) = f group
      split_ifs
      · exact h group
      · rfl

theorem groupRow_modify_push (h : ∀ group, f (update group) = pushNew (f group) value) (other : ChunkGroupHandle) :
    groupRow f (groups.modify index update) other =
      if index = other ∧ other < groups.length then pushNew (groupRow f groups other) value
      else groupRow f groups other := by
  rw [groupRow, groupRow, List.getElem?_modify]
  by_cases hlt : other < groups.length
  · rw [List.getElem?_eq_getElem hlt]
    show f (if index = other then update groups[other] else groups[other]) = _
    by_cases hsame : index = other
    · rw [if_pos hsame, if_pos ⟨hsame, hlt⟩]
      exact h _
    · rw [if_neg hsame, if_neg fun hand => hsame hand.1]
      rfl
  · rw [List.getElem?_eq_none (Nat.le_of_not_lt hlt), if_neg fun hand => hlt hand.2]
    rfl

theorem mem_groupRow_modify_push (h : ∀ group, f (update group) = pushNew (f group) value)
    (hindex : index < groups.length) {other member : ChunkGroupHandle} :
    member ∈ groupRow f (groups.modify index update) other ↔
      member ∈ groupRow f groups other ∨ other = index ∧ member = value := by
  rw [groupRow_modify_push h]
  by_cases hsame : index = other
  · subst hsame
    rw [if_pos ⟨rfl, hindex⟩, mem_pushNew]
    exact or_congr Iff.rfl ⟨fun heq => ⟨rfl, heq⟩, And.right⟩
  · rw [if_neg fun hand => hsame hand.1]
    exact ⟨Or.inl, fun hor => hor.elim id fun hand => absurd hand.1.symm hsame⟩

theorem nodup_groupRow_modify_push (h : ∀ group, f (update group) = pushNew (f group) value)
    (hrows : ∀ other, (groupRow f groups other).Nodup) (other : ChunkGroupHandle) :
    (groupRow f (groups.modify index update) other).Nodup := by
  rw [groupRow_modify_push h]
  split_ifs
  · exact nodup_pushNew (hrows other) value
  · exact hrows other

theorem groupRow_append_new {new : ChunkGroup} (h : f new = []) : groupRow f (groups ++ [new]) = groupRow f groups := by
  funext other
  rw [groupRow, groupRow]
  rcases Nat.lt_or_ge other groups.length with hlt | hge
  · rw [List.getElem?_append_left hlt]
  · rw [List.getElem?_append_right hge, List.getElem?_eq_none hge]
    cases other - groups.length with
    | zero => exact h
    | succ beyond => rfl

end

structure Kinship (graph : ChunkGraph) : Prop where
  inverse : ∀ parent child, child ∈ graph.childrenOf parent ↔ parent ∈ graph.parentsOf child
  nodup_childrenOf : ∀ group, (graph.childrenOf group).Nodup
  nodup_parentsOf : ∀ group, (graph.parentsOf group).Nodup

variable {graph after : ChunkGraph}

theorem parentsOf_eq (graph : ChunkGraph) : graph.parentsOf = groupRow (·.parents) graph.chunkGroups := rfl

theorem childrenOf_eq (graph : ChunkGraph) : graph.childrenOf = groupRow (·.children) graph.chunkGroups := rfl

theorem kinship_empty : Kinship {} := by
  refine ⟨fun parent child => ?_, fun group => ?_, fun group => ?_⟩
  · rw [childrenOf_eq, parentsOf_eq]
    exact Iff.intro nofun nofun
  · exact List.nodup_nil
  · exact List.nodup_nil

theorem Kinship.of_same (h : graph.Kinship) (hchildren : after.childrenOf = graph.childrenOf)
    (hparents : after.parentsOf = graph.parentsOf) : after.Kinship := by
  refine ⟨?_, hchildren ▸ h.nodup_childrenOf, hparents ▸ h.nodup_parentsOf⟩
  rw [hchildren, hparents]
  exact h.inverse

theorem Kinship.addChunkGroup (h : graph.Kinship) (kind : ChunkGroupKind) (origin : Option AsyncBlockOrigin) :
    (graph.addChunkGroup kind origin).2.Kinship :=
  h.of_same (groupRow_append_new rfl) (groupRow_append_new rfl)

theorem Kinship.connectChunkAndGroup (h : graph.Kinship) (chunk : ChunkHandle) (group : ChunkGroupHandle) :
    (graph.connectChunkAndGroup chunk group).Kinship :=
  h.of_same (groupRow_modify_same fun _ => rfl) (groupRow_modify_same fun _ => rfl)

theorem Kinship.connectChunkGroups (h : graph.Kinship) {parent child : ChunkGroupHandle}
    (hparent : parent < graph.chunkGroups.length) (hchild : child < graph.chunkGroups.length) :
    (graph.connectChunkGroups parent child).Kinship := by
  have hchildren : (graph.connectChunkGroups parent child).childrenOf =
      groupRow (·.children) (graph.chunkGroups.modify parent (·.addChild child)) :=
    groupRow_modify_same fun _ => rfl
  have hlength : child < (graph.chunkGroups.modify parent (·.addChild child)).length := by
    rwa [List.length_modify]
  have hbefore : groupRow (·.parents) (graph.chunkGroups.modify parent (·.addChild child)) = graph.parentsOf :=
    groupRow_modify_same fun _ => rfl
  refine ⟨fun left right => ?_, fun group => ?_, fun group => ?_⟩
  · rw [hchildren, mem_groupRow_modify_push (fun _ => rfl) hparent, ← childrenOf_eq]
    rw [parentsOf_eq]
    show _ ↔ left ∈ groupRow (·.parents)
      ((graph.chunkGroups.modify parent (·.addChild child)).modify child (·.addParent parent)) right
    rw [mem_groupRow_modify_push (fun _ => rfl) hlength, hbefore, h.inverse]
    exact or_congr Iff.rfl And.comm
  · rw [hchildren]
    exact nodup_groupRow_modify_push (fun _ => rfl) h.nodup_childrenOf group
  · refine nodup_groupRow_modify_push (fun _ => rfl) ?_ group
    rw [hbefore]
    exact h.nodup_parentsOf

theorem Kinship.joinGroups (h : graph.Kinship) (newChunk : ChunkHandle) (groups : List ChunkGroupHandle) :
    (groups.foldl (fun graph group => graph.connectChunkAndGroup newChunk group) graph).Kinship :=
  foldl_keeps (fun _ group hkept => hkept.connectChunkAndGroup newChunk group) groups h

theorem Kinship.splitSource (h : graph.Kinship) (newChunk source : ChunkHandle) :
    (ChunkGraph.splitSource newChunk graph source).Kinship := by
  unfold ChunkGraph.splitSource
  split
  · exact h.joinGroups newChunk _
  · exact h

theorem Kinship.modifyChunk (h : graph.Kinship) (chunk : ChunkHandle) (update : Chunk → Chunk) :
    Kinship { graph with chunks := graph.chunks.modify chunk update } := h.of_same rfl rfl

theorem Kinship.splitChunk (h : graph.Kinship) {chunk newChunk : ChunkHandle} {renderId filename : String}
    (hsplit : graph.splitChunk chunk renderId filename = some (newChunk, after)) : after.Kinship := by
  rw [ChunkGraph.splitChunk] at hsplit
  cases horiginal : graph.chunk chunk with
  | none =>
      rw [horiginal] at hsplit
      cases hsplit
  | some original =>
      rw [horiginal] at hsplit
      cases hsplit
      have hadded : (graph.addChunk none []).2.Kinship := h.of_same rfl rfl
      have hnamed := (hadded.modifyChunk graph.chunks.length
        fun chunk => { chunk with renderId := some (.string renderId) }).modifyChunk graph.chunks.length
        fun chunk => { chunk with filenameOverride := some filename }
      exact hnamed.joinGroups graph.chunks.length original.groups

theorem Kinship.disconnectInner (h : graph.Kinship) (chunks : List ChunkHandle) (inner : ModuleHandle) :
    (chunks.foldl (fun graph chunk => graph.disconnectChunkAndModule chunk inner) graph).Kinship :=
  foldl_keeps (fun _ _ hkept => hkept.of_same rfl rfl) chunks h

theorem Membership.connectChunkGroups (h : graph.Membership) (parent child : ChunkGroupHandle) :
    (graph.connectChunkGroups parent child).Membership := by
  refine h.of_same rfl ?_ rfl rfl h.listed
  apply groupChunks_congr
  apply List.ext_getElem?
  intro group
  show (((graph.chunkGroups.modify parent _).modify child _).map _)[group]? = _
  rw [List.getElem?_map, List.getElem?_map, List.getElem?_modify, List.getElem?_modify]
  cases graph.chunkGroups[group]? with
  | none => rfl
  | some found => by_cases hchild : child = group <;> by_cases hparent : parent = group <;> simp [hchild, hparent,
      ChunkGroup.addChild, ChunkGroup.addParent]

/-- A change of a chunk that leaves its groups. -/
theorem Membership.modifyChunk (h : graph.Membership) (chunk : ChunkHandle) (update : Chunk → Chunk)
    (hupdate : ∀ chunk, (update chunk).groups = chunk.groups) :
    Membership { graph with chunks := graph.chunks.modify chunk update } := by
  refine h.of_same ?_ rfl rfl rfl (h.listed.trans (List.length_modify ..).symm)
  funext other
  show ((graph.chunks.modify chunk update)[other]?).elim [] (·.groups) = _
  rw [List.getElem?_modify, chunkGroupsOf, ChunkGraph.chunk]
  cases graph.chunks[other]? with
  | none => rfl
  | some found =>
      show (if chunk = other then update found else found).groups = found.groups
      split_ifs
      · exact hupdate found
      · rfl

theorem Membership.disconnectInner (h : graph.Membership) (chunks : List ChunkHandle) (inner : ModuleHandle) :
    (chunks.foldl (fun graph chunk => graph.disconnectChunkAndModule chunk inner) graph).Membership :=
  foldl_keeps (fun _ chunk hkept => hkept.disconnectChunkAndModule chunk inner) chunks h

/-- The groups of a chunk exist. -/
theorem Membership.groups_lt (h : graph.Membership) {chunk : ChunkHandle} {group : ChunkGroupHandle}
    (hgroup : group ∈ graph.chunkGroupsOf chunk) : group < graph.chunkGroups.length :=
  groupChunks_lt ((h.groups chunk group).mpr hgroup)

theorem Membership.splitChunk (h : graph.Membership) {chunk newChunk : ChunkHandle} {renderId filename : String}
    (hsplit : graph.splitChunk chunk renderId filename = some (newChunk, after)) : after.Membership := by
  rw [ChunkGraph.splitChunk] at hsplit
  cases horiginal : graph.chunk chunk with
  | none =>
      rw [horiginal] at hsplit
      cases hsplit
  | some original =>
      rw [horiginal] at hsplit
      cases hsplit
      have hnamed := ((h.addChunk none []).modifyChunk graph.chunks.length
        (fun chunk => { chunk with renderId := some (.string renderId) }) fun _ => rfl).modifyChunk
        graph.chunks.length (fun chunk => { chunk with filenameOverride := some filename }) fun _ => rfl
      have hcount : MembershipOf (graph.chunks.length + 1) _ := ⟨hnamed, by simp [ChunkGraph.addChunk]⟩
      refine (hcount.joinGroups (Nat.lt_succ_self _) original.groups fun group hgroup => ?_).1
      have hlisted : group ∈ graph.chunkGroupsOf chunk := by
        rw [chunkGroupsOf, horiginal]
        exact hgroup
      exact h.groups_lt hlisted

theorem Membership.addSplitChunk (h : graph.Membership) (sourceChunks : List ChunkHandle) (name : Option String)
    (rootModules : List ModuleHandle) : (graph.addSplitChunk sourceChunks name rootModules).2.Membership := by
  have hnew : graph.chunks.length < graph.chunks.length + 1 := Nat.lt_succ_self _
  refine (foldl_keeps (P := MembershipOf (graph.chunks.length + 1))
    (fun _ source hkept => hkept.splitSource hnew source) sourceChunks ⟨h.addChunk name rootModules, ?_⟩).1
  simp [ChunkGraph.addChunk]

structure Related (graph : ChunkGraph) : Prop where
  membership : graph.Membership
  kinship : graph.Kinship

theorem Related.apply (h : graph.Related) {operation : Operation} (hvalid : operation.Valid graph) :
    (graph.apply operation).Related := by
  obtain ⟨hmembers, hkin⟩ := h
  cases operation with
  | addChunk name rootModules => exact ⟨hmembers.addChunk name rootModules, hkin.of_same rfl rfl⟩
  | addChunkGroup kind origin => exact ⟨hmembers.addChunkGroup kind origin, hkin.addChunkGroup kind origin⟩
  | connectChunkAndGroup chunk group =>
      exact ⟨hmembers.connectChunkAndGroup hvalid.1 hvalid.2, hkin.connectChunkAndGroup chunk group⟩
  | connectChunkGroups parent child =>
      exact ⟨hmembers.connectChunkGroups parent child, hkin.connectChunkGroups hvalid.1 hvalid.2⟩
  | connectRuntimeChunkGroups parent child =>
      exact ⟨hmembers.of_same rfl rfl rfl rfl hmembers.listed, hkin.of_same rfl rfl⟩
  | addEntrypoint entrypoint => exact ⟨hmembers.of_same rfl rfl rfl rfl hmembers.listed, hkin.of_same rfl rfl⟩
  | connectBlockAndChunkGroup origin group =>
      exact ⟨hmembers.of_same rfl rfl rfl rfl hmembers.listed, hkin.of_same rfl rfl⟩
  | connectChunkAndModule chunk module =>
      exact ⟨hmembers.connectChunkAndModule hvalid module, hkin.of_same rfl rfl⟩
  | disconnectChunkAndModule chunk module =>
      exact ⟨hmembers.disconnectChunkAndModule chunk module, hkin.of_same rfl rfl⟩
  | split original newChunk =>
      exact ⟨(MembershipOf.splitSource hvalid.2 ⟨hmembers, rfl⟩ original).1, hkin.splitSource newChunk original⟩
  | splitChunk chunk renderId filename =>
      rw [ChunkGraph.apply]
      cases hsplit : graph.splitChunk chunk renderId filename with
      | none => exact ⟨hmembers, hkin⟩
      | some made =>
          exact ⟨hmembers.splitChunk hsplit, hkin.splitChunk hsplit⟩
  | addSplitChunk sourceChunks name rootModules =>
      refine ⟨hmembers.addSplitChunk sourceChunks name rootModules, ?_⟩
      exact foldl_keeps (fun _ source hkept => hkept.splitSource _ source) sourceChunks (hkin.of_same rfl rfl)
  | addConcatenatedModule module =>
      have hinner := foldl_keeps (P := Membership) (fun _ inner hkept =>
        hkept.disconnectInner (graph.moduleChunks module.rootModule) inner) module.innerModules hmembers
      have hkinInner := foldl_keeps (P := Kinship) (fun _ inner hkept =>
        hkept.disconnectInner (graph.moduleChunks module.rootModule) inner) module.innerModules hkin
      exact ⟨hinner.of_same rfl rfl rfl rfl hinner.listed, hkinInner.of_same rfl rfl⟩
  | setModuleRenderId module renderId =>
      exact ⟨hmembers.of_same rfl rfl rfl rfl hmembers.listed, hkin.of_same rfl rfl⟩
  | setChunkRenderId chunk renderId => exact ⟨hmembers.modifyChunk chunk _ fun _ => rfl, hkin.of_same rfl rfl⟩

/-- What is asked of the relationship stores. -/
structure Inverse (graph : ChunkGraph) : Prop where
  modules : ∀ chunk module, module ∈ graph.chunkModules chunk ↔ chunk ∈ graph.moduleChunks module
  chunkModules : ∀ chunk, (graph.chunkModules chunk).Nodup
  moduleChunks : ∀ module, (graph.moduleChunks module).Nodup
  groups : ∀ chunk group, group ∈ graph.chunkGroupsOf chunk ↔ (graph.groupChunks group).count chunk = 1
  kin : ∀ parent child, child ∈ graph.childrenOf parent ↔ parent ∈ graph.parentsOf child
  children : ∀ group, (graph.childrenOf group).Nodup
  parents : ∀ group, (graph.parentsOf group).Nodup

theorem Related.inverse_relations (h : graph.Related) : graph.Inverse where
  modules chunk module := (h.membership.modules chunk module).symm
  chunkModules := h.membership.nodup_chunkModules
  moduleChunks := h.membership.nodup_moduleChunks
  groups chunk group := by
    rw [← h.membership.groups, ← List.count_pos_iff]
    have hone := List.nodup_iff_count_le_one.mp (h.membership.nodup_groupChunks group) chunk
    omega
  kin := h.kinship.inverse
  children := h.kinship.nodup_childrenOf
  parents := h.kinship.nodup_parentsOf

theorem OperationRun.inverse {trace : List (ChunkGraph × Operation)} (h : OperationRun trace graph) :
    graph.Inverse := by
  refine Related.inverse_relations (h.invariant ?_ ?_)
  · rintro _ rfl
    exact ⟨membership_empty, kinship_empty⟩
  · intro before operation next hrelated hstep
    rw [step] at hstep
    split_ifs at hstep with hvalid
    cases hstep
    exact hrelated.apply hvalid

/-- Two groups share a chunk of two modules, which is split. -/
def sharedOperations : List Operation :=
  [.addChunk (some "main") [0], .addChunkGroup (.entrypoint "main") none, .addChunkGroup .async none,
    .connectChunkGroups 0 1, .connectChunkAndGroup 0 0, .connectChunkAndGroup 0 1, .connectChunkAndModule 0 0,
    .connectChunkAndModule 0 1, .addSplitChunk [0] none [1], .disconnectChunkAndModule 0 1,
    .connectChunkAndModule 1 1, .splitChunk 1 "shared" "shared.js"]

theorem OperationRun.inverse_shared : ∃ trace graph, OperationRun trace graph ∧ graph.Inverse := by
  have hrun : ∃ trace graph, Interleaving.replay step {} sharedOperations = some (trace, graph) := ⟨_, _, rfl⟩
  obtain ⟨trace, graph, hreplay⟩ := hrun
  have hstart : OperationRun [] {} := .start rfl
  have hall := hstart.replay hreplay
  exact ⟨_, _, hall, OperationRun.inverse hall⟩

end ChunkGraph

end Unpack
