import Unpack.BuiltChunkGraph
import Unpack.ChunkMembership

/-! Split chunks move modules and lose none. What is proved here needs nothing of the module graph: each
chunk of the planning is alone in the group of its own number, and no candidate moves a module that
another one moves. -/

namespace Unpack

namespace ChunkGraph

/-- Before the split each chunk is alone in the group of its own number. -/
structure Paired (chunkGraph : ChunkGraph) (count : Nat) : Prop where
  chunks_length : chunkGraph.chunks.length = count
  groups_length : chunkGraph.chunkGroups.length = count
  chunk_spec : ∀ index < count, ∃ chunk, chunkGraph.chunk index = some chunk ∧
    chunk.handle = index ∧ chunk.groups = [index]
  groupChunks : ∀ index < count, chunkGraph.groupChunks index = [index]
  registered : chunkGraph.Registered
  membership : chunkGraph.Membership

/-- The number of async chunks that a module is in. -/
def asyncChunkCount (chunkGraph : ChunkGraph) (module : ModuleHandle) : Nat :=
  (chunkGraph.asyncChunks.filter fun chunk => module ∈ chunkGraph.chunkModules chunk).length

/-- A module of a chunk of the group. -/
def GroupHas (chunkGraph : ChunkGraph) (group : ChunkGroupHandle) (module : ModuleHandle) : Prop :=
  ∃ chunk ∈ chunkGraph.groupChunks group, module ∈ chunkGraph.chunkModules chunk

/-- What a split owes: groups lose no module, and gain none without a name; the chunks of entrypoints
stay; a moved module ends in exactly one async chunk and any other module keeps its chunks; membership
is kept on both sides. -/
structure SplitKeeps (before after : ChunkGraph) (moved : ModuleHandle → Prop)
    (name : Option String) : Prop where
  covered : ∀ group module, before.GroupHas group module → after.GroupHas group module
  exact : name = none → ∀ group module, after.GroupHas group module → before.GroupHas group module
  entrypoints : ∀ group found, before.chunkGroup group = some found → found.kind ≠ .async →
    after.groupChunks group = before.groupChunks group ∧ ∀ chunk ∈ before.groupChunks group,
      after.chunk chunk = before.chunk chunk ∧ after.chunkModules chunk = before.chunkModules chunk
  once : ∀ module, moved module →
    ∃! chunk, chunk ∈ after.asyncChunks ∧ module ∈ after.chunkModules chunk
  others : ∀ module, ¬ moved module → after.moduleChunks module = before.moduleChunks module
  membership : after.Membership

variable {chunkGraph : ChunkGraph}

theorem chunkModules_disconnect_of_ne {chunk other : ChunkHandle} (hne : chunk ≠ other)
    (module : ModuleHandle) :
    (chunkGraph.disconnectChunkAndModule chunk module).chunkModules other =
      chunkGraph.chunkModules other := by
  rw [chunkModules, disconnectChunkAndModule, getD_modify, if_neg fun hand => hne hand.1]
  rfl

theorem chunkModules_connect_of_ne {chunk other : ChunkHandle} (hne : chunk ≠ other)
    (module : ModuleHandle) :
    (chunkGraph.connectChunkAndModule chunk module).chunkModules other =
      chunkGraph.chunkModules other := by
  rw [chunkModules, connectChunkAndModule, getD_modify, if_neg fun hand => hne hand.1]
  rfl

theorem moduleChunks_disconnect_of_ne {module other : ModuleHandle} (hne : module ≠ other)
    (chunk : ChunkHandle) :
    (chunkGraph.disconnectChunkAndModule chunk module).moduleChunks other =
      chunkGraph.moduleChunks other := by
  rw [moduleChunks, disconnectChunkAndModule, getD_modify, if_neg fun hand => hne hand.1]
  rfl

theorem moduleChunks_connect_of_ne {module other : ModuleHandle} (hne : module ≠ other)
    (chunk : ChunkHandle) :
    (chunkGraph.connectChunkAndModule chunk module).moduleChunks other =
      chunkGraph.moduleChunks other := by
  rw [moduleChunks, connectChunkAndModule, getD_modify, if_neg fun hand => hne hand.1, getD_growTo]
  rfl

/-- Joining groups touches no module list. -/
theorem lists_splitSource (newChunk : ChunkHandle) (source : ChunkHandle) :
    (splitSource newChunk chunkGraph source).chunkModuleLists = chunkGraph.chunkModuleLists ∧
      (splitSource newChunk chunkGraph source).moduleChunkLists = chunkGraph.moduleChunkLists := by
  unfold splitSource
  split
  · exact foldl_keeps (P := fun after => after.chunkModuleLists = chunkGraph.chunkModuleLists ∧
      after.moduleChunkLists = chunkGraph.moduleChunkLists)
      (f := fun start group => start.connectChunkAndGroup newChunk group) (fun _ _ hkept => hkept) _
      ⟨rfl, rfl⟩
  · exact ⟨rfl, rfl⟩

theorem lists_addSplitChunk (sources : List ChunkHandle) (name : Option String)
    (rootModules : List ModuleHandle) :
    (chunkGraph.addSplitChunk sources name rootModules).2.chunkModules = chunkGraph.chunkModules ∧
      (chunkGraph.addSplitChunk sources name rootModules).2.moduleChunks =
        chunkGraph.moduleChunks := by
  have hstart : (chunkGraph.addChunk name rootModules).2.chunkModuleLists =
      (chunkGraph.addChunk name rootModules).2.chunkModuleLists ∧
      (chunkGraph.addChunk name rootModules).2.moduleChunkLists = chunkGraph.moduleChunkLists := ⟨rfl, rfl⟩
  obtain ⟨hmodules, hback⟩ := foldl_keeps (P := fun after =>
    after.chunkModuleLists = (chunkGraph.addChunk name rootModules).2.chunkModuleLists ∧
      after.moduleChunkLists = chunkGraph.moduleChunkLists)
    (fun start source hkept =>
      ⟨(lists_splitSource chunkGraph.chunks.length source).1.trans hkept.1,
        (lists_splitSource chunkGraph.chunks.length source).2.trans hkept.2⟩) sources hstart
  constructor
  · rw [← chunkModules_addChunk chunkGraph name rootModules]
    exact funext fun chunk => congrArg (List.getD · chunk []) hmodules
  · exact funext fun module => congrArg (List.getD · module []) hback

theorem chunkModules_applySplitCandidate (name : Option String)
    (candidate : List ChunkHandle × List ModuleHandle) {chunk : ChunkHandle}
    (hsource : chunk ∉ candidate.1) (hold : chunk ≠ chunkGraph.chunks.length) :
    (applySplitCandidate name chunkGraph candidate).chunkModules chunk =
      chunkGraph.chunkModules chunk := by
  have hsplit := congrFun (@lists_addSplitChunk chunkGraph candidate.1 name
    (candidate.2.insertionSort (· ≤ ·))).1 chunk
  refine foldl_keeps (P := fun after => after.chunkModules chunk = chunkGraph.chunkModules chunk)
    (fun start module hkept => ?_) _ hsplit
  refine (chunkModules_connect_of_ne (Ne.symm hold) module).trans ?_
  have hmoved : ∀ (sources : List ChunkHandle) (_ : chunk ∉ sources) (start : ChunkGraph),
      (sources.foldl (fun chunkGraph source => chunkGraph.disconnectChunkAndModule source module)
        start).chunkModules chunk = start.chunkModules chunk := by
    intro sources hsources start
    induction sources generalizing start with
    | nil => rfl
    | cons source sources ih =>
        rw [List.mem_cons, not_or] at hsources
        obtain ⟨hne, hrest⟩ := hsources
        exact (ih hrest _).trans (chunkModules_disconnect_of_ne (Ne.symm hne) module)
  exact (hmoved candidate.1 hsource start).trans hkept

theorem moduleChunks_applySplitCandidate (name : Option String)
    (candidate : List ChunkHandle × List ModuleHandle) {module : ModuleHandle}
    (hmodule : module ∉ candidate.2) :
    (applySplitCandidate name chunkGraph candidate).moduleChunks module =
      chunkGraph.moduleChunks module := by
  have hsplit := congrFun (@lists_addSplitChunk chunkGraph candidate.1 name
    (candidate.2.insertionSort (· ≤ ·))).2 module
  have hmoved : ∀ (modules : List ModuleHandle) (_ : module ∉ modules) (start : ChunkGraph),
      (modules.foldl (fun chunkGraph' moved =>
        (candidate.1.foldl (fun chunkGraph' chunk => chunkGraph'.disconnectChunkAndModule chunk moved)
          chunkGraph').connectChunkAndModule chunkGraph.chunks.length moved) start).moduleChunks
        module = start.moduleChunks module := by
    intro modules hmodules start
    induction modules generalizing start with
    | nil => rfl
    | cons moved modules ih =>
        rw [List.mem_cons, not_or] at hmodules
        obtain ⟨hne, hrest⟩ := hmodules
        refine (ih hrest _).trans ((moduleChunks_connect_of_ne (Ne.symm hne) _).trans ?_)
        exact foldl_keeps (P := fun after => after.moduleChunks module = start.moduleChunks module)
          (fun _ chunk hkept => (moduleChunks_disconnect_of_ne (Ne.symm hne) chunk).trans hkept)
          candidate.1 rfl
  refine (hmoved _ ?_ _).trans hsplit
  rwa [List.mem_insertionSort]

theorem mem_asyncChunks_iff (handles : ∀ (index : Nat) (chunk : Chunk),
    chunkGraph.chunks[index]? = some chunk → chunk.handle = index) {chunk : ChunkHandle} :
    chunk ∈ chunkGraph.asyncChunks ↔ chunkGraph.chunkGroupsOf chunk ≠ [] ∧
      ∀ group ∈ chunkGraph.chunkGroupsOf chunk, ∃ found, chunkGraph.chunkGroup group = some found ∧
        found.kind = .async := by
  have hkind : ∀ group, ((chunkGraph.chunkGroup group).elim false
      (fun found => decide (found.kind = .async)) = true) ↔
        ∃ found, chunkGraph.chunkGroup group = some found ∧ found.kind = .async := by
    intro group
    cases chunkGraph.chunkGroup group <;> simp
  rw [asyncChunks, List.mem_map]
  constructor
  · rintro ⟨found, hfound, rfl⟩
    obtain ⟨hmem, hasync⟩ := List.mem_filter.mp hfound
    obtain ⟨index, hindex⟩ := List.mem_iff_getElem?.mp hmem
    have hgroups : chunkGraph.chunkGroupsOf found.handle = found.groups := by
      rw [handles index found hindex, chunkGroupsOf, ChunkGraph.chunk, hindex]
      rfl
    rw [Bool.and_eq_true, List.all_eq_true] at hasync
    rw [hgroups]
    refine ⟨fun hnil => ?_, fun group hgroup => (hkind group).mp (hasync.2 group hgroup)⟩
    rw [hnil] at hasync
    exact absurd hasync.1 (by decide)
  · rintro ⟨hne, hasync⟩
    cases hfound : chunkGraph.chunk chunk with
    | none =>
        rw [chunkGroupsOf, hfound] at hne
        exact absurd rfl hne
    | some found =>
        rw [chunkGroupsOf, hfound] at hne hasync
        refine ⟨found, List.mem_filter.mpr ⟨List.mem_of_getElem? hfound, ?_⟩,
          handles chunk found hfound⟩
        rw [Bool.and_eq_true, List.all_eq_true]
        refine ⟨?_, fun group hgroup => (hkind group).mpr (hasync group hgroup)⟩
        rw [Bool.not_eq_true', List.isEmpty_eq_false_iff]
        exact hne

theorem map_handle (handles : ∀ (index : Nat) (chunk : Chunk),
    chunkGraph.chunks[index]? = some chunk → chunk.handle = index) :
    chunkGraph.chunks.map (·.handle) = List.range chunkGraph.chunks.length := by
  refine List.ext_getElem? fun index => ?_
  rw [List.getElem?_map]
  rcases Nat.lt_or_ge index chunkGraph.chunks.length with hlt | hge
  · rw [List.getElem?_range hlt, List.getElem?_eq_getElem hlt, Option.map_some,
      handles index _ (List.getElem?_eq_getElem hlt)]
  · rw [List.getElem?_eq_none hge, List.getElem?_eq_none (by rwa [List.length_range])]
    rfl

theorem nodup_asyncChunks (handles : ∀ (index : Nat) (chunk : Chunk),
    chunkGraph.chunks[index]? = some chunk → chunk.handle = index) :
    chunkGraph.asyncChunks.Nodup := by
  refine List.Nodup.sublist (List.filter_sublist.map _) ?_
  rw [map_handle handles]
  exact List.nodup_range

/-- The length of the key under which a module is shared. -/
theorem length_chunkSet_asyncChunksOf (handles : ∀ (index : Nat) (chunk : Chunk),
    chunkGraph.chunks[index]? = some chunk → chunk.handle = index) (module : ModuleHandle) :
    (chunkSet (chunkGraph.asyncChunksOf module)).length = chunkGraph.asyncChunkCount module := by
  refine List.Perm.length_eq ((List.perm_ext_iff_of_nodup (nodup_chunkSet _)
    ((nodup_asyncChunks handles).filter _)).mpr fun chunk => ?_)
  rw [mem_chunkSet, mem_asyncChunksOf, List.mem_filter, decide_eq_true_eq]

/-- A name or not, the candidates move what the shared sets hold. -/
theorem exists_splitCandidate (minChunks : Nat) (name : Option String) (module : ModuleHandle) :
    (∃ candidate ∈ chunkGraph.splitCandidates minChunks name, module ∈ candidate.2) ↔
      ∃ candidate ∈ chunkGraph.sharedSets minChunks, module ∈ candidate.2 := by
  rw [splitCandidates]
  split_ifs
  · simp only [List.mem_singleton, exists_eq_left, List.mem_flatMap]
  · exact Iff.rfl

/-- The modules that are moved: those in some async chunk, and in at least so many. -/
def Shared (chunkGraph : ChunkGraph) (minChunks : Nat) (module : ModuleHandle) : Prop :=
  0 < chunkGraph.asyncChunkCount module ∧ minChunks ≤ chunkGraph.asyncChunkCount module

theorem exists_splitCandidate_iff (handles : ∀ (index : Nat) (chunk : Chunk),
    chunkGraph.chunks[index]? = some chunk → chunk.handle = index) (minChunks : Nat)
    (name : Option String) (module : ModuleHandle) :
    (∃ candidate ∈ chunkGraph.splitCandidates minChunks name, module ∈ candidate.2) ↔
      chunkGraph.Shared minChunks module := by
  rw [exists_splitCandidate, Shared, ← length_chunkSet_asyncChunksOf handles]
  constructor
  · rintro ⟨candidate, hcandidate, hmodule⟩
    obtain ⟨hne, hset, hmin⟩ := (mem_sharedSet chunkGraph minChunks hcandidate module).mp hmodule
    rw [hset]
    refine ⟨List.length_pos_iff.mpr fun hnil => ?_, hmin⟩
    obtain ⟨chunk, hchunk⟩ := List.exists_mem_of_ne_nil _ hne
    have hkey := mem_chunkSet.mpr hchunk
    rw [hset, hnil] at hkey
    exact List.not_mem_nil hkey
  · rintro ⟨hpos, hmin⟩
    refine exists_sharedSet chunkGraph minChunks (fun hnil => ?_) hmin
    rw [hnil] at hpos
    exact absurd hpos (by decide)

namespace Paired

variable {count : Nat}

theorem asyncChunks_lt (h : chunkGraph.Paired count) {chunk : ChunkHandle}
    (hchunk : chunk ∈ chunkGraph.asyncChunks) : chunk < count := by
  have hgroups := ((mem_asyncChunks_iff h.registered.handles).mp hchunk).1
  rw [← h.chunks_length]
  by_contra hge
  rw [chunkGroupsOf, ChunkGraph.chunk, List.getElem?_eq_none (Nat.le_of_not_lt hge)] at hgroups
  exact hgroups rfl

theorem splitInv (h : chunkGraph.Paired count) (minChunks : Nat) (name : Option String) :
    SplitInv chunkGraph (chunkGraph.applySplitChunks minChunks name) count
      (chunkGraph.splitCandidates minChunks name) := by
  have hok := candidatesOk_splitCandidates chunkGraph minChunks name
  have hstart : SplitInv chunkGraph chunkGraph count [] :=
    { same := SameGroups.refl _
      chunks_length := h.chunks_length
      lists_length := h.membership.listed.trans h.chunks_length
      old_chunk := fun _ _ => rfl
      groupChunks := by simp
      chunkModules := by simp
      moduleChunks := h.membership.modules }
  refine splitInv_foldl h.groups_length name (chunkGraph.splitCandidates minChunks name) [] hstart ?_
  intro candidate hmem source hsource
  have hlt := h.asyncChunks_lt (hok.sources candidate hmem source hsource)
  obtain ⟨found, hfound, -, hgroups⟩ := h.chunk_spec source hlt
  exact ⟨hlt, found, hfound, hgroups⟩

theorem groupChunks_eq (h : chunkGraph.Paired count) {group : ChunkGroupHandle} {chunk : ChunkHandle}
    (hmem : chunk ∈ chunkGraph.groupChunks group) : group < count ∧ chunk = group := by
  have hlt : group < count := h.groups_length ▸ groupChunks_lt hmem
  rw [h.groupChunks group hlt] at hmem
  exact ⟨hlt, List.mem_singleton.mp hmem⟩

section

variable {minChunks : Nat} {name : Option String}

theorem covered (h : chunkGraph.Paired count) {group : ChunkGroupHandle} {module : ModuleHandle}
    (hhas : chunkGraph.GroupHas group module) :
    (chunkGraph.applySplitChunks minChunks name).GroupHas group module := by
  have hsplit := h.splitInv minChunks name
  obtain ⟨chunk, hchunk, hmodule⟩ := hhas
  obtain ⟨hlt, rfl⟩ := h.groupChunks_eq hchunk
  by_cases hmoved : ∃ candidate ∈ chunkGraph.splitCandidates minChunks name,
      chunk ∈ candidate.1 ∧ module ∈ candidate.2
  · obtain ⟨⟨sources, modules⟩, hcandidate, hsource, hmem⟩ := hmoved
    obtain ⟨index, hindex⟩ := List.mem_iff_getElem?.mp hcandidate
    refine ⟨count + index, ?_, ?_⟩
    · exact (hsplit.groupChunks _ _).mpr (Or.inr ⟨index, sources, modules, hindex, rfl, hsource⟩)
    · exact (hsplit.chunkModules _ _).mpr (Or.inr ⟨index, sources, modules, hindex, rfl, hmem⟩)
  · exact ⟨chunk, (hsplit.groupChunks _ _).mpr (Or.inl hchunk),
      (hsplit.chunkModules _ _).mpr (Or.inl ⟨hmodule, hmoved⟩)⟩

theorem exact (h : chunkGraph.Paired count) {group : ChunkGroupHandle} {module : ModuleHandle}
    (hhas : (chunkGraph.applySplitChunks minChunks none).GroupHas group module) :
    chunkGraph.GroupHas group module := by
  have hsplit := h.splitInv minChunks none
  have hok := candidatesOk_splitCandidates chunkGraph minChunks none
  have hlists : ∀ chunk, module ∈ chunkGraph.chunkModules chunk → chunk < count := by
    intro chunk hmem
    rw [← h.chunks_length, ← h.membership.listed]
    by_contra hge
    rw [chunkModules, List.getD_eq_default _ _ (Nat.le_of_not_lt hge)] at hmem
    exact List.not_mem_nil hmem
  obtain ⟨chunk, hchunk, hmodule⟩ := hhas
  rcases (hsplit.groupChunks group chunk).mp hchunk with hold |
    ⟨index, sources, modules, hindex, rfl, hsource⟩
  · obtain ⟨hlt, rfl⟩ := h.groupChunks_eq hold
    rcases (hsplit.chunkModules chunk module).mp hmodule with ⟨hbefore, -⟩ |
      ⟨index, _, _, _, heq, _⟩
    · exact ⟨chunk, hold, hbefore⟩
    · exact absurd (heq ▸ hlt) (Nat.not_lt.mpr (Nat.le_add_right count index))
  · rcases (hsplit.chunkModules _ module).mp hmodule with ⟨hbefore, -⟩ |
      ⟨index', sources', modules', hindex', heq, hmem⟩
    · exact absurd (hlists _ hbefore) (Nat.not_lt.mpr (Nat.le_add_right _ _))
    · rw [← Nat.add_left_cancel heq, hindex] at hindex'
      obtain ⟨rfl, rfl⟩ := Prod.mk.inj (Option.some.inj hindex')
      have hcandidate := List.mem_of_getElem? hindex
      have hlt := h.asyncChunks_lt (hok.sources _ hcandidate group hsource)
      refine ⟨group, ?_, hok.unnamed rfl _ hcandidate module hmem group hsource⟩
      rw [h.groupChunks group hlt]
      exact List.mem_singleton_self group

/-- The kinds of the groups stay. -/
theorem kind_iff (h : chunkGraph.Paired count) (group : ChunkGroupHandle) :
    (∃ found, (chunkGraph.applySplitChunks minChunks name).chunkGroup group = some found ∧
        found.kind = .async) ↔
      ∃ found, chunkGraph.chunkGroup group = some found ∧ found.kind = .async := by
  have hedges := congrArg (fun edges => edges[group]?) (h.splitInv minChunks name).same.groups
  simp only [List.getElem?_map] at hedges
  rw [chunkGroup, chunkGroup]
  cases hafter : (chunkGraph.applySplitChunks minChunks name).chunkGroups[group]? with
  | none =>
      cases hbefore : chunkGraph.chunkGroups[group]? with
      | none => simp
      | some before => simp [hafter, hbefore] at hedges
  | some after =>
      cases hbefore : chunkGraph.chunkGroups[group]? with
      | none => simp [hafter, hbefore] at hedges
      | some before =>
          have hkind : after.kind = before.kind := by
            rw [hafter, hbefore] at hedges
            exact congrArg Prod.fst (Option.some.inj hedges)
          simp [hkind]

theorem registered_after (h : chunkGraph.Paired count) :
    (chunkGraph.applySplitChunks minChunks name).Registered :=
  foldl_keeps (fun _ candidate hkept => hkept.applySplitCandidate name candidate) _ h.registered

/-- A source is an async chunk, so its group is an async one. -/
theorem source_kind (h : chunkGraph.Paired count) {candidate : List ChunkHandle × List ModuleHandle}
    (hcandidate : candidate ∈ chunkGraph.splitCandidates minChunks name) {source : ChunkHandle}
    (hsource : source ∈ candidate.1) :
    ∃ found, chunkGraph.chunkGroup source = some found ∧ found.kind = .async := by
  have hasync := (candidatesOk_splitCandidates chunkGraph minChunks name).sources candidate
    hcandidate source hsource
  obtain ⟨found, hfound, -, hgroups⟩ := h.chunk_spec source (h.asyncChunks_lt hasync)
  refine ((mem_asyncChunks_iff h.registered.handles).mp hasync).2 source ?_
  rw [chunkGroupsOf, hfound, Option.elim_some, hgroups]
  exact List.mem_singleton_self source

/-- Old chunks are async as before, the new chunk of a candidate with sources is async. -/
theorem mem_asyncChunks_after (h : chunkGraph.Paired count) {chunk : ChunkHandle} :
    chunk ∈ (chunkGraph.applySplitChunks minChunks name).asyncChunks ↔
      chunk ∈ chunkGraph.asyncChunks ∨
        ∃ (index : Nat) (sources : List ChunkHandle) (modules : List ModuleHandle),
          (chunkGraph.splitCandidates minChunks name)[index]? = some (sources, modules) ∧
            chunk = count + index ∧ sources ≠ [] := by
  have hsplit := h.splitInv minChunks name
  rw [mem_asyncChunks_iff h.registered_after.handles, mem_asyncChunks_iff h.registered.handles]
  simp only [h.kind_iff]
  rcases Nat.lt_or_ge chunk count with hlt | hge
  · have hgroups : (chunkGraph.applySplitChunks minChunks name).chunkGroupsOf chunk =
        chunkGraph.chunkGroupsOf chunk := by
      rw [chunkGroupsOf, hsplit.old_chunk chunk hlt]
      rfl
    rw [hgroups]
    refine ⟨Or.inl, fun hor => hor.elim id ?_⟩
    rintro ⟨index, _, _, _, heq, _⟩
    exact absurd (heq ▸ hlt) (Nat.not_lt.mpr (Nat.le_add_right count index))
  · have hbefore : chunkGraph.chunkGroupsOf chunk = [] := by
      rw [chunkGroupsOf, ChunkGraph.chunk, List.getElem?_eq_none (h.chunks_length.symm ▸ hge)]
      rfl
    have hgroups : ∀ group, group ∈ (chunkGraph.applySplitChunks minChunks name).chunkGroupsOf chunk ↔
        ∃ (index : Nat) (sources : List ChunkHandle) (modules : List ModuleHandle),
          (chunkGraph.splitCandidates minChunks name)[index]? = some (sources, modules) ∧
            chunk = count + index ∧ group ∈ sources := by
      intro group
      rw [← (h.membership.applySplitChunks minChunks name).groups chunk group, hsplit.groupChunks,
        h.membership.groups, hbefore]
      simp
    constructor
    · rintro ⟨hne, -⟩
      obtain ⟨group, hgroup⟩ := List.exists_mem_of_ne_nil _ hne
      obtain ⟨index, sources, modules, hindex, heq, hsource⟩ := (hgroups group).mp hgroup
      exact Or.inr ⟨index, sources, modules, hindex, heq, List.ne_nil_of_mem hsource⟩
    · rintro (⟨hne, -⟩ | ⟨index, sources, modules, hindex, heq, hsources⟩)
      · exact absurd hbefore hne
      · obtain ⟨source, hsource⟩ := List.exists_mem_of_ne_nil _ hsources
        refine ⟨List.ne_nil_of_mem ((hgroups source).mpr ⟨index, sources, modules, hindex, heq,
          hsource⟩), fun group hgroup => ?_⟩
        obtain ⟨index', sources', modules', hindex', -, hgroup'⟩ := (hgroups group).mp hgroup
        exact h.source_kind (List.mem_of_getElem? hindex') hgroup'

/-- A moved module is in the new chunk of its candidate and in no other async chunk. -/
theorem once (h : chunkGraph.Paired count) {module : ModuleHandle}
    (hshared : chunkGraph.Shared minChunks module) :
    ∃! chunk, chunk ∈ (chunkGraph.applySplitChunks minChunks name).asyncChunks ∧
      module ∈ (chunkGraph.applySplitChunks minChunks name).chunkModules chunk := by
  have hsplit := h.splitInv minChunks name
  have hok := candidatesOk_splitCandidates chunkGraph minChunks name
  obtain ⟨⟨sources, modules⟩, hcandidate, hmodule⟩ :=
    (exists_splitCandidate_iff h.registered.handles minChunks name module).mpr hshared
  obtain ⟨index, hindex⟩ := List.mem_iff_getElem?.mp hcandidate
  refine ⟨count + index, ⟨?_, ?_⟩, ?_⟩
  · obtain ⟨chunk, hasync, hin⟩ := hok.carried _ hcandidate module hmodule
    have hsource := hok.covers _ hcandidate module hmodule chunk hasync hin
    exact h.mem_asyncChunks_after.mpr
      (Or.inr ⟨index, sources, modules, hindex, rfl, List.ne_nil_of_mem hsource⟩)
  · exact (hsplit.chunkModules _ _).mpr (Or.inr ⟨index, sources, modules, hindex, rfl, hmodule⟩)
  · rintro chunk ⟨hasync, hmem⟩
    rcases (hsplit.chunkModules chunk module).mp hmem with ⟨hbefore, hstays⟩ |
      ⟨index', sources', modules', hindex', rfl, hmodule'⟩
    · rcases h.mem_asyncChunks_after.mp hasync with hold | ⟨index', _, _, _, rfl, _⟩
      · exact absurd ⟨_, hcandidate, hok.covers _ hcandidate module hmodule chunk hold hbefore,
          hmodule⟩ hstays
      · have hlt : count + index' < count := by
          rw [← h.chunks_length, ← h.membership.listed, h.membership.listed, h.chunks_length]
          by_contra hge
          rw [chunkModules, List.getD_eq_default _ _ (by
            rw [h.membership.listed, h.chunks_length]
            exact Nat.le_add_right _ _)] at hbefore
          exact List.not_mem_nil hbefore
        exact absurd hlt (Nat.not_lt.mpr (Nat.le_add_right _ _))
    · rw [hok.unique index' index _ _ hindex' hindex module hmodule' hmodule]

/-- The chunks of an entrypoint are sources of nothing. -/
theorem not_source (h : chunkGraph.Paired count) {group : ChunkGroupHandle} {found : ChunkGroup}
    (hfound : chunkGraph.chunkGroup group = some found) (hkind : found.kind ≠ .async) :
    ∀ candidate ∈ chunkGraph.splitCandidates minChunks name, group ∉ candidate.1 := by
  intro candidate hcandidate hsource
  obtain ⟨other, hother, hasync⟩ := h.source_kind hcandidate hsource
  rw [hfound] at hother
  exact hkind (Option.some.inj hother ▸ hasync)

theorem chunkModules_of_not_source (h : chunkGraph.Paired count) {chunk : ChunkHandle}
    (hlt : chunk < count)
    (hsource : ∀ candidate ∈ chunkGraph.splitCandidates minChunks name, chunk ∉ candidate.1) :
    (chunkGraph.applySplitChunks minChunks name).chunkModules chunk =
      chunkGraph.chunkModules chunk := by
  have hrun : ∀ (candidates : List (List ChunkHandle × List ModuleHandle))
      (_ : ∀ candidate ∈ candidates, chunk ∉ candidate.1) (start : ChunkGraph)
      (_ : start.Membership) (_ : chunk < start.chunks.length),
      (candidates.foldl (applySplitCandidate name) start).chunkModules chunk =
        start.chunkModules chunk := by
    intro candidates hcandidates start hstart hroom
    induction candidates generalizing start with
    | nil => rfl
    | cons candidate candidates ih =>
        obtain ⟨hkept, hlength⟩ := hstart.applySplitCandidate name candidate
        refine (ih (fun other hother => hcandidates other (List.mem_cons_of_mem _ hother)) _ hkept
          (hlength.symm ▸ Nat.lt_succ_of_lt hroom)).trans ?_
        exact chunkModules_applySplitCandidate name candidate
          (hcandidates candidate List.mem_cons_self) (Nat.ne_of_lt hroom)
  exact hrun _ hsource chunkGraph h.membership (h.chunks_length.symm ▸ hlt)

theorem splitKeeps (h : chunkGraph.Paired count) (minChunks : Nat) (name : Option String) :
    SplitKeeps chunkGraph (chunkGraph.applySplitChunks minChunks name) (chunkGraph.Shared minChunks)
      name where
  covered := fun _ _ hhas => h.covered hhas
  exact := by
    rintro rfl group module hhas
    exact h.exact hhas
  entrypoints := by
    intro group found hfound hkind
    have hsplit := h.splitInv minChunks name
    have hlt : group < count := by
      rw [← h.groups_length]
      exact (List.getElem?_eq_some_iff.mp hfound).choose
    have hsource := @Paired.not_source _ _ minChunks name h _ _ hfound hkind
    have hafter := h.membership.applySplitChunks minChunks name
    refine ⟨?_, fun chunk hchunk => ?_⟩
    · rw [h.groupChunks group hlt]
      refine List.perm_singleton.mp ((List.perm_ext_iff_of_nodup (hafter.nodup_groupChunks group)
        (List.nodup_singleton group)).mpr fun chunk => ?_)
      rw [hsplit.groupChunks, h.groupChunks group hlt]
      refine ⟨fun hor => hor.elim id ?_, Or.inl⟩
      rintro ⟨index, sources, modules, hindex, -, hmem⟩
      exact absurd hmem (hsource _ (List.mem_of_getElem? hindex))
    · obtain ⟨-, rfl⟩ := h.groupChunks_eq hchunk
      exact ⟨hsplit.old_chunk chunk hlt, h.chunkModules_of_not_source hlt hsource⟩
  once := fun _ hshared => h.once hshared
  others := by
    intro module hnot
    have hfree : ∀ candidate ∈ chunkGraph.splitCandidates minChunks name, module ∉ candidate.2 := by
      intro candidate hcandidate hmem
      exact hnot ((exists_splitCandidate_iff h.registered.handles minChunks name module).mp
        ⟨candidate, hcandidate, hmem⟩)
    have hrun : ∀ (candidates : List (List ChunkHandle × List ModuleHandle))
        (_ : ∀ candidate ∈ candidates, module ∉ candidate.2) (start : ChunkGraph),
        (candidates.foldl (applySplitCandidate name) start).moduleChunks module =
          start.moduleChunks module := by
      intro candidates hcandidates start
      induction candidates generalizing start with
      | nil => rfl
      | cons candidate candidates ih =>
          refine (ih (fun other hother => hcandidates other (List.mem_cons_of_mem _ hother)) _).trans ?_
          exact moduleChunks_applySplitCandidate name candidate
            (hcandidates candidate List.mem_cons_self)
    exact hrun _ hfree chunkGraph
  membership := h.membership.applySplitChunks minChunks name

end

end Paired

end ChunkGraph

theorem registered_buildGroups (graph : ModuleGraph) (reachable : ModuleHandle → List ModuleHandle)
    (options : CompilerOptions) (entries : List ModuleHandle) :
    (buildGroups graph reachable options entries).Registered :=
  registered_buildChunkGraphFrom graph reachable { options with splitChunks := none } entries

/-- The planning makes a paired graph, whatever the module graph. -/
theorem paired_buildGroups (graph : ModuleGraph) (reachable : ModuleHandle → List ModuleHandle)
    (options : CompilerOptions) (entries : List ModuleHandle) :
    (buildGroups graph reachable options entries).Paired
      (buildGroups graph reachable options entries).chunks.length := by
  have hregistered := registered_buildGroups graph reachable options entries
  have hmembership := membership_buildGroups graph reachable options entries
  obtain ⟨hlaid, -⟩ := laid_layGroups graph reachable options entries
  obtain ⟨-, hsame, -⟩ := connectedAfter_spec graph reachable options entries
    (List.append_nil _).symm
  rw [← buildGroups_eq] at hsame
  have hcount := (congrArg List.length hsame.chunks).trans hlaid.chunks_length
  refine ⟨rfl, ?_, ?_, ?_, hregistered, hmembership⟩
  · have hlength := congrArg List.length hsame.groups
    rw [List.length_map, List.length_map] at hlength
    exact (hlength.trans hlaid.groups_length).trans hcount.symm
  · intro index hindex
    obtain ⟨chunk, hchunk, hspec⟩ := hlaid.chunk_spec index (hcount ▸ hindex)
    exact ⟨chunk, (congrArg (·[index]?) hsame.chunks).trans hchunk, hspec⟩
  · intro index hindex
    obtain ⟨group, hgroup, hchunks, -⟩ := hlaid.group_spec index _
      (List.getElem?_eq_getElem (hcount ▸ hindex))
    have hgroupChunks := @ChunkGraph.groupChunks_congr (layGroups graph reachable options entries
      (planAsyncChunks graph reachable entries)) (buildGroups graph reachable options entries) (by
        have hthird := congrArg (List.map fun made : ChunkGroupKind × Option AsyncBlockOrigin ×
          List ChunkHandle => made.2.2) hsame.groups
        rw [List.map_map, List.map_map] at hthird
        exact hthird)
    rw [hgroupChunks, ChunkGraph.groupChunks, hgroup]
    exact hchunks

/-- **Split chunks move modules without loss and without leakage.** -/
theorem applySplitChunks_splitKeeps (graph : ModuleGraph)
    (reachable : ModuleHandle → List ModuleHandle) (options : CompilerOptions)
    (entries : List ModuleHandle) (minChunks : Nat) (name : Option String) :
    let chunkGraph := buildGroups graph reachable options entries
    chunkGraph.Membership ∧ ChunkGraph.SplitKeeps chunkGraph
      (chunkGraph.applySplitChunks minChunks name) (chunkGraph.Shared minChunks) name :=
  ⟨membership_buildGroups graph reachable options entries,
    (paired_buildGroups graph reachable options entries).splitKeeps minChunks name⟩

/-- One entry module that imports nothing. -/
def soloGraph : ModuleGraph :=
  ModuleGraph.empty.addModule fun handle => { handle, identity := { resource := ["entry"] } }

/-- With a minimum of zero a module that only an entry has is in enough async chunks and moves to none. -/
theorem zeroMinChunks_not_splitKeeps :
    ¬ ∀ (graph : ModuleGraph) (options : CompilerOptions) (entries : List ModuleHandle)
        (minChunks : Nat) (name : Option String),
      let chunkGraph := buildGroups graph graph.collectStaticReachable options entries
      ChunkGraph.SplitKeeps chunkGraph (chunkGraph.applySplitChunks minChunks name)
        (fun module => minChunks ≤ chunkGraph.asyncChunkCount module) name := by
  intro hall
  have hkeeps := hall soloGraph { entryNames := ["main"] } [0] 0 none
  obtain ⟨chunk, ⟨hasync, -⟩, -⟩ := hkeeps.once 0 (Nat.zero_le _)
  have hnone : ((buildGroups soloGraph soloGraph.collectStaticReachable
      { entryNames := ["main"] } [0]).applySplitChunks 0 none).asyncChunks = [] := by decide
  rw [hnone] at hasync
  exact List.not_mem_nil hasync

end Unpack
