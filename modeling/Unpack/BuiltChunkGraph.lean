import Unpack.SplitChunks

/-! The finished chunk graph, with or without split chunks. Later phases read it through `Built` only:
the groups and their edges are the planned ones, every group has at least the modules it was planned to
carry, and nothing is in a chunk that no group was planned to carry. -/

namespace Unpack

section

variable (graph : ModuleGraph) (reachable : ModuleHandle → List ModuleHandle)
variable (entries : List ModuleHandle)

structure Built (splitName : Option String) (chunkGraph : ChunkGraph) : Prop where
  entrypoints : chunkGraph.entrypoints = List.range entries.length
  groups_length : chunkGraph.chunkGroups.length = groupCount graph reachable entries
  group_spec : ∀ group : LogicalChunkGroup, group.Exists graph reachable entries →
    ∃ found, chunkGraph.chunkGroup (groupIndex graph reachable entries group) = some found ∧
      (found.kind = .async ↔ ¬ group.IsEntrypoint) ∧
      ∀ target, group = .asyncChunk target → ∃ origin parent, found.origin = some origin ∧
        LogicalChunkGroup.LoadsFor graph reachable entries parent origin target
  children_spec : ∀ parent child, child ∈ chunkGraph.runtimeChildren parent ↔
    ∃ group other : LogicalChunkGroup, group.Loads graph reachable entries other ∧
      parent = groupIndex graph reachable entries group ∧
      child = groupIndex graph reachable entries other
  blocks_spec : ∀ origin index, chunkGraph.blockChunkGroup origin = some index ↔
    ∃ (parent : LogicalChunkGroup) (target : ModuleHandle),
      parent.LoadsFor graph reachable entries origin target ∧
      index = groupIndex graph reachable entries (.asyncChunk target)
  no_concatenations : chunkGraph.concatenatedModules = ∅
  moduleChunks_spec : ∀ chunk module,
    chunk ∈ chunkGraph.moduleChunks module ↔ module ∈ chunkGraph.chunkModules chunk
  carries : ∀ (group : LogicalChunkGroup) module, group.Carries graph reachable entries module →
    ∃ chunk ∈ chunkGraph.groupChunks (groupIndex graph reachable entries group),
      module ∈ chunkGraph.chunkModules chunk
  carried : ∀ chunk module, module ∈ chunkGraph.chunkModules chunk →
    ∃ group : LogicalChunkGroup, group.Carries graph reachable entries module ∧
      chunk ∈ chunkGraph.groupChunks (groupIndex graph reachable entries group)
  unnamed : splitName = none → ∀ group : LogicalChunkGroup, group.Exists graph reachable entries →
    ∀ chunk ∈ chunkGraph.groupChunks (groupIndex graph reachable entries group),
      ∀ module ∈ chunkGraph.chunkModules chunk, group.Carries graph reachable entries module
  dominated : ∀ inner root,
    (∀ group : LogicalChunkGroup, group.Carries graph reachable entries inner →
      group.Carries graph reachable entries root) →
    (∀ chunk ∈ chunkGraph.moduleChunks root, chunk ∈ chunkGraph.moduleChunks inner) →
    ∀ chunk ∈ chunkGraph.moduleChunks inner, chunk ∈ chunkGraph.moduleChunks root

end

section

variable {graph : ModuleGraph} {reachable : ModuleHandle → List ModuleHandle}
variable {entries : List ModuleHandle} {chunkGraph : ChunkGraph}

theorem LogicalChunkGroup.Carries.exists {group : LogicalChunkGroup} {module : ModuleHandle}
    (h : group.Carries graph reachable entries module) : group.Exists graph reachable entries := by
  obtain ⟨modules, mask, hplan, -⟩ := h
  rw [LogicalChunkGroup.Exists, hplan]
  rfl

namespace Unsplit

theorem groupChunks (h : Unsplit graph reachable entries chunkGraph) {group : LogicalChunkGroup}
    (hgroup : group.Exists graph reachable entries) :
    chunkGraph.groupChunks (groupIndex graph reachable entries group) =
      [groupIndex graph reachable entries group] := by
  obtain ⟨found, hfound, hchunks, -⟩ := h.group_spec group hgroup
  rw [ChunkGraph.groupChunks, hfound]
  exact hchunks

/-- A chunk with modules is the chunk of a group that carries them. -/
theorem mem_chunkModules (h : Unsplit graph reachable entries chunkGraph) {chunk : ChunkHandle}
    {module : ModuleHandle} : module ∈ chunkGraph.chunkModules chunk ↔
      ∃ group : LogicalChunkGroup, group.Carries graph reachable entries module ∧
        chunk = groupIndex graph reachable entries group := by
  constructor
  · intro hmem
    have hlt : chunk < groupCount graph reachable entries := by
      rw [← h.lists_length]
      by_contra hge
      rw [ChunkGraph.chunkModules, List.getD_eq_default _ _ (Nat.le_of_not_lt hge)] at hmem
      exact List.not_mem_nil hmem
    obtain ⟨group, hgroup, rfl⟩ := LogicalChunkGroup.exists_of_groupIndex hlt
    exact ⟨group, (h.modules_spec group hgroup module).mp hmem, rfl⟩
  · rintro ⟨group, hcarries, rfl⟩
    exact (h.modules_spec group hcarries.exists module).mpr hcarries

theorem mem_asyncChunks (h : Unsplit graph reachable entries chunkGraph) {chunk : ChunkHandle} :
    chunk ∈ chunkGraph.asyncChunks ↔
      ∃ group : LogicalChunkGroup, group.Exists graph reachable entries ∧ ¬ group.IsEntrypoint ∧
        chunk = groupIndex graph reachable entries group := by
  have hasync : ∀ group : LogicalChunkGroup, group.Exists graph reachable entries →
      ((chunkGraph.chunkGroup (groupIndex graph reachable entries group)).elim false
        (fun found => decide (found.kind = .async)) = true ↔ ¬ group.IsEntrypoint) := by
    intro group hgroup
    obtain ⟨found, hfound, -, hkind, -⟩ := h.group_spec group hgroup
    rw [hfound, Option.elim_some, decide_eq_true_eq, hkind]
  rw [ChunkGraph.asyncChunks, List.mem_map]
  constructor
  · rintro ⟨item, hitem, rfl⟩
    rw [List.mem_filter] at hitem
    obtain ⟨index, hindex⟩ := List.mem_iff_getElem?.mp hitem.1
    have hlt : index < groupCount graph reachable entries := by
      rw [← h.chunks_length]
      exact (List.getElem?_eq_some_iff.mp hindex).choose
    obtain ⟨chunk, hchunk, hhandle, hgroups⟩ := h.chunk_spec index hlt
    rw [ChunkGraph.chunk, hindex] at hchunk
    obtain rfl := Option.some.inj hchunk
    obtain ⟨group, hgroup, rfl⟩ := LogicalChunkGroup.exists_of_groupIndex hlt
    refine ⟨group, hgroup, (hasync group hgroup).mp ?_, hhandle⟩
    have hall := hitem.2
    rw [hgroups, Bool.and_eq_true, List.all_cons, Bool.and_eq_true] at hall
    exact hall.2.1
  · rintro ⟨group, hgroup, hnot, rfl⟩
    obtain ⟨chunk, hchunk, hhandle, hgroups⟩ :=
      h.chunk_spec _ (LogicalChunkGroup.groupIndex_lt hgroup)
    refine ⟨chunk, List.mem_filter.mpr ⟨List.mem_of_getElem? hchunk, ?_⟩, hhandle⟩
    rw [hgroups, Bool.and_eq_true, List.all_cons, Bool.and_eq_true]
    exact ⟨rfl, (hasync group hgroup).mpr hnot, rfl⟩

theorem built (h : Unsplit graph reachable entries chunkGraph) (splitName : Option String) :
    Built graph reachable entries splitName chunkGraph where
  entrypoints := h.entrypoints
  groups_length := h.groups_length
  group_spec := by
    intro group hgroup
    obtain ⟨found, hfound, -, hspec⟩ := h.group_spec group hgroup
    exact ⟨found, hfound, hspec⟩
  children_spec := h.children_spec
  blocks_spec := h.blocks_spec
  no_concatenations := h.no_concatenations
  moduleChunks_spec := h.moduleChunks_spec
  carries := by
    intro group module hcarries
    rw [h.groupChunks hcarries.exists]
    exact ⟨_, List.mem_singleton_self _, h.mem_chunkModules.mpr ⟨group, hcarries, rfl⟩⟩
  carried := by
    intro chunk module hmem
    obtain ⟨group, hcarries, rfl⟩ := h.mem_chunkModules.mp hmem
    refine ⟨group, hcarries, ?_⟩
    rw [h.groupChunks hcarries.exists]
    exact List.mem_singleton_self _
  unnamed := by
    intro _ group hgroup chunk hchunk module hmem
    rw [h.groupChunks hgroup, List.mem_singleton] at hchunk
    rw [hchunk] at hmem
    exact (h.modules_spec group hgroup module).mp hmem
  dominated := by
    intro inner root hdom _ chunk hchunk
    rw [h.moduleChunks_spec, h.mem_chunkModules] at hchunk ⊢
    obtain ⟨group, hcarries, rfl⟩ := hchunk
    exact ⟨group, hdom group hcarries, rfl⟩

end Unsplit

section Split

variable {splitName : Option String} {after : ChunkGraph}
variable {candidates : List (List ChunkHandle × List ModuleHandle)}

/-- The chunks of a module after the split: the ones it was not moved out of, and the shared ones it was
moved into. -/
theorem mem_chunkModules_split (hunsplit : Unsplit graph reachable entries chunkGraph)
    (hsplit : ChunkGraph.SplitInv chunkGraph after (groupCount graph reachable entries) candidates)
    {chunk : ChunkHandle} {module : ModuleHandle} :
    module ∈ after.chunkModules chunk ↔
      (∃ group : LogicalChunkGroup, group.Carries graph reachable entries module ∧
          chunk = groupIndex graph reachable entries group ∧
          ∀ candidate ∈ candidates, module ∈ candidate.2 → chunk ∉ candidate.1) ∨
        ∃ (index : Nat) (sources : List ChunkHandle) (modules : List ModuleHandle),
          candidates[index]? = some (sources, modules) ∧
            chunk = groupCount graph reachable entries + index ∧ module ∈ modules := by
  rw [hsplit.chunkModules, hunsplit.mem_chunkModules]
  refine or_congr ⟨?_, ?_⟩ Iff.rfl
  · rintro ⟨⟨group, hcarries, heq⟩, hnot⟩
    exact ⟨group, hcarries, heq, fun candidate hmem hmodule hchunk =>
      hnot ⟨candidate, hmem, hchunk, hmodule⟩⟩
  · rintro ⟨group, hcarries, heq, hnot⟩
    exact ⟨⟨group, hcarries, heq⟩, fun ⟨candidate, hmem, hchunk, hmodule⟩ =>
      hnot candidate hmem hmodule hchunk⟩

theorem built_of_splitInv (hunsplit : Unsplit graph reachable entries chunkGraph)
    (hok : ChunkGraph.CandidatesOk chunkGraph splitName candidates)
    (hsplit : ChunkGraph.SplitInv chunkGraph after (groupCount graph reachable entries) candidates) :
    Built graph reachable entries splitName after := by
  have hgroupChunks : ∀ group : LogicalChunkGroup, group.Exists graph reachable entries →
      ∀ chunk, chunk ∈ after.groupChunks (groupIndex graph reachable entries group) ↔
        chunk = groupIndex graph reachable entries group ∨
          ∃ (index : Nat) (sources : List ChunkHandle) (modules : List ModuleHandle),
            candidates[index]? = some (sources, modules) ∧
              chunk = groupCount graph reachable entries + index ∧
              groupIndex graph reachable entries group ∈ sources := by
    intro group hgroup chunk
    rw [hsplit.groupChunks, hunsplit.groupChunks hgroup, List.mem_singleton]
  have hsource : ∀ candidate ∈ candidates, ∀ chunk ∈ candidate.1,
      ∃ group : LogicalChunkGroup, group.Exists graph reachable entries ∧ ¬ group.IsEntrypoint ∧
        chunk = groupIndex graph reachable entries group :=
    fun candidate hmem chunk hchunk =>
      hunsplit.mem_asyncChunks.mp (hok.sources candidate hmem chunk hchunk)
  refine ⟨hsplit.same.entrypoints.trans hunsplit.entrypoints, ?_, ?_, ?_, ?_,
    hsplit.same.concatenatedModules.trans hunsplit.no_concatenations, hsplit.moduleChunks, ?_, ?_, ?_,
    ?_⟩
  · have hlength := congrArg List.length hsplit.same.groups
    rw [List.length_map, List.length_map] at hlength
    exact hlength.trans hunsplit.groups_length
  · intro group hgroup
    obtain ⟨found, hfound, -, hkind, horigin⟩ := hunsplit.group_spec group hgroup
    have hedges := congrArg (·[groupIndex graph reachable entries group]?) hsplit.same.groups
    simp only [List.getElem?_map] at hedges
    rw [ChunkGraph.chunkGroup] at hfound
    rw [hfound, Option.map_some, Option.map_eq_some_iff] at hedges
    obtain ⟨other, hother, heq⟩ := hedges
    obtain ⟨hkind', heq⟩ := Prod.mk.inj heq
    obtain ⟨horigin', -⟩ := Prod.mk.inj heq
    refine ⟨other, hother, hkind' ▸ hkind, fun target htarget => ?_⟩
    rw [horigin']
    exact horigin target htarget
  · intro parent child
    rw [← hunsplit.children_spec parent child, ChunkGraph.runtimeChildren, hsplit.same.children]
    rfl
  · intro origin index
    rw [← hunsplit.blocks_spec origin index, ChunkGraph.blockChunkGroup, hsplit.same.blocks]
    rfl
  · intro group module hcarries
    by_cases hmoved : ∃ candidate ∈ candidates, module ∈ candidate.2 ∧
        groupIndex graph reachable entries group ∈ candidate.1
    · obtain ⟨⟨sources, modules⟩, hmem, hmodule, hin⟩ := hmoved
      obtain ⟨index, hindex⟩ := List.mem_iff_getElem?.mp hmem
      refine ⟨groupCount graph reachable entries + index, ?_, ?_⟩
      · exact (hgroupChunks group hcarries.exists _).mpr
          (Or.inr ⟨index, sources, modules, hindex, rfl, hin⟩)
      · exact (mem_chunkModules_split hunsplit hsplit).mpr
          (Or.inr ⟨index, sources, modules, hindex, rfl, hmodule⟩)
    · refine ⟨groupIndex graph reachable entries group,
        (hgroupChunks group hcarries.exists _).mpr (Or.inl rfl), ?_⟩
      exact (mem_chunkModules_split hunsplit hsplit).mpr (Or.inl ⟨group, hcarries, rfl,
        fun candidate hmem hmodule hchunk => hmoved ⟨candidate, hmem, hmodule, hchunk⟩⟩)
  · intro chunk module hmem
    rcases (mem_chunkModules_split hunsplit hsplit).mp hmem with ⟨group, hcarries, rfl, -⟩ |
      ⟨index, sources, modules, hindex, rfl, hmodule⟩
    · exact ⟨group, hcarries, (hgroupChunks group hcarries.exists _).mpr (Or.inl rfl)⟩
    · have hcandidate := List.mem_of_getElem? hindex
      obtain ⟨source, hasync, hin⟩ := hok.carried _ hcandidate module hmodule
      have hsourceIn := hok.covers _ hcandidate module hmodule source hasync hin
      obtain ⟨group, hcarries, rfl⟩ := hunsplit.mem_chunkModules.mp hin
      exact ⟨group, hcarries, (hgroupChunks group hcarries.exists _).mpr
        (Or.inr ⟨index, sources, modules, hindex, rfl, hsourceIn⟩)⟩
  · intro hname group hgroup chunk hchunk module hmem
    rcases (hgroupChunks group hgroup chunk).mp hchunk with rfl |
      ⟨index, sources, modules, hindex, rfl, hin⟩
    · rcases (mem_chunkModules_split hunsplit hsplit).mp hmem with ⟨other, hcarries, heq, -⟩ |
        ⟨index, sources, modules, hindex, heq, hmodule⟩
      · rw [LogicalChunkGroup.groupIndex_injective hgroup hcarries.exists heq]
        exact hcarries
      · have hlt := LogicalChunkGroup.groupIndex_lt hgroup
        rw [heq] at hlt
        exact absurd hlt (Nat.not_lt.mpr (Nat.le_add_right _ _))
    · rcases (mem_chunkModules_split hunsplit hsplit).mp hmem with ⟨other, hcarries, heq, -⟩ |
        ⟨index', sources', modules', hindex', heq, hmodule⟩
      · have hlt := LogicalChunkGroup.groupIndex_lt hcarries.exists
        rw [← heq] at hlt
        exact absurd hlt (Nat.not_lt.mpr (Nat.le_add_right _ _))
      · rw [Nat.add_left_cancel heq, hindex'] at hindex
        obtain ⟨rfl, rfl⟩ := Prod.mk.inj (Option.some.inj hindex)
        have hin' := hok.unnamed hname _ (List.mem_of_getElem? hindex') module hmodule _ hin
        exact (hunsplit.modules_spec group hgroup module).mp hin'
  · intro inner root hdom hroot chunk hchunk
    rw [hsplit.moduleChunks, mem_chunkModules_split hunsplit hsplit] at hchunk ⊢
    -- Whoever moves the inner module moves the root too, and into the same shared chunk.
    have hshared : ∀ (index : Nat) (item : List ChunkHandle × List ModuleHandle),
        candidates[index]? = some item → root ∈ item.2 → inner ∈ item.2 := by
      rintro index ⟨sources, modules⟩ hindex hmem
      have hin := hroot (groupCount graph reachable entries + index)
        ((hsplit.moduleChunks _ _).mpr ((mem_chunkModules_split hunsplit hsplit).mpr
          (Or.inr ⟨index, sources, modules, hindex, rfl, hmem⟩)))
      rw [hsplit.moduleChunks, mem_chunkModules_split hunsplit hsplit] at hin
      rcases hin with ⟨group, hcarries, heq, -⟩ | ⟨index', sources', modules', hindex', heq, hmem'⟩
      · have hlt := LogicalChunkGroup.groupIndex_lt hcarries.exists
        rw [← heq] at hlt
        exact absurd hlt (Nat.not_lt.mpr (Nat.le_add_right _ _))
      · rw [Nat.add_left_cancel heq, hindex'] at hindex
        obtain ⟨rfl, rfl⟩ := Prod.mk.inj (Option.some.inj hindex)
        exact hmem'
    have hmoves : ∀ (index : Nat) (item : List ChunkHandle × List ModuleHandle),
        candidates[index]? = some item → inner ∈ item.2 → root ∈ item.2 := by
      intro index item hindex hmem
      obtain ⟨other, hother, hrootMem⟩ := hok.upward _ (List.mem_of_getElem? hindex) inner hmem root
        (by
          intro chunk _ hin
          obtain ⟨group, hcarries, rfl⟩ := hunsplit.mem_chunkModules.mp hin
          exact hunsplit.mem_chunkModules.mpr ⟨group, hdom group hcarries, rfl⟩)
      obtain ⟨index', hindex'⟩ := List.mem_iff_getElem?.mp hother
      have hsame := hok.unique index index' _ _ hindex hindex' inner hmem
        (hshared index' other hindex' hrootMem)
      rw [← hsame, hindex] at hindex'
      rw [Option.some.inj hindex']
      exact hrootMem
    rcases hchunk with ⟨group, hcarries, rfl, hnot⟩ | ⟨index, sources, modules, hindex, rfl, hmem⟩
    · refine Or.inl ⟨group, hdom group hcarries, rfl, fun candidate hcandidate hrootMem => ?_⟩
      obtain ⟨index, hindex⟩ := List.mem_iff_getElem?.mp hcandidate
      exact hnot candidate hcandidate (hshared index candidate hindex hrootMem)
    · exact Or.inr ⟨index, sources, modules, hindex, rfl, hmoves index _ hindex hmem⟩

theorem splitInv_start (hunsplit : Unsplit graph reachable entries chunkGraph) :
    ChunkGraph.SplitInv chunkGraph chunkGraph (groupCount graph reachable entries) [] where
  same := ChunkGraph.SameGroups.refl _
  chunks_length := hunsplit.chunks_length
  lists_length := hunsplit.lists_length
  old_chunk := fun _ _ => rfl
  groupChunks := by simp
  chunkModules := by simp
  moduleChunks := hunsplit.moduleChunks_spec

theorem splitInv_applySplitChunks (hunsplit : Unsplit graph reachable entries chunkGraph)
    (minChunks : Nat) (name : Option String) :
    ChunkGraph.SplitInv chunkGraph (chunkGraph.applySplitChunks minChunks name)
      (groupCount graph reachable entries) (chunkGraph.splitCandidates minChunks name) := by
  have hok := ChunkGraph.candidatesOk_splitCandidates chunkGraph minChunks name
  have hrun := ChunkGraph.splitInv_foldl hunsplit.groups_length name
    (chunkGraph.splitCandidates minChunks name) [] (splitInv_start hunsplit) (by
      intro candidate hmem source hsource
      obtain ⟨group, hgroup, -, rfl⟩ :=
        hunsplit.mem_asyncChunks.mp (hok.sources candidate hmem source hsource)
      have hlt := LogicalChunkGroup.groupIndex_lt hgroup
      obtain ⟨chunk, hchunk, -, hgroups⟩ := hunsplit.chunk_spec _ hlt
      exact ⟨hlt, chunk, hchunk, hgroups⟩)
  exact hrun

theorem built_applySplitChunks (hunsplit : Unsplit graph reachable entries chunkGraph)
    (minChunks : Nat) (name : Option String) :
    Built graph reachable entries name (chunkGraph.applySplitChunks minChunks name) :=
  built_of_splitInv hunsplit (ChunkGraph.candidatesOk_splitCandidates chunkGraph minChunks name)
    (splitInv_applySplitChunks hunsplit minChunks name)

/-- Split chunks leave an entrypoint with its one chunk. -/
theorem entryChunks_applySplitChunks (hunsplit : Unsplit graph reachable entries chunkGraph)
    (minChunks : Nat) (name : Option String) {index : Nat} (hindex : index < entries.length)
    (chunk : ChunkHandle) :
    chunk ∈ (chunkGraph.applySplitChunks minChunks name).groupChunks index ↔ chunk = index := by
  have hexists : (LogicalChunkGroup.entrypoint index).Exists graph reachable entries :=
    LogicalChunkGroup.exists_entrypoint.mpr hindex
  have hbefore : chunkGraph.groupChunks index = [index] := hunsplit.groupChunks hexists
  rw [(splitInv_applySplitChunks hunsplit minChunks name).groupChunks, hbefore, List.mem_singleton]
  refine ⟨fun hor => hor.elim id ?_, Or.inl⟩
  rintro ⟨position, sources, modules, hget, -, hsource⟩
  obtain ⟨group, hgroup, hasync, heq⟩ := hunsplit.mem_asyncChunks.mp
    ((ChunkGraph.candidatesOk_splitCandidates chunkGraph minChunks name).sources _
      (List.mem_of_getElem? hget) index hsource)
  have hsame : group = .entrypoint index :=
    LogicalChunkGroup.groupIndex_injective hgroup hexists heq.symm
  exact absurd ⟨index, hsame⟩ hasync

end Split

/-- The name that may merge split candidates. -/
def CompilerOptions.splitName (options : CompilerOptions) : Option String :=
  options.splitChunks.bind (·.name)

/-- **Every chunk graph that the builder returns is built.** -/
theorem built_buildChunkGraphFrom (hgraph : graph.Indexed) (hreach : ReachesExactly graph reachable)
    (hentries : ∀ entry ∈ entries, entry < graph.modules.length) (options : CompilerOptions) :
    Built graph reachable entries options.splitName
      (buildChunkGraphFrom graph reachable options entries) := by
  have hunsplit := unsplit_buildGroups hgraph hreach hentries options
  rw [buildChunkGraphFrom, CompilerOptions.splitName]
  cases options.splitChunks with
  | none => exact hunsplit.built _
  | some splitChunks => exact built_applySplitChunks hunsplit splitChunks.minChunks splitChunks.name

end

end Unpack
