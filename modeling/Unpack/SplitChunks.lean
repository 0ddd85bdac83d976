import Unpack.BuiltGroups

/-! What split chunks do. Each candidate moves its modules from its source chunks into one new chunk
that joins the groups of all the sources, so every group keeps at least the modules it had. -/

namespace Unpack

/-- What split chunks leave of a group. -/
def ChunkGroup.edges (group : ChunkGroup) :
    ChunkGroupKind × Option AsyncBlockOrigin × List ChunkGroupHandle × List ChunkGroupHandle :=
  (group.kind, group.origin, group.parents, group.children)

namespace ChunkGraph

/-- The parts of the chunk graph that moving modules between chunks leaves as they are. -/
structure SameGroups (before after : ChunkGraph) : Prop where
  entrypoints : after.entrypoints = before.entrypoints
  children : after.runtimeChunkGroupChildren = before.runtimeChunkGroupChildren
  blocks : after.blockChunkGroups = before.blockChunkGroups
  concatenatedModules : after.concatenatedModules = before.concatenatedModules
  groups : after.chunkGroups.map ChunkGroup.edges = before.chunkGroups.map ChunkGroup.edges

theorem SameGroups.refl (chunkGraph : ChunkGraph) : SameGroups chunkGraph chunkGraph :=
  ⟨rfl, rfl, rfl, rfl, rfl⟩

theorem SameGroups.trans {first second third : ChunkGraph} (h : SameGroups first second)
    (h' : SameGroups second third) : SameGroups first third :=
  ⟨h'.entrypoints.trans h.entrypoints, h'.children.trans h.children, h'.blocks.trans h.blocks,
    h'.concatenatedModules.trans h.concatenatedModules, h'.groups.trans h.groups⟩

theorem foldl_disconnect (chunkGraph : ChunkGraph) (sources : List ChunkHandle)
    (module : ModuleHandle) :
    let result := sources.foldl (fun chunkGraph chunk =>
      chunkGraph.disconnectChunkAndModule chunk module) chunkGraph
    SameGroups chunkGraph result ∧ result.chunks = chunkGraph.chunks ∧
      result.chunkGroups = chunkGraph.chunkGroups ∧
      result.chunkModuleLists.length = chunkGraph.chunkModuleLists.length ∧
      (∀ chunk member, member ∈ result.chunkModules chunk ↔
        member ∈ chunkGraph.chunkModules chunk ∧ ¬ (chunk ∈ sources ∧ member = module)) ∧
      ∀ chunk member, chunk ∈ result.moduleChunks member ↔
        chunk ∈ chunkGraph.moduleChunks member ∧ ¬ (chunk ∈ sources ∧ member = module) := by
  induction sources generalizing chunkGraph with
  | nil => exact ⟨SameGroups.refl _, rfl, rfl, rfl, by simp, by simp⟩
  | cons source sources ih =>
      obtain ⟨hsame, hchunks, hgroups, hlength, hmodules, hback⟩ :=
        ih (chunkGraph.disconnectChunkAndModule source module)
      have hfirst : SameGroups chunkGraph (chunkGraph.disconnectChunkAndModule source module) :=
        ⟨rfl, rfl, rfl, rfl, rfl⟩
      refine ⟨hfirst.trans hsame, hchunks, hgroups, hlength.trans (List.length_modify _ _ _), ?_, ?_⟩
      · intro chunk member
        rw [List.foldl_cons, hmodules, mem_chunkModules_disconnect, List.mem_cons]
        tauto
      · intro chunk member
        rw [List.foldl_cons, hback, mem_moduleChunks_disconnect, List.mem_cons]
        tauto

/-- Moving some modules out of the source chunks into the shared one. -/
theorem foldl_move (chunkGraph : ChunkGraph) (sources : List ChunkHandle) (shared : ChunkHandle)
    (modules : List ModuleHandle) (hshared : shared < chunkGraph.chunkModuleLists.length)
    (hfresh : shared ∉ sources) :
    let result := modules.foldl (fun chunkGraph module =>
      (sources.foldl (fun chunkGraph chunk => chunkGraph.disconnectChunkAndModule chunk module)
        chunkGraph).connectChunkAndModule shared module) chunkGraph
    SameGroups chunkGraph result ∧ result.chunks = chunkGraph.chunks ∧
      result.chunkGroups = chunkGraph.chunkGroups ∧
      result.chunkModuleLists.length = chunkGraph.chunkModuleLists.length ∧
      (∀ chunk member, member ∈ result.chunkModules chunk ↔
        member ∈ chunkGraph.chunkModules chunk ∧ ¬ (chunk ∈ sources ∧ member ∈ modules) ∨
          chunk = shared ∧ member ∈ modules) ∧
      ∀ chunk member, chunk ∈ result.moduleChunks member ↔
        chunk ∈ chunkGraph.moduleChunks member ∧ ¬ (chunk ∈ sources ∧ member ∈ modules) ∨
          chunk = shared ∧ member ∈ modules := by
  induction modules generalizing chunkGraph with
  | nil => exact ⟨SameGroups.refl _, rfl, rfl, rfl, by simp, by simp⟩
  | cons module modules ih =>
      obtain ⟨hsame, hchunks, hgroups, hlength, hmodules, hback⟩ :=
        foldl_disconnect chunkGraph sources module
      let moved := (sources.foldl (fun chunkGraph chunk =>
        chunkGraph.disconnectChunkAndModule chunk module) chunkGraph)
      have hmovedLength : (moved.connectChunkAndModule shared module).chunkModuleLists.length =
          chunkGraph.chunkModuleLists.length := (List.length_modify _ _ _).trans hlength
      obtain ⟨hsame', hchunks', hgroups', hlength', hmodules', hback'⟩ :=
        ih (moved.connectChunkAndModule shared module) (hmovedLength.symm ▸ hshared)
      have hconnect : SameGroups moved (moved.connectChunkAndModule shared module) :=
        ⟨rfl, rfl, rfl, rfl, rfl⟩
      refine ⟨(hsame.trans hconnect).trans hsame', hchunks'.trans hchunks, hgroups'.trans hgroups,
        hlength'.trans hmovedLength, ?_, ?_⟩
      · intro chunk member
        rw [List.foldl_cons, hmodules',
          mem_chunkModules_connect _ _ _ _ _ (show shared < moved.chunkModuleLists.length from
            hlength.symm ▸ hshared), hmodules, List.mem_cons]
        by_cases hchunk : chunk = shared
        · subst hchunk
          tauto
        · tauto
      · intro chunk member
        rw [List.foldl_cons, hback', mem_moduleChunks_connect, hback, List.mem_cons]
        by_cases hchunk : chunk = shared
        · subst hchunk
          tauto
        · tauto

theorem chunk_connectChunkAndGroup_of_ne (chunkGraph : ChunkGraph) {chunk other : ChunkHandle}
    (group : ChunkGroupHandle) (hne : chunk ≠ other) :
    (chunkGraph.connectChunkAndGroup chunk group).chunk other = chunkGraph.chunk other := by
  rw [ChunkGraph.chunk, connectChunkAndGroup, List.getElem?_modify]
  cases h : chunkGraph.chunks[other]? with
  | none => simp [ChunkGraph.chunk, h]
  | some found => simp [ChunkGraph.chunk, h, hne]

theorem mem_groupChunks_connect (chunkGraph : ChunkGraph) (chunk member : ChunkHandle)
    {group : ChunkGroupHandle} (hgroup : group < chunkGraph.chunkGroups.length)
    (other : ChunkGroupHandle) :
    member ∈ (chunkGraph.connectChunkAndGroup chunk group).groupChunks other ↔
      member ∈ chunkGraph.groupChunks other ∨ member = chunk ∧ other = group := by
  rw [groupChunks, chunkGroup, connectChunkAndGroup, List.getElem?_modify, groupChunks, chunkGroup]
  by_cases heq : group = other
  · subst heq
    rw [List.getElem?_eq_getElem hgroup]
    simp [ChunkGroup.pushChunk]
  · cases h : chunkGraph.chunkGroups[other]? with
    | none => simp [Ne.symm heq]
    | some found => simp [heq, Ne.symm heq]

/-- Joining the groups of the sources, where every source is alone in the group of its own number. -/
theorem foldl_split (chunkGraph : ChunkGraph) (newChunk : ChunkHandle) (sources : List ChunkHandle)
    (hsources : ∀ source ∈ sources, source ≠ newChunk ∧ source < chunkGraph.chunkGroups.length ∧
      ∃ original, chunkGraph.chunk source = some original ∧ original.groups = [source]) :
    let result := sources.foldl (splitSource newChunk) chunkGraph
    SameGroups chunkGraph result ∧ result.chunks.length = chunkGraph.chunks.length ∧
      (∀ chunk ≠ newChunk, result.chunk chunk = chunkGraph.chunk chunk) ∧
      result.chunkModuleLists = chunkGraph.chunkModuleLists ∧
      result.moduleChunkLists = chunkGraph.moduleChunkLists ∧
      ∀ group chunk, chunk ∈ result.groupChunks group ↔
        chunk ∈ chunkGraph.groupChunks group ∨ chunk = newChunk ∧ group ∈ sources := by
  induction sources generalizing chunkGraph with
  | nil => exact ⟨SameGroups.refl _, rfl, fun _ _ => rfl, rfl, rfl, by simp⟩
  | cons source sources ih =>
      obtain ⟨hne, hlt, original, hchunk, hgroups⟩ := hsources source List.mem_cons_self
      have hstep : splitSource newChunk chunkGraph source =
          chunkGraph.connectChunkAndGroup newChunk source := by
        rw [splitSource, hchunk]
        show chunkGraph.split original newChunk = _
        rw [split, hgroups]
        rfl
      let joined := chunkGraph.connectChunkAndGroup newChunk source
      have hjoined : SameGroups chunkGraph joined := by
        refine ⟨rfl, rfl, rfl, rfl, ?_⟩
        let push := fun group : ChunkGroup => group.pushChunk newChunk
        exact map_modify_of_same _ source push ChunkGroup.edges fun _ => rfl
      have hlengths : joined.chunkGroups.length = chunkGraph.chunkGroups.length :=
        List.length_modify _ _ _
      obtain ⟨hsame, hlength, hchunks, hlists, hbacks, hmembers⟩ := ih joined (by
        intro other hother
        obtain ⟨hne', hlt', original', hchunk', hgroups'⟩ :=
          hsources other (List.mem_cons_of_mem _ hother)
        exact ⟨hne', hlengths.symm ▸ hlt', original',
          (chunk_connectChunkAndGroup_of_ne _ _ (Ne.symm hne')).trans hchunk', hgroups'⟩)
      rw [List.foldl_cons, hstep]
      refine ⟨hjoined.trans hsame, hlength.trans (List.length_modify _ _ _), ?_, hlists, hbacks, ?_⟩
      · intro chunk hchunkNe
        exact (hchunks chunk hchunkNe).trans
          (chunk_connectChunkAndGroup_of_ne _ _ (Ne.symm hchunkNe))
      · intro group chunk
        refine (hmembers group chunk).trans ?_
        rw [mem_groupChunks_connect _ _ _ hlt, List.mem_cons]
        tauto

/-- What holds while candidates are applied: the old chunks stand as they were but for the modules moved
out of them, and the `k`-th candidate has made chunk `base + k`. -/
structure SplitInv (before after : ChunkGraph) (base : Nat)
    (done : List (List ChunkHandle × List ModuleHandle)) : Prop where
  same : SameGroups before after
  chunks_length : after.chunks.length = base + done.length
  lists_length : after.chunkModuleLists.length = base + done.length
  old_chunk : ∀ chunk < base, after.chunk chunk = before.chunk chunk
  groupChunks : ∀ group chunk, chunk ∈ after.groupChunks group ↔
    chunk ∈ before.groupChunks group ∨ ∃ (index : Nat) (sources : List ChunkHandle)
      (modules : List ModuleHandle), done[index]? = some (sources, modules) ∧
        chunk = base + index ∧ group ∈ sources
  chunkModules : ∀ chunk module, module ∈ after.chunkModules chunk ↔
    (module ∈ before.chunkModules chunk ∧
        ¬ ∃ candidate ∈ done, chunk ∈ candidate.1 ∧ module ∈ candidate.2) ∨
      ∃ (index : Nat) (sources : List ChunkHandle) (modules : List ModuleHandle),
        done[index]? = some (sources, modules) ∧ chunk = base + index ∧ module ∈ modules
  moduleChunks : ∀ chunk module,
    chunk ∈ after.moduleChunks module ↔ module ∈ after.chunkModules chunk

theorem exists_getElem?_append {α : Type} (items : List α) (item : α) {P : Nat → α → Prop} :
    (∃ (index : Nat) (found : α), (items ++ [item])[index]? = some found ∧ P index found) ↔
      (∃ (index : Nat) (found : α), items[index]? = some found ∧ P index found) ∨
        P items.length item := by
  constructor
  · rintro ⟨index, found, hget, hP⟩
    by_cases hlt : index < items.length
    · rw [List.getElem?_append_left hlt] at hget
      exact Or.inl ⟨index, found, hget, hP⟩
    · have hle := Nat.le_of_not_lt hlt
      rw [List.getElem?_append_right hle] at hget
      have hbound := (List.getElem?_eq_some_iff.mp hget).choose
      rw [List.length_singleton] at hbound
      have heq : index = items.length := by omega
      rw [heq, Nat.sub_self] at hget
      rw [heq] at hP
      rw [← Option.some.inj hget] at hP
      exact Or.inr hP
  · rintro (⟨index, found, hget, hP⟩ | hP)
    · exact ⟨index, found, by
        rw [List.getElem?_append_left (List.getElem?_eq_some_iff.mp hget).choose]
        exact hget, hP⟩
    · exact ⟨items.length, item, by simp, hP⟩

/-- The step lemma of the split loop. -/
theorem SplitInv.step {before after : ChunkGraph} {base : Nat}
    {done : List (List ChunkHandle × List ModuleHandle)} (h : SplitInv before after base done)
    (hgroups : before.chunkGroups.length = base) (name : Option String)
    (candidate : List ChunkHandle × List ModuleHandle)
    (hsources : ∀ source ∈ candidate.1, source < base ∧
      ∃ original, before.chunk source = some original ∧ original.groups = [source]) :
    SplitInv before (applySplitCandidate name after candidate) base (done ++ [candidate]) := by
  obtain ⟨sources, modules⟩ := candidate
  let sorted := modules.insertionSort (· ≤ ·)
  let fresh := (after.addChunk name sorted).2
  have hfreshChunk : ∀ chunk < base, fresh.chunk chunk = before.chunk chunk := by
    intro chunk hlt
    rw [← h.old_chunk chunk hlt]
    exact List.getElem?_append_left (Nat.lt_of_lt_of_le hlt (h.chunks_length ▸ Nat.le_add_right _ _))
  have hafterGroups : after.chunkGroups.length = base := by
    have hlength := congrArg List.length h.same.groups
    rw [List.length_map, List.length_map] at hlength
    exact hlength.trans hgroups
  obtain ⟨hsame, hlength, hchunks, hlistsSame, hbacksSame, hmembers⟩ :=
    foldl_split fresh after.chunks.length sources (by
      intro source hsource
      obtain ⟨hlt, original, hchunk, hgroup⟩ := hsources source hsource
      have hne : source ≠ after.chunks.length := by
        rw [h.chunks_length]
        exact Nat.ne_of_lt (Nat.lt_of_lt_of_le hlt (Nat.le_add_right _ _))
      exact ⟨hne, hafterGroups.symm ▸ hlt, original, (hfreshChunk source hlt).trans hchunk, hgroup⟩)
  have hlistsLength : fresh.chunkModuleLists.length = base + done.length + 1 := by
    show (after.chunkModuleLists ++ [[]]).length = _
    rw [List.length_append, h.lists_length, List.length_singleton]
  have hfreshModules : fresh.chunkModules = after.chunkModules := chunkModules_addChunk _ _ _
  obtain ⟨hsame', hchunks', hgroups', hlength', hmodules', hback'⟩ :=
    foldl_move (after.addSplitChunk sources name sorted).2 sources after.chunks.length sorted
      (by
        have hlists' : (after.addSplitChunk sources name sorted).2.chunkModuleLists =
          fresh.chunkModuleLists := hlistsSame
        rw [hlists', hlistsLength, h.chunks_length]
        exact Nat.lt_succ_self _)
      (by
        intro hmem
        have := (hsources _ hmem).1
        rw [h.chunks_length] at this
        exact absurd this (Nat.not_lt.mpr (Nat.le_add_right _ _)))
  have hsplitModules : (after.addSplitChunk sources name sorted).2.chunkModules =
      after.chunkModules := by
    rw [← hfreshModules]
    funext chunk
    exact congrArg (List.getD · chunk []) hlistsSame
  have hsplitBacks : (after.addSplitChunk sources name sorted).2.moduleChunks =
      after.moduleChunks :=
    funext fun module => congrArg (List.getD · module []) hbacksSame
  have hresult : applySplitCandidate name after (sources, modules) =
      sorted.foldl (fun chunkGraph module =>
        (sources.foldl (fun chunkGraph chunk => chunkGraph.disconnectChunkAndModule chunk module)
          chunkGraph).connectChunkAndModule after.chunks.length module)
        (after.addSplitChunk sources name sorted).2 := rfl
  have hfreshSame : SameGroups after fresh := ⟨rfl, rfl, rfl, rfl, rfl⟩
  have hsplitSame : SameGroups after (after.addSplitChunk sources name sorted).2 :=
    hfreshSame.trans hsame
  rw [hresult]
  refine ⟨(h.same.trans hsplitSame).trans hsame', ?_, ?_, ?_, ?_, ?_, ?_⟩
  · rw [hchunks', List.length_append, List.length_singleton, ← Nat.add_assoc]
    refine hlength.trans ?_
    show (after.chunks ++ [_]).length = _
    rw [List.length_append, h.chunks_length, List.length_singleton]
  · rw [hlength', List.length_append, List.length_singleton, ← Nat.add_assoc]
    exact (congrArg List.length hlistsSame).trans hlistsLength
  · intro chunk hlt
    have hne : chunk ≠ after.chunks.length := by
      rw [h.chunks_length]
      exact Nat.ne_of_lt (Nat.lt_of_lt_of_le hlt (Nat.le_add_right _ _))
    rw [ChunkGraph.chunk, hchunks']
    exact (hchunks chunk hne).trans (hfreshChunk chunk hlt)
  · intro group chunk
    have hgroupChunks : chunk ∈ (List.foldl _ _ sorted : ChunkGraph).groupChunks group ↔
        chunk ∈ (after.addSplitChunk sources name sorted).2.groupChunks group :=
      iff_of_eq (congrArg (fun groups : List ChunkGroup =>
        chunk ∈ (groups[group]?).elim [] (·.chunks)) hgroups')
    refine hgroupChunks.trans ((hmembers group chunk).trans ?_)
    have hfreshMembers : chunk ∈ fresh.groupChunks group ↔ chunk ∈ after.groupChunks group := Iff.rfl
    rw [hfreshMembers, h.groupChunks, h.chunks_length, or_assoc]
    refine or_congr Iff.rfl ?_
    have happend := exists_getElem?_append done (sources, modules)
      (P := fun index found => chunk = base + index ∧ group ∈ found.1)
    simp only [Prod.exists] at happend
    exact happend.symm
  · intro chunk module
    rw [hmodules', hsplitModules, h.chunkModules]
    have hsorted : module ∈ sorted ↔ module ∈ modules := List.mem_insertionSort _
    have happend := exists_getElem?_append done (sources, modules)
      (P := fun index found => chunk = base + index ∧ module ∈ found.2)
    simp only [Prod.exists] at happend
    rw [happend, hsorted, h.chunks_length, ← or_assoc]
    refine or_congr ?_ Iff.rfl
    have hnew : ∀ index : Nat, chunk = base + index → chunk ∉ sources := by
      intro index heq hmem
      have := (hsources chunk hmem).1
      rw [heq] at this
      exact absurd this (Nat.not_lt.mpr (Nat.le_add_right _ _))
    simp only [List.mem_append, List.mem_singleton, or_and_right, exists_or, exists_eq_left, not_or]
    constructor
    · rintro (⟨⟨hold, hnot⟩, hsource⟩ | ⟨hdoneNew, -⟩)
      · exact Or.inl ⟨hold, hnot, hsource⟩
      · exact Or.inr hdoneNew
    · rintro (⟨hold, hnot, hsource⟩ | ⟨index, s, ms, hget, heq, hmem⟩)
      · exact Or.inl ⟨⟨hold, hnot⟩, hsource⟩
      · exact Or.inr ⟨⟨index, s, ms, hget, heq, hmem⟩, fun hand => hnew index heq hand.1⟩
  · intro chunk module
    rw [hmodules', hback', hsplitModules, hsplitBacks, h.moduleChunks]

/-- The run lemma of the split loop. -/
theorem splitInv_foldl {before : ChunkGraph} {base : Nat}
    (hgroups : before.chunkGroups.length = base) (name : Option String)
    (candidates done : List (List ChunkHandle × List ModuleHandle)) {after : ChunkGraph}
    (h : SplitInv before after base done)
    (hsources : ∀ candidate ∈ candidates, ∀ source ∈ candidate.1, source < base ∧
      ∃ original, before.chunk source = some original ∧ original.groups = [source]) :
    SplitInv before (candidates.foldl (applySplitCandidate name) after) base (done ++ candidates) := by
  induction candidates generalizing after done with
  | nil => simpa using h
  | cons candidate candidates ih =>
      have hstep := h.step hgroups name candidate (hsources candidate List.mem_cons_self)
      rw [List.foldl_cons, List.append_cons]
      exact ih (done ++ [candidate]) hstep fun other hother =>
        hsources other (List.mem_cons_of_mem _ hother)

/-- The rows of a table of lists, empty where there is none. -/
theorem mem_getD_insert {α β : Type} [DecidableEq α] {table : FxHashMap α (List β)} {key other : α}
    {item member : β} :
    member ∈ ((table.insert key ((table.lookup key).getD [] ++ [item])).lookup other).getD [] ↔
      member ∈ (table.lookup other).getD [] ∨ other = key ∧ member = item := by
  by_cases heq : other = key
  · subst heq
    rw [AList.lookup_insert, Option.getD_some, List.mem_append, List.mem_singleton]
    simp
  · rw [AList.lookup_insert_ne heq]
    simp [heq]

theorem ne_nil_of_lookup_insert {α β : Type} [DecidableEq α] {table : FxHashMap α (List β)}
    (htable : ∀ key row, table.lookup key = some row → row ≠ []) (key : α) (item : β) :
    ∀ other row, (table.insert key ((table.lookup key).getD [] ++ [item])).lookup other = some row →
      row ≠ [] := by
  intro other row hrow
  by_cases heq : other = key
  · subst heq
    rw [AList.lookup_insert] at hrow
    rw [← Option.some.inj hrow]
    exact List.append_ne_nil_of_right_ne_nil _ (List.cons_ne_nil _ _)
  · rw [AList.lookup_insert_ne heq] at hrow
    exact htable other row hrow

theorem foldl_chunkRow (chunk : ChunkHandle) (modules : List ModuleHandle)
    (table : FxHashMap ModuleHandle (List ChunkHandle))
    (htable : ∀ key row, table.lookup key = some row → row ≠ []) :
    let result := modules.foldl (fun table module =>
      table.insert module ((table.lookup module).getD [] ++ [chunk])) table
    (∀ key row, result.lookup key = some row → row ≠ []) ∧
      ∀ module member, member ∈ (result.lookup module).getD [] ↔
        member ∈ (table.lookup module).getD [] ∨ member = chunk ∧ module ∈ modules := by
  induction modules generalizing table with
  | nil => exact ⟨htable, by simp⟩
  | cons first modules ih =>
      obtain ⟨hne, hmem⟩ := ih _ (ne_nil_of_lookup_insert htable first chunk)
      refine ⟨hne, fun module member => ?_⟩
      rw [List.foldl_cons, hmem, mem_getD_insert, List.mem_cons]
      tauto

theorem foldl_chunkRows (chunkGraph : ChunkGraph) (chunks : List ChunkHandle)
    (table : FxHashMap ModuleHandle (List ChunkHandle))
    (htable : ∀ key row, table.lookup key = some row → row ≠ []) :
    let result := chunks.foldl (fun table chunk =>
      (chunkGraph.chunkModules chunk).foldl (fun table module =>
        table.insert module ((table.lookup module).getD [] ++ [chunk])) table) table
    (∀ key row, result.lookup key = some row → row ≠ []) ∧
      ∀ module member, member ∈ (result.lookup module).getD [] ↔
        member ∈ (table.lookup module).getD [] ∨
          member ∈ chunks ∧ module ∈ chunkGraph.chunkModules member := by
  induction chunks generalizing table with
  | nil => exact ⟨htable, by simp⟩
  | cons chunk chunks ih =>
      obtain ⟨hne, hmem⟩ := foldl_chunkRow chunk (chunkGraph.chunkModules chunk) table htable
      obtain ⟨hne', hmem'⟩ := ih _ hne
      refine ⟨hne', fun module member => ?_⟩
      rw [List.foldl_cons, hmem', hmem, List.mem_cons]
      constructor
      · rintro ((h | ⟨rfl, h⟩) | ⟨h, h'⟩)
        · exact Or.inl h
        · exact Or.inr ⟨Or.inl rfl, h⟩
        · exact Or.inr ⟨Or.inr h, h'⟩
      · rintro (h | ⟨rfl | h, h'⟩)
        · exact Or.inl (Or.inl h)
        · exact Or.inl (Or.inr ⟨rfl, h'⟩)
        · exact Or.inr ⟨h, h'⟩

theorem mem_chunkSet {chunks : List ChunkHandle} {chunk : ChunkHandle} :
    chunk ∈ chunkSet chunks ↔ chunk ∈ chunks := by
  rw [chunkSet, ModuleGraph.mem_dedupAdjacent, List.mem_insertionSort]

theorem nodup_chunkSet (chunks : List ChunkHandle) : (chunkSet chunks).Nodup := by
  rw [chunkSet, ModuleGraph.dedupAdjacent,
    List.Pairwise.destutter_eq_dedup (List.pairwise_insertionSort (· ≤ ·) chunks)]
  exact List.nodup_dedup _

theorem length_chunkSet_le {chunks others : List ChunkHandle}
    (hsub : ∀ chunk ∈ chunks, chunk ∈ others) :
    (chunkSet chunks).length ≤ (chunkSet others).length := by
  apply (List.subperm_of_subset (nodup_chunkSet chunks) ?_).length_le
  intro chunk hchunk
  exact mem_chunkSet.mpr (hsub chunk (mem_chunkSet.mp hchunk))

theorem foldl_addToChunkSet (minChunks : Nat)
    (entries : List (Sigma fun _ : ModuleHandle => List ChunkHandle))
    (table : FxHashMap (List ChunkHandle) (List ModuleHandle))
    (htable : ∀ key row, table.lookup key = some row → row ≠ []) :
    (∀ key row, (entries.foldl (addToChunkSet minChunks) table).lookup key = some row → row ≠ []) ∧
      ∀ chunks module, module ∈ ((entries.foldl (addToChunkSet minChunks) table).lookup
          chunks).getD [] ↔
        module ∈ (table.lookup chunks).getD [] ∨ ∃ entry ∈ entries, entry.1 = module ∧
          chunkSet entry.2 = chunks ∧ minChunks ≤ (chunkSet entry.2).length := by
  induction entries generalizing table with
  | nil => exact ⟨htable, by simp⟩
  | cons entry entries ih =>
      rw [List.foldl_cons, addToChunkSet]
      split_ifs with hmin
      · obtain ⟨hne, hmem⟩ := ih _ (ne_nil_of_lookup_insert htable (chunkSet entry.2) entry.1)
        refine ⟨hne, fun chunks module => ?_⟩
        rw [hmem, mem_getD_insert]
        simp only [List.mem_cons, exists_eq_or_imp]
        rw [or_assoc]
        refine or_congr Iff.rfl (or_congr ?_ Iff.rfl)
        constructor
        · rintro ⟨hset, hmodule⟩
          exact ⟨hmodule.symm, hset.symm, hmin⟩
        · rintro ⟨hmodule, hset, -⟩
          exact ⟨hset.symm, hmodule.symm⟩
      · obtain ⟨hne, hmem⟩ := ih _ htable
        refine ⟨hne, fun chunks module => ?_⟩
        rw [hmem]
        simp [hmin]

/-- What the split loop is given: sources are async chunks that cover every async chunk of the modules
moved, a module in more async chunks than a moved one is moved too, and no module is moved twice. -/
structure CandidatesOk (chunkGraph : ChunkGraph) (name : Option String)
    (candidates : List (List ChunkHandle × List ModuleHandle)) : Prop where
  sources : ∀ candidate ∈ candidates, ∀ chunk ∈ candidate.1, chunk ∈ chunkGraph.asyncChunks
  covers : ∀ candidate ∈ candidates, ∀ module ∈ candidate.2, ∀ chunk ∈ chunkGraph.asyncChunks,
    module ∈ chunkGraph.chunkModules chunk → chunk ∈ candidate.1
  carried : ∀ candidate ∈ candidates, ∀ module ∈ candidate.2,
    ∃ chunk ∈ chunkGraph.asyncChunks, module ∈ chunkGraph.chunkModules chunk
  upward : ∀ candidate ∈ candidates, ∀ module ∈ candidate.2, ∀ other,
    (∀ chunk ∈ chunkGraph.asyncChunks, module ∈ chunkGraph.chunkModules chunk →
      other ∈ chunkGraph.chunkModules chunk) → ∃ candidate' ∈ candidates, other ∈ candidate'.2
  unique : ∀ (left right : Nat) (leftItem rightItem : List ChunkHandle × List ModuleHandle),
    candidates[left]? = some leftItem → candidates[right]? = some rightItem →
    ∀ module, module ∈ leftItem.2 → module ∈ rightItem.2 → left = right
  unnamed : name = none → ∀ candidate ∈ candidates, ∀ module ∈ candidate.2, ∀ chunk ∈ candidate.1,
    module ∈ chunkGraph.chunkModules chunk

section

variable (chunkGraph : ChunkGraph) (minChunks : Nat)

/-- The async chunks of a module. -/
def asyncChunksOf (module : ModuleHandle) : List ChunkHandle :=
  ((chunkGraph.chunksByModule chunkGraph.asyncChunks).lookup module).getD []

theorem mem_asyncChunksOf {module : ModuleHandle} {chunk : ChunkHandle} :
    chunk ∈ chunkGraph.asyncChunksOf module ↔
      chunk ∈ chunkGraph.asyncChunks ∧ module ∈ chunkGraph.chunkModules chunk := by
  obtain ⟨-, hmem⟩ := foldl_chunkRows chunkGraph chunkGraph.asyncChunks ∅ (by simp)
  rw [asyncChunksOf, chunksByModule, hmem]
  simp

theorem mem_modulesByChunkSet {chunks : List ChunkHandle} {module : ModuleHandle} :
    module ∈ ((modulesByChunkSet minChunks (chunkGraph.chunksByModule
        chunkGraph.asyncChunks)).lookup chunks).getD [] ↔
      chunkGraph.asyncChunksOf module ≠ [] ∧ chunkSet (chunkGraph.asyncChunksOf module) = chunks ∧
        minChunks ≤ chunks.length := by
  obtain ⟨hne, -⟩ := foldl_chunkRows chunkGraph chunkGraph.asyncChunks ∅ (by simp)
  obtain ⟨-, hrows⟩ := foldl_addToChunkSet minChunks
    (chunkGraph.chunksByModule chunkGraph.asyncChunks).entries ∅ (by simp)
  rw [modulesByChunkSet, hrows]
  constructor
  · rintro (habsurd | ⟨row, hrow, rfl, hset, hmin⟩)
    · exact absurd habsurd (by simp)
    · have hrow' := mem_entries_iff_lookup.mp hrow
      rw [asyncChunksOf, hrow', Option.getD_some]
      exact ⟨hne _ _ hrow', hset, hset ▸ hmin⟩
  · rintro ⟨hsome, hset, hmin⟩
    cases hlookup : (chunkGraph.chunksByModule chunkGraph.asyncChunks).lookup module with
    | none =>
        rw [asyncChunksOf, hlookup] at hsome
        exact absurd rfl hsome
    | some row =>
        rw [asyncChunksOf, hlookup, Option.getD_some] at hset
        exact Or.inr ⟨⟨module, row⟩, mem_entries_iff_lookup.mpr hlookup, rfl, hset,
          hset.symm ▸ hmin⟩

theorem mem_sharedSets {candidate : List ChunkHandle × List ModuleHandle} :
    candidate ∈ chunkGraph.sharedSets minChunks ↔ (modulesByChunkSet minChunks
      (chunkGraph.chunksByModule chunkGraph.asyncChunks)).lookup candidate.1 =
        some candidate.2 := by
  rw [sharedSets, List.mem_insertionSort, List.mem_map]
  constructor
  · rintro ⟨entry, hentry, rfl⟩
    exact mem_entries_iff_lookup.mp hentry
  · exact fun h => ⟨⟨candidate.1, candidate.2⟩, mem_entries_iff_lookup.mpr h, rfl⟩

theorem mem_sharedSet {candidate : List ChunkHandle × List ModuleHandle}
    (h : candidate ∈ chunkGraph.sharedSets minChunks) (module : ModuleHandle) :
    module ∈ candidate.2 ↔ chunkGraph.asyncChunksOf module ≠ [] ∧
      chunkSet (chunkGraph.asyncChunksOf module) = candidate.1 ∧ minChunks ≤ candidate.1.length := by
  rw [← mem_modulesByChunkSet, (mem_sharedSets chunkGraph minChunks).mp h]
  rfl

/-- Every module in enough async chunks is in a shared set. -/
theorem exists_sharedSet {module : ModuleHandle} (hne : chunkGraph.asyncChunksOf module ≠ [])
    (hmin : minChunks ≤ (chunkSet (chunkGraph.asyncChunksOf module)).length) :
    ∃ candidate ∈ chunkGraph.sharedSets minChunks, module ∈ candidate.2 := by
  have hmem := (mem_modulesByChunkSet chunkGraph minChunks).mpr ⟨hne, rfl, hmin⟩
  cases hlookup : (modulesByChunkSet minChunks (chunkGraph.chunksByModule
      chunkGraph.asyncChunks)).lookup (chunkSet (chunkGraph.asyncChunksOf module)) with
  | none =>
      rw [hlookup] at hmem
      exact absurd hmem List.not_mem_nil
  | some modules =>
      rw [hlookup] at hmem
      exact ⟨(_, modules), (mem_sharedSets chunkGraph minChunks).mpr hlookup, hmem⟩

theorem nodup_sharedSets_keys : ((chunkGraph.sharedSets minChunks).map (·.1)).Nodup := by
  have hperm := (List.perm_insertionSort
    (fun left right : List ChunkHandle × List ModuleHandle => left.1 ≤ right.1)
    ((modulesByChunkSet minChunks (chunkGraph.chunksByModule
      chunkGraph.asyncChunks)).entries.map fun entry => (entry.1, entry.2))).map (·.1)
  rw [sharedSets, hperm.nodup_iff, List.map_map]
  exact AList.keys_nodup _

theorem candidatesOk_sharedSets (name : Option String) :
    CandidatesOk chunkGraph name (chunkGraph.sharedSets minChunks) where
  sources := by
    intro candidate hmem chunk hchunk
    obtain ⟨hne, -⟩ := foldl_addToChunkSet minChunks
      (chunkGraph.chunksByModule chunkGraph.asyncChunks).entries ∅ (by simp)
    obtain ⟨module, hmodule⟩ := List.exists_mem_of_ne_nil _
      (hne _ _ ((mem_sharedSets chunkGraph minChunks).mp hmem))
    obtain ⟨-, hset, -⟩ := (mem_sharedSet chunkGraph minChunks hmem module).mp hmodule
    rw [← hset, mem_chunkSet, mem_asyncChunksOf] at hchunk
    exact hchunk.1
  covers := by
    intro candidate hmem module hmodule chunk hasync hin
    obtain ⟨-, hset, -⟩ := (mem_sharedSet chunkGraph minChunks hmem module).mp hmodule
    rw [← hset, mem_chunkSet, mem_asyncChunksOf]
    exact ⟨hasync, hin⟩
  carried := by
    intro candidate hmem module hmodule
    obtain ⟨hne, -, -⟩ := (mem_sharedSet chunkGraph minChunks hmem module).mp hmodule
    obtain ⟨chunk, hchunk⟩ := List.exists_mem_of_ne_nil _ hne
    exact ⟨chunk, (mem_asyncChunksOf chunkGraph).mp hchunk⟩
  upward := by
    intro candidate hmem module hmodule other hsub
    obtain ⟨hne, hset, hmin⟩ := (mem_sharedSet chunkGraph minChunks hmem module).mp hmodule
    have hsub' : ∀ chunk ∈ chunkGraph.asyncChunksOf module,
        chunk ∈ chunkGraph.asyncChunksOf other := by
      intro chunk hchunk
      obtain ⟨hasync, hin⟩ := (mem_asyncChunksOf chunkGraph).mp hchunk
      exact (mem_asyncChunksOf chunkGraph).mpr ⟨hasync, hsub chunk hasync hin⟩
    rw [← hset] at hmin
    refine exists_sharedSet chunkGraph minChunks ?_ (hmin.trans (length_chunkSet_le hsub'))
    obtain ⟨chunk, hchunk⟩ := List.exists_mem_of_ne_nil _ hne
    exact List.ne_nil_of_mem (hsub' chunk hchunk)
  unique := by
    intro left right leftItem rightItem hleft hright module hmodule hmodule'
    obtain ⟨-, hleftKey, -⟩ :=
      (mem_sharedSet chunkGraph minChunks (List.mem_of_getElem? hleft) module).mp hmodule
    obtain ⟨-, hrightKey, -⟩ :=
      (mem_sharedSet chunkGraph minChunks (List.mem_of_getElem? hright) module).mp hmodule'
    have hlt : left < ((chunkGraph.sharedSets minChunks).map (·.1)).length := by
      rw [List.length_map]
      exact (List.getElem?_eq_some_iff.mp hleft).choose
    refine (List.getElem?_inj hlt (nodup_sharedSets_keys chunkGraph minChunks)).mp ?_
    rw [List.getElem?_map, List.getElem?_map, hleft, hright]
    exact congrArg some (hleftKey.symm.trans hrightKey)
  unnamed := by
    intro _ candidate hmem module hmodule chunk hchunk
    obtain ⟨-, hset, -⟩ := (mem_sharedSet chunkGraph minChunks hmem module).mp hmodule
    rw [← hset, mem_chunkSet, mem_asyncChunksOf] at hchunk
    exact hchunk.2

/-- A name merges the shared sets into one candidate. -/
theorem candidatesOk_merged {name : Option String} (hname : name ≠ none)
    {candidates : List (List ChunkHandle × List ModuleHandle)}
    (h : CandidatesOk chunkGraph name candidates) :
    CandidatesOk chunkGraph name
      [(chunkSet (candidates.flatMap (·.1)), candidates.flatMap (·.2))] where
  sources := by
    intro candidate hmem chunk hchunk
    rw [List.mem_singleton.mp hmem, mem_chunkSet, List.mem_flatMap] at hchunk
    obtain ⟨source, hsource, hin⟩ := hchunk
    exact h.sources source hsource chunk hin
  covers := by
    intro candidate hmem module hmodule chunk hasync hin
    rw [List.mem_singleton.mp hmem] at hmodule ⊢
    obtain ⟨source, hsource, hmoved⟩ := List.mem_flatMap.mp hmodule
    exact mem_chunkSet.mpr (List.mem_flatMap.mpr
      ⟨source, hsource, h.covers source hsource module hmoved chunk hasync hin⟩)
  carried := by
    intro candidate hmem module hmodule
    rw [List.mem_singleton.mp hmem] at hmodule
    obtain ⟨source, hsource, hmoved⟩ := List.mem_flatMap.mp hmodule
    exact h.carried source hsource module hmoved
  upward := by
    intro candidate hmem module hmodule other hsub
    rw [List.mem_singleton.mp hmem] at hmodule
    obtain ⟨source, hsource, hmoved⟩ := List.mem_flatMap.mp hmodule
    obtain ⟨source', hsource', hother⟩ := h.upward source hsource module hmoved other hsub
    exact ⟨_, List.mem_singleton_self _, List.mem_flatMap.mpr ⟨source', hsource', hother⟩⟩
  unique := by
    intro left right leftItem rightItem hleft hright _ _ _
    have hl := (List.getElem?_eq_some_iff.mp hleft).choose
    have hr := (List.getElem?_eq_some_iff.mp hright).choose
    rw [List.length_singleton] at hl hr
    omega
  unnamed := fun hnone => absurd hnone hname

theorem candidatesOk_splitCandidates (name : Option String) :
    CandidatesOk chunkGraph name (chunkGraph.splitCandidates minChunks name) := by
  rw [splitCandidates]
  split_ifs with hmerge
  · refine candidatesOk_merged chunkGraph ?_ (candidatesOk_sharedSets chunkGraph minChunks name)
    rintro rfl
    exact Bool.noConfusion hmerge.1
  · exact candidatesOk_sharedSets chunkGraph minChunks name

end

end ChunkGraph

end Unpack
