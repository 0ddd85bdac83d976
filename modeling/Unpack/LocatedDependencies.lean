import Unpack.StaticReachability

/-! Dependencies by their locations: a location holds one dependency, and the connection made there is a
connection of that dependency, up to the first id that the side effects phase rewrites. -/

namespace Unpack

theorem Module.mem_locatedDependencies_none {module : Module} {index : DependencyIndex}
    {dependency : Dependency} :
    ((⟨none, index⟩ : DependencyLocation), dependency) ∈ module.locatedDependencies ↔
      module.dependencies[index]? = some dependency := by
  simp only [locatedDependencies, List.mem_append, List.mem_map, List.mem_flatMap, Prod.exists,
    Prod.mk.injEq, DependencyLocation.mk.injEq, reduceCtorEq, false_and, and_false, exists_false,
    or_false, true_and, List.mem_zipIdx_iff_getElem?]
  constructor
  · rintro ⟨found, position, hfound, rfl, rfl⟩
    exact hfound
  · exact fun hget => ⟨dependency, index, hget, rfl, rfl⟩

theorem Module.mem_locatedDependencies_some {module : Module}
    {blockIndex : AsyncDependenciesBlockIndex} {index : DependencyIndex} {dependency : Dependency} :
    ((⟨some blockIndex, index⟩ : DependencyLocation), dependency) ∈ module.locatedDependencies ↔
      ∃ block, module.blocks[blockIndex]? = some block ∧
        block.dependencies[index]? = some dependency := by
  simp only [locatedDependencies, List.mem_append, List.mem_map, List.mem_flatMap, Prod.exists,
    Prod.mk.injEq, DependencyLocation.mk.injEq, reduceCtorEq, false_and, and_false, exists_false,
    false_or, Option.some.injEq, List.mem_zipIdx_iff_getElem?]
  constructor
  · rintro ⟨block, position, hblock, found, place, hfound, ⟨rfl, rfl⟩, rfl⟩
    exact ⟨block, hblock, hfound⟩
  · rintro ⟨block, hblock, hget⟩
    exact ⟨block, blockIndex, hblock, dependency, index, hget, ⟨rfl, rfl⟩, rfl⟩

theorem Module.located_unique {module : Module} {location : DependencyLocation}
    {left right : Dependency} (hleft : (location, left) ∈ module.locatedDependencies)
    (hright : (location, right) ∈ module.locatedDependencies) : left = right := by
  obtain ⟨block, index⟩ := location
  cases block with
  | none =>
      rw [mem_locatedDependencies_none] at hleft hright
      exact Option.some.inj (hleft.symm.trans hright)
  | some blockIndex =>
      obtain ⟨block, hblock, hget⟩ := mem_locatedDependencies_some.mp hleft
      obtain ⟨block', hblock', hget'⟩ := mem_locatedDependencies_some.mp hright
      obtain rfl := Option.some.inj (hblock.symm.trans hblock')
      exact Option.some.inj (hget.symm.trans hget')

namespace ModuleGraph

variable {graph : ModuleGraph}

/-- A module with a dependency has not failed. -/
theorem WellFormed.built (h : graph.WellFormed) {handle : ModuleHandle} {module : Module}
    (hmodule : graph.module handle = some module) {located : DependencyLocation × Dependency}
    (hlocated : located ∈ module.locatedDependencies) : module.buildError = none := by
  by_contra hfailed
  rw [h.failed_empty module (Indexed.mem_modules hmodule) hfailed] at hlocated
  exact List.not_mem_nil hlocated

/-- The connection at a location is one of the dependency there. -/
theorem WellFormed.dependency_at (h : graph.WellFormed) {connection : ModuleGraphConnection}
    (hconnection : connection ∈ graph.connections) {handle : ModuleHandle} {module : Module}
    (hmodule : graph.module handle = some module) {location : DependencyLocation}
    {dependency : Dependency} (hlocated : (location, dependency) ∈ module.locatedDependencies)
    (hat : connection.At handle location) :
    connection.dependency.setFirstId "" = dependency.setFirstId "" := by
  have hhandle := h.toIndexed.handle_eq hmodule
  obtain ⟨⟨location', dependency'⟩, hlocated', hat', hdep⟩ := h.located connection hconnection module
    (Indexed.mem_modules hmodule) (h.built hmodule hlocated) (hhandle ▸ hat.1)
  have hsame : location' = location := by
    obtain ⟨block, index⟩ := location
    obtain ⟨block', index'⟩ := location'
    obtain rfl : block' = block := hat'.2.1.symm.trans hat.2.1
    obtain rfl : index' = index := Option.some.inj (hat'.2.2.symm.trans hat.2.2)
    rfl
  subst hsame
  rw [hdep, Module.located_unique hlocated' hlocated]

/-- The template's lookup of a dynamic import finds what chunk construction found. -/
theorem WellFormed.importsFrom (h : graph.WellFormed) {handle target : ModuleHandle} {module : Module}
    {blockIndex : AsyncDependenciesBlockIndex} {block : AsyncDependenciesBlock}
    {index : DependencyIndex} {dependency : ImportDependency}
    (hmodule : graph.module handle = some module) (hblock : module.blocks[blockIndex]? = some block)
    (hdep : block.dependencies[index]? = some (.import dependency))
    (htarget : graph.moduleForDependency handle (some blockIndex) index = some target) :
    graph.ImportsFrom ⟨handle, blockIndex⟩ target := by
  obtain ⟨connection, hconnection, hat, rfl⟩ :=
    h.toIndexed.moduleForDependency_eq_some_iff.mp htarget
  have himport : connection.dependency.isImportDependency = true := by
    rw [← Dependency.isImportDependency_setFirstId "", h.dependency_at hconnection hmodule
      (Module.mem_locatedDependencies_some.mpr ⟨block, hblock, hdep⟩) hat]
    rfl
  refine ⟨⟨module, block, hmodule, hblock, List.any_eq_true.mpr
    ⟨_, List.mem_of_getElem? hdep, rfl⟩⟩, ?_⟩
  have hfound : ∃ found, (graph.outgoingConnections handle).find? (fun connection =>
      connection.originBlock = some blockIndex && connection.dependency.isImportDependency) =
        some found := by
    refine Option.isSome_iff_exists.mp (List.find?_isSome.mpr ⟨connection, ?_, ?_⟩)
    · exact h.toIndexed.mem_outgoingConnections.mpr ⟨hconnection, hat.1⟩
    · rw [himport, hat.2.1, Bool.and_true, decide_eq_true_eq]
  obtain ⟨found, hfind⟩ := hfound
  -- The block holds one dependency, so the first connection of the block is this one.
  obtain ⟨hmem, horigin⟩ := h.toIndexed.mem_outgoingConnections.mp (List.mem_of_find?_eq_some hfind)
  have hprop := List.find?_some hfind
  rw [Bool.and_eq_true, decide_eq_true_eq] at hprop
  have hhandle := h.toIndexed.handle_eq hmodule
  have hbuilt := h.built hmodule (Module.mem_locatedDependencies_some.mpr ⟨block, hblock, hdep⟩)
  obtain ⟨⟨⟨place, position⟩, other⟩, hlocated, hfoundAt, -⟩ := h.located found hmem module
    (Indexed.mem_modules hmodule) hbuilt (hhandle ▸ horigin)
  rw [hhandle] at hfoundAt
  obtain rfl : place = some blockIndex := hfoundAt.2.1.symm.trans hprop.1
  obtain ⟨block', hblock', hget⟩ := Module.mem_locatedDependencies_some.mp hlocated
  obtain rfl := Option.some.inj (hblock.symm.trans hblock')
  have hlength := (h.block_imports module (Indexed.mem_modules hmodule) block
    (List.mem_of_getElem? hblock)).1
  have hposition : position = index := by
    have hlt := (List.getElem?_eq_some_iff.mp hget).choose
    have hlt' := (List.getElem?_eq_some_iff.mp hdep).choose
    rw [hlength] at hlt hlt'
    exact (Nat.lt_one_iff.mp hlt).trans (Nat.lt_one_iff.mp hlt').symm
  subst hposition
  rw [h.toIndexed.at_injective hmem hconnection hfoundAt hat] at hfind
  rw [importBlockTarget, hfind]
  rfl

end ModuleGraph

end Unpack
