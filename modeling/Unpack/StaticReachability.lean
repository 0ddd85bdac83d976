import Unpack.BuildChunkGraph
import Mathlib.Data.List.Destutter

/-! What the graph walks of chunk construction compute: the static walk collects exactly the modules
that active static connections reach, and the dynamic imports of some modules depend only on which
modules they are. -/

namespace Unpack

namespace ModuleGraph

/-- Reachability through active static connections outside blocks. -/
def StaticReach (graph : ModuleGraph) : ModuleHandle → ModuleHandle → Prop :=
  Worklist.Reach graph.staticSuccessors

/-- A dynamic import of the module in a block of this module. -/
def ImportsFrom (graph : ModuleGraph) (origin : AsyncBlockOrigin) (target : ModuleHandle) : Prop :=
  (∃ module block, graph.module origin.module = some module ∧
      module.blocks[origin.block]? = some block ∧
      block.dependencies.any Dependency.isImportDependency = true) ∧
    graph.importBlockTarget origin = some target

section

variable {graph : ModuleGraph}

theorem mem_staticSuccessors (h : graph.Indexed) {module target : ModuleHandle} :
    target ∈ graph.staticSuccessors module ↔ ∃ connection ∈ graph.connections,
      connection.originModule = some module ∧ connection.isStatic = true ∧
        connection.module = target := by
  simp only [staticSuccessors, List.mem_map, List.mem_filter, h.mem_outgoingConnections, and_assoc]

theorem staticSuccessors_lt (h : graph.Indexed) {module target : ModuleHandle}
    (htarget : target ∈ graph.staticSuccessors module) : target < graph.modules.length := by
  obtain ⟨connection, hconnection, -, -, rfl⟩ := (mem_staticSuccessors h).mp htarget
  exact h.target_lt connection hconnection

theorem StaticReach.lt (h : graph.Indexed) {start module : ModuleHandle}
    (hreach : graph.StaticReach start module) (hstart : start < graph.modules.length) :
    module < graph.modules.length :=
  Worklist.Reach.mem_of_closed (P := fun m => m < graph.modules.length)
    (fun _ _ _ hsucc => staticSuccessors_lt h hsucc) hreach hstart

theorem sum_staticSuccessors_le (h : graph.Indexed) :
    ((List.range graph.modules.length).map fun m => (graph.staticSuccessors m).length).sum ≤
      graph.connections.length := by
  calc ((List.range graph.modules.length).map fun m => (graph.staticSuccessors m).length).sum
      ≤ ((List.range graph.modules.length).map fun m => (graph.connections.filter fun connection =>
          connection.originModule = some m).length).sum := by
        apply List.sum_le_sum
        intro m _
        rw [staticSuccessors, List.length_map, h.outgoingConnections_eq]
        exact List.length_filter_le _ _
    _ ≤ graph.connections.length :=
        Worklist.sum_length_filter_le ModuleGraphConnection.originModule _ _ List.nodup_range

/-- The static walk is exact. -/
theorem mem_collectStaticReachable (h : graph.Indexed) {start : ModuleHandle}
    (hstart : start < graph.modules.length) (module : ModuleHandle) :
    module ∈ graph.collectStaticReachable start ↔ graph.StaticReach start module := by
  apply Worklist.mem_collect_iff graph.staticSuccessors (List.range graph.modules.length)
  · intro m _ target htarget
    exact List.mem_range.mpr (staticSuccessors_lt h htarget)
  · exact List.mem_range.mpr hstart
  · have := sum_staticSuccessors_le h
    omega

theorem importBlockTarget_eq_some (h : graph.Indexed) {origin : AsyncBlockOrigin}
    {target : ModuleHandle} (htarget : graph.importBlockTarget origin = some target) :
    ∃ connection ∈ graph.connections, connection.originModule = some origin.module ∧
      connection.originBlock = some origin.block ∧ connection.dependency.isImportDependency = true ∧
      connection.module = target := by
  obtain ⟨connection, hfind, rfl⟩ := Option.map_eq_some_iff.mp htarget
  have hprop := List.find?_some hfind
  rw [Bool.and_eq_true, decide_eq_true_eq] at hprop
  obtain ⟨hconnection, horigin⟩ := h.mem_outgoingConnections.mp (List.mem_of_find?_eq_some hfind)
  exact ⟨connection, hconnection, horigin, hprop.1, hprop.2, rfl⟩

theorem importBlockTarget_lt (h : graph.Indexed) {origin : AsyncBlockOrigin}
    {target : ModuleHandle} (htarget : graph.importBlockTarget origin = some target) :
    target < graph.modules.length := by
  obtain ⟨connection, hconnection, -, -, -, rfl⟩ := importBlockTarget_eq_some h htarget
  exact h.target_lt connection hconnection

theorem mem_dedupAdjacent {α : Type} [DecidableEq α] {items : List α} {item : α} :
    item ∈ dedupAdjacent items ↔ item ∈ items := by
  constructor
  · exact fun hmem => (List.destutter_sublist _ items).subset hmem
  · cases items with
    | nil => exact id
    | cons first items =>
        intro hmem
        rw [dedupAdjacent, List.destutter_cons']
        induction items generalizing first with
        | nil => simpa using hmem
        | cons second items ih =>
            by_cases hne : first ≠ second
            · rw [List.destutter'_cons_pos _ hne, List.mem_cons]
              rcases List.mem_cons.mp hmem with heq | hmem
              · exact Or.inl heq
              · exact Or.inr (ih second hmem)
            · rw [List.destutter'_cons_neg _ hne]
              rw [not_not] at hne
              subst hne
              refine ih first ?_
              rcases List.mem_cons.mp hmem with heq | hmem
              · exact heq ▸ List.mem_cons_self
              · exact hmem

theorem mem_dynamicImportOrigins {modules : List ModuleHandle} {origin : AsyncBlockOrigin}
    {target : ModuleHandle} :
    (origin, target) ∈ graph.dynamicImportOrigins modules ↔
      origin.module ∈ modules ∧ graph.ImportsFrom origin target := by
  simp only [dynamicImportOrigins, mem_dedupAdjacent, List.mem_insertionSort, List.mem_flatMap]
  constructor
  · rintro ⟨module, hmodule, hmem⟩
    cases hget : graph.module module with
    | none => simp [hget] at hmem
    | some moduleRef =>
        simp only [hget, Option.elim_some, List.mem_filterMap] at hmem
        obtain ⟨⟨block, blockIndex⟩, hblock, hitem⟩ := hmem
        split_ifs at hitem with hany
        obtain ⟨found, hfound, hpair⟩ := Option.map_eq_some_iff.mp hitem
        obtain ⟨rfl, rfl⟩ := Prod.mk.inj hpair
        refine ⟨hmodule, ⟨moduleRef, block, hget, ?_, hany⟩, hfound⟩
        exact List.mem_zipIdx_iff_getElem?.mp hblock
  · rintro ⟨hmodule, ⟨moduleRef, block, hget, hblock, hany⟩, htarget⟩
    refine ⟨origin.module, hmodule, ?_⟩
    simp only [hget, Option.elim_some, List.mem_filterMap]
    refine ⟨(block, origin.block), List.mem_zipIdx_iff_getElem?.mpr hblock, ?_⟩
    rw [if_pos hany, Option.map_eq_some_iff]
    exact ⟨target, htarget, rfl⟩

/-- A dynamic import block names one target. -/
theorem ImportsFrom.target_unique {origin : AsyncBlockOrigin} {left right : ModuleHandle}
    (hleft : graph.ImportsFrom origin left) (hright : graph.ImportsFrom origin right) :
    left = right :=
  Option.some.inj (hleft.2.symm.trans hright.2)

end

end ModuleGraph

end Unpack
