import Unpack.OptimizeDependencies

/-! The side effects phase prunes no side effect. Whoever imports a module that leads to an impure one
is impure too, so its import is neither rewritten nor made inactive: the whole path survives. -/

namespace Unpack

open Worklist

namespace ModuleGraph

variable {graph : ModuleGraph}

/-- `module` leads over side-effect imports to a module that is not marked free of them. -/
def LeadsToSideEffect (graph : ModuleGraph) (module : ModuleHandle) : Prop :=
  ∃ impure, Reach graph.sideEffectTargets module impure ∧
    graph.isFlaggedSideEffectFree impure = false

theorem mem_sideEffectTargets (h : graph.Indexed) {module target : ModuleHandle} :
    target ∈ graph.sideEffectTargets module ↔ ∃ connection ∈ graph.connections,
      connection.originModule = some module ∧
        connection.dependency.isHarmonyImportSideEffect = true ∧ connection.module = target := by
  simp only [sideEffectTargets, List.mem_map, List.mem_filter, h.mem_outgoingConnections, and_assoc]

theorem sideEffectTargets_lt (h : graph.Indexed) {module target : ModuleHandle}
    (htarget : target ∈ graph.sideEffectTargets module) : target < graph.modules.length := by
  obtain ⟨connection, hconnection, -, -, rfl⟩ := (mem_sideEffectTargets h).mp htarget
  exact h.target_lt connection hconnection

/-- **Purity.** A module is side-effect free exactly when it leads to no impure module. -/
theorem moduleHasSideEffects_iff (h : graph.Indexed) {module : ModuleHandle}
    (hlt : module < graph.modules.length) :
    graph.moduleHasSideEffects module = true ↔ graph.LeadsToSideEffect module := by
  have hfree : graph.moduleIsSideEffectFree module = true ↔
      ∀ other, Reach graph.sideEffectTargets module other →
        graph.isFlaggedSideEffectFree other = true :=
    PathSearch.allGood_iff (List.range graph.modules.length)
      (fun _ _ target htarget => List.mem_range.mpr (sideEffectTargets_lt h htarget))
      (List.mem_range.mpr hlt) (by rw [List.length_range])
  rw [moduleHasSideEffects, Bool.not_eq_true', ← Bool.not_eq_true, hfree]
  constructor
  · intro hnot
    obtain ⟨impure, himpure⟩ := not_forall.mp hnot
    obtain ⟨hreach, hflag⟩ := Classical.not_imp.mp himpure
    exact ⟨impure, hreach, Bool.eq_false_iff.mpr hflag⟩
  · rintro ⟨impure, hreach, hflag⟩ hall
    rw [hall impure hreach] at hflag
    exact Bool.noConfusion hflag

/-- Nothing is resolved through a module with side effects, so imports of it stay as they are. -/
theorem rewritten_of_sideEffects {connection : ModuleGraphConnection}
    (hsideEffects : graph.moduleHasSideEffects connection.module = true) :
    graph.rewritten connection = connection := by
  unfold rewritten
  cases hrewrite : graph.connectionRewrite connection with
  | none => rfl
  | some rewrite =>
      obtain ⟨-, exportName, hresolve⟩ := connectionRewrite_spec hrewrite
      rw [moduleHasSideEffects, resolveReexportTarget_free hresolve] at hsideEffects
      exact Bool.noConfusion hsideEffects

/-- The rewrites keep every side-effect import that leads to an impure module. -/
theorem sideEffectTargets_rewriteConnections (h : graph.Indexed) {module target : ModuleHandle}
    (htarget : target ∈ graph.sideEffectTargets module) (hleads : graph.LeadsToSideEffect target) :
    target ∈ graph.rewriteConnections.sideEffectTargets module := by
  obtain ⟨hindexed, -, -, hconnections⟩ := rewriteConnections_spec h
  obtain ⟨connection, hconnection, horigin, hdep, rfl⟩ := (mem_sideEffectTargets h).mp htarget
  have hsideEffects :=
    (moduleHasSideEffects_iff h (h.target_lt connection hconnection)).mpr hleads
  refine (mem_sideEffectTargets hindexed).mpr ⟨connection, ?_, horigin, hdep, rfl⟩
  rw [hconnections, ← rewritten_of_sideEffects hsideEffects]
  exact List.mem_map_of_mem hconnection

theorem reach_rewriteConnections (h : graph.Indexed) {module impure : ModuleHandle}
    (hreach : Reach graph.sideEffectTargets module impure)
    (hflag : graph.isFlaggedSideEffectFree impure = false) :
    Reach graph.rewriteConnections.sideEffectTargets module impure := by
  induction hreach using Relation.ReflTransGen.head_induction_on with
  | refl => exact Reach.refl impure
  | head hstep hrest ih =>
      exact ih.head (sideEffectTargets_rewriteConnections h hstep ⟨impure, hrest, hflag⟩)

/-- On the rewritten graph, an import that leads to an impure module becomes an active one. -/
theorem staticSuccessors_optimizeDependencies (h : graph.Indexed) (hunblocked : graph.StaticUnblocked)
    {module target : ModuleHandle}
    (htarget : target ∈ graph.rewriteConnections.sideEffectTargets module)
    (hleads : graph.rewriteConnections.LeadsToSideEffect target) :
    target ∈ graph.optimizeDependencies.staticSuccessors module := by
  obtain ⟨hindexed, -, -, hconnections⟩ := rewriteConnections_spec h
  obtain ⟨hindexed', -, -, hconnections'⟩ := optimizeDependencies_spec h
  obtain ⟨connection, hconnection, horigin, hdep, rfl⟩ :=
    (mem_sideEffectTargets hindexed).mp htarget
  have hsideEffects :=
    (moduleHasSideEffects_iff hindexed (hindexed.target_lt connection hconnection)).mpr hleads
  have hactive : graph.rewriteConnections.connectionIsActive connection = true := by
    unfold connectionIsActive
    cases hkind : connection.dependency with
    | harmonyImportSideEffect dependency =>
        dsimp only
        rw [hsideEffects, Bool.true_or]
    | _ => simp [hkind, Dependency.isHarmonyImportSideEffect] at hdep
  rw [hconnections] at hconnection
  obtain ⟨before, hbefore, rfl⟩ := List.mem_map.mp hconnection
  have hstatic := Dependency.isStaticModuleDependency_of_isHarmonyImportSideEffect hdep
  refine (mem_staticSuccessors hindexed').mpr ⟨graph.optimized before, ?_, horigin, ?_, rfl⟩
  · rw [hconnections']
    exact List.mem_map_of_mem hbefore
  · have hblock : (graph.optimized before).originBlock = none :=
      (originBlock_rewritten before).trans (hunblocked before hbefore
        ((isStaticModuleDependency_rewritten before).symm.trans hstatic))
    have hkept : (graph.optimized before).dependency.isStaticModuleDependency = true := hstatic
    rw [ModuleGraphConnection.isStatic, hblock, hkept, isActive_optimized, hactive]
    rfl

theorem staticReach_optimizeDependencies (h : graph.Indexed) (hunblocked : graph.StaticUnblocked)
    {module impure : ModuleHandle}
    (hreach : Reach graph.rewriteConnections.sideEffectTargets module impure)
    (hflag : graph.rewriteConnections.isFlaggedSideEffectFree impure = false) :
    graph.optimizeDependencies.StaticReach module impure := by
  induction hreach using Relation.ReflTransGen.head_induction_on with
  | refl => exact Reach.refl impure
  | head hstep hrest ih =>
      exact ih.head (staticSuccessors_optimizeDependencies h hunblocked hstep ⟨impure, hrest, hflag⟩)

end ModuleGraph

/-- **No evaluated side effect is pruned.** What is not marked side-effect free and was imported from
`root` for its side effects is still in the static walk from `root` after the side effects phase. -/
theorem side_effects_not_pruned (graph : ModuleGraph) (root impure : ModuleHandle)
    (hgraph : graph.Indexed) (hunblocked : graph.StaticUnblocked) (hroot : root < graph.modules.length)
    (hreach : Reach graph.sideEffectTargets root impure)
    (hflag : graph.isFlaggedSideEffectFree impure = false) :
    impure ∈ graph.optimizeDependencies.collectStaticReachable root := by
  obtain ⟨-, hmodules, -, -⟩ := ModuleGraph.rewriteConnections_spec hgraph
  obtain ⟨hindexed, hmodules', -, -⟩ := ModuleGraph.optimizeDependencies_spec hgraph
  have hflag' : graph.rewriteConnections.isFlaggedSideEffectFree impure = false := by
    rw [ModuleGraph.isFlaggedSideEffectFree, ModuleGraph.module, hmodules]
    exact hflag
  rw [ModuleGraph.mem_collectStaticReachable hindexed (hmodules' ▸ hroot)]
  exact ModuleGraph.staticReach_optimizeDependencies hgraph hunblocked
    (ModuleGraph.reach_rewriteConnections hgraph hreach hflag) hflag'

/-- `a` imports `b`, which is marked pure and imports the impure `c`, and a pure `d` beside it. -/
def pureChainGraph : ModuleGraph :=
  .ofModules [.javaScript "a" [.bareImport "b", .bareImport "d"] [],
    { Module.javaScript "b" [.bareImport "c"] [] with factorySideEffectFree := some true },
    .javaScript "c" [] [],
    { Module.javaScript "d" [] [] with factorySideEffectFree := some true }] [0]

theorem side_effects_not_pruned_pureChain :
    2 ∈ pureChainGraph.optimizeDependencies.collectStaticReachable 0 :=
  side_effects_not_pruned pureChainGraph 0 2 (by decide) (by decide) (by decide)
    (Reach.head (b := 1) (by decide) (Reach.head (b := 2) (by decide) (Reach.refl 2))) (by decide)

example : 3 ∉ pureChainGraph.optimizeDependencies.collectStaticReachable 0 := by decide

end Unpack
