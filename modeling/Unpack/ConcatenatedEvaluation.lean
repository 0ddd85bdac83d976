import Unpack.Lib.ModuleLoading
import Unpack.RequiredTargets

/-! What concatenation does to the evaluation of modules. The initializers of a concatenation take the place of
the factories of its inner modules: they run once, they count as run from their start, and the factory of the root
runs the first of them. Inner modules are imported from within only, as far as the imports are active; from
outside an inactive import, which the search passes over, is emitted without a concatenation and left out with one. -/

namespace Unpack

open ModuleLoading

/-- The call that the import of a target becomes. -/
def DependencyTemplateContext.importCall (context : DependencyTemplateContext) (target : ModuleHandle) :
    Option (Call ModuleHandle) :=
  match context.internalScope target with
  | some scope => some (.initializer (scope.ordinal target))
  | none => (context.moduleRenderIds target).map fun _ => .require target

namespace HarmonyImportSideEffectDependency

variable {dependency : HarmonyImportSideEffectDependency} {context : DependencyTemplateContext}

/-- The statement for a call. -/
def callStatement (dependency : HarmonyImportSideEffectDependency) (context : DependencyTemplateContext) :
    Call ModuleHandle → String
  | .initializer slot =>
      (context.concatenationScope.elim "" (·.initializersName)) ++ "[" ++ toString slot ++ "]" ++ "();\n"
  | .require target =>
      requireStatement dependency.importVar (jsonRenderId ((context.moduleRenderIds target).getD (.number 0)))

/-- The template writes the statement for the call, if there is one. -/
theorem apply_eq_importCall {target : ModuleHandle}
    (htarget : context.connectionTarget none "Harmony import" = .ok target) (state : TemplateState) :
    dependency.apply context state =
      .ok ((context.importCall target).elim (state.addRuntimeRequirement .require) fun call =>
        (state.addRuntimeRequirement .require).addInitFragment .imports (dependency.callStatement context call)) := by
  simp only [apply, htarget, ok_bind, DependencyTemplateContext.importCall]
  cases hscope : context.internalScope target with
  | some scope =>
      have hfound : context.concatenationScope = some scope := (Option.filter_eq_some_iff.mp hscope).1
      simp only [Option.elim_some, callStatement, hfound, ConcatenationScope.initExpression]
      rfl
  | none =>
      cases hid : context.moduleRenderIds target with
      | none => rfl
      | some renderId =>
          simp only [Option.map_some, Option.elim_some, callStatement, hid, Option.getD_some]
          rfl

end HarmonyImportSideEffectDependency

namespace OptimizedCompilation

variable (compilation : OptimizedCompilation) (context : RenderPathContext)

/-- The root of the concatenation that the module is in, with the concatenation. -/
def concatenationOf (module : ModuleHandle) : Option (ModuleHandle × ConcatenatedModule) :=
  (List.range compilation.moduleGraph.modules.length).findSome? fun root =>
    ((compilation.sealedChunkGraph context).concatenatedModule root).bind fun concatenated =>
      if module ∈ concatenated.modules then some (root, concatenated) else none

/-- Every module of a concatenation has the initializer of its ordinal. -/
def layout : Layout ModuleHandle where
  slot module := (compilation.concatenationOf context module).map fun (root, concatenated) =>
    (root, (concatenated.concatenationScope compilation.moduleGraph).ordinal module)
  member root slot := ((compilation.sealedChunkGraph context).concatenatedModule root).bind (·.modules[slot]?)

/-- What the templates of a module are given, in the scope in which its code is generated. -/
def importContext (module : ModuleHandle) : DependencyTemplateContext where
  module := module
  originBlock := none
  dependencyIndex := none
  moduleGraph := compilation.moduleGraph
  chunkGraph := compilation.sealedChunkGraph context
  exportsInfo := compilation.moduleGraph.exportsInfo module
  moduleRenderIds := compilation.moduleRenderId context
  concatenationScope := (compilation.concatenationOf context module).map fun (_, concatenated) =>
    concatenated.concatenationScope compilation.moduleGraph

def emit (module target : ModuleHandle) : Option (Call ModuleHandle) :=
  (compilation.importContext context module).importCall target

/-- The modules that have factories of their own. -/
def hasFactory (module : ModuleHandle) : Bool := (compilation.moduleRenderId context module).isSome

/-- The same compilation with every module for itself. -/
def withoutConcatenation : OptimizedCompilation :=
  { compilation with options := { compilation.options with concatenateModules := false } }

/-- The modules that are evaluated when the requested ones are required one after the other, and how that ends. -/
def evaluate {H Effect Answer Error : Type} (perform : Effect → H → Answer × H)
    (code : ModuleHandle → Code ModuleHandle Effect Answer Error) (fuel : Nat) (requests : List ModuleHandle)
    (heap : H) : List (Outcome Error) × Bundled ModuleHandle H :=
  bundledAll perform code (compilation.layout context) (compilation.emit context) fuel requests ⟨heap, ∅, ∅⟩

/-- The module has been evaluated, in its concatenation or by itself. -/
def Evaluated {H : Type} (state : Bundled ModuleHandle H) (module : ModuleHandle) : Prop :=
  match (compilation.layout context).slot module with
  | some place => place ∈ state.initialized
  | none => module ∈ state.cached

/-- The module has an import of the target, active or not. -/
def Imports (module target : ModuleHandle) : Prop :=
  ∃ found index dependency, compilation.moduleGraph.module module = some found ∧
    found.dependencies[index]? = some (.harmonyImportSideEffect dependency) ∧
      compilation.moduleGraph.moduleForDependency module none index = some target

/-- Every import of a module is written as the statement of the call that its evaluation makes. -/
def WritesCalls : Prop :=
  ∀ module found index dependency target, compilation.moduleGraph.module module = some found →
    found.dependencies[index]? = some (.harmonyImportSideEffect dependency) →
      compilation.moduleGraph.moduleForDependency module none index = some target → ∀ state,
        let importContext := { compilation.importContext context module with dependencyIndex := some index }
        dependency.apply importContext state =
          .ok ((compilation.emit context module target).elim (state.addRuntimeRequirement .require) fun call =>
            (state.addRuntimeRequirement .require).addInitFragment .imports
              (dependency.callStatement importContext call))

variable {compilation context}

theorem writesCalls : compilation.WritesCalls context := by
  intro module found index dependency target _ _ htarget state importContext
  refine HarmonyImportSideEffectDependency.apply_eq_importCall ?_ state
  rw [DependencyTemplateContext.connectionTarget]
  exact congrArg (expect · _) htarget

theorem isSome_moduleRenderId_iff {module : ModuleHandle} :
    (compilation.moduleRenderId context module).isSome ↔ module < compilation.moduleGraph.modules.length ∧
      compilation.optimizedChunkGraph.moduleChunks module ≠ [] := by
  have hsame := compilation.sameContent_sealed context
  constructor
  · intro hsome
    have hlt : module < compilation.moduleGraph.modules.length := by
      obtain ⟨renderId, hid⟩ := Option.isSome_iff_exists.mp hsome
      obtain ⟨found, hfound, -⟩ := Option.bind_eq_some_iff.mp hid
      exact ModuleGraph.Indexed.module_lt hfound
    rw [compilation.isSome_moduleRenderId context hlt, hsame.moduleChunks] at hsome
    exact ⟨hlt, hsome⟩
  · rintro ⟨hlt, hchunks⟩
    rw [compilation.isSome_moduleRenderId context hlt, hsame.moduleChunks]
    exact hchunks

theorem mem_concatenatedModule {configuration : ConcatenationConfiguration} {module : ModuleHandle} :
    module ∈ (compilation.moduleGraph.concatenatedModule configuration).modules ↔ module ∈ configuration.modules := by
  rw [ModuleGraph.concatenatedModule, ModuleGraph.mem_dedupAdjacent, List.mem_insertionSort]

/-- Every concatenation is made of a configuration that was applied. -/
theorem exists_configuration {applied : List ConcatenationConfiguration}
    (h : Concatenated compilation.moduleGraph compilation.chunkGraph compilation.entries applied
      compilation.optimizedChunkGraph) {root : ModuleHandle} {concatenated : ConcatenatedModule}
    (hconcatenated : (compilation.sealedChunkGraph context).concatenatedModule root = some concatenated) :
    ∃ configuration ∈ applied, configuration.root = root ∧
      concatenated = compilation.moduleGraph.concatenatedModule configuration := by
  rw [(compilation.sameContent_sealed context).concatenatedModule] at hconcatenated
  exact (h.concatenatedModule root concatenated).mp hconcatenated

theorem concatenated_root_mem {root : ModuleHandle} {concatenated : ConcatenatedModule}
    (hconcatenated : (compilation.sealedChunkGraph context).concatenatedModule root = some concatenated) :
    root ∈ concatenated.modules ∧ root < compilation.moduleGraph.modules.length := by
  obtain ⟨applied, h⟩ := compilation.optimized
  obtain ⟨configuration, hmem, rfl, rfl⟩ := exists_configuration h hconcatenated
  have hok := h.ok configuration hmem
  refine ⟨mem_concatenatedModule.mpr hok.root_mem, ?_⟩
  have hcan := hok.root_can
  rw [ModuleGraph.moduleCanConcatenate] at hcan
  cases hmodule : compilation.moduleGraph.module configuration.root with
  | none =>
      rw [hmodule] at hcan
      cases hcan
  | some module => exact ModuleGraph.Indexed.module_lt hmodule

theorem concatenated_nodup {root : ModuleHandle} {concatenated : ConcatenatedModule}
    (hconcatenated : (compilation.sealedChunkGraph context).concatenatedModule root = some concatenated) :
    concatenated.modules.Nodup := by
  obtain ⟨applied, h⟩ := compilation.optimized
  obtain ⟨configuration, hmem, -, rfl⟩ := exists_configuration h hconcatenated
  have hsorted := (List.perm_insertionSort (fun left right =>
    compilation.moduleGraph.identity left ≤ compilation.moduleGraph.identity right) configuration.modules).nodup_iff.mpr
      (h.ok configuration hmem).nodup
  exact hsorted.sublist (List.destutter_sublist _ _)

/-- Two concatenations that share a module are one. -/
theorem concatenated_unique {module root other : ModuleHandle} {concatenated concatenated' : ConcatenatedModule}
    (hroot : (compilation.sealedChunkGraph context).concatenatedModule root = some concatenated)
    (hother : (compilation.sealedChunkGraph context).concatenatedModule other = some concatenated')
    (hmem : module ∈ concatenated.modules) (hmem' : module ∈ concatenated'.modules) :
    root = other ∧ concatenated = concatenated' := by
  obtain ⟨applied, h⟩ := compilation.optimized
  obtain ⟨configuration, hconfiguration, rfl, rfl⟩ := exists_configuration h hroot
  obtain ⟨configuration', hconfiguration', rfl, rfl⟩ := exists_configuration h hother
  obtain rfl := h.eq_of_mem hconfiguration hconfiguration' (mem_concatenatedModule.mp hmem)
    (mem_concatenatedModule.mp hmem')
  exact ⟨rfl, rfl⟩

theorem concatenationOf_eq_some_iff {module root : ModuleHandle} {concatenated : ConcatenatedModule} :
    compilation.concatenationOf context module = some (root, concatenated) ↔
      (compilation.sealedChunkGraph context).concatenatedModule root = some concatenated ∧
        module ∈ concatenated.modules := by
  have hsound : ∀ {root concatenated}, compilation.concatenationOf context module = some (root, concatenated) →
      (compilation.sealedChunkGraph context).concatenatedModule root = some concatenated ∧
        module ∈ concatenated.modules := by
    intro root concatenated hfound
    obtain ⟨found, -, hfound⟩ := List.exists_of_findSome?_eq_some hfound
    obtain ⟨concatenated', hconcatenated, hfound⟩ := Option.bind_eq_some_iff.mp hfound
    split_ifs at hfound with hmem
    cases hfound
    exact ⟨hconcatenated, hmem⟩
  refine ⟨hsound, ?_⟩
  rintro ⟨hconcatenated, hmem⟩
  cases hfound : compilation.concatenationOf context module with
  | none =>
      rw [concatenationOf, List.findSome?_eq_none_iff] at hfound
      have hnone := hfound root (List.mem_range.mpr (concatenated_root_mem hconcatenated).2)
      rw [hconcatenated, Option.bind_some, if_pos hmem] at hnone
      cases hnone
  | some place =>
      obtain ⟨other, concatenated'⟩ := place
      obtain ⟨hother, hmem'⟩ := hsound hfound
      obtain ⟨rfl, rfl⟩ := concatenated_unique hconcatenated hother hmem hmem'
      rfl

theorem slot_eq_some_iff {module root : ModuleHandle} {slot : Nat} :
    (compilation.layout context).slot module = some (root, slot) ↔ ∃ concatenated,
      (compilation.sealedChunkGraph context).concatenatedModule root = some concatenated ∧
        module ∈ concatenated.modules ∧ concatenated.modules.idxOf module = slot := by
  rw [layout, Option.map_eq_some_iff]
  constructor
  · rintro ⟨⟨found, concatenated⟩, hfound, hplace⟩
    cases hplace
    obtain ⟨hconcatenated, hmem⟩ := concatenationOf_eq_some_iff.mp hfound
    exact ⟨concatenated, hconcatenated, hmem, rfl⟩
  · rintro ⟨concatenated, hconcatenated, hmem, rfl⟩
    exact ⟨(root, concatenated), concatenationOf_eq_some_iff.mpr ⟨hconcatenated, hmem⟩, rfl⟩

/-- The initializer of an ordinal belongs to the module that has the ordinal. -/
theorem sound_layout : (compilation.layout context).Sound where
  member := fun module root slot => by
    rw [slot_eq_some_iff, layout, Option.bind_eq_some_iff]
    refine exists_congr fun concatenated => and_congr_right fun hconcatenated => ?_
    have hnodup := concatenated_nodup hconcatenated
    constructor
    · rintro ⟨hmem, rfl⟩
      exact List.getElem?_idxOf hmem
    · intro hslot
      obtain ⟨hlt, hmodule⟩ := List.getElem?_eq_some_iff.mp hslot
      refine ⟨List.mem_of_getElem? hslot, ?_⟩
      rw [← hmodule]
      exact hnodup.idxOf_getElem slot hlt
  root := fun module root slot hslot => by
    obtain ⟨concatenated, hconcatenated, -, -⟩ := slot_eq_some_iff.mp hslot
    exact ⟨_, slot_eq_some_iff.mpr ⟨concatenated, hconcatenated, (concatenated_root_mem hconcatenated).1, rfl⟩⟩

theorem optimizedChunkGraph_withoutConcatenation :
    compilation.withoutConcatenation.optimizedChunkGraph = compilation.chunkGraph := by
  rw [Compilation.optimizedChunkGraph]
  exact if_neg Bool.false_ne_true

theorem hasFactory_withoutConcatenation {module : ModuleHandle} :
    compilation.withoutConcatenation.hasFactory context module = true ↔
      module < compilation.moduleGraph.modules.length ∧ compilation.chunkGraph.moduleChunks module ≠ [] := by
  rw [hasFactory, isSome_moduleRenderId_iff, optimizedChunkGraph_withoutConcatenation]
  rfl

/-- The root and the inner modules were all candidates. -/
theorem concatenated_moduleCanConcatenate {module root : ModuleHandle} {concatenated : ConcatenatedModule}
    (hconcatenated : (compilation.sealedChunkGraph context).concatenatedModule root = some concatenated)
    (hmem : module ∈ concatenated.modules) :
    compilation.moduleGraph.moduleCanConcatenate compilation.chunkGraph module = true := by
  obtain ⟨applied, h⟩ := compilation.optimized
  obtain ⟨configuration, hconfiguration, rfl, rfl⟩ := exists_configuration h hconcatenated
  have hok := h.ok configuration hconfiguration
  by_cases hroot : module = configuration.root
  · rw [hroot]
    exact hok.root_can
  · obtain ⟨importers, hadd, -⟩ := hok.closed module (mem_concatenatedModule.mp hmem) hroot
    have hgraph := compilation.indexed
    exact (ModuleGraph.mem_possibleInners hgraph (ModuleGraph.importersToAdd_spec hgraph hadd).1).2.2

theorem concatenated_moduleChunks_ne_nil {module root : ModuleHandle} {concatenated : ConcatenatedModule}
    (hconcatenated : (compilation.sealedChunkGraph context).concatenatedModule root = some concatenated)
    (hmem : module ∈ concatenated.modules) : compilation.chunkGraph.moduleChunks module ≠ [] :=
  ModuleGraph.moduleChunks_ne_nil (concatenated_moduleCanConcatenate hconcatenated hmem)

/-- A module with a factory is in no concatenation but as its root. -/
theorem hasFactory_iff {module : ModuleHandle} : compilation.hasFactory context module = true ↔
    compilation.withoutConcatenation.hasFactory context module = true ∧ (compilation.layout context).IsRoot module := by
  obtain ⟨applied, h⟩ := compilation.optimized
  have hroot : (compilation.layout context).IsRoot module ↔
      ∀ configuration ∈ applied, module ∈ configuration.modules → module = configuration.root := by
    constructor
    · intro hroot configuration hconfiguration hmem
      have hconcatenated : (compilation.sealedChunkGraph context).concatenatedModule configuration.root =
          some (compilation.moduleGraph.concatenatedModule configuration) := by
        rw [(compilation.sameContent_sealed context).concatenatedModule]
        exact (h.concatenatedModule _ _).mpr ⟨configuration, hconfiguration, rfl, rfl⟩
      have hslot := slot_eq_some_iff.mpr ⟨_, hconcatenated, mem_concatenatedModule.mpr hmem, rfl⟩
      exact hroot.symm.trans (Layout.bundle_of_slot hslot)
    · intro hall
      cases hslot : (compilation.layout context).slot module with
      | none => exact Layout.bundle_of_alone hslot
      | some place =>
          obtain ⟨root, slot⟩ := place
          obtain ⟨concatenated, hconcatenated, hmem, -⟩ := slot_eq_some_iff.mp hslot
          obtain ⟨configuration, hconfiguration, rfl, rfl⟩ := exists_configuration h hconcatenated
          refine (Layout.bundle_of_slot hslot).trans ?_
          exact (hall configuration hconfiguration (mem_concatenatedModule.mp hmem)).symm
  rw [hasFactory_withoutConcatenation, hasFactory, isSome_moduleRenderId_iff, and_assoc, hroot]
  refine and_congr_right fun _ => ?_
  constructor
  · intro hchunks
    obtain ⟨chunk, hchunk⟩ := List.exists_mem_of_ne_nil _ hchunks
    obtain ⟨hbefore, hall⟩ := (h.moduleChunks chunk module).mp hchunk
    exact ⟨List.ne_nil_of_mem hbefore, hall⟩
  · rintro ⟨hchunks, hall⟩
    obtain ⟨chunk, hchunk⟩ := List.exists_mem_of_ne_nil _ hchunks
    exact List.ne_nil_of_mem ((h.moduleChunks chunk module).mpr ⟨hchunk, hall⟩)

variable (compilation context) in
/-- Whatever is in a chunk and imports an inner module, if only inactively, is in its concatenation. -/
def ImportedFromWithin : Prop :=
  ∀ connection ∈ compilation.moduleGraph.connections, connection.isActive = false →
    ∀ origin, connection.originModule = some origin → compilation.chunkGraph.moduleChunks origin ≠ [] →
      ∀ root concatenated, compilation.concatenationOf context connection.module = some (root, concatenated) →
        connection.module ≠ root → origin ∈ concatenated.modules

/-- An import that is active is from within by the search. -/
theorem imported_from_within (hwithin : compilation.ImportedFromWithin context) {module target root : ModuleHandle}
    {concatenated : ConcatenatedModule} (hchunks : compilation.chunkGraph.moduleChunks module ≠ [])
    (himports : compilation.Imports module target)
    (hconcatenation : compilation.concatenationOf context target = some (root, concatenated)) (hinner : target ≠ root) :
    module ∈ concatenated.modules := by
  obtain ⟨-, index, -, -, -, htarget⟩ := himports
  obtain ⟨connection, hconnection, hat, rfl⟩ :=
    compilation.indexed.moduleForDependency_eq_some_iff.mp htarget
  cases hactive : connection.isActive with
  | false => exact hwithin connection hconnection hactive module hat.1 hchunks root concatenated hconcatenation hinner
  | true =>
      obtain ⟨hconcatenated, hmem⟩ := concatenationOf_eq_some_iff.mp hconcatenation
      obtain ⟨applied, h⟩ := compilation.optimized
      obtain ⟨configuration, hconfiguration, rfl, rfl⟩ := exists_configuration h hconcatenated
      have hspec := (h.ok configuration hconfiguration).inner_spec compilation.indexed
        (mem_concatenatedModule.mp hmem) hinner
      exact mem_concatenatedModule.mpr (hspec.2.2 connection hconnection rfl hactive module hat.1 hchunks).2

theorem internalScope_eq_some_iff {module target : ModuleHandle} {scope : ConcatenationScope} :
    (compilation.importContext context module).internalScope target = some scope ↔ ∃ root concatenated,
      compilation.concatenationOf context module = some (root, concatenated) ∧ target ∈ concatenated.modules ∧
        scope = concatenated.concatenationScope compilation.moduleGraph := by
  rw [DependencyTemplateContext.internalScope, importContext, Option.filter_eq_some_iff, Option.map_eq_some_iff]
  constructor
  · rintro ⟨⟨⟨root, concatenated⟩, hfound, rfl⟩, hcontains⟩
    exact ⟨root, concatenated, hfound, of_decide_eq_true hcontains, rfl⟩
  · rintro ⟨root, concatenated, hfound, hmem, rfl⟩
    exact ⟨⟨(root, concatenated), hfound, rfl⟩, decide_eq_true hmem⟩

theorem bundle_of_concatenationOf {module root : ModuleHandle} {concatenated : ConcatenatedModule}
    (hfound : compilation.concatenationOf context module = some (root, concatenated)) :
    (compilation.layout context).bundle module = root := by
  obtain ⟨hconcatenated, hmem⟩ := concatenationOf_eq_some_iff.mp hfound
  exact Layout.bundle_of_slot (slot_eq_some_iff.mpr ⟨concatenated, hconcatenated, hmem, rfl⟩)

/-- A module is in the concatenation that its bundle is the root of. -/
theorem mem_modules_of_bundle {module : ModuleHandle} {concatenated : ConcatenatedModule}
    (hconcatenated : (compilation.sealedChunkGraph context).concatenatedModule
      ((compilation.layout context).bundle module) = some concatenated) : module ∈ concatenated.modules := by
  cases hplace : (compilation.layout context).slot module with
  | none =>
      rw [Layout.bundle_of_alone hplace] at hconcatenated
      exact (concatenated_root_mem hconcatenated).1
  | some place =>
      obtain ⟨root, slot⟩ := place
      obtain ⟨found, hfound, hmem, -⟩ := slot_eq_some_iff.mp hplace
      rw [Layout.bundle_of_slot hplace] at hconcatenated
      obtain rfl := Option.some.inj (hconcatenated.symm.trans hfound)
      exact hmem

/-- An import across concatenations requires its target, when that has a factory. -/
theorem emit_of_internalScope {module target : ModuleHandle}
    (hscope : (compilation.importContext context module).internalScope target = none) :
    compilation.emit context module target =
      if compilation.hasFactory context target then some (.require target) else none := by
  rw [emit, DependencyTemplateContext.importCall, hscope, hasFactory]
  change (compilation.moduleRenderId context target).map _ = _
  cases compilation.moduleRenderId context target <;> rfl

/-- What the templates emit for the imports of a module keeps to the bundles. -/
theorem emitsSoundly (hwithin : compilation.ImportedFromWithin context) {module target : ModuleHandle}
    (hpresent : compilation.withoutConcatenation.hasFactory context module = true)
    (himports : compilation.Imports module target) :
    EmitsSoundly (compilation.layout context) (compilation.emit context)
      (compilation.withoutConcatenation.hasFactory context) module target := by
  refine ⟨fun habsent => ?_, fun _ slot hslot => ?_, fun hthere houtside => ?_⟩
  · have hnone : (compilation.importContext context module).internalScope target = none := by
      rw [Option.eq_none_iff_forall_ne_some]
      rintro scope hscope
      obtain ⟨root, concatenated, hfound, hmem, -⟩ := internalScope_eq_some_iff.mp hscope
      have hconcatenated := (concatenationOf_eq_some_iff.mp hfound).1
      have hlt := (compilation.indexed.moduleForDependency_eq_some_iff.mp
        himports.choose_spec.choose_spec.choose_spec.2.2)
      obtain ⟨connection, hconnection, -, rfl⟩ := hlt
      have hsome : compilation.withoutConcatenation.hasFactory context connection.module = true :=
        hasFactory_withoutConcatenation.mpr ⟨compilation.indexed.target_lt connection hconnection,
          concatenated_moduleChunks_ne_nil hconcatenated hmem⟩
      rw [habsent] at hsome
      cases hsome
    rw [emit_of_internalScope hnone, if_neg]
    intro hsome
    rw [(hasFactory_iff.mp hsome).1] at habsent
    cases habsent
  · obtain ⟨concatenated, hconcatenated, hmem, rfl⟩ := slot_eq_some_iff.mp hslot
    have hscope : (compilation.importContext context module).internalScope target =
        some (concatenated.concatenationScope compilation.moduleGraph) :=
      internalScope_eq_some_iff.mpr
        ⟨_, concatenated, concatenationOf_eq_some_iff.mpr ⟨hconcatenated, mem_modules_of_bundle hconcatenated⟩,
          hmem, rfl⟩
    rw [emit, DependencyTemplateContext.importCall, hscope]
    rfl
  · have hnone : (compilation.importContext context module).internalScope target = none := by
      rw [Option.eq_none_iff_forall_ne_some]
      rintro scope hscope
      obtain ⟨root, concatenated, hfound, hmem, -⟩ := internalScope_eq_some_iff.mp hscope
      refine houtside _ (slot_eq_some_iff.mpr ⟨concatenated, ?_, hmem, rfl⟩)
      rw [bundle_of_concatenationOf hfound]
      exact (concatenationOf_eq_some_iff.mp hfound).1
    have hroot : (compilation.layout context).IsRoot target := by
      cases hplace : (compilation.layout context).slot target with
      | none => exact Layout.bundle_of_alone hplace
      | some place =>
          obtain ⟨root, slot⟩ := place
          refine (Layout.bundle_of_slot hplace).trans ?_
          by_contra hinner
          obtain ⟨concatenated, hconcatenated, hmem, rfl⟩ := slot_eq_some_iff.mp hplace
          have hmodule := imported_from_within hwithin (hasFactory_withoutConcatenation.mp hpresent).2 himports
            (concatenationOf_eq_some_iff.mpr ⟨hconcatenated, hmem⟩) fun heq => hinner heq.symm
          refine houtside (List.idxOf target concatenated.modules) (hplace.trans ?_)
          rw [bundle_of_concatenationOf (concatenationOf_eq_some_iff.mpr ⟨hconcatenated, hmodule⟩)]
    refine ⟨hroot, ?_⟩
    rw [emit_of_internalScope hnone, if_pos (hasFactory_iff.mpr ⟨hthere, hroot⟩)]

theorem concatenatedModule_withoutConcatenation (root : ModuleHandle) :
    (compilation.withoutConcatenation.sealedChunkGraph context).concatenatedModule root = none := by
  rw [(compilation.withoutConcatenation.sameContent_sealed context).concatenatedModule,
    optimizedChunkGraph_withoutConcatenation, Option.eq_none_iff_forall_ne_some]
  intro concatenated hconcatenated
  obtain ⟨configuration, hmem, -⟩ :=
    ((concatenated_nil compilation.built).concatenatedModule root concatenated).mp hconcatenated
  cases hmem

theorem importedFromWithin_withoutConcatenation : compilation.withoutConcatenation.ImportedFromWithin context := by
  intro connection _ _ origin _ _ root concatenated hconcatenation
  have hconcatenated := (concatenationOf_eq_some_iff.mp hconcatenation).1
  rw [concatenatedModule_withoutConcatenation] at hconcatenated
  cases hconcatenated

section

variable {H Effect Answer Error : Type} {perform : Effect → H → Answer × H}
  {code : ModuleHandle → Code ModuleHandle Effect Answer Error}

theorem evaluated_iff {state : Loaded ModuleHandle H} {other : Bundled ModuleHandle H}
    (h : Agree (compilation.layout context) state other) (module : ModuleHandle) :
    compilation.Evaluated context other module ↔ module ∈ state.cached := by
  rw [Evaluated]
  cases hslot : (compilation.layout context).slot module with
  | some place => exact (h.member module place hslot).symm
  | none => exact (h.alone module hslot).symm

/-- A compilation evaluates like a loader of single modules. -/
theorem evaluate_eq_loadAll (hwithin : compilation.ImportedFromWithin context)
    (hcode : ∀ module, (code module).Within (compilation.Imports module)) (fuel : Nat) {requests : List ModuleHandle}
    (hrequests : ∀ target ∈ requests, compilation.hasFactory context target = true) (heap : H) :
    let alone := loadAll perform code (compilation.withoutConcatenation.hasFactory context) fuel requests ⟨heap, ∅⟩
    alone.1 = (compilation.evaluate context perform code fuel requests heap).1 ∧
      Agree (compilation.layout context) alone.2 (compilation.evaluate context perform code fuel requests heap).2 := by
  refine loadAll_eq_bundledAll sound_layout (fun module hpresent => ?_) fuel
    (fun target htarget => hasFactory_iff.mp (hrequests target htarget)) (agree_start heap)
  exact (hcode module).imp fun target himports => emitsSoundly hwithin hpresent himports

end

end OptimizedCompilation

/-- The entry and the inner module of `concatenationCompilation`, concatenated. -/
def concatenatingCompilation : OptimizedCompilation :=
  { concatenationCompilation with options := { concatenationCompilation.options with concatenateModules := true } }

/-- The entry imports the inner module and then has an effect of its own, and so has the inner module. -/
def concatenationCode (module : ModuleHandle) : Code ModuleHandle Nat Unit Unit :=
  if module = 0 then .evaluate 1 (.perform 0 fun _ => .done) else .perform module fun _ => .done

end Unpack
