import Unpack.DynamicImports
import Unpack.CodeGeneration
import Unpack.OptimizeDependencies

/-! The factories that static imports require. The code of a module is generated once and requires every
imported module that has a render id anywhere, while each group carries what its own root reaches. The
two agree on the modules that the importing module reaches itself. -/

namespace Unpack

namespace HarmonyImportSideEffectDependency

variable {dependency : HarmonyImportSideEffectDependency} {context : DependencyTemplateContext}
variable {target : ModuleHandle} {renderId : RenderId}

/-- The template requires a target with a render id outside the scope. -/
theorem apply_eq_require (target : ModuleHandle)
    (htarget : context.connectionTarget none "Harmony import" = .ok target)
    (hscope : context.internalScope target = none)
    (hid : context.moduleRenderIds target = some renderId) (state : TemplateState) :
    dependency.apply context state =
      .ok ((state.addRuntimeRequirement .require).addInitFragment .imports
        (requireStatement dependency.importVar (jsonRenderId renderId))) := by
  simp only [apply, htarget, ok_bind, hscope, hid]
  rfl

end HarmonyImportSideEffectDependency

namespace Compilation

variable (compilation : Compilation) (context : RenderPathContext)

/-- What the generator of a module is given. -/
def generatorContext (module : Module) : ModuleGeneratorContext where
  module := module
  moduleGraph := compilation.moduleGraph
  chunkGraph := compilation.sealedChunkGraph context
  moduleRenderIds := compilation.moduleRenderId context

/-- The code of the module is generated alone, or in the scope of its concatenation. -/
def GeneratedIn (module : ModuleHandle) : Option ConcatenationScope → Prop
  | none => (compilation.sealedChunkGraph context).concatenatedModule module = none
  | some scope => ∃ root concatenated,
      (compilation.sealedChunkGraph context).concatenatedModule root = some concatenated ∧
        module ∈ concatenated.modules ∧
        scope = concatenated.concatenationScope compilation.moduleGraph

/-- The template of an import adds `__webpack_require__` of the target to the module's code. -/
def EmitsRequire (module target : ModuleHandle) : Prop :=
  ∃ found index dependency scope state renderId order,
    compilation.moduleGraph.module module = some found ∧
    found.dependencies[index]? = some (.harmonyImportSideEffect dependency) ∧
    compilation.GeneratedIn context module scope ∧
    compilation.moduleGraph.moduleForDependency module none index = some target ∧
    compilation.moduleRenderId context target = some renderId ∧
    dependency.apply ((compilation.generatorContext context found).templateContext scope
      (none, some index)) {} = .ok state ∧
    ⟨.imports, order, requireStatement dependency.importVar (jsonRenderId renderId)⟩ ∈
      state.initFragments

/-- On every loading path of the `groups` with the code of the module, the target is installed. -/
def InstallsRequired (module target : ModuleHandle) (groups : ChunkGroupHandle → Prop) : Prop :=
  ∀ group path, (compilation.sealedChunkGraph context).HasCode group module → groups group →
    (compilation.sealedChunkGraph context).LoadingPath path group →
      ∃ carrier ∈ path, (compilation.sealedChunkGraph context).Has carrier target

variable {compilation context}

theorem EmitsRequire.isSome_moduleRenderId {module target : ModuleHandle}
    (h : compilation.EmitsRequire context module target) :
    (compilation.moduleRenderId context target).isSome := by
  obtain ⟨-, -, -, -, -, renderId, -, -, -, -, -, hid, -⟩ := h
  exact Option.isSome_of_eq_some hid

end Compilation

/-- A module with a render id was not taken out of its chunks. -/
theorem OptimizedCompilation.chunkModules_kept {compilation : OptimizedCompilation}
    {context : RenderPathContext} {target : ModuleHandle}
    (hid : (compilation.moduleRenderId context target).isSome) (chunk : ChunkHandle) :
    target ∈ (compilation.sealedChunkGraph context).chunkModules chunk ↔
      target ∈ compilation.chunkGraph.chunkModules chunk := by
  obtain ⟨applied, h⟩ := compilation.optimized
  have hsame := compilation.sameContent_sealed context
  have hlt : target < compilation.moduleGraph.modules.length := by
    obtain ⟨renderId, hsome⟩ := Option.isSome_iff_exists.mp hid
    obtain ⟨found, hfound, -⟩ := Option.bind_eq_some_iff.mp hsome
    exact ModuleGraph.Indexed.module_lt hfound
  have hchunks := (compilation.isSome_moduleRenderId context hlt).mp hid
  obtain ⟨kept, hkept⟩ := List.exists_mem_of_ne_nil _ hchunks
  rw [hsame.moduleChunks] at hkept
  rw [hsame.chunkModules]
  exact (h.chunkModules chunk target).trans (and_iff_left ((h.moduleChunks kept target).mp hkept).2)

/-- **Emitted requires are satisfiable**: a module that the importing one reaches statically is
installed wherever the import's code runs. -/
theorem emitted_require_installed (compilation : OptimizedCompilation) (context : RenderPathContext)
    (module target : ModuleHandle) (hemits : compilation.EmitsRequire context module target)
    (hreach : compilation.moduleGraph.StaticReach module target) :
    compilation.InstallsRequired context module target (compilation.RunsIn context module) := by
  have hgraph := compilation.indexed
  have hexact := reachesExactly_collectStaticReachable hgraph
  have hentries := compilation.entries_lt
  have hkept := OptimizedCompilation.chunkModules_kept hemits.isSome_moduleRenderId
  intro group path hcode hruns hpath
  obtain ⟨logical, hexists, rfl, havailable⟩ := hruns.exists_group hcode
  have htarget := havailable.reach hgraph hexact hentries hreach
  rw [compilation.loadingPath_sealed] at hpath
  obtain ⟨carrier, hmem, chunk, hchunk, hhas⟩ :=
    compilation.built.has_on_path hgraph hexact hentries hexists hpath htarget
  refine ⟨carrier, hmem, chunk, ?_, (hkept chunk).mpr hhas⟩
  rw [compilation.groupChunks_sealed]
  exact hchunk

/-- Both entries import the side-effect-free `p`, and only `b` uses an export of it. -/
def inactiveImportCompilation : OptimizedCompilation :=
  Compilation.optimizeDependencies {
    options := { entryNames := ["a", "b"] }
    moduleGraph := .ofModules [.javaScript "a" [.bareImport "p"] [],
      .javaScript "b" [.bareImport "p",
        .harmonyImportSpecifier ⟨{ request := "p" }, ["x"], "x", ⟨0, 0⟩, false⟩] [],
      { Module.javaScript "p" [.harmonyExportSpecifier ⟨"x", "x"⟩] [] with
        factorySideEffectFree := some true }] [0, 1]
    entries := [0, 1]
    indexed := by decide
    entries_lt := by decide }

/-- `e1` imports `t` and loads `a` and `b`, which share `m`, an importer of `t`; `e2` loads `c` and `d`,
which share `y`. The two shared sets are forced into one named chunk. -/
def namedRequireCompilation : OptimizedCompilation where
  options := { entryNames := ["e1", "e2"], splitChunks := some ⟨2, some "shared"⟩ }
  moduleGraph := .ofModules [
    .javaScript "e1" [.bareImport "t"] [.dynamicImport "a", .dynamicImport "b"],
    .javaScript "e2" [] [.dynamicImport "c", .dynamicImport "d"], .javaScript "t" [] [],
    .javaScript "a" [.bareImport "m"] [], .javaScript "b" [.bareImport "m"] [],
    .javaScript "c" [.bareImport "y"] [], .javaScript "d" [.bareImport "y"] [],
    .javaScript "m" [.bareImport "t"] [], .javaScript "y" [] []] [0, 1]
  entries := [0, 1]
  indexed := by decide
  entries_lt := by decide
  nonstatic_active := by decide

namespace Compilation

/-- Outside a concatenation an import of a module in some chunk is emitted as a require. -/
theorem emitsRequire_of_chunk (compilation : Compilation) (context : RenderPathContext)
    (index : DependencyIndex) {module target : ModuleHandle} {found : Module}
    {dependency : HarmonyImportSideEffectDependency}
    (hmodule : compilation.moduleGraph.module module = some found)
    (hdependency : found.dependencies[index]? = some (.harmonyImportSideEffect dependency))
    (halone : compilation.optimizedChunkGraph.concatenatedModule module = none)
    (htarget : compilation.moduleGraph.moduleForDependency module none index = some target)
    (hlt : target < compilation.moduleGraph.modules.length)
    (hchunk : compilation.optimizedChunkGraph.moduleChunks target ≠ []) :
    compilation.EmitsRequire context module target := by
  have hsame := compilation.sameContent_sealed context
  obtain ⟨renderId, hid⟩ := Option.isSome_iff_exists.mp
    ((compilation.isSome_moduleRenderId context hlt).mpr (hsame.moduleChunks.symm ▸ hchunk))
  have hhandle := compilation.indexed.handle_eq hmodule
  refine ⟨found, index, dependency, none, _, renderId, 0, hmodule, hdependency, ?_, htarget, hid,
    HarmonyImportSideEffectDependency.apply_eq_require target ?_ rfl hid {},
    List.mem_singleton_self _⟩
  · exact (congrFun hsame.concatenatedModule module).trans halone
  · rw [DependencyTemplateContext.connectionTarget]
    simp only [ModuleGeneratorContext.templateContext, generatorContext, expect_some, ok_bind,
      hhandle, htarget]

end Compilation

/-- The entry `a` requires `p`, which only the chunk of `b` holds; and the named chunk brings the
require of `m` to groups where `t` was never installed. -/
theorem emitted_require_missing :
    (inactiveImportCompilation.EmitsRequire plainPaths 0 2 ∧
      ¬ inactiveImportCompilation.InstallsRequired plainPaths 0 2 fun _ => True) ∧
    namedRequireCompilation.EmitsRequire plainPaths 7 2 ∧
      namedRequireCompilation.moduleGraph.StaticReach 7 2 ∧
      ¬ namedRequireCompilation.InstallsRequired plainPaths 7 2 fun _ => True := by
  refine ⟨⟨?_, ?_⟩, ?_, ?_, ?_⟩
  · exact inactiveImportCompilation.emitsRequire_of_chunk plainPaths 0 rfl rfl
      (by decide) (by decide) (by decide) (by decide)
  · intro hinstalls
    have hsame := inactiveImportCompilation.sameContent_sealed plainPaths
    obtain ⟨carrier, hmem, chunk, hchunk, hhas⟩ := hinstalls 0 [0]
      ⟨0, by rw [ChunkGraph.groupChunks, hsame.chunkGroup]; decide,
        Or.inl (by rw [hsame.chunkModules]; decide)⟩ trivial
      (.root (by rw [hsame.entrypoints]; decide))
    rw [ChunkGraph.groupChunks, hsame.chunkGroup] at hchunk
    rw [hsame.chunkModules] at hhas
    have hnone : ¬ ∃ carrier ∈ [0],
        inactiveImportCompilation.optimizedChunkGraph.Has carrier 2 := by decide
    exact hnone ⟨carrier, hmem, chunk, hchunk, hhas⟩
  · exact namedRequireCompilation.emitsRequire_of_chunk plainPaths 0 rfl rfl
      (by decide) (by decide) (by decide) (by decide)
  · exact (ModuleGraph.mem_collectStaticReachable namedRequireCompilation.indexed
      (by decide) 2).mp (by decide)
  · intro hinstalls
    have hsame := namedRequireCompilation.sameContent_sealed plainPaths
    obtain ⟨carrier, hmem, chunk, hchunk, hhas⟩ := hinstalls 4 [1, 4]
      ⟨6, by rw [ChunkGraph.groupChunks, hsame.chunkGroup]; decide,
        Or.inl (by rw [hsame.chunkModules]; decide)⟩ trivial
      (.load (.root (by rw [hsame.entrypoints]; decide)) (by rw [hsame.runtimeChildren]; decide))
    rw [ChunkGraph.groupChunks, hsame.chunkGroup] at hchunk
    rw [hsame.chunkModules] at hhas
    have hnone : ¬ ∃ carrier ∈ [1, 4],
        namedRequireCompilation.optimizedChunkGraph.Has carrier 2 := by decide
    exact hnone ⟨carrier, hmem, chunk, hchunk, hhas⟩

/-- In the group of `a`, which runs `m`, the import of `t` finds it. -/
theorem emitted_require_installed_namedRequire :
    ∃ carrier ∈ [0, 2], (namedRequireCompilation.sealedChunkGraph plainPaths).Has carrier 2 := by
  have hsame := namedRequireCompilation.sameContent_sealed plainPaths
  have hroot : namedRequireCompilation.optimizedChunkGraph.PlannedRoot
      namedRequireCompilation.moduleGraph namedRequireCompilation.entries 2 3 :=
    Or.inr ⟨_, ⟨0, 0⟩, by rfl, by decide, by decide, by decide⟩
  have hreach : ∀ start target : ModuleHandle, start < 9 →
      target ∈ namedRequireCompilation.moduleGraph.collectStaticReachable start →
      namedRequireCompilation.moduleGraph.StaticReach start target := fun start target hlt =>
    (ModuleGraph.mem_collectStaticReachable namedRequireCompilation.indexed
      (show start < namedRequireCompilation.moduleGraph.modules.length from hlt) target).mp
  refine emitted_require_installed namedRequireCompilation plainPaths 7 2
    (namedRequireCompilation.emitsRequire_of_chunk plainPaths 0 rfl rfl
      (by decide) (by decide) (by decide) (by decide)) (hreach 7 2 (by decide) (by decide)) 2 [0, 2]
    ⟨6, by rw [ChunkGraph.groupChunks, hsame.chunkGroup]; decide,
      Or.inl (by rw [hsame.chunkModules]; decide)⟩ (Or.inr ⟨3, ?_, hreach 3 7 (by decide) (by decide)⟩)
    (.load (.root (by rw [hsame.entrypoints]; decide)) (by rw [hsame.runtimeChildren]; decide))
  rw [ChunkGraph.PlannedRoot, hsame.entrypoints, hsame.chunkGroup]
  exact hroot

end Unpack
