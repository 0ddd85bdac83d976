import Unpack.DependencyTemplate
import Mathlib.Data.Finset.Card
import Mathlib.Data.Finset.Union

/-! Runtime requirements: which runtime modules the code of a chunk asks for, which further requirements
those have, and how the requirements of an entrypoint's runtime are gathered over the groups that it may
load. -/

namespace Unpack

namespace RuntimeRequirement

def all : List RuntimeRequirement :=
  [moduleFactories, moduleCache, require, definePropertyGetters, hasOwnProperty, makeNamespaceObject,
    ensureChunk, ensureChunkHandlers, getChunkFilename, moduleFactoriesAddOnly,
    returnExportsFromRuntime]

theorem mem_all (requirement : RuntimeRequirement) : requirement ∈ all := by
  cases requirement <;> decide

end RuntimeRequirement

inductive RuntimeModuleStage where
  | normal
  | basic
  | attach
  | trigger
  deriving DecidableEq

/-- The position in the stage order. -/
def RuntimeModuleStage.position : RuntimeModuleStage → Nat
  | normal => 0
  | basic => 1
  | attach => 2
  | trigger => 3

inductive RuntimeModule where
  | definePropertyGetters
  | ensureChunk
  | getChunkFilename
  | hasOwnProperty
  | makeNamespaceObject
  | moduleFactoriesAddOnly
  | requireChunkLoading
  deriving DecidableEq

namespace RuntimeModule

def all : List RuntimeModule :=
  [definePropertyGetters, getChunkFilename, hasOwnProperty, makeNamespaceObject,
    moduleFactoriesAddOnly, ensureChunk, requireChunkLoading]

theorem mem_all (module : RuntimeModule) : module ∈ all := by
  cases module <;> decide

def identifier : RuntimeModule → String
  | definePropertyGetters => "webpack/runtime/define property getters"
  | ensureChunk => "webpack/runtime/ensure chunk"
  | getChunkFilename => "webpack/runtime/get javascript chunk filename"
  | hasOwnProperty => "webpack/runtime/hasOwnProperty shorthand"
  | makeNamespaceObject => "webpack/runtime/make namespace object"
  | moduleFactoriesAddOnly => "webpack/runtime/module factories add only"
  | requireChunkLoading => "webpack/runtime/require chunk loading"

def stage : RuntimeModule → RuntimeModuleStage
  | definePropertyGetters | getChunkFilename | hasOwnProperty | makeNamespaceObject
  | moduleFactoriesAddOnly => .normal
  | ensureChunk => .basic
  | requireChunkLoading => .attach

def prerequisites : RuntimeModule → List RuntimeRequirement
  | definePropertyGetters => [.hasOwnProperty]
  | ensureChunk => [.ensureChunkHandlers]
  | requireChunkLoading => [.getChunkFilename, .moduleFactoriesAddOnly, .hasOwnProperty]
  | getChunkFilename | hasOwnProperty | makeNamespaceObject | moduleFactoriesAddOnly => []

end RuntimeModule

def runtimeModuleForRequirement : RuntimeRequirement → Option RuntimeModule
  | .definePropertyGetters => some .definePropertyGetters
  | .hasOwnProperty => some .hasOwnProperty
  | .makeNamespaceObject => some .makeNamespaceObject
  | .ensureChunk => some .ensureChunk
  | .ensureChunkHandlers => some .requireChunkLoading
  | .getChunkFilename => some .getChunkFilename
  | .moduleFactoriesAddOnly => some .moduleFactoriesAddOnly
  | .moduleFactories | .moduleCache | .require | .returnExportsFromRuntime => none

/-- The requirements found so far, and the runtime modules that answer them. -/
structure RuntimeResolution where
  requirements : RuntimeRequirements
  modules : Finset RuntimeModule
  deriving DecidableEq

namespace RuntimeResolution

def resolveRequirement (resolution : RuntimeResolution) (requirement : RuntimeRequirement) :
    RuntimeResolution :=
  match runtimeModuleForRequirement requirement with
  | none => resolution
  | some module =>
      { requirements := module.prerequisites.foldl (fun requirements prerequisite =>
          insert prerequisite requirements) resolution.requirements
        modules := insert module resolution.modules }

/-- One round over the requirements known when it starts. -/
def round (resolution : RuntimeResolution) : RuntimeResolution :=
  (RuntimeRequirement.all.filter (· ∈ resolution.requirements)).foldl resolveRequirement resolution

/-- Rounds until the requirements stay as they are. -/
def resolve : Nat → RuntimeResolution → RuntimeResolution
  | 0, resolution => resolution
  | fuel + 1, resolution =>
      if resolution.round.requirements = resolution.requirements then resolution.round
      else resolve fuel resolution.round

/-- A stable sort by stage and identifier. -/
def sortedModules (resolution : RuntimeResolution) : List RuntimeModule :=
  (RuntimeModule.all.filter (· ∈ resolution.modules)).insertionSort fun left right =>
    ((compare left.stage.position right.stage.position).then
      (compare left.identifier right.identifier)).isLE

end RuntimeResolution

/-- Every round but the last adds a requirement. -/
def resolveRuntimeModules (direct : RuntimeRequirements) : RuntimeRequirements × List RuntimeModule :=
  let resolution := RuntimeResolution.resolve (RuntimeRequirement.all.length + 1) ⟨direct, ∅⟩
  (resolution.requirements, resolution.sortedModules)

def entryStartupRuntimeRequirements : RuntimeRequirements :=
  {.moduleFactories, .moduleCache, .require, .returnExportsFromRuntime}

/-- The runtime module of the first requirement has the second as a prerequisite. -/
def Requires (requirement prerequisite : RuntimeRequirement) : Prop :=
  ∃ module, runtimeModuleForRequirement requirement = some module ∧
    prerequisite ∈ module.prerequisites

/-- A fold whose steps only add. -/
theorem mem_foldl_of_step {σ ι α : Type} {f : σ → ι → σ} (has : σ → α → Prop) (adds : ι → α → Prop)
    (hf : ∀ state item a, has (f state item) a ↔ has state a ∨ adds item a) (items : List ι)
    (state : σ) (a : α) :
    has (items.foldl f state) a ↔ has state a ∨ ∃ item ∈ items, adds item a := by
  induction items generalizing state with
  | nil => simp
  | cons item items ih =>
      rw [List.foldl_cons, ih, hf, or_assoc]
      simp only [List.mem_cons, exists_eq_or_imp]

theorem mem_foldl_union {ι α : Type} [DecidableEq α] (f : ι → Finset α) (items : List ι)
    (start : Finset α) (a : α) :
    a ∈ items.foldl (fun set item => set ∪ f item) start ↔ a ∈ start ∨ ∃ item ∈ items, a ∈ f item :=
  mem_foldl_of_step (fun (set : Finset α) a => a ∈ set) (fun item a => a ∈ f item)
    (fun _ _ _ => Finset.mem_union) items start a

namespace RuntimeResolution

theorem mem_resolveRequirement (resolution : RuntimeResolution)
    (requirement : RuntimeRequirement) :
    (∀ other, other ∈ (resolution.resolveRequirement requirement).requirements ↔
        other ∈ resolution.requirements ∨ Requires requirement other) ∧
      ∀ module, module ∈ (resolution.resolveRequirement requirement).modules ↔
        module ∈ resolution.modules ∨ runtimeModuleForRequirement requirement = some module := by
  rw [resolveRequirement]
  cases hmodule : runtimeModuleForRequirement requirement with
  | none => simp [Requires, hmodule]
  | some found =>
      refine ⟨fun other => ?_, fun module => ?_⟩
      · rw [mem_foldl_of_step (fun set other => other ∈ set) (fun item other => other = item)
          (fun set item other => by rw [Finset.mem_insert, or_comm])]
        simp [Requires, hmodule]
      · rw [Finset.mem_insert, Option.some.injEq, or_comm, eq_comm (a := found)]

/-- One round adds the prerequisites of what is there, and its runtime modules. -/
theorem mem_round (resolution : RuntimeResolution) :
    (∀ other, other ∈ resolution.round.requirements ↔ other ∈ resolution.requirements ∨
        ∃ requirement ∈ resolution.requirements, Requires requirement other) ∧
      ∀ module, module ∈ resolution.round.modules ↔ module ∈ resolution.modules ∨
        ∃ requirement ∈ resolution.requirements,
          runtimeModuleForRequirement requirement = some module := by
  have hitems : ∀ {P : RuntimeRequirement → Prop},
      (∃ item ∈ RuntimeRequirement.all.filter (· ∈ resolution.requirements), P item) ↔
        ∃ requirement ∈ resolution.requirements, P requirement := by
    intro P
    simp only [List.mem_filter, RuntimeRequirement.mem_all, true_and, decide_eq_true_eq]
  refine ⟨fun other => ?_, fun module => ?_⟩
  · rw [← hitems, round]
    exact mem_foldl_of_step (fun (state : RuntimeResolution) other =>
      other ∈ state.requirements) _ (fun state item => (state.mem_resolveRequirement item).1) _ _ other
  · rw [← hitems, round]
    exact mem_foldl_of_step (fun (state : RuntimeResolution) module =>
      module ∈ state.modules) _ (fun state item => (state.mem_resolveRequirement item).2) _ _ module

/-- The requirements not found yet. -/
def missing (resolution : RuntimeResolution) : Nat :=
  (RuntimeRequirement.all.filter (· ∉ resolution.requirements)).length

theorem missing_round_lt (resolution : RuntimeResolution)
    (hne : resolution.round.requirements ≠ resolution.requirements) :
    resolution.round.missing < resolution.missing := by
  obtain ⟨hrequirements, -⟩ := resolution.mem_round
  have hsub : resolution.requirements ⊆ resolution.round.requirements := fun other hother =>
    (hrequirements other).mpr (Or.inl hother)
  obtain ⟨new, hnew, hfresh⟩ : ∃ new ∈ resolution.round.requirements,
      new ∉ resolution.requirements := by
    by_contra hnone
    refine hne (Finset.Subset.antisymm (fun other hother => ?_) hsub)
    by_contra hnot
    exact hnone ⟨other, hother, hnot⟩
  have hfilter : RuntimeRequirement.all.filter (· ∉ resolution.round.requirements) =
      (RuntimeRequirement.all.filter (· ∉ resolution.requirements)).filter
        (· ∉ resolution.round.requirements) := by
    rw [List.filter_filter]
    apply List.filter_congr
    intro other _
    by_cases hin : other ∈ resolution.round.requirements
    · simp [hin]
    · have hout : other ∉ resolution.requirements := fun h => hin (hsub h)
      simp [hin, hout]
  rw [missing, missing, hfilter, List.length_filter_lt_length_iff_exists]
  exact ⟨new, List.mem_filter.mpr ⟨RuntimeRequirement.mem_all new, by simpa using hfresh⟩,
    by simpa using hnew⟩

/-- What resolution is after: the direct requirements with all their prerequisites, and the runtime
modules of all of these. -/
structure Resolved (direct : RuntimeRequirements) (resolution : RuntimeResolution) : Prop where
  mem_requirements : ∀ requirement, requirement ∈ resolution.requirements ↔
    ∃ start ∈ direct, Relation.ReflTransGen Requires start requirement
  mem_modules : ∀ module, module ∈ resolution.modules ↔
    ∃ requirement ∈ resolution.requirements, runtimeModuleForRequirement requirement = some module

/-- The run lemma: with fuel for every missing requirement the rounds end resolved. -/
theorem resolved_resolve {direct : RuntimeRequirements} (fuel : Nat) (resolution : RuntimeResolution)
    (hfuel : resolution.missing < fuel)
    (hdirect : direct ⊆ resolution.requirements)
    (hsound : ∀ requirement ∈ resolution.requirements,
      ∃ start ∈ direct, Relation.ReflTransGen Requires start requirement)
    (hmodules : ∀ module ∈ resolution.modules, ∃ requirement ∈ resolution.requirements,
      runtimeModuleForRequirement requirement = some module) :
    Resolved direct (resolve fuel resolution) := by
  induction fuel generalizing resolution with
  | zero => exact absurd hfuel (Nat.not_lt_zero _)
  | succ fuel ih =>
      obtain ⟨hround, hroundModules⟩ := resolution.mem_round
      rw [resolve]
      split_ifs with hsame
      · have hclosed : ∀ start requirement, Relation.ReflTransGen Requires start requirement →
            start ∈ resolution.requirements → requirement ∈ resolution.requirements := by
          intro start requirement hreach hstart
          induction hreach with
          | refl => exact hstart
          | tail _ hstep ih => exact hsame ▸ (hround _).mpr (Or.inr ⟨_, ih, hstep⟩)
        refine ⟨fun requirement => ?_, fun module => ?_⟩
        · rw [hsame]
          exact ⟨hsound requirement,
            fun ⟨start, hstart, hreach⟩ => hclosed start requirement hreach (hdirect hstart)⟩
        · rw [hsame, hroundModules]
          exact ⟨fun hor => hor.elim (hmodules module) id, Or.inr⟩
      · have hlt := resolution.missing_round_lt hsame
        refine ih resolution.round (by omega) ?_ ?_ ?_
        · exact fun requirement hmem => (hround requirement).mpr (Or.inl (hdirect hmem))
        · intro requirement hmem
          rcases (hround requirement).mp hmem with hold | ⟨earlier, hearlier, hstep⟩
          · exact hsound requirement hold
          · obtain ⟨start, hstart, hreach⟩ := hsound earlier hearlier
            exact ⟨start, hstart, hreach.tail hstep⟩
        · intro module hmem
          rcases (hroundModules module).mp hmem with hold | ⟨requirement, hrequirement, hmodule⟩
          · obtain ⟨requirement, hrequirement, hmodule⟩ := hmodules module hold
            exact ⟨requirement, (hround requirement).mpr (Or.inl hrequirement), hmodule⟩
          · exact ⟨requirement, (hround requirement).mpr (Or.inl hrequirement), hmodule⟩

theorem mem_sortedModules {resolution : RuntimeResolution} {module : RuntimeModule} :
    module ∈ resolution.sortedModules ↔ module ∈ resolution.modules := by
  rw [sortedModules, List.mem_insertionSort, List.mem_filter, decide_eq_true_eq]
  exact and_iff_right (RuntimeModule.mem_all module)

end RuntimeResolution

/-- **Resolution** finds exactly the requirements that the direct ones lead to, and their modules. -/
theorem resolveRuntimeModules_spec (direct : RuntimeRequirements) :
    (∀ requirement, requirement ∈ (resolveRuntimeModules direct).1 ↔
        ∃ start ∈ direct, Relation.ReflTransGen Requires start requirement) ∧
      ∀ module, module ∈ (resolveRuntimeModules direct).2 ↔
        ∃ requirement ∈ (resolveRuntimeModules direct).1,
          runtimeModuleForRequirement requirement = some module := by
  have hresolved : RuntimeResolution.Resolved direct
      (RuntimeResolution.resolve (RuntimeRequirement.all.length + 1) ⟨direct, ∅⟩) := by
    refine RuntimeResolution.resolved_resolve _ _ ?_ (fun _ h => h) (fun requirement hmem => ?_) ?_
    · exact Nat.lt_succ_of_le (List.length_filter_le _ _)
    · exact ⟨requirement, hmem, .refl⟩
    · exact fun module hmem => absurd hmem (Finset.notMem_empty module)
  refine ⟨hresolved.mem_requirements, fun module => ?_⟩
  rw [resolveRuntimeModules, RuntimeResolution.mem_sortedModules]
  exact hresolved.mem_modules module

theorem subset_resolveRuntimeModules (direct : RuntimeRequirements) :
    direct ⊆ (resolveRuntimeModules direct).1 := fun requirement hmem =>
  ((resolveRuntimeModules_spec direct).1 requirement).mpr ⟨requirement, hmem, .refl⟩

/-- What `set_module_runtime_requirements` fills in. -/
structure RuntimeRequirementTables where
  moduleRuntimeRequirements : List RuntimeRequirements
  chunkRuntimeRequirements : List RuntimeRequirements
  chunkRuntimeModules : List (List RuntimeModule)
  runtimeTreeRequirements : FxHashMap ChunkGroupHandle RuntimeRequirements

namespace ChunkGraph

variable (chunkGraph : ChunkGraph)

/-- The groups popped off the stack, in order. Every group is pushed once for each edge to it. -/
def runtimeTreeGroups (entrypoint : ChunkGroupHandle) : List ChunkGroupHandle :=
  Worklist.collectWith (fun pending children => children.reverse ++ pending)
    chunkGraph.runtimeChildren
    (1 + (chunkGraph.runtimeChunkGroupChildren.map (·.length)).sum) [entrypoint] []

def treeRequirements (chunkRequirements : List RuntimeRequirements)
    (entrypoint : ChunkGroupHandle) : RuntimeRequirements :=
  (chunkGraph.runtimeTreeGroups entrypoint).foldl (fun requirements group =>
    (chunkGraph.groupChunks group).foldl (fun requirements chunk =>
      requirements ∪ chunkRequirements.getD chunk ∅) requirements) ∅

def setEntrypointRequirements (tables : RuntimeRequirementTables) (entrypoint : ChunkGroupHandle) :
    Option RuntimeRequirementTables :=
  let requirements :=
    chunkGraph.treeRequirements tables.chunkRuntimeRequirements entrypoint ∪
      entryStartupRuntimeRequirements
  let (processed, modules) := resolveRuntimeModules requirements
  (chunkGraph.groupChunks entrypoint).head?.map fun runtimeChunk =>
    { tables with
      chunkRuntimeModules := tables.chunkRuntimeModules.set runtimeChunk modules
      runtimeTreeRequirements := tables.runtimeTreeRequirements.insert entrypoint processed }

def assignModuleRequirements (table : List RuntimeRequirements)
    (assignment : ModuleHandle × RuntimeRequirements) : Option (List RuntimeRequirements) :=
  if assignment.1 < table.length then some (table.set assignment.1 assignment.2) else none

def chunkRequirements (moduleRequirements : List RuntimeRequirements) : List RuntimeRequirements :=
  (List.range chunkGraph.chunks.length).map fun chunk =>
    (chunkGraph.chunkModules chunk).foldl (fun requirements module =>
      requirements ∪ moduleRequirements.getD module ∅) ∅

/-- It panics on a module that is in no chunk graph list, and on an entrypoint without a chunk. -/
def setModuleRuntimeRequirements (moduleRequirements : List (ModuleHandle × RuntimeRequirements)) :
    Option RuntimeRequirementTables := do
  let moduleRuntimeRequirements ← moduleRequirements.foldlM assignModuleRequirements
    (List.replicate chunkGraph.moduleChunkLists.length ∅)
  chunkGraph.entrypoints.foldlM chunkGraph.setEntrypointRequirements
    { moduleRuntimeRequirements
      chunkRuntimeRequirements := chunkGraph.chunkRequirements moduleRuntimeRequirements
      chunkRuntimeModules := List.replicate chunkGraph.chunks.length []
      runtimeTreeRequirements := ∅ }

/-- Without a computation cache. -/
def processRuntimeRequirements (direct : FxHashMap ModuleHandle RuntimeRequirements) :
    Option RuntimeRequirementTables :=
  chunkGraph.setModuleRuntimeRequirements
    (direct.entries.map fun entry => (entry.1, (resolveRuntimeModules entry.2).1))

end ChunkGraph

end Unpack
