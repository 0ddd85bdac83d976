import Unpack.ModuleGraph
import Unpack.Lib.Run

/-! Making the module graph: the task queues of `run`, the state that the tasks share, and the module requests
of loaders. What a resolver, a parser or a loader answers is left open, as is when a background task ends. The
dependency sets, the metrics and what is only read for them are left out. -/

namespace Unpack.Make

inductive Error where
  | resolve (issuer : PathBuf) (request message : String)
  | read (path : PathBuf) (message : String)
  | parse (path : PathBuf) (message : String)
  | loader (code path : PathBuf) (message : String)
  | loaderRules (path : PathBuf) (message : String)
  | moduleTypeRegistry (message : String)
  | unsupportedDynamicImport (path : PathBuf) (message : String)
  | parseTask (path : PathBuf) (message : String)
  | makeTask (message : String)
  | missingModule (module : ModuleHandle)
  | missingModuleDirectory (module : ModuleHandle)

namespace Error

def isCompilationError : Error → Bool
  | resolve .. | read .. | parse .. | loader .. | loaderRules .. | unsupportedDynamicImport .. => true
  | moduleTypeRegistry .. | parseTask .. | makeTask .. | missingModule .. | missingModuleDirectory .. => false

def text : Error → String
  | resolve issuer request message =>
      "failed to resolve '" ++ request ++ "' from " ++ issuer.text ++ ": " ++ message
  | read path message => "failed to read " ++ path.text ++ ": " ++ message
  | parse path message => "failed to parse " ++ path.text ++ ": " ++ message
  | .loader code path message => "loader " ++ code.text ++ " failed for " ++ path.text ++ ": " ++ message
  | loaderRules path message => "loader rules failed for " ++ path.text ++ ": " ++ message
  | moduleTypeRegistry message => "module type registry error: " ++ message
  | unsupportedDynamicImport path message =>
      "unsupported dynamic import in " ++ path.text ++ ": " ++ message
  | parseTask path message => "parser task failed for " ++ path.text ++ ": " ++ message
  | makeTask message => "make task failed: " ++ message
  | missingModule module => "module graph is missing module ModuleHandle(" ++ toString module ++ ")"
  | missingModuleDirectory module =>
      "module ModuleHandle(" ++ toString module ++ ") does not have a filesystem parent directory"

end Error

structure QueuedDependency where
  entryIndex : Option Nat
  originBlock : Option AsyncDependenciesBlockIndex
  originDependencyIndex : Option DependencyIndex
  dependency : Dependency

structure MatchedLoader where
  identifier : String
  loader : PathBuf
  options : String

structure FactorizedModule where
  identity : ModuleIdentity
  resource : PathBuf
  loader : Option MatchedLoader
  sideEffectFree : Option Bool

inductive FactorizeTaskResult where
  | success (factorized : FactorizedModule)
  | failed (error : Error)

inductive ModuleFactoryKind where
  | normal
  deriving DecidableEq

inductive DependencyCategory where
  | esm
  deriving DecidableEq

structure FactorizeTask where
  factory : ModuleFactoryKind
  originModule : Option ModuleHandle
  context : PathBuf
  dependencies : List QueuedDependency

structure AddTask where
  originModule : Option ModuleHandle
  context : PathBuf
  dependencies : List QueuedDependency
  result : FactorizeTaskResult

structure BuildTask where
  moduleHandle : ModuleHandle
  identity : ModuleIdentity
  resource : PathBuf
  loader : Option MatchedLoader

structure ProcessDependenciesTask where
  originModule : ModuleHandle
  context : PathBuf
  dependencies : List QueuedDependency

inductive MakeTask where
  | factorize (task : FactorizeTask)
  | add (task : AddTask)
  | build (task : BuildTask)
  | processDependencies (task : ProcessDependenciesTask)

def MakeTask.isBackground : MakeTask → Bool
  | factorize _ | build _ => true
  | add _ | processDependencies _ => false

structure FactorizeGroupKey where
  factory : ModuleFactoryKind
  category : DependencyCategory
  resourceIdentifier : String
  deriving DecidableEq

def resourceIdentifier (dependency : ModuleDependency) : String := "context|module" ++ dependency.request

def FactorizeGroupKey.forDependency (dependency : Dependency) : Option FactorizeGroupKey :=
  dependency.moduleDependency.map fun module => ⟨.normal, .esm, Make.resourceIdentifier module⟩

/-- Every dependency with its location: those of the module, and then those of its blocks. -/
def queuedDependencies (parsed : ParsedModule) : List QueuedDependency :=
  (parsed.dependencies.zipIdx.map fun (dependency, index) => ⟨none, none, some index, dependency⟩) ++
    parsed.blocks.zipIdx.flatMap fun (block, blockIndex) =>
      block.dependencies.zipIdx.map fun (dependency, index) => ⟨none, some blockIndex, some index, dependency⟩

def processDependenciesTask (moduleHandle : ModuleHandle) (issuerContext : PathBuf) (parsed : ParsedModule) :
    Option MakeTask :=
  let dependencies := queuedDependencies parsed
  if dependencies.isEmpty then none
  else some (.processDependencies ⟨moduleHandle, issuerContext, dependencies⟩)

/-- To the group with this key, or to a new one at the end. -/
def pushToGroup (key : FactorizeGroupKey) (dependency : QueuedDependency) :
    List (FactorizeGroupKey × List QueuedDependency) → List (FactorizeGroupKey × List QueuedDependency)
  | [] => [(key, [dependency])]
  | (groupKey, group) :: groups =>
      if groupKey = key then (groupKey, group ++ [dependency]) :: groups
      else (groupKey, group) :: pushToGroup key dependency groups

def groupDependenciesForFactorization (dependencies : List QueuedDependency) :
    List (FactorizeGroupKey × List QueuedDependency) :=
  dependencies.foldl (fun groups dependency =>
    match FactorizeGroupKey.forDependency dependency.dependency with
    | none => groups
    | some key => pushToGroup key dependency groups) []

def ProcessDependenciesTask.run (task : ProcessDependenciesTask) : List MakeTask :=
  (groupDependenciesForFactorization task.dependencies).map fun (key, dependencies) =>
    .factorize ⟨key.factory, some task.originModule, task.context, dependencies⟩

/-- The hashes that are kept with built content. -/
structure ContentHashes where
  sourceHash : String → UInt64
  localInputDigest : ParsedModule → UInt64

def ContentHashes.newContent (hashes : ContentHashes) (parsed : ParsedModule) (source : String) :
    BuiltModuleContent :=
  { parsed, source, sourceHash := hashes.sourceHash source
    codeGenerationLocalInputDigest := hashes.localInputDigest parsed }

def failBuild (hashes : ContentHashes) (error : Error) (source : String) (module : Module) : Module :=
  { module with
    builtContent := hashes.newContent {} source
    buildError := some error.text
    buildSideEffectFree := none
    harmony := false }

/-- A path without the components that say where it stays or goes up. -/
def normalizeMissingResource (path : PathBuf) : PathBuf :=
  path.foldl (fun normalized component =>
    if component = "." then normalized
    else if component = ".." ∧ (PathBuf.parent normalized).isSome then normalized.dropLast
    else normalized ++ [component]) []

def requestComponents (request : String) : PathBuf :=
  ((request.toList.splitOn '/').map String.ofList).filter (· ≠ "")

def isAbsolute (request : String) : Bool := request.toList.head? = some '/'

def failedModuleIdentity (context : PathBuf) (dependency : Dependency) : ModuleIdentity :=
  let request := (dependency.moduleDependency.map (·.request)).getD "<unknown>"
  let resource :=
    if isAbsolute request then "" :: requestComponents request else context ++ requestComponents request
  { resource := normalizeMissingResource resource }

structure AddModuleResult where
  moduleHandle : ModuleHandle
  isNew : Bool

/-- The modules that are being built are those whose end can be waited for. -/
structure MakeState where
  moduleGraph : ModuleGraph := .empty
  entries : FxHashMap Nat ModuleHandle := ∅
  errors : List Error := []
  modulesByIdentity : FxHashMap ModuleIdentity ModuleHandle := ∅
  buildingModules : Finset ModuleHandle := ∅
  loaderWaits : FxHashMap ModuleHandle ModuleHandle := ∅

namespace MakeState

/-- Along the modules that are waited for, until one is met again. The fuel is one more than there are. -/
def followsTo (loaderWaits : FxHashMap ModuleHandle ModuleHandle) (origin : ModuleHandle) :
    Nat → List ModuleHandle → ModuleHandle → Bool
  | 0, _, _ => false
  | fuel + 1, visited, current =>
      if current ∈ visited then false
      else if current = origin then true
      else
        match loaderWaits.lookup current with
        | none => false
        | some next => followsTo loaderWaits origin fuel (current :: visited) next

def loaderWaitCreatesCycle (state : MakeState) (origin target : ModuleHandle) : Bool :=
  followsTo state.loaderWaits origin (state.loaderWaits.keys.length + 2) [] target

def connectDependency (originModule : Option ModuleHandle) (moduleHandle : ModuleHandle) (state : MakeState)
    (dependency : QueuedDependency) : MakeState :=
  { state with
    entries :=
      match dependency.entryIndex with
      | some entryIndex => state.entries.insert entryIndex moduleHandle
      | none => state.entries
    moduleGraph := state.moduleGraph.connect originModule dependency.originBlock
      dependency.originDependencyIndex dependency.dependency moduleHandle }

variable (hashes : ContentHashes)

/-- A module with this identity, and whether it is new. -/
def addModule (state : MakeState) (identity : ModuleIdentity) (sideEffectFree : Option Bool) :
    MakeState × AddModuleResult :=
  match state.modulesByIdentity.lookup identity with
  | some moduleHandle => (state, ⟨moduleHandle, false⟩)
  | none =>
      let moduleHandle := state.moduleGraph.modules.length
      ({ state with
          moduleGraph := state.moduleGraph.addModule fun handle =>
            { handle, identity, builtContent := hashes.newContent {} ""
              factorySideEffectFree := sideEffectFree }
          modulesByIdentity := state.modulesByIdentity.insert identity moduleHandle
          buildingModules := insert moduleHandle state.buildingModules },
        ⟨moduleHandle, true⟩)

def addOrConnect (state : MakeState) (originModule : Option ModuleHandle)
    (dependencies : List QueuedDependency) (identity : ModuleIdentity) (sideEffectFree : Option Bool) :
    MakeState × AddModuleResult :=
  let (state, result) := state.addModule hashes identity sideEffectFree
  (dependencies.foldl (connectDependency originModule result.moduleHandle) state, result)

/-- The graph has the module. -/
def finishBuild (state : MakeState) (moduleHandle : ModuleHandle) (builtContent : BuiltModuleContent) :
    MakeState :=
  { state with
    moduleGraph := { state.moduleGraph with
      modules := state.moduleGraph.modules.modify moduleHandle (·.finishBuildContent builtContent) }
    buildingModules := state.buildingModules.erase moduleHandle }

def failModule (state : MakeState) (moduleHandle : ModuleHandle) (error : Error) (source : String) :
    MakeState :=
  { state with
    moduleGraph := { state.moduleGraph with
      modules := state.moduleGraph.modules.modify moduleHandle (failBuild hashes error source) }
    buildingModules := state.buildingModules.erase moduleHandle
    errors := state.errors ++ [error] }

end MakeState

/-- A group is never empty. -/
def AddTask.failedIdentity (task : AddTask) : ModuleIdentity :=
  failedModuleIdentity task.context ((task.dependencies.head?.map (·.dependency)).getD .null)

/-- The module that the request was factorized to, or the failed module of the request. -/
def AddTask.identity (task : AddTask) : ModuleIdentity :=
  match task.result with
  | .success factorized => factorized.identity
  | .failed _ => task.failedIdentity

variable (hashes : ContentHashes)

/-- What was added, the tasks that follow, and the state. -/
def AddTask.run (task : AddTask) (state : MakeState) : AddModuleResult × List MakeTask × MakeState :=
  match task.result with
  | .success factorized =>
      let (state, result) := state.addOrConnect hashes task.originModule task.dependencies
        factorized.identity factorized.sideEffectFree
      (result,
        if result.isNew then
          [.build ⟨result.moduleHandle, factorized.identity, factorized.resource, factorized.loader⟩]
        else [],
        state)
  | .failed error =>
      let (state, result) := state.addOrConnect hashes task.originModule task.dependencies
        task.failedIdentity none
      (result, [], state.failModule hashes result.moduleHandle error "")

inductive MakeEvent where
  | factorized (task : FactorizeTask) (result : FactorizeTaskResult)
  | added (task : AddTask) (result : AddModuleResult)
  | built (task : BuildTask)
  | processed (task : ProcessDependenciesTask)
  | requested (origin : ModuleHandle) (factorized : FactorizedModule) (result : AddModuleResult)
  | failed (inRequest : Bool) (task : MakeTask) (dropped : List MakeTask)
  | other

/-- A task runs to its end. A build ends with content, which was built or was found in a cache, or with a
failed module. -/
inductive Runs : MakeTask → MakeState → MakeEvent → List MakeTask → MakeState → Prop
  | factorize (task : FactorizeTask) (result : FactorizeTaskResult)
      (h : ∀ error, result = .failed error → error.isCompilationError = true) (state : MakeState) :
      Runs (.factorize task) state (.factorized task result)
        [.add ⟨task.originModule, task.context, task.dependencies, result⟩] state
  | add (task : AddTask) (state : MakeState) :
      Runs (.add task) state (.added task (task.run hashes state).1) (task.run hashes state).2.1
        (task.run hashes state).2.2
  | finishBuild (task : BuildTask) {issuerContext : PathBuf}
      (hparent : PathBuf.parent task.resource = some issuerContext)
      (builtContent : BuiltModuleContent) (state : MakeState) :
      Runs (.build task) state (.built task)
        (processDependenciesTask task.moduleHandle issuerContext builtContent.parsed).toList
        (state.finishBuild task.moduleHandle builtContent)
  | failModule (task : BuildTask) {issuerContext : PathBuf}
      (hparent : PathBuf.parent task.resource = some issuerContext)
      (error : Error) (source : String) (state : MakeState) :
      Runs (.build task) state (.built task) [] (state.failModule hashes task.moduleHandle error source)
  | processDependencies (task : ProcessDependenciesTask) (state : MakeState) :
      Runs (.processDependencies task) state (.processed task) task.run state

/-- A task ends with an error of its own. -/
inductive Fails : MakeTask → Error → Prop
  | factorize (task : FactorizeTask) {error : Error} (h : error.isCompilationError = false) :
      Fails (.factorize task) error
  | build (task : BuildTask) (error : Error) : Fails (.build task) error

/-- A background task is running, or has ended and waits for the loop. -/
inductive BackgroundMakeTask where
  | running (task : MakeTask)
  | ended (outcome : Except Error (List MakeTask))

inductive LoaderRequestKind where
  | load
  | import

structure LoadedLoaderModule where
  source : String
  resource : PathBuf
  identity : ModuleIdentity
  dependencyRequests : List String

/-- Where a request of a loader stands. A request for a new module runs its build, and all that follows, one
task after the other. -/
inductive RequestPhase where
  | factorizing
  | waiting (target : ModuleHandle) (resource : PathBuf)
  | running (target : ModuleHandle) (resource : PathBuf) (current : Option MakeTask) (queue : List MakeTask)
  | ended (loaded : Except String LoadedLoaderModule)

structure LoaderRequest where
  originModule : ModuleHandle
  kind : LoaderRequestKind
  request : String
  context : PathBuf
  phase : RequestPhase := .factorizing

/-- `run`, and the requests that have been made. -/
structure MakeProgress where
  state : MakeState := {}
  mainQueue : List MakeTask := []
  background : List BackgroundMakeTask := []
  requests : List LoaderRequest := []
  result : Option (Except Error Unit) := none

namespace MakeProgress

def schedule (progress : MakeProgress) (task : MakeTask) : MakeProgress :=
  if task.isBackground then { progress with background := progress.background ++ [.running task] }
  else { progress with mainQueue := progress.mainQueue ++ [task] }

def scheduleAll (progress : MakeProgress) (tasks : List MakeTask) : MakeProgress :=
  tasks.foldl schedule progress

/-- The entries are scheduled at first. -/
def start (context : PathBuf) (requests : List String) : MakeProgress :=
  scheduleAll {} (requests.zipIdx.map fun (request, entryIndex) =>
    .factorize ⟨.normal, none, context, [⟨some entryIndex, none, none, .entry ⟨{ request }⟩⟩]⟩)

/-- The task has been started, by the loop or in a request, and has not ended. -/
def IsRunning (progress : MakeProgress) (task : MakeTask) : Prop :=
  .running task ∈ progress.background ∨
    ∃ request ∈ progress.requests, ∃ target resource queue,
      request.phase = .running target resource (some task) queue

end MakeProgress

namespace LoaderRequest

/-- The first part under the lock, when the request has been factorized. -/
def register (request : LoaderRequest) (state : MakeState) (factorized : FactorizedModule) :
    AddModuleResult × RequestPhase × MakeState :=
  let (state, result) := state.addOrConnect hashes none [] factorized.identity factorized.sideEffectFree
  if state.loaderWaitCreatesCycle request.originModule result.moduleHandle then
    (result,
      .ended (.error (Error.makeTask ("There is a circular build dependency involving " ++
        factorized.identity.resource.text)).text),
      state)
  else
    (result,
      if result.isNew then
        .running result.moduleHandle factorized.resource none
          [.build ⟨result.moduleHandle, factorized.identity, factorized.resource, factorized.loader⟩]
      else .waiting result.moduleHandle factorized.resource,
      { state with loaderWaits := state.loaderWaits.insert request.originModule result.moduleHandle })

/-- The last part under the lock. -/
def finish (request : LoaderRequest) (state : MakeState) (target : ModuleHandle) (resource : PathBuf) :
    Except String LoadedLoaderModule × MakeState :=
  (match state.moduleGraph.module target with
    | none => .error (Error.missingModule target).text
    | some module =>
        match module.buildError with
        | some error => .error error
        | none => .ok ⟨module.source, resource, module.identity,
            (module.dependencies ++ module.blocks.flatMap (·.dependencies)).filterMap fun dependency =>
              dependency.moduleDependency.map (·.request)⟩,
    { state with loaderWaits := state.loaderWaits.erase request.originModule })

end LoaderRequest

/-- The steps of `run` and of the requests, in any order. A loader makes requests while its build task is
running. -/
inductive MakeStep : MakeProgress → MakeEvent → MakeProgress → Prop
  | main {progress : MakeProgress} {task : MakeTask} {rest children : List MakeTask} {event : MakeEvent}
      {state : MakeState} (hresult : progress.result = none) (hqueue : progress.mainQueue = task :: rest)
      (h : Runs hashes task progress.state event children state) :
      MakeStep progress event (({ progress with mainQueue := rest, state }).scheduleAll children)
  | background {progress : MakeProgress} {before after : List BackgroundMakeTask} {task : MakeTask}
      {children : List MakeTask} {event : MakeEvent} {state : MakeState}
      (hbackground : progress.background = before ++ .running task :: after)
      (h : Runs hashes task progress.state event children state) :
      MakeStep progress event
        { progress with background := before ++ .ended (.ok children) :: after, state }
  | backgroundFails {progress : MakeProgress} {before after : List BackgroundMakeTask} {task : MakeTask}
      {error : Error} (hbackground : progress.background = before ++ .running task :: after)
      (h : Fails task error) :
      MakeStep progress (.failed false task [])
        { progress with background := before ++ .ended (.error error) :: after }
  | next {progress : MakeProgress} {before after : List BackgroundMakeTask} {children : List MakeTask}
      (hresult : progress.result = none) (hqueue : progress.mainQueue = [])
      (hbackground : progress.background = before ++ .ended (.ok children) :: after) :
      MakeStep progress .other (({ progress with background := before ++ after }).scheduleAll children)
  | nextFailed {progress : MakeProgress} {before after : List BackgroundMakeTask} {error : Error}
      (hresult : progress.result = none) (hqueue : progress.mainQueue = [])
      (hbackground : progress.background = before ++ .ended (.error error) :: after) :
      MakeStep progress .other
        { progress with
          background := before ++ after
          state := { progress.state with errors := progress.state.errors ++ [error] }
          result := some (.error error) }
  | done {progress : MakeProgress} (hresult : progress.result = none) (hqueue : progress.mainQueue = [])
      (hbackground : progress.background = []) :
      MakeStep progress .other { progress with result := some (.ok ()) }
  | request {progress : MakeProgress} {task : BuildTask} (hrunning : progress.IsRunning (.build task))
      (hloader : task.loader.isSome) (kind : LoaderRequestKind) (request : String) (context : PathBuf) :
      MakeStep progress .other
        { progress with
          requests := progress.requests ++ [⟨task.moduleHandle, kind, request, context, .factorizing⟩] }
  | requestUnresolved {progress : MakeProgress} {before after : List LoaderRequest} {request : LoaderRequest}
      (hrequests : progress.requests = before ++ request :: after) (hphase : request.phase = .factorizing)
      (error : Error) :
      MakeStep progress .other
        { progress with
          requests := before ++ { request with phase := .ended (.error error.text) } :: after }
  | requestRegistered {progress : MakeProgress} {before after : List LoaderRequest} {request : LoaderRequest}
      (hrequests : progress.requests = before ++ request :: after) (hphase : request.phase = .factorizing)
      (factorized : FactorizedModule) :
      MakeStep progress
        (.requested request.originModule factorized (request.register hashes progress.state factorized).1)
        { progress with
          requests := before ++
            { request with phase := (request.register hashes progress.state factorized).2.1 } :: after
          state := (request.register hashes progress.state factorized).2.2 }
  | requestWoken {progress : MakeProgress} {before after : List LoaderRequest} {request : LoaderRequest}
      {target : ModuleHandle} {resource : PathBuf}
      (hrequests : progress.requests = before ++ request :: after)
      (hphase : request.phase = .waiting target resource)
      (hbuilt : target ∉ progress.state.buildingModules) :
      MakeStep progress .other
        { progress with
          requests := before ++
            { request with phase := .ended (request.finish progress.state target resource).1 } :: after
          state := (request.finish progress.state target resource).2 }
  | requestStarts {progress : MakeProgress} {before after : List LoaderRequest} {request : LoaderRequest}
      {target : ModuleHandle} {resource : PathBuf} {task : MakeTask} {queue : List MakeTask}
      (hrequests : progress.requests = before ++ request :: after)
      (hphase : request.phase = .running target resource none (task :: queue)) :
      MakeStep progress .other
        { progress with
          requests := before ++
            { request with phase := .running target resource (some task) queue } :: after }
  | requestRuns {progress : MakeProgress} {before after : List LoaderRequest} {request : LoaderRequest}
      {target : ModuleHandle} {resource : PathBuf} {task : MakeTask} {queue children : List MakeTask}
      {event : MakeEvent} {state : MakeState}
      (hrequests : progress.requests = before ++ request :: after)
      (hphase : request.phase = .running target resource (some task) queue)
      (h : Runs hashes task progress.state event children state) :
      MakeStep progress event
        { progress with
          requests := before ++
            { request with phase := .running target resource none (queue ++ children) } :: after
          state }
  | requestFails {progress : MakeProgress} {before after : List LoaderRequest} {request : LoaderRequest}
      {target : ModuleHandle} {resource : PathBuf} {task : MakeTask} {queue : List MakeTask} {error : Error}
      (hrequests : progress.requests = before ++ request :: after)
      (hphase : request.phase = .running target resource (some task) queue) (h : Fails task error) :
      MakeStep progress (.failed true task queue)
        { progress with
          requests := before ++ { request with phase := .ended (.error error.text) } :: after }
  | requestEnds {progress : MakeProgress} {before after : List LoaderRequest} {request : LoaderRequest}
      {target : ModuleHandle} {resource : PathBuf}
      (hrequests : progress.requests = before ++ request :: after)
      (hphase : request.phase = .running target resource none []) :
      MakeStep progress .other
        { progress with
          requests := before ++
            { request with phase := .ended (request.finish progress.state target resource).1 } :: after
          state := (request.finish progress.state target resource).2 }

/-- The runs of `make::run` on some entries. -/
abbrev MakeRun : List (MakeProgress × MakeEvent) → MakeProgress → Prop :=
  Interleaving.Run (fun progress => ∃ context requests, progress = MakeProgress.start context requests)
    (MakeStep hashes)

end Unpack.Make
