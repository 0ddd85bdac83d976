import Unpack.SealedChunkGraph

/-! The dependency templates: what each dependency of a module adds to its generated code. A template
sees the module's place in both graphs and adds replacements of the source, init fragments and runtime
requirements. The replacements are kept in the order they are made. -/

namespace Unpack

inductive RuntimeRequirement where
  | moduleFactories
  | moduleCache
  | require
  | definePropertyGetters
  | hasOwnProperty
  | makeNamespaceObject
  | ensureChunk
  | ensureChunkHandlers
  | getChunkFilename
  | moduleFactoriesAddOnly
  | returnExportsFromRuntime
  deriving DecidableEq

/-- The source keeps a bit mask. -/
abbrev RuntimeRequirements := Finset RuntimeRequirement

inductive InitFragmentStage where
  | compatibility
  | exports
  | imports
  | starReexport
  deriving DecidableEq

def InitFragmentStage.rank : InitFragmentStage → Nat
  | compatibility => 0
  | exports => 1
  | imports => 2
  | starReexport => 3

structure InitFragment where
  stage : InitFragmentStage
  order : Nat
  content : String
  deriving DecidableEq

/-- A stable sort by stage and order, then the contents. -/
def InitFragment.render (fragments : List InitFragment) : String :=
  String.join ((fragments.insertionSort fun left right =>
    ((compare left.stage.rank right.stage.rank).then (compare left.order right.order)).isLE).map
    (·.content))

structure CodeGenerationReplacement where
  start : Nat
  stop : Nat
  content : String
  deriving DecidableEq

/-- The error of code generation, or a failed expectation of the source. -/
inductive CodeGenerationError where
  | codeGeneration (module : ModuleHandle) (path : PathBuf) (message : String)
  | panicked (message : String)
  deriving DecidableEq

def expect {α : Type} (value : Option α) (message : String) : Except CodeGenerationError α :=
  match value with
  | some value => .ok value
  | none => .error (.panicked message)

@[simp] theorem expect_some {α : Type} (value : α) (message : String) :
    expect (some value) message = .ok value := rfl

@[simp] theorem expect_none {α : Type} (message : String) :
    expect (none : Option α) message = .error (.panicked message) := rfl

@[simp] theorem ok_bind {ε α β : Type} (value : α) (f : α → Except ε β) :
    (Except.ok value >>= f) = f value := rfl

@[simp] theorem error_bind {ε α β : Type} (error : ε) (f : α → Except ε β) :
    (Except.error error >>= f) = .error error := rfl

def sanitizeIdentifier (value : String) : String :=
  let ident := (RenderPathContext.trimDotSlash value.toList).map fun ch =>
    if ch.isAlphanum then ch else '_'
  let ident := if ident.isEmpty then "module".toList else ident
  String.ofList (if ident.head?.any Char.isDigit then '_' :: ident else ident)

def importVar (request : String) (sourceOrder : Nat) : String :=
  "_" ++ sanitizeIdentifier request ++ "__WEBPACK_IMPORTED_MODULE_" ++ toString (sourceOrder - 1) ++
    "__"

def isIdentifier (value : String) : Bool :=
  match value.toList with
  | [] => false
  | first :: rest =>
      (first = '_' || first = '$' || first.isAlpha) &&
        rest.all fun ch => ch = '_' || ch = '$' || ch.isAlphanum

namespace JsonString

def quoteMark : Char := Char.ofNat 0x22

def backslash : Char := Char.ofNat 0x5C

def hexDigit (value : Nat) : Char := Nat.digitChar value

/-- The short escapes, the six-character form of the other control characters, and all else as it is. -/
def escapeChar (character : Char) : List Char :=
  if character = quoteMark then [backslash, quoteMark]
  else if character = backslash then [backslash, backslash]
  else
    match character.toNat with
    | 0x08 => [backslash, 'b']
    | 0x09 => [backslash, 't']
    | 0x0A => [backslash, 'n']
    | 0x0C => [backslash, 'f']
    | 0x0D => [backslash, 'r']
    | value =>
        if value < 0x20 then
          [backslash, 'u', '0', '0', hexDigit (value / 16), hexDigit (value % 16)]
        else [character]

def quoteChars (text : List Char) : List Char :=
  quoteMark :: text.flatMap escapeChar ++ [quoteMark]

def quote (text : String) : String := String.ofList (quoteChars text.toList)

end JsonString

/-- `serde_json` writes a string so. -/
def jsonString (value : String) : String := JsonString.quote value

def jsonRenderId : RenderId → String
  | .string value => jsonString value
  | .number value => toString value.toNat

def propertyAccess (property : String) : String :=
  if isIdentifier property then "." ++ property else "[" ++ jsonString property ++ "]"

def propertyName (property : String) : String :=
  if isIdentifier property then property else "[" ++ jsonString property ++ "]"

def exportAccessExpression (base : String) (ids : List String) : String :=
  ids.foldl (fun expression id => expression ++ propertyAccess id) base

def importExpression (request : String) (sourceOrder : Nat) (ids : List String) : String :=
  exportAccessExpression (importVar request sourceOrder) ids

def exportsArgument : String := "__webpack_exports__"

/-- `__webpack_require__.d` with one getter. -/
def getterStatement (name expression : String) : String :=
  "__webpack_require__.d(" ++ exportsArgument ++ ", \x7b " ++ name ++ ": () => (" ++ expression ++
    ") \x7d);\n"

def requireStatement (importVar targetId : String) : String :=
  "/* harmony import */ var " ++ importVar ++ " = __webpack_require__(" ++ targetId ++ ");\n"

def starReexportStatement (importVar : String) : String :=
  "/* harmony reexport (unknown) */ for(const __WEBPACK_IMPORT_KEY__ in " ++ importVar ++
    ") if(__WEBPACK_IMPORT_KEY__ !== \"default\" && __WEBPACK_IMPORT_KEY__ !== \"__esModule\") " ++
    "__webpack_require__.d(" ++ exportsArgument ++ ", \x7b [__WEBPACK_IMPORT_KEY__]: () => (" ++
    importVar ++ "[__WEBPACK_IMPORT_KEY__]) \x7d);\n"

def ensureChunkExpression (chunkId : String) : String := "__webpack_require__.e(" ++ chunkId ++ ")"

def loadExpression : List String → String
  | [chunkId] => ensureChunkExpression chunkId
  | chunkIds =>
      "Promise.all([" ++ String.intercalate ", " (chunkIds.map ensureChunkExpression) ++ "])"

def requireAfter (load targetId : String) : String :=
  load ++ ".then(__webpack_require__.bind(__webpack_require__, " ++ targetId ++ "))"

/-- The modules of a concatenation and the number that ends its generated names. -/
structure ConcatenationScope where
  modules : List ModuleHandle
  suffix : Nat
  deriving DecidableEq

namespace ConcatenationScope

def exportsNameOf (suffix : Nat) : String := "__webpack_concatenation_exports__" ++ toString suffix

def initializedNameOf (suffix : Nat) : String :=
  "__webpack_concatenation_initialized__" ++ toString suffix

def initializersNameOf (suffix : Nat) : String :=
  "__webpack_concatenation_initializers__" ++ toString suffix

/-- The first suffix from this one on that no identifier uses. -/
def freeSuffix (identifiers : List String) : Nat → Nat → Nat
  | 0, suffix => suffix
  | fuel + 1, suffix =>
      if exportsNameOf suffix ∉ identifiers ∧ initializedNameOf suffix ∉ identifiers ∧
        initializersNameOf suffix ∉ identifiers then suffix
      else freeSuffix identifiers fuel (suffix + 1)

def new (modules : List ModuleHandle) (identifiers : List String) : ConcatenationScope :=
  ⟨modules, freeSuffix identifiers identifiers.length 0⟩

variable (scope : ConcatenationScope)

def exportsName : String := exportsNameOf scope.suffix

def initializedName : String := initializedNameOf scope.suffix

def initializersName : String := initializersNameOf scope.suffix

def contains (module : ModuleHandle) : Bool := module ∈ scope.modules

/-- The position of a module of the scope. -/
def ordinal (module : ModuleHandle) : Nat := scope.modules.idxOf module

def exportsExpression (module : ModuleHandle) : String :=
  scope.exportsName ++ "[" ++ toString (scope.ordinal module) ++ "]"

def initExpression (module : ModuleHandle) : String :=
  scope.initializersName ++ "[" ++ toString (scope.ordinal module) ++ "]"

end ConcatenationScope

structure DependencyTemplateContext where
  module : ModuleHandle
  originBlock : Option AsyncDependenciesBlockIndex
  dependencyIndex : Option DependencyIndex
  moduleGraph : ModuleGraph
  chunkGraph : ChunkGraph
  exportsInfo : ExportsInfo
  moduleRenderIds : ModuleHandle → Option RenderId
  concatenationScope : Option ConcatenationScope

/-- What the templates of a module write to. -/
structure TemplateState where
  replacements : List CodeGenerationReplacement := []
  runtimeRequirements : RuntimeRequirements := ∅
  initFragments : List InitFragment := []
  deriving DecidableEq

namespace TemplateState

def addRuntimeRequirement (state : TemplateState) (requirement : RuntimeRequirement) :
    TemplateState :=
  { state with runtimeRequirements := insert requirement state.runtimeRequirements }

def addInitFragment (state : TemplateState) (stage : InitFragmentStage) (content : String) :
    TemplateState :=
  { state with
    initFragments := state.initFragments ++ [⟨stage, state.initFragments.length, content⟩] }

def replace (state : TemplateState) (range : SourceRange) (content : String) : TemplateState :=
  { state with replacements := state.replacements ++ [⟨range.start, range.stop, content⟩] }

end TemplateState

namespace DependencyTemplateContext

variable (context : DependencyTemplateContext)

def validateSourceRanges (ranges : List SourceRange) : Except CodeGenerationError Unit := do
  let module ← expect (context.moduleGraph.module context.module)
    "Dependency Template origin Module must exist in the Module Graph"
  match ranges.find? fun range => range.start > range.stop || range.stop > module.sourceLen with
  | some range =>
      throw (.codeGeneration context.module module.identity.resource
        ("dependency source range " ++ toString range.start ++ ".." ++ toString range.stop ++
          " exceeds module source length " ++ toString module.sourceLen))
  | none => pure ()

/-- The module that the connection of the dependency leads to. -/
def connectionTarget (block : Option AsyncDependenciesBlockIndex) (what : String) :
    Except CodeGenerationError ModuleHandle := do
  let dependencyIndex ← expect context.dependencyIndex (what ++ " must have a Dependency Index")
  expect (context.moduleGraph.moduleForDependency context.module block dependencyIndex)
    (what ++ " must have a Module Graph connection")

/-- The scope of the concatenation, when the target is in it too. -/
def internalScope (target : ModuleHandle) : Option ConcatenationScope :=
  context.concatenationScope.filter (·.contains target)

end DependencyTemplateContext

namespace HarmonyImportSideEffectDependency

def sourceRanges (dependency : HarmonyImportSideEffectDependency) : List SourceRange :=
  dependency.module.range.toList

def importVar (dependency : HarmonyImportSideEffectDependency) : String :=
  Unpack.importVar dependency.module.request (dependency.module.sourceOrder.getD 0)

def apply (dependency : HarmonyImportSideEffectDependency) (context : DependencyTemplateContext)
    (state : TemplateState) : Except CodeGenerationError TemplateState := do
  let state := state.addRuntimeRequirement .require
  let target ← context.connectionTarget none "Harmony import"
  match context.internalScope target with
  | some scope => pure (state.addInitFragment .imports (scope.initExpression target ++ "();\n"))
  | none =>
      match context.moduleRenderIds target with
      | none => pure state
      | some targetRenderId =>
          pure (state.addInitFragment .imports
            (requireStatement dependency.importVar (jsonRenderId targetRenderId)))

end HarmonyImportSideEffectDependency

namespace HarmonyImportSpecifierDependency

def sourceRanges (dependency : HarmonyImportSpecifierDependency) : List SourceRange :=
  dependency.module.range.toList ++ [dependency.usageRange]

/-- The expression that a use of the imported name becomes. -/
def expression (dependency : HarmonyImportSpecifierDependency) (context : DependencyTemplateContext)
    (target : ModuleHandle) : String :=
  match context.internalScope target with
  | some scope => exportAccessExpression (scope.exportsExpression target) dependency.ids
  | none =>
      importExpression dependency.module.request (dependency.module.sourceOrder.getD 0) dependency.ids

def apply (dependency : HarmonyImportSpecifierDependency) (context : DependencyTemplateContext)
    (state : TemplateState) : Except CodeGenerationError TemplateState := do
  let target ← context.connectionTarget none "Harmony import specifier"
  let expression := dependency.expression context target
  let expression :=
    if dependency.shorthand then dependency.name ++ ": " ++ expression else expression
  pure (state.replace dependency.usageRange expression)

end HarmonyImportSpecifierDependency

namespace HarmonyExportHeaderDependency

def sourceRanges (dependency : HarmonyExportHeaderDependency) : List SourceRange :=
  dependency.statementRange :: dependency.declarationRange.toList

def apply (dependency : HarmonyExportHeaderDependency) (state : TemplateState) : TemplateState :=
  let stop := dependency.declarationRange.elim dependency.statementRange.stop (·.start)
  state.replace ⟨dependency.statementRange.start, stop⟩ ""

end HarmonyExportHeaderDependency

/-- A getter of an export under its used name; an unused one has none. -/
def TemplateState.addGetter (state : TemplateState) (usedName : Option String) (expression : String) :
    TemplateState :=
  match usedName with
  | none => state
  | some usedName =>
      state.addInitFragment .exports (getterStatement (propertyName usedName) expression)

def HarmonyExportSpecifierDependency.apply (dependency : HarmonyExportSpecifierDependency)
    (context : DependencyTemplateContext) (state : TemplateState) : TemplateState :=
  (state.addRuntimeRequirement .definePropertyGetters).addGetter
    (context.exportsInfo.getUsedName dependency.name) dependency.id

namespace HarmonyExportExpressionDependency

def sourceRanges (dependency : HarmonyExportExpressionDependency) : List SourceRange :=
  [dependency.statementRange, dependency.range]

def apply (dependency : HarmonyExportExpressionDependency) (context : DependencyTemplateContext)
    (state : TemplateState) : TemplateState :=
  let state := state.addRuntimeRequirement .definePropertyGetters
  let binding := dependency.declarationId.getD "__WEBPACK_DEFAULT_EXPORT__"
  let range := ⟨dependency.statementRange.start, dependency.range.start⟩
  let state := state.replace range (if dependency.declarationId.isSome then
    "/* harmony default export */ "
    else "/* harmony default export */ const __WEBPACK_DEFAULT_EXPORT__ = ")
  state.addGetter (context.exportsInfo.getUsedName "default") binding

end HarmonyExportExpressionDependency

namespace HarmonyExportImportedSpecifierDependency

def sourceRanges (dependency : HarmonyExportImportedSpecifierDependency) : List SourceRange :=
  dependency.module.range.toList

/-- The variable that holds the exports of the target, also where the target shares the scope. -/
def importVar (dependency : HarmonyExportImportedSpecifierDependency)
    (context : DependencyTemplateContext) (target : ModuleHandle) : String :=
  match context.internalScope target with
  | some scope => scope.exportsExpression target
  | none => Unpack.importVar dependency.module.request (dependency.module.sourceOrder.getD 0)

def apply (dependency : HarmonyExportImportedSpecifierDependency)
    (context : DependencyTemplateContext) (state : TemplateState) :
    Except CodeGenerationError TemplateState := do
  let state := state.addRuntimeRequirement .definePropertyGetters
  let target ← context.connectionTarget none "Harmony re-export"
  if (context.internalScope target).isNone && (context.moduleRenderIds target).isNone then
    pure state
  else
    let importVar := dependency.importVar context target
    if dependency.isStar then
      pure (state.addInitFragment .starReexport (starReexportStatement importVar))
    else
      match dependency.name with
      | none => pure state
      | some name =>
          pure (state.addGetter (context.exportsInfo.getUsedName name)
            (exportAccessExpression importVar dependency.ids))

end HarmonyExportImportedSpecifierDependency

namespace ConstDependency

def sourceRanges (dependency : ConstDependency) : List SourceRange := [dependency.range]

def apply (dependency : ConstDependency) (state : TemplateState) : TemplateState :=
  state.replace dependency.range dependency.expression

end ConstDependency

namespace ImportDependency

def sourceRanges (dependency : ImportDependency) : List SourceRange :=
  dependency.module.range.toList

/-- The printed render ids of the chunks of a group. -/
def chunkIds (chunkGraph : ChunkGraph) (group : ChunkGroupHandle) :
    Except CodeGenerationError (List String) := do
  let found ← expect (chunkGraph.chunkGroup group) "index out of bounds"
  let chunkIds ← found.chunks.mapM fun handle => do
    let chunk ← expect (chunkGraph.chunk handle)
      "Async Chunk must exist before Dynamic Import generation"
    let renderId ← expect chunk.renderId "chunk Render ID should be assigned before it is read"
    pure (jsonRenderId renderId)
  if chunkIds.isEmpty then throw (.panicked "Async Chunk Group must contain a Chunk")
  else pure chunkIds

def apply (dependency : ImportDependency) (context : DependencyTemplateContext)
    (state : TemplateState) : Except CodeGenerationError TemplateState := do
  let state := state.addRuntimeRequirement .require
  let blockIndex ← expect context.originBlock "Dynamic import must belong to an Async Block"
  let target ← context.connectionTarget (some blockIndex) "Dynamic import"
  let targetRenderId ← expect (context.moduleRenderIds target) "no entry found for key"
  let targetId := jsonRenderId targetRenderId
  match context.chunkGraph.blockChunkGroup ⟨context.module, blockIndex⟩ with
  | some group =>
      let chunkIds ← chunkIds context.chunkGraph group
      let range ← expect dependency.module.range "import dependency should have range"
      pure ((state.addRuntimeRequirement .ensureChunk).replace range
        (requireAfter (loadExpression chunkIds) targetId))
  | none =>
      let range ← expect dependency.module.range "import dependency should have range"
      pure (state.replace range (requireAfter "Promise.resolve()" targetId))

end ImportDependency

/-- The ranges of a template are checked before it is applied. -/
def applyDependencyTemplate (sourceRanges : List SourceRange)
    (apply : DependencyTemplateContext → TemplateState → Except CodeGenerationError TemplateState)
    (context : DependencyTemplateContext) (state : TemplateState) :
    Except CodeGenerationError TemplateState := do
  context.validateSourceRanges sourceRanges
  apply context state

def Dependency.applyTemplate (context : DependencyTemplateContext) (state : TemplateState) :
    Dependency → Except CodeGenerationError TemplateState
  | .entry _ | .loader _ | .loaderImport _ => pure state
  | .harmonyImportSideEffect dep =>
      applyDependencyTemplate dep.sourceRanges dep.apply context state
  | .harmonyImportSpecifier dep => applyDependencyTemplate dep.sourceRanges dep.apply context state
  | .harmonyExportHeader dep =>
      applyDependencyTemplate dep.sourceRanges (fun _ state => pure (dep.apply state)) context state
  | .harmonyExportSpecifier dep =>
      applyDependencyTemplate [] (fun context state => pure (dep.apply context state)) context state
  | .harmonyExportExpression dep =>
      applyDependencyTemplate dep.sourceRanges (fun context state => pure (dep.apply context state))
        context state
  | .harmonyExportImportedSpecifier dep =>
      applyDependencyTemplate dep.sourceRanges dep.apply context state
  | .null => applyDependencyTemplate [] (fun _ state => pure state) context state
  | .const dep =>
      applyDependencyTemplate dep.sourceRanges (fun _ state => pure (dep.apply state)) context state
  | .import dep => applyDependencyTemplate dep.sourceRanges dep.apply context state

end Unpack
