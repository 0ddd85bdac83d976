import Unpack.DependencyTemplate

/-! Code generation: the generators of the module types, the code of a failed module, and the joined code
of a concatenation. Mime types and the lossy decoding of bytes come from libraries and are parameters. -/

namespace Unpack

inductive CodeGenerationSource where
  | raw (source : String)
  | originalWithReplacements (prefixText : String) (originalSourceLen : Nat) (originalName : String)
      (replacements : List CodeGenerationReplacement) (suffix : String)
  deriving DecidableEq

structure CodeGenerationRecord where
  source : CodeGenerationSource
  runtimeRequirements : RuntimeRequirements := ∅
  deriving DecidableEq

/-- A piece of a `ConcatSource`. -/
inductive SourcePart where
  | raw (text : String)
  | replaced (original name : String) (replacements : List CodeGenerationReplacement)
  deriving DecidableEq

structure CodeGenerationResult where
  source : List SourcePart
  runtimeRequirements : RuntimeRequirements
  deriving DecidableEq

/-- The byte positions between the characters of a text, its two ends included. -/
def charBoundaries (text : String) : List Nat :=
  text.toList.scanl (fun position character => position + character.utf8Size) 0

def CodeGenerationSource.isCompatibleWith (originalSource : String) : CodeGenerationSource → Bool
  | .raw _ => true
  | .originalWithReplacements _ originalSourceLen _ replacements _ =>
      originalSourceLen = originalSource.utf8ByteSize && replacements.all fun replacement =>
        replacement.start ≤ replacement.stop && replacement.stop ≤ originalSource.utf8ByteSize &&
          replacement.start ∈ charBoundaries originalSource &&
          replacement.stop ∈ charBoundaries originalSource

def CodeGenerationSource.intoRender (originalSource : String) :
    CodeGenerationSource → List SourcePart
  | .raw source => [.raw source]
  | .originalWithReplacements prefixText _ originalName replacements suffix =>
      [.raw prefixText, .replaced originalSource originalName replacements, .raw suffix]

def CodeGenerationRecord.intoResult (record : CodeGenerationRecord) (originalSource : String) :
    Option CodeGenerationResult :=
  if record.source.isCompatibleWith originalSource then
    some ⟨record.source.intoRender originalSource, record.runtimeRequirements⟩
  else none

structure ModuleGeneratorContext where
  module : Module
  moduleGraph : ModuleGraph
  chunkGraph : ChunkGraph
  moduleRenderIds : ModuleHandle → Option RenderId

/-- `to_string_lossy` of a path. -/
def pathText (path : PathBuf) : String := String.intercalate "/" path

/-- The dependencies of a module in the order their templates are applied, with the block and the index
that the template is told. -/
def Module.templateDependencies (module : Module) :
    List ((Option AsyncDependenciesBlockIndex × Option DependencyIndex) × Dependency) :=
  module.presentationalDependencies.map (fun dependency => ((none, none), dependency)) ++
    module.locatedDependencies.map fun located =>
      ((located.1.block, some located.1.dependencyIndex), located.2)

namespace ModuleGeneratorContext

variable (context : ModuleGeneratorContext) (scope : Option ConcatenationScope)

def moduleRenderName : String :=
  (context.moduleRenderIds context.module.handle).elim (pathText context.module.identity.resource)
    RenderId.toText

/-- What the template of a dependency is given. -/
def templateContext (place : Option AsyncDependenciesBlockIndex × Option DependencyIndex) :
    DependencyTemplateContext where
  module := context.module.handle
  originBlock := place.1
  dependencyIndex := place.2
  moduleGraph := context.moduleGraph
  chunkGraph := context.chunkGraph
  exportsInfo := context.moduleGraph.exportsInfo context.module.handle
  moduleRenderIds := context.moduleRenderIds
  concatenationScope := scope

def applyTemplate (state : TemplateState)
    (item : (Option AsyncDependenciesBlockIndex × Option DependencyIndex) × Dependency) :
    Except CodeGenerationError TemplateState :=
  item.2.applyTemplate (context.templateContext scope item.1) state

/-- A harmony module first marks its exports as a namespace. -/
def initialState : TemplateState :=
  if context.module.isHarmony then
    (({} : TemplateState).addRuntimeRequirement .makeNamespaceObject).addInitFragment .compatibility
      "__webpack_require__.r(__webpack_exports__);\n"
  else {}

def generateWithConcatenationScope : Except CodeGenerationError CodeGenerationRecord := do
  let state ← context.module.templateDependencies.foldlM (context.applyTemplate scope)
    context.initialState
  if context.module.sourceLen < 2 ^ 32 then
    pure {
      source := .originalWithReplacements (InitFragment.render state.initFragments)
        context.module.sourceLen context.moduleRenderName state.replacements ""
      runtimeRequirements := state.runtimeRequirements }
  else throw (.panicked "Module source length must fit the Code Generation cache format")

def generateJavascript : Except CodeGenerationError CodeGenerationRecord :=
  context.generateWithConcatenationScope none

end ModuleGeneratorContext

def jsonExport (name : String) : String :=
  let name := jsonString name
  "[" ++ name ++ "]: () => (__WEBPACK_JSON_MODULE__[" ++ name ++ "])"

def generateJson (module : Module) : Except CodeGenerationError CodeGenerationRecord :=
  match module.parsedData with
  | .json value =>
      let exports := "default: () => (__WEBPACK_JSON_MODULE__)" ::
        ((value.objectKeys.getD []).filter (· ≠ "default")).map jsonExport
      .ok {
        source := .raw ("var __WEBPACK_JSON_MODULE__ = JSON.parse(" ++ jsonString value.serialized ++
          ");\n__webpack_require__.d(__webpack_exports__, \x7b " ++
          String.intercalate ", " exports ++ " \x7d);")
        runtimeRequirements := {.definePropertyGetters} }
  | _ => .error (.panicked "JSON modules must contain JSON Parser data")

/-- `StableHasher`: FNV-1a over the bytes written. -/
def stableHashBytes (bytes : List UInt8) : UInt64 :=
  bytes.foldl (fun state byte => (state ^^^ byte.toUInt64) * 1099511628211) 14695981039346656037

/-- `to_le_bytes` of a 64-bit number. -/
def littleEndian (value : UInt64) : List UInt8 :=
  (List.range 8).map fun index => (value >>> (8 * index).toUInt64).toUInt8

/-- `{:016x}` -/
def hexadecimal (value : UInt64) : String :=
  let digits := Nat.toDigits 16 value.toNat
  String.ofList (List.replicate (16 - digits.length) '0' ++ digits)

/-- `Path::extension`: what follows the last dot of the file name, which may not start with it. -/
def pathExtension (path : PathBuf) : Option String :=
  path.getLast?.bind fun name =>
    let characters := name.toList.reverse
    let extension := characters.takeWhile (· ≠ '.')
    if extension.length + 1 < characters.length then some (String.ofList extension.reverse) else none

namespace Module

variable (module : Module)

def resourceFilename : String :=
  let source := module.sourceBytes
  let first := stableHashBytes (littleEndian source.length.toUInt64 ++ source)
  let second := stableHashBytes (littleEndian first ++ littleEndian source.length.toUInt64)
  String.ofList ((hexadecimal first ++ hexadecimal second).toList.take 20) ++
    (pathExtension module.identity.resource).elim "" ("." ++ ·)

def resourceUrl : String :=
  module.resourceFilename ++ module.identity.query.getD "" ++ module.identity.fragment.getD ""

end Module

def base64Alphabet : List Char :=
  "ABCDEFGHIJKLMNOPQRSTUVWXYZabcdefghijklmnopqrstuvwxyz0123456789+/".toList

/-- Six bits. -/
def base64Digit (value : Nat) : Char := base64Alphabet.getD (value % 64) 'A'

def encodeBase64 : List UInt8 → List Char
  | [] => []
  | [first] => [base64Digit (first.toNat / 4), base64Digit (first.toNat % 4 * 16), '=', '=']
  | [first, second] =>
      [base64Digit (first.toNat / 4), base64Digit (first.toNat % 4 * 16 + second.toNat / 16),
        base64Digit (second.toNat % 16 * 4), '=']
  | first :: second :: third :: rest =>
      [base64Digit (first.toNat / 4), base64Digit (first.toNat % 4 * 16 + second.toNat / 16),
        base64Digit (second.toNat % 16 * 4 + third.toNat / 64), base64Digit third.toNat] ++
        encodeBase64 rest

/-- What asset generation takes from libraries. -/
structure AssetLibrary where
  mimeType : List String → Option String
  fromUtf8Lossy : List UInt8 → String

variable (library : AssetLibrary)

def dataUri (path : PathBuf) (source : List UInt8) : String :=
  "data:" ++ (library.mimeType path).getD "application/octet-stream" ++ ";base64," ++
    String.ofList (encodeBase64 source)

def assetValue (module : Module) : ModuleType → Option String
  | .assetResource => some module.resourceUrl
  | .assetInline => some (dataUri library module.identity.resource module.sourceBytes)
  | .assetSource => some (library.fromUtf8Lossy module.sourceBytes)
  | _ => none

def generateAsset (module : Module) : Except CodeGenerationError CodeGenerationRecord :=
  match module.parsedData with
  | .asset moduleType =>
      match assetValue library module moduleType with
      | some value =>
          .ok {
            source := .raw ("var __WEBPACK_ASSET_MODULE__ = " ++ jsonString value ++
              ";\n__webpack_require__.d(__webpack_exports__, \x7b default: () => " ++
              "(__WEBPACK_ASSET_MODULE__) \x7d);")
            runtimeRequirements := {.definePropertyGetters} }
      | none =>
          .error (.panicked "effective asset module type must select a generator")
  | _ => .error (.panicked "asset modules must contain Asset Parser data")

/-- The generator registered for the type of the module. -/
def ModuleGeneratorContext.generate (context : ModuleGeneratorContext) :
    Except CodeGenerationError CodeGenerationRecord :=
  match context.module.identity.moduleType with
  | .javaScriptAuto => context.generateJavascript
  | .json => generateJson context.module
  | .asset | .assetResource | .assetInline | .assetSource => generateAsset library context.module

def renderFailedModuleContent (error : String) : String :=
  "throw new Error(" ++ jsonString error ++ ");"

def generateRegisteredModule (context : ModuleGeneratorContext) :
    Except CodeGenerationError CodeGenerationRecord :=
  match context.module.buildError with
  | some error => .ok { source := .raw (renderFailedModuleContent error) }
  | none => context.generate library

namespace ConcatenatedModule

/-- The scope of the inner modules; its names avoid all their identifiers. -/
def concatenationScope (concatenated : ConcatenatedModule) (moduleGraph : ModuleGraph) :
    ConcatenationScope :=
  .new concatenated.modules (concatenated.modules.flatMap fun handle =>
    (moduleGraph.module handle).elim [] (·.identifiers))

/-- The code of one module inside the concatenation. -/
def generateModule (moduleGraph : ModuleGraph) (chunkGraph : ChunkGraph)
    (moduleRenderIds : ModuleHandle → Option RenderId) (scope : ConcatenationScope)
    (handle : ModuleHandle) : Except CodeGenerationError CodeGenerationResult := do
  let module ← expect (moduleGraph.module handle)
    "a Concatenated Module must reference Modules in the Module Graph"
  let record ← ModuleGeneratorContext.generateWithConcatenationScope
    ⟨module, moduleGraph, chunkGraph, moduleRenderIds⟩ (some scope)
  expect (record.intoResult module.source)
    "concatenated Code Generation must match its Module source"

/-- One guarded initializer. -/
def initializerParts (scope : ConcatenationScope) (handle : ModuleHandle)
    (result : CodeGenerationResult) : List SourcePart :=
  let index := toString (scope.ordinal handle)
  [.raw (scope.initializersName ++ "[" ++ index ++ "] = () => \x7b\n  if (" ++ scope.initializedName ++
      "[" ++ index ++ "]) return " ++ scope.exportsName ++ "[" ++ index ++ "];\n  " ++
      scope.initializedName ++ "[" ++ index ++
      "] = true;\n  return ((__webpack_exports__, __webpack_require__) => \x7b\n")] ++
    result.source ++
    [.raw ("\n    return __webpack_exports__;\n  \x7d)(" ++ scope.exportsName ++ "[" ++ index ++
      "], __webpack_require__);\n\x7d;\n")]

def codeGeneration (concatenated : ConcatenatedModule) (moduleGraph : ModuleGraph)
    (chunkGraph : ChunkGraph) (moduleRenderIds : ModuleHandle → Option RenderId) :
    Except CodeGenerationError CodeGenerationResult := do
  let scope := concatenated.concatenationScope moduleGraph
  let results ← concatenated.modules.mapM
    (generateModule moduleGraph chunkGraph moduleRenderIds scope)
  let length := toString concatenated.modules.length
  let exports := concatenated.modules.map fun module =>
    if module = concatenated.rootModule then "__webpack_exports__" else "\x7b\x7d"
  pure {
    source :=
      [.raw "// webpack-style concatenated module\n",
        .raw ("var " ++ scope.exportsName ++ " = [" ++ String.intercalate ", " exports ++ "];\n"),
        .raw ("var " ++ scope.initializedName ++ " = Array(" ++ length ++ ").fill(false);\nvar " ++
          scope.initializersName ++ " = Array(" ++ length ++ ");\n")] ++
      (concatenated.modules.zip results).flatMap (fun item => initializerParts scope item.1 item.2) ++
      [.raw (scope.initializersName ++ "[" ++ toString (scope.ordinal concatenated.rootModule) ++
        "]();\n")]
    runtimeRequirements := results.foldl (fun requirements result =>
      requirements ∪ result.runtimeRequirements) ∅ }

end ConcatenatedModule

end Unpack
