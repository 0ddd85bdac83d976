import Unpack.CodeGeneration
import Unpack.ChunkFilenames
import Unpack.MemoryCache
import Unpack.RuntimeRequirements
import Unpack.Lib.SelfDelimiting

/-! The manifests of the JavaScript chunks of a compilation, the rendering of their assets, and what the cache
of rendered assets hashes to tell that a rendering may be used again. The sources of generated code come from
a library: what a source feeds to a hasher, its text, its source map, and how the maps of joined sources are
joined are parameters. -/

namespace Unpack

structure RenderedRuntimeModule where
  module : RuntimeModule
  source : String
  deriving DecidableEq

structure ModuleRenderManifest where
  module : ModuleHandle
  renderId : RenderId
  deriving DecidableEq

inductive JavascriptRenderManifest where
  | initialChunk (modules : List ModuleRenderManifest) (runtimeModules : List RenderedRuntimeModule)
      (entryId chunkId : RenderId)
  | asyncChunk (modules : List ModuleRenderManifest) (chunkId : RenderId)
  deriving DecidableEq

inductive AssetRenderKind where
  | initial
  | async
  deriving DecidableEq

structure AssetRenderKey where
  kind : AssetRenderKind
  chunkId : RenderId
  deriving DecidableEq

structure CodeGenerationResults where
  moduleRenderIds : ModuleHandle → Option RenderId
  results : FxHashMap ModuleHandle CodeGenerationResult

/-- A module of a manifest with its result. -/
structure ModuleRenderInput where
  renderId : RenderId
  result : CodeGenerationResult
  deriving DecidableEq

namespace JavascriptRenderManifest

def modules : JavascriptRenderManifest → List ModuleRenderManifest
  | initialChunk modules _ _ _ | asyncChunk modules _ => modules

def runtimeModules : JavascriptRenderManifest → List RenderedRuntimeModule
  | initialChunk _ runtimeModules _ _ => runtimeModules
  | asyncChunk _ _ => []

def entryId : JavascriptRenderManifest → Option RenderId
  | initialChunk _ _ entryId _ => some entryId
  | asyncChunk _ _ => none

def cacheKey : JavascriptRenderManifest → AssetRenderKey
  | initialChunk _ _ _ chunkId => ⟨.initial, chunkId⟩
  | asyncChunk _ chunkId => ⟨.async, chunkId⟩

/-- The modules are a vector of the program, counted by a machine word. -/
def Addressable (manifest : JavascriptRenderManifest) : Prop :=
  manifest.modules.length < 2 ^ 64

end JavascriptRenderManifest

/-- The results of the modules in the order of the manifest. A module without a result is a panic. -/
def CodeGenerationResults.ofManifest (results : CodeGenerationResults)
    (modules : List ModuleRenderManifest) : Option (List ModuleRenderInput) :=
  modules.mapM fun module => (results.results.lookup module.module).map (⟨module.renderId, ·⟩)

def CodeGenerationResults.runtimeRequirements (results : CodeGenerationResults) :
    FxHashMap ModuleHandle RuntimeRequirements :=
  results.results.entries.foldl (fun requirements entry =>
    requirements.insert entry.1 entry.2.runtimeRequirements) ∅

namespace RuntimeModule

/-- The text of the properties that `render_chunk_filename_map` joins. -/
def chunkFilenameMapText (properties : List (RenderId × String)) : String :=
  ", ".intercalate (properties.map fun property => jsonRenderId property.1 ++ ": " ++ jsonString property.2)

def chunkFilenameText (filenameMap : String) : String :=
  "__webpack_require__.u = function(chunkId) \x7b\n  return (\x7b" ++ filenameMap ++
    "\x7d)[chunkId];\n\x7d;\n"

def chunkLoadingText (chunkId : String) : String :=
  "var installedChunks = \x7b\n  " ++ (chunkId ++
    (": 1\n\x7d;\nvar installChunk = function(chunk) \x7b\n" ++
      "  var moreModules = chunk.modules, chunkIds = chunk.ids, runtime = chunk.runtime;\n" ++
      "  for(var moduleId in moreModules) \x7b\n" ++
      "    if(__webpack_require__.o(moreModules, moduleId)) \x7b\n" ++
      "      __webpack_require__.m[moduleId] = moreModules[moduleId];\n    \x7d\n  \x7d\n" ++
      "  if(runtime) runtime(__webpack_require__);\n" ++
      "  for(var i = 0; i < chunkIds.length; i++) \x7b\n    installedChunks[chunkIds[i]] = 1;\n  \x7d\n\x7d;\n" ++
      "__webpack_require__.f.require = function(chunkId, promises) \x7b\n" ++
      "  if(!installedChunks[chunkId]) \x7b\n" ++
      "    var installedChunk = require(\"./\" + __webpack_require__.u(chunkId));\n" ++
      "    if(!installedChunks[chunkId]) \x7b\n      installChunk(installedChunk);\n    \x7d\n  \x7d\n\x7d;\n"))

/-- There is no text where the program panics: without the runtime chunk, or before its id is assigned. -/
def generate (chunkGraph : ChunkGraph) (runtimeChunk : ChunkHandle) (module : RuntimeModule) :
    Option String := do
  let chunk ← chunkGraph.chunk runtimeChunk
  match module with
  | definePropertyGetters => pure ("__webpack_require__.d = function(exports, definition) \x7b\n" ++
      "  for(var key in definition) \x7b\n" ++
      "    if(__webpack_require__.o(definition, key) && !__webpack_require__.o(exports, key)) \x7b\n" ++
      "      Object.defineProperty(exports, key, \x7b enumerable: true, get: definition[key] \x7d);\n" ++
      "    \x7d\n  \x7d\n\x7d;\n")
  | hasOwnProperty => pure ("__webpack_require__.o = function(obj, prop) \x7b " ++
      "return Object.prototype.hasOwnProperty.call(obj, prop); \x7d;\n")
  | makeNamespaceObject => pure ("__webpack_require__.r = function(exports) \x7b\n" ++
      "  if(typeof Symbol !== \"undefined\" && Symbol.toStringTag) \x7b\n" ++
      "    Object.defineProperty(exports, Symbol.toStringTag, \x7b value: \"Module\" \x7d);\n  \x7d\n" ++
      "  Object.defineProperty(exports, \"__esModule\", \x7b value: true \x7d);\n\x7d;\n")
  | ensureChunk => pure ("__webpack_require__.f = \x7b\x7d;\n" ++
      "__webpack_require__.e = function(chunkId) \x7b\n" ++
      "  return Promise.all(Object.keys(__webpack_require__.f).reduce(function(promises, key) \x7b\n" ++
      "    __webpack_require__.f[key](chunkId, promises);\n    return promises;\n  \x7d, []));\n\x7d;\n")
  | getChunkFilename => do
      let properties ← chunkGraph.renderChunkFilenameMap
      pure (chunkFilenameText (chunkFilenameMapText properties))
  | moduleFactoriesAddOnly => pure "__webpack_require__.m = __webpack_modules__;\n"
  | requireChunkLoading => do
      let chunkId ← chunk.renderId
      pure (chunkLoadingText (jsonRenderId chunkId))

end RuntimeModule

structure RenderManifestEntry where
  filename : String
  render : JavascriptRenderManifest
  deriving DecidableEq

/-- The runtime requirements and the runtime modules of the chunk graph are in tables of their own. -/
structure RenderManifestContext where
  chunkGraph : ChunkGraph
  tables : RuntimeRequirementTables
  entries : List ModuleHandle
  codeGenerationResults : CodeGenerationResults

namespace RenderManifestContext

variable (context : RenderManifestContext)

/-- The modules of a chunk in the order of their render ids. -/
def moduleRenderManifest (chunk : ChunkHandle) : Option (List ModuleRenderManifest) := do
  let modules ← (context.chunkGraph.chunkModules chunk).mapM fun module => do
    let _ ← context.codeGenerationResults.results.lookup module
    let renderId ← context.codeGenerationResults.moduleRenderIds module
    pure (⟨module, renderId⟩ : ModuleRenderManifest)
  pure (modules.insertionSort fun left right => left.renderId.order ≤ right.renderId.order)

def runtimeModules (chunk : ChunkHandle) : List RuntimeModule :=
  context.tables.chunkRuntimeModules.getD chunk []

def generateRuntimeModule (chunk : ChunkHandle) (module : RuntimeModule) : Option RenderedRuntimeModule :=
  (module.generate context.chunkGraph chunk).map (⟨module, ·⟩)

def initialEntry (entrypoint : ChunkGroupHandle × Nat) : Option RenderManifestEntry := do
  let group ← context.chunkGraph.chunkGroup entrypoint.1
  let chunkHandle ← group.chunks.head?
  let chunk ← context.chunkGraph.chunk chunkHandle
  let entryModule ← context.entries[entrypoint.2]?
  let _ ← context.tables.runtimeTreeRequirements.lookup entrypoint.1
  let runtimeModules ← (context.runtimeModules chunkHandle).mapM (context.generateRuntimeModule chunkHandle)
  let filename ← resolveChunkFilename chunk
  let modules ← context.moduleRenderManifest chunk.handle
  let entryId ← context.codeGenerationResults.moduleRenderIds entryModule
  let chunkId ← chunk.renderId
  pure ⟨filename, .initialChunk modules runtimeModules entryId chunkId⟩

def asyncEntry (chunk : Chunk) : Option (Option RenderManifestEntry) := do
  let isInitial ← chunk.groups.anyM fun group =>
    (context.chunkGraph.chunkGroup group).map fun group => group.kind ≠ .async
  if isInitial then pure none
  else
    let filename ← resolveChunkFilename chunk
    let modules ← context.moduleRenderManifest chunk.handle
    let chunkId ← chunk.renderId
    pure (some ⟨filename, .asyncChunk modules chunkId⟩)

/-- The entrypoints, then the chunks that are in no entrypoint. A missing part is a panic. -/
def renderManifest : Option (List RenderManifestEntry) := do
  let initial ← context.chunkGraph.entrypoints.zipIdx.mapM context.initialEntry
  let async ← context.chunkGraph.chunks.mapM context.asyncEntry
  pure (initial ++ async.reduceOption)

end RenderManifestContext

namespace Compilation

variable (compilation : Compilation) (paths : RenderPathContext)
variable (results : FxHashMap ModuleHandle CodeGenerationResult)

/-- The results of generating the code of a compilation, with the render ids of its modules. -/
def codeGenerationResults : CodeGenerationResults := ⟨compilation.moduleRenderId paths, results⟩

/-- The runtime requirements are processed, and the manifests made of what they give. -/
def renderManifest : Option (List RenderManifestEntry) := do
  let chunkGraph := compilation.sealedChunkGraph paths
  let codeGenerationResults := compilation.codeGenerationResults paths results
  let tables ← chunkGraph.processRuntimeRequirements codeGenerationResults.runtimeRequirements
  RenderManifestContext.renderManifest ⟨chunkGraph, tables, compilation.entries, codeGenerationResults⟩

end Compilation

/-- What rendering takes from the library for sources. -/
structure SourceLibrary where
  /-- The bytes that a source feeds to a hasher. -/
  hashInput : List SourcePart → List UInt8
  source : List SourcePart → String
  map : List SourcePart → Option String
  /-- The map of joined sources, by their texts and maps. -/
  joinMaps : List (String × Option String) → Option String

/-- A piece of a rendered asset: a text, or the source of a module. -/
inductive RenderPiece where
  | raw (text : String)
  | source (parts : List SourcePart)
  deriving DecidableEq

namespace SourceLibrary

variable (library : SourceLibrary)

/-- Where the hash input of a source ends does not depend on what follows it. -/
def SelfDelimiting : Prop := HashStream.Delimited library.hashInput

/-- Sources with one hash input have one text and one map. -/
def Determines : Prop :=
  ∀ left right, library.hashInput left = library.hashInput right →
    library.source left = library.source right ∧ library.map left = library.map right

/-- A source feeds the name of its type first. -/
def StartsWithName : Prop :=
  ∀ parts, ∃ byte rest, library.hashInput parts = byte :: rest ∧ byte ≠ 0

def pieceSource : RenderPiece → String
  | .raw text => text
  | .source parts => library.source parts

def pieceMap : RenderPiece → Option String
  | .raw _ => none
  | .source parts => library.map parts

end SourceLibrary

/-- `hash` of a number or of a discriminant: eight bytes. -/
def hashUsize (value : Nat) : List UInt8 := Codec.littleEndian 8 value

def hashString (text : String) : List UInt8 := utf8Bytes text ++ [0xFF]

def RuntimeRequirement.discriminant : RuntimeRequirement → Nat
  | moduleFactories => 0
  | moduleCache => 1
  | require => 2
  | definePropertyGetters => 3
  | hasOwnProperty => 4
  | makeNamespaceObject => 5
  | ensureChunk => 6
  | ensureChunkHandlers => 7
  | getChunkFilename => 8
  | moduleFactoriesAddOnly => 9
  | returnExportsFromRuntime => 10

def RuntimeModule.discriminant : RuntimeModule → Nat
  | definePropertyGetters => 0
  | ensureChunk => 1
  | getChunkFilename => 2
  | hasOwnProperty => 3
  | makeNamespaceObject => 4
  | moduleFactoriesAddOnly => 5
  | requireChunkLoading => 6

/-- The requirements of a mask, in their order. -/
def RuntimeRequirements.iter (requirements : RuntimeRequirements) : List RuntimeRequirement :=
  RuntimeRequirement.all.filter (· ∈ requirements)

def RenderId.hash : RenderId → List UInt8
  | .string value => hashUsize 0 ++ hashString value
  | .number value => hashUsize 1 ++ Codec.littleEndian 4 value.toNat

def RuntimeRequirement.hash (requirement : RuntimeRequirement) : List UInt8 :=
  hashUsize requirement.discriminant

def RenderedRuntimeModule.hash (runtimeModule : RenderedRuntimeModule) : List UInt8 :=
  hashUsize runtimeModule.module.discriminant ++ hashString runtimeModule.source

def hashRuntimeModules (runtimeModules : List RenderedRuntimeModule) : List UInt8 :=
  hashUsize runtimeModules.length ++ runtimeModules.flatMap RenderedRuntimeModule.hash

section

variable (library : SourceLibrary)

/-- The requirements are written one after the other, with no count before them. -/
def ModuleRenderInput.hash (input : ModuleRenderInput) : List UInt8 :=
  input.renderId.hash ++ (library.hashInput input.result.source ++
    (RuntimeRequirements.iter input.result.runtimeRequirements).flatMap RuntimeRequirement.hash)

def hashModuleRenderInputs (inputs : List ModuleRenderInput) : List UInt8 :=
  hashUsize inputs.length ++ inputs.flatMap (ModuleRenderInput.hash library)

namespace JavascriptRenderManifest

def hashInput (manifest : JavascriptRenderManifest) (inputs : List ModuleRenderInput) : List UInt8 :=
  utf8Bytes "unpack/asset-render/hash/2" ++
    match manifest with
    | initialChunk _ runtimeModules entryId chunkId =>
        0 :: (hashModuleRenderInputs library inputs ++
          (hashRuntimeModules runtimeModules ++ (entryId.hash ++ chunkId.hash)))
    | asyncChunk _ chunkId => 1 :: (hashModuleRenderInputs library inputs ++ chunkId.hash)

/-- The bytes that `cache_etag` feeds to its hasher. -/
def etagInput (manifest : JavascriptRenderManifest) (results : CodeGenerationResults) :
    Option (List UInt8) :=
  (results.ofManifest manifest.modules).map (manifest.hashInput library)

def cacheEtag (manifest : JavascriptRenderManifest) (results : CodeGenerationResults) :
    Option Cache.CacheETag :=
  (manifest.etagInput library results).map fun bytes => littleEndian (stableHashBytes bytes)

end JavascriptRenderManifest

end

def ModuleRenderInput.pieces (input : ModuleRenderInput) : List RenderPiece :=
  [.raw (jsonRenderId input.renderId ++
      ": ((__unused_webpack_module, __webpack_exports__, __webpack_require__) => \x7b\n\"use strict\";\n"),
    .source input.result.source, .raw "\n\x7d)"]

def renderModuleTable (inputs : List ModuleRenderInput) : List RenderPiece :=
  List.intercalate [.raw ",\n"] (inputs.map ModuleRenderInput.pieces)

def initialAssetStart : String :=
  "\"use strict\";\nvar __webpack_modules__ = (\x7b\n"

def requireRuntime : String :=
  "\n\x7d);\n\nvar __webpack_module_cache__ = \x7b\x7d;\nfunction __webpack_require__(moduleId) \x7b\n" ++
    "  var cachedModule = __webpack_module_cache__[moduleId];\n" ++
    "  if (cachedModule !== undefined) \x7b\n    return cachedModule.exports;\n  \x7d\n" ++
    "  var module = __webpack_module_cache__[moduleId] = \x7b\n    exports: \x7b\x7d\n  \x7d;\n" ++
    "  __webpack_modules__[moduleId](module, module.exports, __webpack_require__);\n" ++
    "  return module.exports;\n\x7d\n"

def renderInitialAsset (inputs : List ModuleRenderInput) (runtimeModules : List RenderedRuntimeModule)
    (entryId : RenderId) : List RenderPiece :=
  .raw initialAssetStart :: (renderModuleTable inputs ++ .raw requireRuntime ::
    (runtimeModules.map (fun runtimeModule => .raw runtimeModule.source) ++
      [.raw ("module.exports = __webpack_require__(" ++ jsonRenderId entryId ++ ");\n")]))

def renderAsyncChunkAsset (inputs : List ModuleRenderInput) (chunkId : RenderId) : List RenderPiece :=
  .raw ("\"use strict\";\nexports.id = " ++ jsonRenderId chunkId ++ ";\nexports.ids = [" ++
      jsonRenderId chunkId ++ "];\nexports.modules = (\x7b\n") ::
    (renderModuleTable inputs ++ [.raw "\n\x7d);\n"])

def JavascriptRenderManifest.pieces (inputs : List ModuleRenderInput) :
    JavascriptRenderManifest → List RenderPiece
  | initialChunk _ runtimeModules entryId _ => renderInitialAsset inputs runtimeModules entryId
  | asyncChunk _ chunkId => renderAsyncChunkAsset inputs chunkId

def sourceMapFooterTemplate : String := "\n//# sourceMappingURL=asset-render.map\n"

section

variable (library : SourceLibrary)

/-- The text without the footer, the map with it. -/
def renderedSource (pieces : List RenderPiece) : Cache.RenderedSource where
  source := String.join (pieces.map library.pieceSource)
  sourceMap := library.joinMaps ((pieces ++ [RenderPiece.raw sourceMapFooterTemplate]).map fun piece =>
    (library.pieceSource piece, library.pieceMap piece))

def renderAsset (manifest : JavascriptRenderManifest) (results : CodeGenerationResults) :
    Option Cache.RenderedSource :=
  (results.ofManifest manifest.modules).map fun inputs => renderedSource library (manifest.pieces inputs)

end

end Unpack
