import Unpack.CodeGenerationItems
import Unpack.FilenamesApart
import Unpack.LocatedDependencies
import Unpack.RequiredTargets

/-! The cache of generated code. A module is not generated again when a record was stored under its identity with
the ETag of what its generation reads now. Of the chunks that a dynamic import loads the ETag covers the first one,
which is all of them as long as no chunk was split. -/

namespace Unpack

open HashStream

def hashBool (value : Bool) : List UInt8 := [if value then 1 else 0]

def hashOption {α : Type} (hash : α → List UInt8) : Option α → List UInt8
  | none => hashUsize 0
  | some value => hashUsize 1 ++ hash value

/-- The name under which an export is used, with the kind of the dependency that asks for it. -/
structure UsedNameInput where
  kind : UInt8
  usedName : Option String
  deriving DecidableEq

def UsedNameInput.hash (input : UsedNameInput) : List UInt8 := input.kind :: hashOption hashString input.usedName

/-- `update_code_generation_hash` -/
def Dependency.usedNameInput (exportsInfo : ExportsInfo) : Dependency → Option UsedNameInput
  | .harmonyExportSpecifier dep => some ⟨0, exportsInfo.getUsedName dep.name⟩
  | .harmonyExportExpression _ => some ⟨1, exportsInfo.getUsedName "default"⟩
  | .harmonyExportImportedSpecifier dep => some ⟨2, dep.name.bind exportsInfo.getUsedName⟩
  | _ => none

/-- The targets of a block and the first chunk of its group. -/
structure BlockInput where
  targets : List (Option RenderId)
  firstChunk : Option RenderId
  deriving DecidableEq

def BlockInput.hash (input : BlockInput) : List UInt8 :=
  input.targets.flatMap (hashOption RenderId.hash) ++ hashOption RenderId.hash input.firstChunk

/-- What `code_generation_etag` feeds to its hasher, in its order. -/
structure CodeGenerationInputs where
  sourceHash : UInt64
  buildError : Option String
  harmony : Bool
  localInputDigest : UInt64
  usedNames : List UsedNameInput
  renderId : Option RenderId
  targets : List (Option RenderId)
  blocks : List BlockInput
  deriving DecidableEq

namespace CodeGenerationInputs

def hashInput (inputs : CodeGenerationInputs) : List UInt8 :=
  utf8Bytes "unpack/code-generation/etag/2" ++ (hashUsize inputs.sourceHash.toNat ++
    (hashOption hashString inputs.buildError ++ (hashBool inputs.harmony ++
      (hashUsize inputs.localInputDigest.toNat ++ (inputs.usedNames.flatMap UsedNameInput.hash ++
        (hashOption RenderId.hash inputs.renderId ++ (inputs.targets.flatMap (hashOption RenderId.hash) ++
          inputs.blocks.flatMap BlockInput.hash)))))))

def etag (inputs : CodeGenerationInputs) : Cache.CacheETag := littleEndian (stableHashBytes inputs.hashInput)

end CodeGenerationInputs

namespace ModuleGeneratorContext

variable (context : ModuleGeneratorContext)

def targetRenderId (block : Option AsyncDependenciesBlockIndex) (index : DependencyIndex) : Option RenderId :=
  (context.moduleGraph.moduleForDependency context.module.handle block index).bind context.moduleRenderIds

/-- The render id of the first chunk of the group that the block loads. -/
def firstChunkId (block : AsyncDependenciesBlockIndex) : Except CodeGenerationError (Option RenderId) :=
  match context.chunkGraph.blockChunkGroup ⟨context.module.handle, block⟩ with
  | none => .ok none
  | some group => do
      let found ← expect (context.chunkGraph.chunkGroup group) "index out of bounds"
      match found.chunks.head?.bind context.chunkGraph.chunk with
      | none => pure none
      | some chunk =>
          let renderId ← expect chunk.renderId "chunk Render ID should be assigned before it is read"
          pure (some renderId)

def blockInput (block : AsyncDependenciesBlock × AsyncDependenciesBlockIndex) :
    Except CodeGenerationError BlockInput := do
  let firstChunk ← context.firstChunkId block.2
  pure ⟨(List.range block.1.dependencies.length).map (context.targetRenderId (some block.2)), firstChunk⟩

/-- The presentational dependencies first, then those of the module and of its blocks. -/
def usedNames : List UsedNameInput :=
  (context.module.presentationalDependencies ++ context.module.dependencies ++
    context.module.blocks.flatMap (·.dependencies)).filterMap
      (Dependency.usedNameInput (context.moduleGraph.exportsInfo context.module.handle))

def inputs : Except CodeGenerationError CodeGenerationInputs := do
  let blocks ← context.module.blocks.zipIdx.mapM context.blockInput
  pure {
    sourceHash := context.module.sourceHash
    buildError := context.module.buildError
    harmony := context.module.isHarmony
    localInputDigest := context.module.codeGenerationLocalInputDigest
    usedNames := context.usedNames
    renderId := context.moduleRenderIds context.module.handle
    targets := (List.range context.module.dependencies.length).map (context.targetRenderId none)
    blocks }

end ModuleGeneratorContext

/-- The results in the order of their modules. -/
structure CodeGenerationOutcome where
  results : List (ModuleHandle × CodeGenerationResult)
  errors : List CodeGenerationError
  deriving DecidableEq

/-- The printed error. -/
def CodeGenerationError.toText : CodeGenerationError → String
  | .codeGeneration module path message =>
      "failed to generate " ++ pathText path ++ " (ModuleHandle(" ++ toString module ++ ")): " ++ message
  | .panicked message => message

/-- A module whose generation fails throws its error when it is evaluated; a panic goes on. -/
def orFailed (generated : Except CodeGenerationError CodeGenerationRecord) :
    Except CodeGenerationError (CodeGenerationRecord × List CodeGenerationError) :=
  match generated with
  | .ok record => .ok (record, [])
  | .error (.panicked message) => .error (.panicked message)
  | .error error => .ok ({ source := .raw (renderFailedModuleContent error.toText) }, [error])

section

variable {σ : Type} (moduleGraph : ModuleGraph) (chunkGraph : ChunkGraph)
variable (generateModule : ModuleGeneratorContext → σ → Except CodeGenerationError CodeGenerationRecord × σ)

/-- What `generate_code_with` makes of one module: a concatenation is generated by itself. -/
def generateResult (module : Module) (state : σ) :
    Except CodeGenerationError (CodeGenerationResult × List CodeGenerationError) × σ :=
  let moduleRenderIds := moduleGraph.moduleRenderIds chunkGraph
  match chunkGraph.concatenatedModule module.handle with
  | some concatenated =>
      (match concatenated.codeGeneration moduleGraph chunkGraph moduleRenderIds with
        | .ok result => .ok (result, [])
        | .error error => do
            let (record, errors) ← orFailed (.error error)
            let result ← expect (record.intoResult module.source) "failed Code Generation source must be compatible"
            pure (result, errors), state)
  | none =>
      let (generated, state) := generateModule ⟨module, moduleGraph, chunkGraph, moduleRenderIds⟩ state
      (do
        let (record, errors) ← orFailed generated
        let result ← expect (record.intoResult module.source)
          "generated Code Generation Record must match its Module source"
        pure (result, errors), state)

def generateResults : List Module → σ → Except CodeGenerationError CodeGenerationOutcome × σ
  | [], state => (.ok ⟨[], []⟩, state)
  | module :: modules, state =>
      match generateResult moduleGraph chunkGraph generateModule module state with
      | (.error error, state) => (.error error, state)
      | (.ok (result, errors), state) =>
          match generateResults modules state with
          | (.error error, state) => (.error error, state)
          | (.ok outcome, state) =>
              (.ok ⟨(module.handle, result) :: outcome.results, errors ++ outcome.errors⟩, state)

/-- All modules that are in a chunk. -/
def generateCodeWith (state : σ) : Except CodeGenerationError CodeGenerationOutcome × σ :=
  generateResults moduleGraph chunkGraph generateModule
    (moduleGraph.modules.filter fun module => !(chunkGraph.moduleChunks module.handle).isEmpty) state

end

/-- A cache of generated code. An entry that is found was stored with the ETag it is asked for; others may be
forgotten. -/
structure CodeGenerationCache (σ : Type) where
  get : σ → ModuleIdentity → Cache.CacheETag → Option CodeGenerationRecord × σ
  store : σ → ModuleIdentity → Cache.CacheETag → CodeGenerationRecord → σ
  Holds : σ → ModuleIdentity → Cache.CacheETag → CodeGenerationRecord → Prop
  holds_of_get : ∀ {state key etag record}, (get state key etag).1 = some record → Holds state key etag record
  holds_get : ∀ {state key etag key' etag' record}, Holds (get state key etag).2 key' etag' record →
    Holds state key' etag' record
  holds_store : ∀ {state key etag record key' etag' record'}, Holds (store state key etag record) key' etag' record' →
    (key' = key ∧ etag' = etag ∧ record' = record) ∨ Holds state key' etag' record'

section

variable (library : AssetLibrary) {σ : Type} (cache : CodeGenerationCache σ)

/-- A module that cannot be generated is not stored. -/
def generateAndStore (context : ModuleGeneratorContext) (etag : Cache.CacheETag) (state : σ) :
    Except CodeGenerationError CodeGenerationRecord × σ :=
  match generateRegisteredModule library context with
  | .error error => (.error error, state)
  | .ok record => (.ok record, cache.store state context.module.identity etag record)

def generateModuleCached (context : ModuleGeneratorContext) (state : σ) :
    Except CodeGenerationError CodeGenerationRecord × σ :=
  match context.inputs with
  | .error error => (.error error, state)
  | .ok inputs =>
      let (found, state) := cache.get state context.module.identity inputs.etag
      match found with
      | some record =>
          if record.source.isCompatibleWith context.module.source then (.ok record, state)
          else generateAndStore library cache context inputs.etag state
      | none => generateAndStore library cache context inputs.etag state

namespace Compilation

variable (compilation : Compilation) (context : RenderPathContext)

/-- Code generation without a cache. -/
def generateCode : Except CodeGenerationError CodeGenerationOutcome :=
  (generateCodeWith compilation.moduleGraph (compilation.sealedChunkGraph context)
    (fun input (state : Unit) => (generateRegisteredModule library input, state)) ()).1

def generateCodeCached (state : σ) : Except CodeGenerationError CodeGenerationOutcome × σ :=
  generateCodeWith compilation.moduleGraph (compilation.sealedChunkGraph context)
    (generateModuleCached library cache) state

end Compilation

end

section

variable {α : Type} {hash : α → List UInt8}

theorem selfDelimiting_hashOption (h : SelfDelimiting hash) : SelfDelimiting (hashOption hash) := by
  intro left right tail tail' heq
  cases left with
  | none =>
      cases right with
      | none => exact ⟨rfl, List.append_cancel_left heq⟩
      | some value =>
          rw [hashOption, hashOption, List.append_assoc] at heq
          cases (hashUsize_append_inj (by decide) (by decide) heq).1
  | some value =>
      cases right with
      | none =>
          rw [hashOption, hashOption, List.append_assoc] at heq
          cases (hashUsize_append_inj (by decide) (by decide) heq).1
      | some value' =>
          rw [hashOption, hashOption, List.append_assoc, List.append_assoc] at heq
          obtain ⟨rfl, htail⟩ := h (List.append_cancel_left heq)
          exact ⟨rfl, htail⟩

theorem selfDelimiting_hashBool : SelfDelimiting hashBool := by
  intro left right tail tail' heq
  obtain ⟨hbyte, htail⟩ := List.cons.inj heq
  refine ⟨?_, htail⟩
  cases left <;> cases right <;> first | rfl | cases hbyte

theorem selfDelimiting_usedName : SelfDelimiting UsedNameInput.hash := by
  rintro ⟨kind, usedName⟩ ⟨kind', usedName'⟩ tail tail' heq
  obtain ⟨hkind, hrest⟩ := List.cons.inj heq
  obtain ⟨hname, htail⟩ := selfDelimiting_hashOption selfDelimiting_hashString hrest
  exact ⟨by rw [show kind = kind' from hkind, show usedName = usedName' from hname], htail⟩

theorem selfDelimiting_optionalId : SelfDelimiting (hashOption RenderId.hash) :=
  selfDelimiting_hashOption selfDelimiting_renderId

/-- The blocks of one module have as many targets on both sides. -/
theorem blocks_eq_of_hash {left right : List BlockInput} {tail tail' : List UInt8}
    (hlengths : left.map (·.targets.length) = right.map (·.targets.length))
    (heq : left.flatMap BlockInput.hash ++ tail = right.flatMap BlockInput.hash ++ tail') :
    left = right ∧ tail = tail' := by
  induction left generalizing right with
  | nil =>
      cases right with
      | nil => exact ⟨rfl, heq⟩
      | cons block right => cases hlengths
  | cons block left ih =>
      cases right with
      | nil => cases hlengths
      | cons block' right =>
          obtain ⟨hlength, hrest⟩ := List.cons.inj hlengths
          obtain ⟨targets, firstChunk⟩ := block
          obtain ⟨targets', firstChunk'⟩ := block'
          simp only [List.flatMap_cons, BlockInput.hash, List.append_assoc] at heq
          obtain ⟨rfl, hchunk⟩ := selfDelimiting_optionalId.flatMap hlength heq
          obtain ⟨rfl, hblocks⟩ := selfDelimiting_optionalId hchunk
          obtain ⟨rfl, htail⟩ := ih hrest hblocks
          exact ⟨rfl, htail⟩

theorem littleEndian_eq (value : UInt64) : littleEndian value = Codec.littleEndian 8 value.toNat := by
  have hbyte : ∀ index < 8, ∀ number, number % 256 = value.toNat / 2 ^ (8 * index) % 256 →
      (value >>> (8 * index).toUInt64).toUInt8 = UInt8.ofNat number := by
    intro index hindex number hnumber
    apply UInt8.toNat_inj.mp
    rw [UInt64.toNat_toUInt8, UInt64.toNat_shiftRight, UInt8.toNat_ofNat', Nat.toUInt64, UInt64.toNat_ofNat',
      Nat.mod_mod_of_dvd _ (by decide), Nat.mod_eq_of_lt (show 8 * index < 64 by omega), Nat.shiftRight_eq_div_pow]
    exact hnumber.symm
  rw [littleEndian]
  simp only [List.range_succ, List.range_zero, List.nil_append, List.map_cons, List.map_nil, List.cons_append,
    Codec.littleEndian]
  rw [hbyte 0 (by decide) value.toNat (by omega), hbyte 1 (by decide) (value.toNat / 256) (by omega),
    hbyte 2 (by decide) (value.toNat / 256 / 256) (by omega),
    hbyte 3 (by decide) (value.toNat / 256 / 256 / 256) (by omega),
    hbyte 4 (by decide) (value.toNat / 256 / 256 / 256 / 256) (by omega),
    hbyte 5 (by decide) (value.toNat / 256 / 256 / 256 / 256 / 256) (by omega),
    hbyte 6 (by decide) (value.toNat / 256 / 256 / 256 / 256 / 256 / 256) (by omega),
    hbyte 7 (by decide) (value.toNat / 256 / 256 / 256 / 256 / 256 / 256 / 256) (by omega)]

theorem littleEndian_injective : Function.Injective littleEndian := by
  intro left right heq
  rw [littleEndian_eq, littleEndian_eq] at heq
  have hvalue := congrArg Codec.ofLittleEndian heq
  rw [Codec.ofLittleEndian_littleEndian left.toNat_lt, Codec.ofLittleEndian_littleEndian right.toNat_lt] at hvalue
  exact UInt64.toNat.inj hvalue

end

/-- The digest tells how many names, targets and blocks follow. -/
theorem CodeGenerationInputs.eq_of_hashInput {left right : CodeGenerationInputs}
    (hshape : left.localInputDigest = right.localInputDigest → left.usedNames.length = right.usedNames.length ∧
      left.targets.length = right.targets.length ∧
        left.blocks.map (·.targets.length) = right.blocks.map (·.targets.length))
    (heq : left.hashInput = right.hashInput) : left = right := by
  obtain ⟨sourceHash, buildError, harmony, digest, usedNames, renderId, targets, blocks⟩ := left
  obtain ⟨sourceHash', buildError', harmony', digest', usedNames', renderId', targets', blocks'⟩ := right
  obtain ⟨hsource, herror⟩ :=
    hashUsize_append_inj sourceHash.toNat_lt sourceHash'.toNat_lt (List.append_cancel_left heq)
  obtain rfl := UInt64.toNat.inj hsource
  obtain ⟨rfl, hharmony⟩ := selfDelimiting_hashOption selfDelimiting_hashString herror
  obtain ⟨rfl, hdigest⟩ := selfDelimiting_hashBool hharmony
  obtain ⟨hvalue, hnames⟩ := hashUsize_append_inj digest.toNat_lt digest'.toNat_lt hdigest
  obtain rfl := UInt64.toNat.inj hvalue
  obtain ⟨hnamesLength, htargetsLength, hblockLengths⟩ := hshape rfl
  obtain ⟨rfl, hid⟩ := selfDelimiting_usedName.flatMap hnamesLength hnames
  obtain ⟨rfl, htargets⟩ := selfDelimiting_optionalId hid
  obtain ⟨rfl, hblocks⟩ := selfDelimiting_optionalId.flatMap htargetsLength htargets
  obtain ⟨rfl, -⟩ := @blocks_eq_of_hash _ _ [] [] hblockLengths
    (by rw [List.append_nil, List.append_nil]; exact hblocks)
  rfl

/-- The module of the context and what its generation reads elsewhere, in two compilations. -/
structure SameInputs (left right : ModuleGeneratorContext) : Prop where
  identity : left.module.identity = right.module.identity
  buildError : left.module.buildError = right.module.buildError
  harmony : left.module.harmony = right.module.harmony
  source : left.module.source = right.module.source
  sourceBytes : left.module.sourceBytes = right.module.sourceBytes
  dependencies : left.module.dependencies = right.module.dependencies
  blocks : left.module.blocks = right.module.blocks
  presentational : left.module.presentationalDependencies = right.module.presentationalDependencies
  parsedData : left.module.parsedData = right.module.parsedData
  usedNames : left.usedNames = right.usedNames
  renderId : left.moduleRenderIds left.module.handle = right.moduleRenderIds right.module.handle
  target : ∀ index < left.module.dependencies.length, left.targetRenderId none index = right.targetRenderId none index
  block : ∀ (index : Nat) (found : AsyncDependenciesBlock), left.module.blocks[index]? = some found →
    left.blockInput (found, index) = right.blockInput (found, index)

/-- The module is in its graph and connected, and the chunks that a block loads are one chunk. -/
structure ModuleGeneratorContext.Placed (context : ModuleGeneratorContext) : Prop where
  found : context.moduleGraph.module context.module.handle = some context.module
  wellFormed : context.moduleGraph.WellFormed
  connected : context.moduleGraph.Connected
  loaded : ∀ block group, context.chunkGraph.blockChunkGroup ⟨context.module.handle, block⟩ = some group →
    ∃ found handle chunk renderId, context.chunkGraph.chunkGroup group = some found ∧ found.chunks = [handle] ∧
      context.chunkGraph.chunk handle = some chunk ∧ chunk.renderId = some renderId

namespace ModuleGeneratorContext.Placed

variable {context : ModuleGeneratorContext}

theorem of_graph {module : Module} {moduleGraph : ModuleGraph} {chunkGraph : ChunkGraph}
    {moduleRenderIds : ModuleHandle → Option RenderId} (hfound : moduleGraph.module module.handle = some module)
    (hwellFormed : moduleGraph.WellFormed) (hconnected : moduleGraph.Connected)
    (hloaded : ∀ block group, chunkGraph.blockChunkGroup ⟨module.handle, block⟩ = some group →
      ∃ found handle chunk renderId, chunkGraph.chunkGroup group = some found ∧ found.chunks = [handle] ∧
        chunkGraph.chunk handle = some chunk ∧ chunk.renderId = some renderId) :
    Placed ⟨module, moduleGraph, chunkGraph, moduleRenderIds⟩ :=
  ⟨hfound, hwellFormed, hconnected, hloaded⟩

/-- What the import of a dependency of the module leads to. -/
theorem exists_target (h : context.Placed) {location : DependencyLocation} {dependency : Dependency}
    (hlocated : (location, dependency) ∈ context.module.locatedDependencies)
    (hdependency : dependency.isModuleDependency) :
    ∃ target, context.moduleGraph.moduleForDependency context.module.handle location.block location.dependencyIndex =
      some target := by
  obtain ⟨connection, hconnection, hat⟩ := h.connected context.module
    (ModuleGraph.Indexed.mem_modules h.found) (location, dependency) hlocated hdependency
  exact ⟨connection.module,
    h.wellFormed.toIndexed.moduleForDependency_eq_some_iff.mpr ⟨connection, hconnection, hat, rfl⟩⟩

theorem firstChunkId_eq (h : context.Placed) (block : AsyncDependenciesBlockIndex) :
    match context.chunkGraph.blockChunkGroup ⟨context.module.handle, block⟩ with
    | none => context.firstChunkId block = .ok none
    | some group => ∃ renderId, context.firstChunkId block = .ok (some renderId) ∧
        ImportDependency.chunkIds context.chunkGraph group = .ok [jsonRenderId renderId] := by
  cases hgroup : context.chunkGraph.blockChunkGroup ⟨context.module.handle, block⟩ with
  | none =>
      dsimp only
      rw [firstChunkId, hgroup]
  | some group =>
      obtain ⟨found, handle, chunk, renderId, hfound, hchunks, hchunk, hid⟩ := h.loaded block group hgroup
      refine ⟨renderId, ?_, ?_⟩
      · rw [firstChunkId, hgroup]
        simp only [hfound, hchunks, hchunk, hid, expect_some, ok_bind, List.head?_cons, Option.bind_some]
        rfl
      · simp only [ImportDependency.chunkIds, hfound, hchunks, hchunk, hid, expect_some, ok_bind, List.mapM_cons,
          List.mapM_nil]
        rfl

theorem exists_firstChunkId (h : context.Placed) (block : AsyncDependenciesBlockIndex) :
    ∃ firstChunk, context.firstChunkId block = .ok firstChunk := by
  have hfirst := h.firstChunkId_eq block
  cases hgroup : context.chunkGraph.blockChunkGroup ⟨context.module.handle, block⟩ with
  | none =>
      rw [hgroup] at hfirst
      exact ⟨none, hfirst⟩
  | some group =>
      rw [hgroup] at hfirst
      obtain ⟨renderId, hid, -⟩ := hfirst
      exact ⟨some renderId, hid⟩

end ModuleGeneratorContext.Placed

theorem isSome_usedNameInput (dependency : Dependency) (info info' : ExportsInfo) :
    (dependency.usedNameInput info).isSome = (dependency.usedNameInput info').isSome := by
  cases dependency <;> rfl

/-- Inputs of the same dependencies are equal one by one. -/
theorem usedNameInput_of_filterMap {info info' : ExportsInfo} {dependencies : List Dependency}
    (heq : dependencies.filterMap (Dependency.usedNameInput info) =
      dependencies.filterMap (Dependency.usedNameInput info')) {dependency : Dependency}
    (hdependency : dependency ∈ dependencies) : dependency.usedNameInput info = dependency.usedNameInput info' := by
  induction dependencies with
  | nil => cases hdependency
  | cons first rest ih =>
      have hsome := isSome_usedNameInput first info info'
      cases hfirst : first.usedNameInput info with
      | none =>
          have hfirst' : first.usedNameInput info' = none := by
            rw [hfirst] at hsome
            exact Option.isSome_eq_false_iff.mp hsome.symm |> Option.isNone_iff_eq_none.mp
          rw [List.filterMap_cons_none hfirst, List.filterMap_cons_none hfirst'] at heq
          rcases List.mem_cons.mp hdependency with rfl | hrest
          · exact hfirst.trans hfirst'.symm
          · exact ih heq hrest
      | some input =>
          obtain ⟨input', hfirst'⟩ : ∃ input', first.usedNameInput info' = some input' := by
            rw [hfirst] at hsome
            exact Option.isSome_iff_exists.mp hsome.symm
          rw [List.filterMap_cons_some hfirst, List.filterMap_cons_some hfirst'] at heq
          obtain ⟨rfl, hrest⟩ := List.cons.inj heq
          rcases List.mem_cons.mp hdependency with rfl | hmem
          · exact hfirst.trans hfirst'.symm
          · exact ih hrest hmem

namespace SameInputs

variable {left right : ModuleGeneratorContext}

theorem validate (h : SameInputs left right) (hleft : left.Placed) (hright : right.Placed)
    (place : Option AsyncDependenciesBlockIndex × Option DependencyIndex) {ranges : List SourceRange}
    (hvalid : (left.templateContext none place).validateSourceRanges ranges = .ok ()) :
    (right.templateContext none place).validateSourceRanges ranges = .ok () := by
  have hlength : right.module.sourceLen = left.module.sourceLen := by
    rw [Module.sourceLen, Module.sourceLen, h.source]
  simp only [DependencyTemplateContext.validateSourceRanges, ModuleGeneratorContext.templateContext, hleft.found,
    hright.found, expect_some, ok_bind, hlength] at hvalid ⊢
  split at hvalid
  · cases hvalid
  · rfl

theorem applyDependencyTemplate (h : SameInputs left right) (hleft : left.Placed) (hright : right.Placed)
    {place : Option AsyncDependenciesBlockIndex × Option DependencyIndex} {ranges : List SourceRange}
    {apply : DependencyTemplateContext → TemplateState → Except CodeGenerationError TemplateState}
    {state state' : TemplateState}
    (hsame : apply (left.templateContext none place) state = .ok state' →
      apply (right.templateContext none place) state = .ok state')
    (happly : Unpack.applyDependencyTemplate ranges apply (left.templateContext none place) state = .ok state') :
    Unpack.applyDependencyTemplate ranges apply (right.templateContext none place) state = .ok state' := by
  rw [Unpack.applyDependencyTemplate] at happly ⊢
  cases hvalid : (left.templateContext none place).validateSourceRanges ranges with
  | error error =>
      rw [hvalid] at happly
      cases happly
  | ok checked =>
      rw [hvalid, ok_bind] at happly
      rw [h.validate hleft hright place hvalid, ok_bind]
      exact hsame happly

theorem getUsedName (h : SameInputs left right) {dependency : Dependency}
    (hdependency : dependency ∈ left.module.presentationalDependencies ++ left.module.dependencies ++
      left.module.blocks.flatMap (·.dependencies)) :
    dependency.usedNameInput (left.moduleGraph.exportsInfo left.module.handle) =
      dependency.usedNameInput (right.moduleGraph.exportsInfo right.module.handle) := by
  refine usedNameInput_of_filterMap ?_ hdependency
  have hnames := h.usedNames
  rw [ModuleGeneratorContext.usedNames, ModuleGeneratorContext.usedNames, ← h.presentational, ← h.dependencies,
    ← h.blocks] at hnames
  exact hnames

theorem locatedDependencies (h : SameInputs left right) :
    left.module.locatedDependencies = right.module.locatedDependencies := by
  rw [Module.locatedDependencies, Module.locatedDependencies, h.dependencies, h.blocks]

theorem targetRenderId (h : SameInputs left right) (hleft : left.Placed) (hright : right.Placed)
    {location : DependencyLocation} {dependency : Dependency}
    (hlocated : (location, dependency) ∈ left.module.locatedDependencies) :
    left.targetRenderId location.block location.dependencyIndex =
      right.targetRenderId location.block location.dependencyIndex := by
  obtain ⟨block, index⟩ := location
  cases block with
  | none =>
      have hget := Module.mem_locatedDependencies_none.mp hlocated
      exact h.target index (List.getElem?_eq_some_iff.mp hget).choose
  | some block =>
      obtain ⟨found, hfound, hget⟩ := Module.mem_locatedDependencies_some.mp hlocated
      have hblock := h.block block found hfound
      obtain ⟨first, hfirst⟩ := hleft.exists_firstChunkId block
      obtain ⟨first', hfirst'⟩ := hright.exists_firstChunkId block
      simp only [ModuleGeneratorContext.blockInput, hfirst, hfirst', ok_bind] at hblock
      obtain ⟨htargets, -⟩ := BlockInput.mk.inj (Except.ok.inj hblock)
      exact List.map_inj_left.mp htargets index
        (List.mem_range.mpr (List.getElem?_eq_some_iff.mp hget).choose)

/-- A dependency leads to modules with one render id. -/
theorem exists_targets (h : SameInputs left right) (hleft : left.Placed) (hright : right.Placed)
    {location : DependencyLocation} {dependency : Dependency}
    (hlocated : (location, dependency) ∈ left.module.locatedDependencies)
    (hdependency : dependency.isModuleDependency) : ∃ target target',
      left.moduleGraph.moduleForDependency left.module.handle location.block location.dependencyIndex = some target ∧
      right.moduleGraph.moduleForDependency right.module.handle location.block location.dependencyIndex =
        some target' ∧ left.moduleRenderIds target = right.moduleRenderIds target' := by
  obtain ⟨target, htarget⟩ := hleft.exists_target hlocated hdependency
  obtain ⟨target', htarget'⟩ := hright.exists_target (h.locatedDependencies ▸ hlocated) hdependency
  have hids := h.targetRenderId hleft hright hlocated
  rw [ModuleGeneratorContext.targetRenderId, ModuleGeneratorContext.targetRenderId, htarget, htarget'] at hids
  exact ⟨target, target', htarget, htarget', hids⟩

theorem mem_templateDependencies {module : Module}
    {item : (Option AsyncDependenciesBlockIndex × Option DependencyIndex) × Dependency}
    (hitem : item ∈ module.templateDependencies) :
    (item.1 = (none, none) ∧ item.2 ∈ module.presentationalDependencies) ∨
      (∃ index, item.1 = (none, some index) ∧ module.dependencies[index]? = some item.2) ∨
        ∃ block index found, item.1 = (some block, some index) ∧ module.blocks[block]? = some found ∧
          found.dependencies[index]? = some item.2 := by
  rcases List.mem_append.mp hitem with hfirst | hlater
  · obtain ⟨dependency, hdependency, rfl⟩ := List.mem_map.mp hfirst
    exact .inl ⟨rfl, hdependency⟩
  · obtain ⟨⟨⟨block, index⟩, dependency⟩, hlocated, rfl⟩ := List.mem_map.mp hlater
    cases block with
    | none => exact .inr (.inl ⟨index, rfl, Module.mem_locatedDependencies_none.mp hlocated⟩)
    | some block =>
        obtain ⟨found, hfound, hget⟩ := Module.mem_locatedDependencies_some.mp hlocated
        exact .inr (.inr ⟨block, index, found, rfl, hfound, hget⟩)

theorem mem_dependencies_of_item {module : Module}
    {item : (Option AsyncDependenciesBlockIndex × Option DependencyIndex) × Dependency}
    (hitem : item ∈ module.templateDependencies) :
    item.2 ∈ module.presentationalDependencies ++ module.dependencies ++
      module.blocks.flatMap (·.dependencies) := by
  rcases mem_templateDependencies hitem with ⟨-, hmem⟩ | ⟨index, -, hget⟩ | ⟨block, index, found, -, hfound, hget⟩
  · exact List.mem_append_left _ (List.mem_append_left _ hmem)
  · exact List.mem_append_left _ (List.mem_append_right _ (List.mem_of_getElem? hget))
  · exact List.mem_append_right _
      (List.mem_flatMap.mpr ⟨found, List.mem_of_getElem? hfound, List.mem_of_getElem? hget⟩)

/-- What is no dynamic import is in no block, so it has the target of its place, or is presentational. -/
theorem connectionTarget (h : SameInputs left right) (hleft : left.Placed) (hright : right.Placed)
    {item : (Option AsyncDependenciesBlockIndex × Option DependencyIndex) × Dependency}
    (hitem : item ∈ left.module.templateDependencies) (hdependency : item.2.isModuleDependency)
    (himport : item.2.isImportDependency = false) (what : String) :
    (∃ error, (left.templateContext none item.1).connectionTarget none what = .error error ∧
      (right.templateContext none item.1).connectionTarget none what = .error error) ∨
    ∃ target target', (left.templateContext none item.1).connectionTarget none what = .ok target ∧
      (right.templateContext none item.1).connectionTarget none what = .ok target' ∧
        left.moduleRenderIds target = right.moduleRenderIds target' := by
  rcases mem_templateDependencies hitem with
    ⟨hplace, -⟩ | ⟨index, hplace, hget⟩ | ⟨block, index, found, -, hfound, hget⟩
  · rw [hplace]
    exact .inl ⟨_, rfl, rfl⟩
  · obtain ⟨target, target', htarget, htarget', hids⟩ :=
      h.exists_targets hleft hright (Module.mem_locatedDependencies_none.mpr hget) hdependency
    refine .inr ⟨target, target', ?_, ?_, hids⟩
    · rw [hplace, DependencyTemplateContext.connectionTarget]
      simp only [ModuleGeneratorContext.templateContext, expect_some, ok_bind, htarget]
    · rw [hplace, DependencyTemplateContext.connectionTarget]
      simp only [ModuleGeneratorContext.templateContext, expect_some, ok_bind, htarget']
  · have hblock := hleft.wellFormed.block_imports left.module (ModuleGraph.Indexed.mem_modules hleft.found) found
      (List.mem_of_getElem? hfound)
    have hall := List.all_eq_true.mp hblock.2 item.2 (List.mem_of_getElem? hget)
    rw [himport] at hall
    cases hall

variable {place : Option AsyncDependenciesBlockIndex × Option DependencyIndex} {dependency : Dependency}

theorem applySideEffect (h : SameInputs left right) (hleft : left.Placed) (hright : right.Placed)
    {dep : HarmonyImportSideEffectDependency}
    (hitem : (place, Dependency.harmonyImportSideEffect dep) ∈ left.module.templateDependencies)
    (state : TemplateState) :
    dep.apply (left.templateContext none place) state = dep.apply (right.templateContext none place) state := by
  rcases h.connectionTarget hleft hright hitem rfl rfl "Harmony import" with
    ⟨error, hleftTarget, hrightTarget⟩ | ⟨target, target', hleftTarget, hrightTarget, hids⟩
  · simp only [HarmonyImportSideEffectDependency.apply, hleftTarget, hrightTarget, error_bind]
  · simp only [HarmonyImportSideEffectDependency.apply, hleftTarget, hrightTarget, ok_bind]
    simp only [DependencyTemplateContext.internalScope, ModuleGeneratorContext.templateContext,
      Option.filter_none, hids]

theorem applySpecifier (h : SameInputs left right) (hleft : left.Placed) (hright : right.Placed)
    {dep : HarmonyImportSpecifierDependency}
    (hitem : (place, Dependency.harmonyImportSpecifier dep) ∈ left.module.templateDependencies)
    (state : TemplateState) :
    dep.apply (left.templateContext none place) state = dep.apply (right.templateContext none place) state := by
  rcases h.connectionTarget hleft hright hitem rfl rfl "Harmony import specifier" with
    ⟨error, hleftTarget, hrightTarget⟩ | ⟨target, target', hleftTarget, hrightTarget, -⟩
  · simp only [HarmonyImportSpecifierDependency.apply, hleftTarget, hrightTarget, error_bind]
  · simp only [HarmonyImportSpecifierDependency.apply, hleftTarget, hrightTarget, ok_bind]
    simp only [HarmonyImportSpecifierDependency.expression, DependencyTemplateContext.internalScope,
      ModuleGeneratorContext.templateContext, Option.filter_none]

theorem applyImportedSpecifier (h : SameInputs left right) (hleft : left.Placed) (hright : right.Placed)
    {dep : HarmonyExportImportedSpecifierDependency}
    (hitem : (place, Dependency.harmonyExportImportedSpecifier dep) ∈ left.module.templateDependencies)
    (state : TemplateState) :
    dep.apply (left.templateContext none place) state = dep.apply (right.templateContext none place) state := by
  have hname := h.getUsedName (mem_dependencies_of_item hitem)
  have hused : dep.name.bind (left.moduleGraph.exportsInfo left.module.handle).getUsedName =
      dep.name.bind (right.moduleGraph.exportsInfo right.module.handle).getUsedName :=
    congrArg UsedNameInput.usedName (Option.some.inj hname)
  rcases h.connectionTarget hleft hright hitem rfl rfl "Harmony re-export" with
    ⟨error, hleftTarget, hrightTarget⟩ | ⟨target, target', hleftTarget, hrightTarget, hids⟩
  · simp only [HarmonyExportImportedSpecifierDependency.apply, hleftTarget, hrightTarget, error_bind]
  · simp only [HarmonyExportImportedSpecifierDependency.apply, hleftTarget, hrightTarget, ok_bind]
    simp only [HarmonyExportImportedSpecifierDependency.importVar, DependencyTemplateContext.internalScope,
      ModuleGeneratorContext.templateContext, Option.filter_none, hids]
    cases hdep : dep.name with
    | none => rfl
    | some name =>
        rw [hdep, Option.bind_some, Option.bind_some] at hused
        simp only [hused]

theorem applyImport (h : SameInputs left right) (hleft : left.Placed) (hright : right.Placed)
    {dep : ImportDependency} (hitem : (place, Dependency.import dep) ∈ left.module.templateDependencies)
    (state : TemplateState) :
    dep.apply (left.templateContext none place) state = dep.apply (right.templateContext none place) state := by
  rcases mem_templateDependencies hitem with
    ⟨hplace, -⟩ | ⟨index, hplace, -⟩ | ⟨block, index, found, hplace, hfound, hget⟩
  · obtain rfl : place = (none, none) := hplace
    rfl
  · obtain rfl : place = (none, some index) := hplace
    rfl
  · obtain rfl : place = (some block, some index) := hplace
    obtain ⟨target, target', htarget, htarget', hids⟩ :=
      h.exists_targets hleft hright (Module.mem_locatedDependencies_some.mpr ⟨found, hfound, hget⟩) rfl
    have hblock := h.block block found hfound
    obtain ⟨first, hfirst⟩ := hleft.exists_firstChunkId block
    obtain ⟨first', hfirst'⟩ := hright.exists_firstChunkId block
    simp only [ModuleGeneratorContext.blockInput, hfirst, hfirst', ok_bind] at hblock
    obtain ⟨-, hsame⟩ := BlockInput.mk.inj (Except.ok.inj hblock)
    have hgroups := hleft.firstChunkId_eq block
    have hgroups' := hright.firstChunkId_eq block
    simp only [ImportDependency.apply, DependencyTemplateContext.connectionTarget,
      ModuleGeneratorContext.templateContext, expect_some, ok_bind, htarget, htarget', hids]
    cases hid : right.moduleRenderIds target' with
    | none => rfl
    | some renderId =>
        simp only [expect_some, ok_bind]
        cases hgroup : left.chunkGraph.blockChunkGroup ⟨left.module.handle, block⟩ with
        | none =>
            rw [hgroup] at hgroups
            cases hgroup' : right.chunkGraph.blockChunkGroup ⟨right.module.handle, block⟩ with
            | none => rfl
            | some group' =>
                rw [hgroup'] at hgroups'
                obtain ⟨chunkId, hchunk, -⟩ := hgroups'
                have hnone := Except.ok.inj (hgroups.symm.trans hfirst)
                have hsome := Except.ok.inj (hchunk.symm.trans hfirst')
                rw [← hnone, ← hsome] at hsame
                cases hsame
        | some group =>
            rw [hgroup] at hgroups
            obtain ⟨chunkId, hchunk, hids'⟩ := hgroups
            cases hgroup' : right.chunkGraph.blockChunkGroup ⟨right.module.handle, block⟩ with
            | none =>
                rw [hgroup'] at hgroups'
                have hsome := Except.ok.inj (hchunk.symm.trans hfirst)
                have hnone := Except.ok.inj (hgroups'.symm.trans hfirst')
                rw [← hnone, ← hsome] at hsame
                cases hsame
            | some group' =>
                rw [hgroup'] at hgroups'
                obtain ⟨chunkId', hchunk', hids''⟩ := hgroups'
                have hleftId := Except.ok.inj (hchunk.symm.trans hfirst)
                have hrightId := Except.ok.inj (hchunk'.symm.trans hfirst')
                rw [← hleftId, ← hrightId] at hsame
                obtain rfl := Option.some.inj hsame
                simp only [hids', hids'', ok_bind]

/-- Every template writes the same. -/
theorem applyTemplate (h : SameInputs left right) (hleft : left.Placed) (hright : right.Placed)
    {item : (Option AsyncDependenciesBlockIndex × Option DependencyIndex) × Dependency}
    (hitem : item ∈ left.module.templateDependencies) {state state' : TemplateState}
    (happly : left.applyTemplate none state item = .ok state') : right.applyTemplate none state item = .ok state' := by
  obtain ⟨place, dependency⟩ := item
  have hname := h.getUsedName (mem_dependencies_of_item hitem)
  cases dependency with
  | entry dep => exact happly
  | harmonyImportSideEffect dep =>
      rw [ModuleGeneratorContext.applyTemplate, Dependency.applyTemplate] at happly ⊢
      exact h.applyDependencyTemplate hleft hright (h.applySideEffect hleft hright hitem state ▸ id) happly
  | harmonyImportSpecifier dep =>
      rw [ModuleGeneratorContext.applyTemplate, Dependency.applyTemplate] at happly ⊢
      exact h.applyDependencyTemplate hleft hright (h.applySpecifier hleft hright hitem state ▸ id) happly
  | harmonyExportHeader dep =>
      rw [ModuleGeneratorContext.applyTemplate, Dependency.applyTemplate] at happly ⊢
      exact h.applyDependencyTemplate hleft hright id happly
  | harmonyExportSpecifier dep =>
      have hused : (left.moduleGraph.exportsInfo left.module.handle).getUsedName dep.name =
          (right.moduleGraph.exportsInfo right.module.handle).getUsedName dep.name :=
        congrArg UsedNameInput.usedName (Option.some.inj hname)
      rw [ModuleGeneratorContext.applyTemplate, Dependency.applyTemplate] at happly ⊢
      refine h.applyDependencyTemplate hleft hright (fun hdone => ?_) happly
      rw [← hdone, HarmonyExportSpecifierDependency.apply, HarmonyExportSpecifierDependency.apply]
      simp only [ModuleGeneratorContext.templateContext, hused]
  | harmonyExportExpression dep =>
      have hused : (left.moduleGraph.exportsInfo left.module.handle).getUsedName "default" =
          (right.moduleGraph.exportsInfo right.module.handle).getUsedName "default" :=
        congrArg UsedNameInput.usedName (Option.some.inj hname)
      rw [ModuleGeneratorContext.applyTemplate, Dependency.applyTemplate] at happly ⊢
      refine h.applyDependencyTemplate hleft hright (fun hdone => ?_) happly
      rw [← hdone, HarmonyExportExpressionDependency.apply, HarmonyExportExpressionDependency.apply]
      simp only [ModuleGeneratorContext.templateContext, hused]
  | harmonyExportImportedSpecifier dep =>
      rw [ModuleGeneratorContext.applyTemplate, Dependency.applyTemplate] at happly ⊢
      exact h.applyDependencyTemplate hleft hright (h.applyImportedSpecifier hleft hright hitem state ▸ id) happly
  | null =>
      rw [ModuleGeneratorContext.applyTemplate, Dependency.applyTemplate] at happly ⊢
      exact h.applyDependencyTemplate hleft hright id happly
  | const dep =>
      rw [ModuleGeneratorContext.applyTemplate, Dependency.applyTemplate] at happly ⊢
      exact h.applyDependencyTemplate hleft hright id happly
  | «import» dep =>
      rw [ModuleGeneratorContext.applyTemplate, Dependency.applyTemplate] at happly ⊢
      exact h.applyDependencyTemplate hleft hright (h.applyImport hleft hright hitem state ▸ id) happly
  | loader dep => exact happly
  | loaderImport dep => exact happly

end SameInputs

theorem foldlM_of_ok {ε α β : Type} {f g : β → α → Except ε β} {items : List α}
    (h : ∀ item ∈ items, ∀ value value', f value item = .ok value' → g value item = .ok value') {start value : β}
    (hfold : items.foldlM f start = .ok value) : items.foldlM g start = .ok value := by
  induction items generalizing start with
  | nil => exact hfold
  | cons item items ih =>
      rw [List.foldlM_cons] at hfold ⊢
      cases hitem : f start item with
      | error error =>
          rw [hitem] at hfold
          cases hfold
      | ok next =>
          rw [hitem, ok_bind] at hfold
          rw [h item List.mem_cons_self start next hitem, ok_bind]
          exact ih (fun later hlater => h later (List.mem_cons_of_mem _ hlater)) hfold

namespace SameInputs

variable {left right : ModuleGeneratorContext} {record : CodeGenerationRecord}

theorem generateJavascript (h : SameInputs left right) (hleft : left.Placed) (hright : right.Placed)
    (hgenerate : left.generateJavascript = .ok record) : right.generateJavascript = .ok record := by
  have hitems : right.module.templateDependencies = left.module.templateDependencies := by
    rw [Module.templateDependencies, Module.templateDependencies, Module.locatedDependencies,
      Module.locatedDependencies, h.presentational, h.dependencies, h.blocks]
  have hstart : right.initialState = left.initialState := by
    rw [ModuleGeneratorContext.initialState, ModuleGeneratorContext.initialState, Module.isHarmony, Module.isHarmony,
      h.harmony]
  have hname : right.moduleRenderName = left.moduleRenderName := by
    rw [ModuleGeneratorContext.moduleRenderName, ModuleGeneratorContext.moduleRenderName, h.renderId, h.identity]
  have hlength : right.module.sourceLen = left.module.sourceLen := by
    rw [Module.sourceLen, Module.sourceLen, h.source]
  rw [ModuleGeneratorContext.generateJavascript, ModuleGeneratorContext.generateWithConcatenationScope] at hgenerate ⊢
  cases hstate : left.module.templateDependencies.foldlM (left.applyTemplate none) left.initialState with
  | error error =>
      rw [hstate] at hgenerate
      cases hgenerate
  | ok state =>
      rw [hitems, hstart, foldlM_of_ok (fun item hitem state state' => h.applyTemplate hleft hright hitem) hstate,
        ok_bind, hname, hlength]
      rw [hstate, ok_bind] at hgenerate
      exact hgenerate

theorem generateAsset (h : SameInputs left right) (library : AssetLibrary) :
    Unpack.generateAsset library left.module = Unpack.generateAsset library right.module := by
  have hvalue : assetValue library left.module = assetValue library right.module := by
    funext moduleType
    simp only [assetValue, Module.resourceUrl, Module.resourceFilename, h.sourceBytes, h.identity]
  rw [Unpack.generateAsset, Unpack.generateAsset, h.parsedData, hvalue]

/-- A module is generated alike from the same inputs. -/
theorem generateRegisteredModule (h : SameInputs left right) (hleft : left.Placed) (hright : right.Placed)
    (library : AssetLibrary) (hgenerate : Unpack.generateRegisteredModule library left = .ok record) :
    Unpack.generateRegisteredModule library right = .ok record := by
  rw [Unpack.generateRegisteredModule] at hgenerate ⊢
  rw [← h.buildError]
  cases herror : left.module.buildError with
  | some error =>
      rw [herror] at hgenerate
      exact hgenerate
  | none =>
      rw [herror] at hgenerate
      change left.generate library = .ok record at hgenerate
      change right.generate library = .ok record
      rw [ModuleGeneratorContext.generate] at hgenerate ⊢
      rw [← h.identity]
      cases htype : left.module.identity.moduleType with
      | javaScriptAuto =>
          rw [htype] at hgenerate
          exact h.generateJavascript hleft hright hgenerate
      | json =>
          rw [htype] at hgenerate
          dsimp only at hgenerate ⊢
          rw [generateJson] at hgenerate ⊢
          rw [← h.parsedData]
          exact hgenerate
      | asset | assetResource | assetInline | assetSource =>
          rw [htype] at hgenerate
          exact (h.generateAsset library).symm.trans hgenerate

end SameInputs

/-- Among these modules the hashes tell what is hashed: the inputs of an ETag, the source of a module, and what the
parser made of it. -/
structure CollisionFree (contexts : ModuleGeneratorContext → Prop) : Prop where
  etag : ∀ left right inputs inputs', contexts left → contexts right → left.inputs = .ok inputs →
    right.inputs = .ok inputs' → stableHashBytes inputs.hashInput = stableHashBytes inputs'.hashInput →
      inputs.hashInput = inputs'.hashInput
  source : ∀ left right, contexts left → contexts right → left.module.identity = right.module.identity →
    left.module.buildError = right.module.buildError → left.module.sourceHash = right.module.sourceHash →
      left.module.source = right.module.source ∧ left.module.sourceBytes = right.module.sourceBytes
  parsed : ∀ left right, contexts left → contexts right →
    left.module.codeGenerationLocalInputDigest = right.module.codeGenerationLocalInputDigest →
      left.module.dependencies = right.module.dependencies ∧ left.module.blocks = right.module.blocks ∧
        left.module.presentationalDependencies = right.module.presentationalDependencies ∧
          left.module.parsedData = right.module.parsedData

theorem mapM_ok_getElem {ε α β : Type} {f : α → Except ε β} {items : List α} {values : List β}
    (h : items.mapM f = .ok values) : values.length = items.length ∧
      ∀ (index : Nat) (item : α), items[index]? = some item →
        ∃ value, values[index]? = some value ∧ f item = .ok value := by
  induction items generalizing values with
  | nil =>
      cases h
      exact ⟨rfl, fun index item hitem => by cases hitem⟩
  | cons first items ih =>
      rw [List.mapM_cons] at h
      cases hfirst : f first with
      | error error =>
          rw [hfirst] at h
          cases h
      | ok value =>
          cases hrest : items.mapM f with
          | error error =>
              rw [hfirst, ok_bind, hrest] at h
              cases h
          | ok rest =>
              rw [hfirst, ok_bind, hrest] at h
              cases h
              obtain ⟨hlength, hvalues⟩ := ih hrest
              refine ⟨congrArg Nat.succ hlength, fun index item hitem => ?_⟩
              cases index with
              | zero =>
                  cases hitem
                  exact ⟨value, rfl, hfirst⟩
              | succ index => exact hvalues index item hitem

theorem ModuleGeneratorContext.inputs_eq_ok {context : ModuleGeneratorContext} {inputs : CodeGenerationInputs}
    (h : context.inputs = .ok inputs) : ∃ blocks, context.module.blocks.zipIdx.mapM context.blockInput = .ok blocks ∧
      inputs = ⟨context.module.sourceHash, context.module.buildError, context.module.isHarmony,
        context.module.codeGenerationLocalInputDigest, context.usedNames,
        context.moduleRenderIds context.module.handle,
        (List.range context.module.dependencies.length).map (context.targetRenderId none), blocks⟩ := by
  rw [ModuleGeneratorContext.inputs] at h
  cases hblocks : context.module.blocks.zipIdx.mapM context.blockInput with
  | error error =>
      rw [hblocks] at h
      cases h
  | ok blocks =>
      rw [hblocks, ok_bind] at h
      cases h
      exact ⟨blocks, rfl, rfl⟩

theorem length_filterMap_usedNameInput (dependencies : List Dependency) (info info' : ExportsInfo) :
    (dependencies.filterMap (Dependency.usedNameInput info)).length =
      (dependencies.filterMap (Dependency.usedNameInput info')).length := by
  rw [List.length_filterMap_eq_countP, List.length_filterMap_eq_countP]
  exact List.countP_congr fun dependency _ => by rw [isSome_usedNameInput dependency info info']

theorem lengths_of_blockInputs {context : ModuleGeneratorContext} {blocks : List BlockInput}
    (h : context.module.blocks.zipIdx.mapM context.blockInput = .ok blocks) :
    blocks.map (·.targets.length) = context.module.blocks.map (·.dependencies.length) := by
  obtain ⟨hlength, hvalues⟩ := mapM_ok_getElem h
  rw [List.length_zipIdx] at hlength
  refine List.ext_getElem? fun index => ?_
  rw [List.getElem?_map, List.getElem?_map]
  cases hblock : context.module.blocks[index]? with
  | none =>
      rw [List.getElem?_eq_none (hlength ▸ List.getElem?_eq_none_iff.mp hblock)]
      rfl
  | some found =>
      obtain ⟨value, hvalue, hinput⟩ := hvalues index (found, index) (by
        rw [List.getElem?_zipIdx, hblock]
        simp)
      rw [hvalue]
      rw [ModuleGeneratorContext.blockInput] at hinput
      cases hfirst : context.firstChunkId index with
      | error error =>
          rw [hfirst] at hinput
          cases hinput
      | ok firstChunk =>
          rw [hfirst, ok_bind] at hinput
          cases hinput
          simp

theorem SameInputs.of_etag {contexts : ModuleGeneratorContext → Prop} (hfree : CollisionFree contexts)
    {left right : ModuleGeneratorContext} (hleft : contexts left) (hright : contexts right)
    (hidentity : left.module.identity = right.module.identity) {inputs inputs' : CodeGenerationInputs}
    (hinputs : left.inputs = .ok inputs) (hinputs' : right.inputs = .ok inputs') (hetag : inputs.etag = inputs'.etag) :
    SameInputs left right := by
  have hhash := hfree.etag left right inputs inputs' hleft hright hinputs hinputs' (littleEndian_injective hetag)
  obtain ⟨blocks, hblocks, rfl⟩ := ModuleGeneratorContext.inputs_eq_ok hinputs
  obtain ⟨blocks', hblocks', rfl⟩ := ModuleGeneratorContext.inputs_eq_ok hinputs'
  have heq := CodeGenerationInputs.eq_of_hashInput (fun hdigest => ?_) hhash
  · obtain ⟨hsource, herror, hharmony, hdigest, hnames, hid, htargets, hsame⟩ := CodeGenerationInputs.mk.inj heq
    obtain ⟨htext, hbytes⟩ := hfree.source left right hleft hright hidentity herror hsource
    obtain ⟨hdependencies, hmoduleBlocks, hpresentational, hdata⟩ := hfree.parsed left right hleft hright hdigest
    refine ⟨hidentity, herror, hharmony, htext, hbytes, hdependencies, hmoduleBlocks, hpresentational, hdata, hnames,
      hid, fun index hindex => ?_, fun index found hfound => ?_⟩
    · rw [← hdependencies] at htargets
      exact List.map_inj_left.mp htargets index (List.mem_range.mpr hindex)
    · have hplace : left.module.blocks.zipIdx[index]? = some (found, index) := by
        rw [List.getElem?_zipIdx, hfound]
        simp
      obtain ⟨value, hvalue, hinput⟩ := (mapM_ok_getElem hblocks).2 index (found, index) hplace
      obtain ⟨value', hvalue', hinput'⟩ := (mapM_ok_getElem hblocks').2 index (found, index) (hmoduleBlocks ▸ hplace)
      rw [hsame] at hvalue
      obtain rfl := Option.some.inj (hvalue.symm.trans hvalue')
      exact hinput.trans hinput'.symm
  · obtain ⟨hdependencies, hmoduleBlocks, hpresentational, -⟩ := hfree.parsed left right hleft hright hdigest
    refine ⟨?_, ?_, ?_⟩
    · change left.usedNames.length = right.usedNames.length
      rw [ModuleGeneratorContext.usedNames, ModuleGeneratorContext.usedNames, hdependencies, hmoduleBlocks,
        hpresentational]
      exact length_filterMap_usedNameInput _ _ _
    · rw [List.length_map, List.length_map, hdependencies]
    · change blocks.map _ = blocks'.map _
      rw [lengths_of_blockInputs hblocks, lengths_of_blockInputs hblocks', hmoduleBlocks]

namespace ModuleGeneratorContext.Placed

variable {context : ModuleGeneratorContext}

theorem exists_inputs (h : context.Placed) : ∃ inputs, context.inputs = .ok inputs := by
  have hblocks : ∀ blocks : List (AsyncDependenciesBlock × AsyncDependenciesBlockIndex),
      ∃ values, blocks.mapM context.blockInput = .ok values := by
    intro blocks
    induction blocks with
    | nil => exact ⟨[], rfl⟩
    | cons block blocks ih =>
        obtain ⟨values, hvalues⟩ := ih
        obtain ⟨firstChunk, hfirst⟩ := h.exists_firstChunkId block.2
        refine ⟨⟨(List.range block.1.dependencies.length).map (context.targetRenderId (some block.2)), firstChunk⟩
            :: values,
          ?_⟩
        rw [List.mapM_cons, blockInput, hfirst, ok_bind, hvalues]
        rfl
  obtain ⟨values, hvalues⟩ := hblocks context.module.blocks.zipIdx
  rw [inputs, hvalues, ok_bind]
  exact ⟨_, rfl⟩

end ModuleGeneratorContext.Placed

namespace Compilation

variable {compilation : Compilation} {context : RenderPathContext}

/-- A block loads the one chunk that was made for its target. -/
theorem chunk_of_block (hwellFormed : compilation.moduleGraph.WellFormed)
    (hsplit : compilation.options.splitChunks = none) {origin : AsyncBlockOrigin}
    {group : ChunkGroupHandle} (hgroup : (compilation.sealedChunkGraph context).blockChunkGroup origin = some group) :
    ∃ found handle chunk renderId, (compilation.sealedChunkGraph context).chunkGroup group = some found ∧
      found.chunks = [handle] ∧ (compilation.sealedChunkGraph context).chunk handle = some chunk ∧
        chunk.renderId = some renderId := by
  have hsame := compilation.sameContent_sealed context
  have hgraph := compilation.indexed
  have hexact := reachesExactly_collectStaticReachable hgraph
  obtain ⟨applied, h⟩ :=
    OptimizedCompilation.optimized { compilation with nonstatic_active := hwellFormed.nonstatic_active }
  have hbuilt : compilation.chunkGraph = buildGroups compilation.moduleGraph
      compilation.moduleGraph.collectStaticReachable compilation.options compilation.entries := by
    rw [chunkGraph, buildChunkGraph, buildChunkGraphFrom, hsplit]
  have hunsplit := unsplit_buildGroups hgraph hexact compilation.entries_lt compilation.options
  rw [← hbuilt] at hunsplit
  rw [hsame.blockChunkGroup, h.blockChunkGroup] at hgroup
  obtain ⟨parent, target, hload, rfl⟩ := (hunsplit.blocks_spec origin group).mp hgroup
  obtain ⟨-, -, -, hexists⟩ := hload.spec hgraph hexact compilation.entries_lt
  obtain ⟨found, hfound, hchunks, -⟩ := hunsplit.group_spec _ hexists
  obtain ⟨chunk, hchunk, -⟩ := hunsplit.chunk_spec _ (LogicalChunkGroup.groupIndex_lt hexists)
  obtain ⟨idOf, hids⟩ := @ChunkGraph.exists_givenIds context compilation.moduleGraph _
    (compilation.planned_assignModuleRenderIds context)
  generalize groupIndex _ _ _ _ = place at hfound hchunks hchunk ⊢
  have hafter : (compilation.sealedChunkGraph context).chunk place =
      some { chunk with renderId := some (idOf place) } := by
    refine (hids.chunk place).trans ?_
    rw [ChunkGraph.chunk, (assignModuleRenderIds_keeps context _ _).1, chunks_optimizedChunkGraph,
      show compilation.chunkGraph.chunks[place]? = some chunk from hchunk]
    rfl
  refine ⟨found, place, _, idOf place, ?_, hchunks, hafter, rfl⟩
  rw [hsame.chunkGroup, h.chunkGroup]
  exact hfound

theorem placed_generatorContext (hsplit : compilation.options.splitChunks = none)
    (hwellFormed : compilation.moduleGraph.WellFormed) (hconnected : compilation.moduleGraph.Connected)
    {module : Module} (hmodule : module ∈ compilation.moduleGraph.modules) :
    (compilation.generatorContext context module).Placed := by
  obtain ⟨handle, hhandle⟩ := List.mem_iff_getElem?.mp hmodule
  have hfound : compilation.moduleGraph.module handle = some module := hhandle
  obtain rfl := compilation.indexed.handle_eq hfound
  exact .of_graph hfound hwellFormed hconnected fun _ _ hgroup => chunk_of_block hwellFormed hsplit hgroup

end Compilation

/-- What a generation from a cache makes of modules whose records are those of a plain generation. -/
theorem generateResults_eq {σ : Type} {moduleGraph : ModuleGraph} {chunkGraph : ChunkGraph}
    {generateModule : ModuleGeneratorContext → σ → Except CodeGenerationError CodeGenerationRecord × σ}
    {Inv : σ → Prop} (plain : ModuleGeneratorContext → Except CodeGenerationError CodeGenerationRecord)
    {modules : List Module} (hmodules : ∀ module ∈ modules, ∀ state, Inv state →
      let input : ModuleGeneratorContext := ⟨module, moduleGraph, chunkGraph, moduleGraph.moduleRenderIds chunkGraph⟩
      (generateModule input state).1 = plain input ∧ Inv (generateModule input state).2)
    {state : σ} (hstate : Inv state) :
    (generateResults moduleGraph chunkGraph generateModule modules state).1 =
        (generateResults moduleGraph chunkGraph (fun input (none : Unit) => (plain input, none)) modules ()).1 ∧
      Inv (generateResults moduleGraph chunkGraph generateModule modules state).2 := by
  induction modules generalizing state with
  | nil => exact ⟨rfl, hstate⟩
  | cons module modules ih =>
      have hresult : (generateResult moduleGraph chunkGraph generateModule module state).1 =
          (generateResult moduleGraph chunkGraph (fun input (none : Unit) => (plain input, none)) module ()).1 ∧
          Inv (generateResult moduleGraph chunkGraph generateModule module state).2 := by
        rw [generateResult, generateResult]
        cases chunkGraph.concatenatedModule module.handle with
        | some concatenated => exact ⟨rfl, hstate⟩
        | none =>
            obtain ⟨hsame, hinv⟩ := hmodules module List.mem_cons_self state hstate
            dsimp only at hsame hinv ⊢
            rw [hsame]
            exact ⟨rfl, hinv⟩
      have hlater := fun {state : σ} (h : Inv state) =>
        ih (fun later hmem => hmodules later (List.mem_cons_of_mem _ hmem)) h
      rw [generateResults, generateResults]
      obtain ⟨hfirst, hinv⟩ := hresult
      rcases hleft : generateResult moduleGraph chunkGraph generateModule module state with ⟨left, next⟩
      rcases hright : generateResult moduleGraph chunkGraph (fun input (none : Unit) => (plain input, none)) module ()
        with ⟨right, after⟩
      rw [hleft] at hfirst hinv
      rw [hright] at hfirst
      obtain rfl : left = right := hfirst
      cases left with
      | error error => exact ⟨rfl, hinv⟩
      | ok result =>
          obtain ⟨hrest, hlast⟩ := hlater hinv
          rcases hleftRest : generateResults moduleGraph chunkGraph generateModule modules next with ⟨outcome, last⟩
          rcases hrightRest : generateResults moduleGraph chunkGraph (fun input (none : Unit) => (plain input, none))
            modules () with ⟨outcome', after'⟩
          rw [hleftRest] at hrest hlast
          rw [hrightRest] at hrest
          obtain rfl : outcome = outcome' := hrest
          dsimp only
          rw [hleftRest, hrightRest]
          cases outcome with
          | error error => exact ⟨rfl, hlast⟩
          | ok outcome => exact ⟨rfl, hlast⟩

section

variable (library : AssetLibrary) {σ : Type} (cache : CodeGenerationCache σ)
variable (compilations : Compilation → RenderPathContext → Prop)

/-- The modules of the compilations, as they are generated. -/
def Generates (input : ModuleGeneratorContext) : Prop :=
  ∃ compilation context module, compilations compilation context ∧ module ∈ compilation.moduleGraph.modules ∧
    input = compilation.generatorContext context module

/-- One of the compilations is generated with the cache, or the cache forgets. -/
inductive CodeGenerationStep : σ → σ → Prop
  | generated {compilation : Compilation} {context : RenderPathContext} (h : compilations compilation context)
      (state : σ) : CodeGenerationStep state (compilation.generateCodeCached library cache context state).2
  | forgot {state later : σ} (h : ∀ key etag record, cache.Holds later key etag record →
      cache.Holds state key etag record) : CodeGenerationStep state later

/-- What the cache holds was generated for one of the compilations. -/
def Recorded (state : σ) : Prop :=
  ∀ key etag record, cache.Holds state key etag record → ∃ input inputs, Generates compilations input ∧
    input.module.identity = key ∧ input.inputs = .ok inputs ∧ inputs.etag = etag ∧
      generateRegisteredModule library input = .ok record

variable {library cache compilations}

theorem generateAndStore_spec {state : σ} (hrecorded : Recorded library cache compilations state)
    {input : ModuleGeneratorContext} (hinput : Generates compilations input) {inputs : CodeGenerationInputs}
    (hinputs : input.inputs = .ok inputs) :
    (generateAndStore library cache input inputs.etag state).1 = generateRegisteredModule library input ∧
      Recorded library cache compilations (generateAndStore library cache input inputs.etag state).2 := by
  rw [generateAndStore]
  cases hgenerated : generateRegisteredModule library input with
  | error error => exact ⟨rfl, hrecorded⟩
  | ok record =>
      refine ⟨rfl, fun key etag found hholds => ?_⟩
      rcases cache.holds_store hholds with ⟨rfl, rfl, rfl⟩ | hbefore
      · exact ⟨input, inputs, hinput, rfl, hinputs, rfl, hgenerated⟩
      · exact hrecorded key etag found hbefore

/-- A record that is found is what would be generated. -/
theorem generateModuleCached_spec
    (hsplit : ∀ compilation context, compilations compilation context → compilation.options.splitChunks = none)
    (hmade : ∀ compilation context, compilations compilation context →
      compilation.moduleGraph.WellFormed ∧ compilation.moduleGraph.Connected)
    (hfree : CollisionFree (Generates compilations)) {state : σ} (hrecorded : Recorded library cache compilations state)
    {input : ModuleGeneratorContext} (hinput : Generates compilations input) :
    (generateModuleCached library cache input state).1 = generateRegisteredModule library input ∧
      Recorded library cache compilations (generateModuleCached library cache input state).2 := by
  have hplaced : ∀ {input : ModuleGeneratorContext}, Generates compilations input → input.Placed := by
    rintro input ⟨compilation, context, module, hcompilation, hmodule, rfl⟩
    obtain ⟨hwellFormed, hconnected⟩ := hmade compilation context hcompilation
    exact Compilation.placed_generatorContext (hsplit compilation context hcompilation) hwellFormed hconnected hmodule
  obtain ⟨inputs, hinputs⟩ := (hplaced hinput).exists_inputs
  have hsearched : Recorded library cache compilations (cache.get state input.module.identity inputs.etag).2 :=
    fun key etag record hholds => hrecorded key etag record (cache.holds_get hholds)
  rw [generateModuleCached, hinputs]
  dsimp only
  cases hget : (cache.get state input.module.identity inputs.etag).1 with
  | none => exact generateAndStore_spec hsearched hinput hinputs
  | some record =>
      dsimp only
      split_ifs
      · refine ⟨?_, hsearched⟩
        obtain ⟨stored, inputs', hstored, hidentity, hinputs', hetag, hgenerated⟩ :=
          hrecorded _ _ _ (cache.holds_of_get hget)
        have hsame := SameInputs.of_etag hfree hstored hinput hidentity hinputs' hinputs hetag
        exact (hsame.generateRegisteredModule (hplaced hstored) (hplaced hinput) library hgenerated).symm
      · exact generateAndStore_spec hsearched hinput hinputs

theorem generateCodeCached_spec
    (hsplit : ∀ compilation context, compilations compilation context → compilation.options.splitChunks = none)
    (hmade : ∀ compilation context, compilations compilation context →
      compilation.moduleGraph.WellFormed ∧ compilation.moduleGraph.Connected)
    (hfree : CollisionFree (Generates compilations)) {state : σ} (hrecorded : Recorded library cache compilations state)
    {compilation : Compilation} {context : RenderPathContext} (hcompilation : compilations compilation context) :
    (compilation.generateCodeCached library cache context state).1 = compilation.generateCode library context ∧
      Recorded library cache compilations (compilation.generateCodeCached library cache context state).2 := by
  refine generateResults_eq (generateRegisteredModule library) (fun module hmodule later hlater => ?_) hrecorded
  exact generateModuleCached_spec hsplit hmade hfree hlater
    ⟨compilation, context, module, hcompilation, List.mem_of_mem_filter hmodule, rfl⟩

end

/-- **Cached code is generated code.** In every run of compilations without split chunks whose hashes do not collide
and whose module graphs are connected, the cache forgetting whatever it likes in between, code generation with the
cache has the results and the errors of code generation without it. -/
theorem cached_code_eq_generated (library : AssetLibrary) {σ : Type} (cache : CodeGenerationCache σ)
    (compilations : Compilation → RenderPathContext → Prop)
    (hsplit : ∀ compilation context, compilations compilation context → compilation.options.splitChunks = none)
    (hmade : ∀ compilation context, compilations compilation context →
      compilation.moduleGraph.WellFormed ∧ compilation.moduleGraph.Connected)
    (hfree : CollisionFree (Generates compilations)) (start state : σ)
    (hstart : ∀ key etag record, ¬ cache.Holds start key etag record)
    (hrun : Relation.ReflTransGen (CodeGenerationStep library cache compilations) start state)
    (compilation : Compilation) (context : RenderPathContext) (hcompilation : compilations compilation context) :
    (compilation.generateCodeCached library cache context state).1 = compilation.generateCode library context := by
  have hrecorded : Recorded library cache compilations state := by
    induction hrun with
    | refl => exact fun key etag record hholds => absurd hholds (hstart key etag record)
    | tail _ hstep ih =>
        cases hstep with
        | generated h => exact (generateCodeCached_spec hsplit hmade hfree ih h).2
        | forgot h => exact fun key etag record hholds => ih key etag record (h key etag record hholds)
  exact (generateCodeCached_spec hsplit hmade hfree hrecorded hcompilation).1

/-- The memory of the cache. What has no form there is not kept. -/
def memoryRecords (Json : Type) : CodeGenerationCache (Cache.MemorySlot Json) where
  get slot key etag :=
    if key.IsItem then
      let (found, slot) := slot.lookup key.codeGenerationAddress (some etag)
      (found.bind (·.generatedCode), slot)
    else (none, slot)
  store slot key etag record :=
    if key.IsItem ∧ record.source.IsItem then
      slot.store key.codeGenerationAddress ⟨.codeGeneration, some etag, .codeGeneration record.item⟩
    else slot
  Holds slot key etag record := key.IsItem ∧ ∃ entry, slot.entry key.codeGenerationAddress = some entry ∧
    entry.etag = some etag ∧ entry.generatedCode = some record
  holds_of_get := fun {slot key etag record} h => by
    split at h
    next hkey =>
      obtain ⟨entry, hfound, hrecord⟩ := Option.bind_eq_some_iff.mp h
      rw [Cache.MemorySlot.lookup_fst] at hfound
      obtain ⟨hentry, hetag⟩ := Option.filter_eq_some_iff.mp hfound
      exact ⟨hkey, entry, hentry, of_decide_eq_true hetag, hrecord⟩
    next => cases h
  holds_get := fun {slot key etag key' etag' record} h => by
    split at h
    next =>
      obtain ⟨hkey, entry, hentry, hholds⟩ := h
      exact ⟨hkey, entry, (Cache.MemorySlot.entry_lookup _ _ _ _).symm.trans hentry, hholds⟩
    next => exact h
  holds_store := fun {slot key etag record key' etag' record'} h => by
    split at h
    next hitem =>
      obtain ⟨hkey, entry, hentry, hetag, hrecord⟩ := h
      rw [Cache.MemorySlot.entry_store] at hentry
      split at hentry
      next haddress =>
        obtain rfl := Option.some.inj hentry
        refine .inl ⟨ModuleIdentity.eq_of_codeGenerationAddress_eq hkey hitem.1 haddress, (Option.some.inj hetag).symm,
          ?_⟩
        exact (Option.some.inj hrecord).symm.trans (CodeGenerationRecord.ofItem_item hitem.2)
      next => exact .inr ⟨hkey, entry, hentry, hetag, hrecord⟩
    next => exact .inr h

/-- `index` imports `style` and loads `page`; what the parser made of each has a digest of its own. -/
def loadingCompilation : Compilation where
  options := { entryNames := ["main"] }
  moduleGraph := .ofModules [
    { Module.javaScript "index" [] [] with
      builtContent := {
        parsed := {
          dependencies := [.bareImport "style"]
          blocks := [⟨[.import ⟨{ request := "page", range := some ⟨16, 30⟩ }⟩]⟩] }
        source := "import 'style';\nimport('page');" } },
    { Module.javaScript "style" [] [] with builtContent := { codeGenerationLocalInputDigest := 1 } },
    { Module.javaScript "page" [] [] with builtContent := { codeGenerationLocalInputDigest := 2 } }] [0]
  entries := [0]
  indexed := by decide
  entries_lt := by decide

theorem collisionFree_loadingCompilation : CollisionFree
    (Generates fun compilation context => compilation = loadingCompilation ∧ context = plainPaths) := by
  have hidentity : ∀ left ∈ loadingCompilation.moduleGraph.modules, ∀ right ∈ loadingCompilation.moduleGraph.modules,
      left.identity = right.identity → left = right := by decide +kernel
  have hdigest : ∀ left ∈ loadingCompilation.moduleGraph.modules, ∀ right ∈ loadingCompilation.moduleGraph.modules,
      left.codeGenerationLocalInputDigest = right.codeGenerationLocalInputDigest → left = right := by decide +kernel
  have hhash : ∀ left ∈ loadingCompilation.moduleGraph.modules, ∀ right ∈ loadingCompilation.moduleGraph.modules,
      (loadingCompilation.generatorContext plainPaths left).inputs.map (stableHashBytes ·.hashInput) =
        (loadingCompilation.generatorContext plainPaths right).inputs.map (stableHashBytes ·.hashInput) →
          left = right := by decide +kernel
  constructor
  · rintro left right inputs inputs' ⟨_, _, module, ⟨rfl, rfl⟩, hmodule, rfl⟩ ⟨_, _, module', ⟨rfl, rfl⟩, hmodule', rfl⟩
      hinputs hinputs' heq
    obtain rfl := hhash module hmodule module' hmodule' (by
      rw [hinputs, hinputs']
      exact congrArg Except.ok heq)
    rw [Except.ok.inj (hinputs.symm.trans hinputs')]
  · rintro left right ⟨_, _, module, ⟨rfl, rfl⟩, hmodule, rfl⟩ ⟨_, _, module', ⟨rfl, rfl⟩, hmodule', rfl⟩ hsame - -
    obtain rfl := hidentity module hmodule module' hmodule' hsame
    exact ⟨rfl, rfl⟩
  · rintro left right ⟨_, _, module, ⟨rfl, rfl⟩, hmodule, rfl⟩ ⟨_, _, module', ⟨rfl, rfl⟩, hmodule', rfl⟩ hsame
    obtain rfl := hdigest module hmodule module' hmodule' hsame
    exact ⟨rfl, rfl, rfl, rfl⟩

/-- After one generation the code of every module is in memory; generated a second time it comes from there. -/
theorem cached_code_eq_generated_again :
    let library : AssetLibrary := ⟨fun _ => none, fun _ => ""⟩
    let start : Cache.MemorySlot Unit := .memoryWithGc { maxUnusedGenerations := 1 }
    let kept := (loadingCompilation.generateCodeCached library (memoryRecords Unit) plainPaths start).2
    (∀ module ∈ loadingCompilation.moduleGraph.modules,
        (kept.entry module.identity.codeGenerationAddress).isSome = true) ∧
      (loadingCompilation.generateCodeCached library (memoryRecords Unit) plainPaths kept).1 =
        loadingCompilation.generateCode library plainPaths := by
  intro library start kept
  refine ⟨by decide +kernel, ?_⟩
  refine cached_code_eq_generated _ (memoryRecords Unit)
    (fun compilation context => compilation = loadingCompilation ∧ context = plainPaths) ?_ ?_
    collisionFree_loadingCompilation start kept ?_ ?_ _ _ ⟨rfl, rfl⟩
  · rintro compilation context ⟨rfl, -⟩
    rfl
  · rintro compilation context ⟨rfl, -⟩
    decide +kernel
  · rintro key etag record ⟨-, entry, hentry, -⟩
    cases hentry
  · exact .single (.generated ⟨rfl, rfl⟩ start)

end Unpack
