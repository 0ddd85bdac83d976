import Unpack.AssetRenderValidation
import Unpack.DynamicImports
import Mathlib.Data.List.ReduceOption

/-! The manifests that the compiler makes. A string id starts with the path of a loader or with a dot or a
slash, and the text of a runtime module with the name of a variable, so that validation of cached renderings
is sound for them. -/

namespace Unpack

theorem utf8Bytes_of_head? {text : String} {character : Char} (h : text.toList.head? = some character)
    (hascii : character.toNat < 128) : ∃ rest, utf8Bytes text = UInt8.ofNat character.toNat :: rest := by
  obtain ⟨rest, hrest⟩ := List.head?_eq_some_iff.mp h
  have hbyte : String.utf8EncodeChar character = [UInt8.ofNat character.toNat] := by
    rw [String.utf8EncodeChar, if_pos (by exact Nat.le_of_lt_succ hascii)]
    rfl
  exact ⟨rest.flatMap String.utf8EncodeChar,
    by rw [← String.ofList_toList (s := text), utf8Bytes_ofList, hrest, List.flatMap_cons, hbyte]; rfl⟩

theorem head?_toList_append {start rest : String} {character : Char}
    (h : start.toList.head? = some character) : (start ++ rest).toList.head? = some character := by
  rw [String.toList_append, List.head?_append, h]
  rfl

/-- The first character is printed. -/
theorem legible_of_head? {text : String} {character : Char} (h : text.toList.head? = some character)
    (hprinted : 11 ≤ character.toNat ∧ character.toNat < 128) : Legible text := by
  obtain ⟨bytes, hbytes⟩ := utf8Bytes_of_head? h hprinted.2
  intro byte rest heq
  rw [← (List.cons.inj (hbytes.symm.trans heq)).1, UInt8.toNat_ofNat']
  omega

/-- The text starts without NUL, and goes on with a printed character. -/
theorem legible_append {start rest : String} {character : Char} (hstart : (0 : UInt8) ∉ utf8Bytes start)
    (h : rest.toList.head? = some character)
    (hprinted : 11 ≤ character.toNat ∧ character.toNat < 128) : Legible (start ++ rest) := by
  obtain ⟨bytes, hrest⟩ := utf8Bytes_of_head? h hprinted.2
  have hbyte : 11 ≤ (UInt8.ofNat character.toNat).toNat := by
    rw [UInt8.toNat_ofNat']
    omega
  intro first others heq
  rw [utf8Bytes_append, hrest] at heq
  cases hbytes : utf8Bytes start with
  | nil =>
    rw [hbytes] at heq
    rw [← (List.cons.inj heq).1]
    exact hbyte
  | cons head tail =>
    rw [hbytes] at heq hstart
    have hsecond := (List.cons.inj heq).2
    cases tail with
    | nil =>
      rw [(List.cons.inj hsecond).1] at hbyte
      exact absurd hbyte (by decide)
    | cons second tail =>
      rw [(List.cons.inj hsecond).1] at hstart
      exact absurd (List.mem_cons_of_mem _ List.mem_cons_self) hstart

namespace RenderPathContext

variable {paths : RenderPathContext}

/-- The identifier of a loader is its path, a question mark and its options, and paths have no NUL. -/
def NamesLoaders (paths : RenderPathContext) (graph : ModuleGraph) : Prop :=
  ∀ module ∈ graph.modules, ∀ loader ∈ module.identity.loaders, ∃ path options,
    paths.makeRequestRelative loader = path ++ ("?" ++ options) ∧ (0 : UInt8) ∉ utf8Bytes path

theorem foldl_append_eq (f : String → String → String) (hf : ∀ name item, f name item = name ++ f "" item)
    (items : List String) (start : String) : items.foldl f start = start ++ items.foldl f "" := by
  induction items generalizing start with
  | nil => exact String.append_empty.symm
  | cons item items ih =>
    rw [List.foldl_cons, List.foldl_cons, ih, ih (f "" item), hf start item, String.append_assoc]

theorem exists_elim_eq_append {α : Type} (part : Option α) (name : String) (suffix : α → String) :
    ∃ more, (part.elim name fun value => name ++ suffix value) = name ++ more := by
  cases part with
  | none => exact ⟨"", String.append_empty.symm⟩
  | some value => exact ⟨suffix value, rfl⟩

/-- The name starts with its loaders and goes on with the resource. -/
theorem readableModuleName_eq {identity : ModuleIdentity}
    (hne : paths.readableModuleName identity ≠ "") : ∃ more, paths.readableModuleName identity =
      identity.loaders.foldl (fun name loader => name ++ paths.makeRequestRelative loader ++ "!") "" ++
        ((if !(paths.makeRelative identity.resource).startsWith "." &&
            !(paths.makeRelative identity.resource).startsWith "/" then "./" else "") ++
          (paths.makeRelative identity.resource ++ more)) := by
  have hresource : ¬ (paths.makeRelative identity.resource).isEmpty = true := by
    intro hempty
    exact hne (by rw [readableModuleName, if_pos hempty])
  rw [readableModuleName, if_neg hresource]
  simp only [String.append_assoc]
  generalize List.foldl _ "" _ = loaders
  generalize (if !(paths.makeRelative identity.resource).startsWith "." &&
    !(paths.makeRelative identity.resource).startsWith "/" then "./" else "") = dots
  obtain ⟨query, hquery⟩ := exists_elim_eq_append identity.query
    (loaders ++ (dots ++ paths.makeRelative identity.resource)) fun query => "?" ++ trimStart query '?'
  obtain ⟨fragment, hfragment⟩ := exists_elim_eq_append identity.fragment
    (loaders ++ (dots ++ paths.makeRelative identity.resource) ++ query) fun fragment => "#" ++ trimStart fragment '#'
  obtain ⟨layer, hlayer⟩ := exists_elim_eq_append identity.layer
    (loaders ++ (dots ++ paths.makeRelative identity.resource) ++ query ++ fragment) fun layer => "|layer:" ++ layer
  refine ⟨query ++ (fragment ++ layer), ?_⟩
  simp only [String.append_assoc] at hquery hfragment hlayer ⊢
  simp only [hquery, hfragment, hlayer, String.append_assoc]

/-- Whatever follows the name of a module. -/
theorem legible_readableModuleName_append {graph : ModuleGraph} (hpaths : paths.NamesLoaders graph)
    {module : Module} (hmodule : module ∈ graph.modules)
    (hne : paths.readableModuleName module.identity ≠ "") (suffix : String) :
    Legible (paths.readableModuleName module.identity ++ suffix) := by
  obtain ⟨more, hname⟩ := readableModuleName_eq hne
  rw [hname]
  cases hloaders : module.identity.loaders with
  | nil =>
    simp only [List.foldl_nil, String.empty_append, String.append_assoc]
    split
    next => exact @legible_of_head? _ '.' (head?_toList_append (by decide)) (by decide)
    next hdot =>
      simp only [Bool.and_eq_true, Bool.not_eq_true', not_and_or, Bool.not_eq_false,
        String.startsWith_string_iff] at hdot
      rw [String.empty_append]
      rcases hdot with ⟨rest, hrest⟩ | ⟨rest, hrest⟩
      · exact @legible_of_head? _ '.' (head?_toList_append (by rw [← hrest]; rfl)) (by decide)
      · exact @legible_of_head? _ '/' (head?_toList_append (by rw [← hrest]; rfl)) (by decide)
  | cons loader loaders =>
    obtain ⟨path, options, hloader, hpath⟩ :=
      hpaths module hmodule loader (hloaders ▸ List.mem_cons_self)
    rw [List.foldl_cons, foldl_append_eq _ (fun name item => by
      rw [String.empty_append, String.append_assoc]) loaders, String.empty_append, hloader]
    simp only [String.append_assoc]
    exact @legible_append _ _ '?' hpath (head?_toList_append (by decide)) (by decide)

end RenderPathContext

/-- After an assignment a module has an id that it was given, unless it was given none. -/
theorem ChunkGraph.moduleRenderId_foldl_eq_some {assignments : List (Nat × RenderId)} {chunkGraph : ChunkGraph}
    {module : ModuleHandle} {id : RenderId}
    (h : (assignments.foldl (fun chunkGraph assignment =>
      chunkGraph.setModuleRenderId assignment.1 assignment.2) chunkGraph).moduleRenderId module = some id) :
    (module, id) ∈ assignments ∨
      chunkGraph.moduleRenderId module = some id ∧ ∀ other, (module, other) ∉ assignments := by
  induction assignments generalizing chunkGraph with
  | nil => exact .inr ⟨h, fun _ => List.not_mem_nil⟩
  | cons assignment assignments ih =>
    rcases ih h with hlater | ⟨hset, hnone⟩
    · exact .inl (List.mem_cons_of_mem _ hlater)
    · rw [ChunkGraph.moduleRenderId_setModuleRenderId] at hset
      by_cases hsame : module = assignment.1
      · rw [if_pos hsame] at hset
        rw [hsame, ← Option.some.inj hset]
        exact .inl List.mem_cons_self
      · rw [if_neg hsame] at hset
        refine .inr ⟨hset, fun other hother => ?_⟩
        rcases List.mem_cons.mp hother with rfl | hother
        · exact hsame rfl
        · exact hnone other hother

namespace Compilation

variable {compilation : Compilation} {paths : RenderPathContext}

theorem mem_ids_of_moduleRenderId {module : ModuleHandle} {id : RenderId}
    (h : compilation.moduleRenderId paths module = some id) : (module, id) ∈ assignNamedIds paths.stableHash
      (moduleIdCandidates paths compilation.moduleGraph compilation.optimizedChunkGraph) := by
  obtain ⟨found, hfound, hid⟩ := Option.bind_eq_some_iff.mp h
  have hhandle := compilation.indexed.handle_eq hfound
  split_ifs at hid with hempty
  rw [(compilation.sameContent_sealed paths).moduleChunks] at hempty
  rw [sealedChunkGraph, moduleRenderId_assignChunkRenderIds] at hid
  rcases ChunkGraph.moduleRenderId_foldl_eq_some hid with hmem | ⟨-, hnone⟩
  · exact hmem
  · have hkept : found ∈ compilation.moduleGraph.modules.filter fun module =>
        !(compilation.optimizedChunkGraph.moduleChunks module.handle).isEmpty :=
      List.mem_filter.mpr ⟨ModuleGraph.Indexed.mem_modules hfound, by simpa [hhandle] using hempty⟩
    have hcandidate : ∃ candidate ∈ moduleIdCandidates paths compilation.moduleGraph
        compilation.optimizedChunkGraph, candidate.item = module :=
      ⟨_, List.mem_map_of_mem hkept, hhandle⟩
    obtain ⟨other, hother⟩ := (mem_assignNamedIdsWithReserved _ [] module).mpr hcandidate
    exact absurd hother (hnone other)

theorem legible_moduleRenderId (hpaths : paths.NamesLoaders compilation.moduleGraph) {module : ModuleHandle}
    {id : RenderId} (h : compilation.moduleRenderId paths module = some id) : id.Legible := by
  have hmem := mem_ids_of_moduleRenderId h
  cases id with
  | number value => trivial
  | string name =>
    have hcandidate : ∀ candidate ∈
        moduleIdCandidates paths compilation.moduleGraph compilation.optimizedChunkGraph,
        candidate.shortName ≠ "" → ∀ suffix, Legible (candidate.shortName ++ suffix) := by
      intro candidate hcandidate hne suffix
      obtain ⟨found, hfound, rfl⟩ := List.mem_map.mp hcandidate
      exact RenderPathContext.legible_readableModuleName_append hpaths (List.mem_filter.mp hfound).1 hne suffix
    rcases named_of_mem_assignNamedIdsWithReserved hmem with
      ⟨candidate, hmem, hne, rest, hrest⟩ | ⟨hne, -, candidate, -, hlone⟩
    · have hname : name = candidate.shortName ++ String.ofList ('-' :: rest) :=
        String.toList_inj.mp (by rw [hrest, String.toList_append, String.toList_ofList])
      rw [hname]
      exact hcandidate candidate hmem hne _
    · have hmem : candidate ∈ (moduleIdCandidates paths compilation.moduleGraph
          compilation.optimizedChunkGraph).filter (·.shortName = name) := hlone ▸ List.mem_singleton_self _
      obtain ⟨hcandidates, hname⟩ := List.mem_filter.mp hmem
      obtain rfl := of_decide_eq_true hname
      have hlegible := hcandidate candidate hcandidates hne ""
      rwa [String.append_empty] at hlegible

end Compilation

theorem RuntimeModule.legible_generate {chunkGraph : ChunkGraph} {chunk : ChunkHandle}
    {module : RuntimeModule} {source : String} (h : module.generate chunkGraph chunk = some source) :
    Legible source := by
  simp only [generate, Option.bind_eq_bind, Option.bind_eq_some_iff] at h
  obtain ⟨found, -, htext⟩ := h
  cases module with
  | getChunkFilename =>
    simp only [Option.bind_eq_some_iff, Option.pure_def, Option.some_inj] at htext
    obtain ⟨properties, -, rfl⟩ := htext
    unfold chunkFilenameText
    refine @legible_of_head? _ '_' ?_ (by decide)
    iterate 2 apply head?_toList_append
    decide
  | requireChunkLoading =>
    simp only [Option.bind_eq_some_iff, Option.pure_def, Option.some_inj] at htext
    obtain ⟨chunkId, -, rfl⟩ := htext
    unfold chunkLoadingText
    refine @legible_of_head? _ 'v' ?_ (by decide)
    apply head?_toList_append
    decide
  | definePropertyGetters =>
    rw [Option.pure_def, Option.some_inj] at htext
    rw [← htext]
    refine @legible_of_head? _ '_' ?_ (by decide)
    iterate 4 apply head?_toList_append
    decide
  | ensureChunk | makeNamespaceObject =>
    rw [Option.pure_def, Option.some_inj] at htext
    rw [← htext]
    refine @legible_of_head? _ '_' ?_ (by decide)
    iterate 3 apply head?_toList_append
    decide
  | hasOwnProperty =>
    rw [Option.pure_def, Option.some_inj] at htext
    rw [← htext]
    refine @legible_of_head? _ '_' ?_ (by decide)
    apply head?_toList_append
    decide
  | moduleFactoriesAddOnly =>
    rw [Option.pure_def, Option.some_inj] at htext
    rw [← htext]
    exact @legible_of_head? _ '_' (by decide) (by decide)

theorem length_resolveRuntimeModules_le (direct : RuntimeRequirements) :
    (resolveRuntimeModules direct).2.length ≤ RuntimeModule.all.length := by
  rw [resolveRuntimeModules, RuntimeResolution.sortedModules, List.length_insertionSort]
  exact List.length_filter_le _ _

/-- No chunk has more runtime modules than there are kinds of them. -/
theorem length_runtimeModules_le {chunkGraph : ChunkGraph} {direct : FxHashMap ModuleHandle RuntimeRequirements}
    {tables : RuntimeRequirementTables} (h : chunkGraph.processRuntimeRequirements direct = some tables) :
    ∀ modules ∈ tables.chunkRuntimeModules, modules.length ≤ RuntimeModule.all.length := by
  obtain ⟨_, -, hfold⟩ := Option.bind_eq_some_iff.mp h
  refine Fallible.of_foldlM_some (P := fun tables : RuntimeRequirementTables => ∀ modules ∈
    tables.chunkRuntimeModules, modules.length ≤ RuntimeModule.all.length) ?_ hfold ?_
  · intro before entrypoint after hstep hbefore modules hmodules
    have hresolved := length_resolveRuntimeModules_le
      (chunkGraph.treeRequirements before.chunkRuntimeRequirements entrypoint ∪ entryStartupRuntimeRequirements)
    unfold ChunkGraph.setEntrypointRequirements at hstep
    dsimp only at hstep
    generalize resolveRuntimeModules _ = resolved at hstep hresolved
    obtain ⟨chunk, -, rfl⟩ := Option.map_eq_some_iff.mp hstep
    rcases List.mem_or_eq_of_mem_set hmodules with hold | rfl
    · exact hbefore modules hold
    · exact hresolved
  · intro modules hmodules
    rw [(List.mem_replicate.mp hmodules).2]
    exact Nat.zero_le _

namespace RenderManifestContext

variable {context : RenderManifestContext}

theorem legible_moduleRenderManifest (hids : ∀ module id,
      context.codeGenerationResults.moduleRenderIds module = some id → id.Legible)
    {chunk : ChunkHandle} {modules : List ModuleRenderManifest}
    (h : context.moduleRenderManifest chunk = some modules) :
    ∀ module ∈ modules, module.renderId.Legible := by
  intro module hmodule
  obtain ⟨unsorted, hunsorted, hsorted⟩ := Option.bind_eq_some_iff.mp h
  cases hsorted
  rw [List.mem_insertionSort] at hmodule
  obtain ⟨handle, -, hmade⟩ :=
    Fallible.exists_of_mem_right (Fallible.forall₂_of_mapM_some hunsorted) hmodule
  obtain ⟨_, -, hmade⟩ := Option.bind_eq_some_iff.mp hmade
  obtain ⟨id, hid, hmade⟩ := Option.bind_eq_some_iff.mp hmade
  cases hmade
  exact hids handle id hid

theorem legible_initialEntry (hids : ∀ module id,
      context.codeGenerationResults.moduleRenderIds module = some id → id.Legible)
    (hcount : ∀ modules ∈ context.tables.chunkRuntimeModules, modules.length ≤ RuntimeModule.all.length)
    {entrypoint : ChunkGroupHandle × Nat} {entry : RenderManifestEntry}
    (h : context.initialEntry entrypoint = some entry) : entry.render.Legible := by
  simp only [initialEntry, Option.bind_eq_bind, Option.bind_eq_some_iff, Option.pure_def, Option.some_inj] at h
  obtain ⟨group, -, handle, -, chunk, -, entryModule, -, _, -, runtimeModules, hruntime, filename, -,
    modules, hmodules, entryId, hentry, chunkId, -, rfl⟩ := h
  have hgenerated := Fallible.forall₂_of_mapM_some hruntime
  refine ⟨legible_moduleRenderManifest hids hmodules, ?_, ?_, ?_⟩
  · intro other hother
    rw [← Option.some.inj hother]
    exact hids entryModule entryId hentry
  · intro runtimeModule hmem
    obtain ⟨module, -, hmade⟩ := Fallible.exists_of_mem_right hgenerated hmem
    obtain ⟨source, hsource, rfl⟩ := Option.map_eq_some_iff.mp hmade
    exact RuntimeModule.legible_generate hsource
  · show runtimeModules.length ≤ _
    rw [← hgenerated.length_eq, RenderManifestContext.runtimeModules]
    rcases Nat.lt_or_ge handle context.tables.chunkRuntimeModules.length with hlt | hge
    · rw [List.getD_eq_getElem _ _ hlt]
      exact hcount _ (List.getElem_mem hlt)
    · rw [List.getD_eq_default _ _ hge]
      exact Nat.zero_le _

theorem legible_asyncEntry (hids : ∀ module id,
      context.codeGenerationResults.moduleRenderIds module = some id → id.Legible)
    {chunk : Chunk} {entry : RenderManifestEntry}
    (h : context.asyncEntry chunk = some (some entry)) : entry.render.Legible := by
  obtain ⟨isInitial, -, h⟩ := Option.bind_eq_some_iff.mp h
  split_ifs at h
  · cases h
  · simp only [Option.bind_eq_bind, Option.bind_eq_some_iff, Option.pure_def, Option.some_inj] at h
    obtain ⟨filename, -, modules, hmodules, chunkId, -, rfl⟩ := h
    refine ⟨legible_moduleRenderManifest hids hmodules, fun other hother => ?_, fun other hother => ?_,
      Nat.zero_le _⟩
    · cases hother
    · exact absurd hother List.not_mem_nil

theorem legible_renderManifest (hids : ∀ module id,
      context.codeGenerationResults.moduleRenderIds module = some id → id.Legible)
    (hcount : ∀ modules ∈ context.tables.chunkRuntimeModules, modules.length ≤ RuntimeModule.all.length)
    {entries : List RenderManifestEntry} (h : context.renderManifest = some entries) :
    ∀ entry ∈ entries, entry.render.Legible := by
  simp only [renderManifest, Option.bind_eq_bind, Option.bind_eq_some_iff, Option.pure_def, Option.some_inj] at h
  obtain ⟨initial, hinitial, async, hasync, rfl⟩ := h
  intro entry hentry
  rcases List.mem_append.mp hentry with hmem | hmem
  · obtain ⟨entrypoint, -, hmade⟩ :=
      Fallible.exists_of_mem_right (Fallible.forall₂_of_mapM_some hinitial) hmem
    exact legible_initialEntry hids hcount hmade
  · obtain ⟨chunk, -, hmade⟩ := Fallible.exists_of_mem_right (Fallible.forall₂_of_mapM_some hasync)
      (List.reduceOption_mem_iff.mp hmem)
    exact legible_asyncEntry hids hmade

end RenderManifestContext

namespace Compilation

/-- The manifest of a chunk of the compilation. -/
def HasManifest (compilation : Compilation) (paths : RenderPathContext)
    (results : FxHashMap ModuleHandle CodeGenerationResult) (manifest : JavascriptRenderManifest) : Prop :=
  ∃ entry ∈ compilation.renderManifest paths results, ∃ render ∈ entry, render.render = manifest

theorem HasManifest.legible {compilation : Compilation} {paths : RenderPathContext}
    {results : FxHashMap ModuleHandle CodeGenerationResult} {manifest : JavascriptRenderManifest}
    (h : compilation.HasManifest paths results manifest)
    (hpaths : paths.NamesLoaders compilation.moduleGraph) : manifest.Legible := by
  obtain ⟨entries, hentries, entry, hentry, rfl⟩ := h
  obtain ⟨tables, htables, hmanifest⟩ := Option.bind_eq_some_iff.mp hentries
  exact RenderManifestContext.legible_renderManifest (fun module id hid => legible_moduleRenderId hpaths hid)
    (length_runtimeModules_le htables) hmanifest entry hentry

end Compilation

/-- **Validation of renderings.** When two compilations render a chunk under one key and feed one byte sequence
to the hasher, they render it to one text and one source map. -/
theorem validation_sound {library : SourceLibrary} (hself : library.SelfDelimiting)
    (hdetermines : library.Determines) (hname : library.StartsWithName) (left right : Compilation)
    (paths paths' : RenderPathContext) (hpaths : paths.NamesLoaders left.moduleGraph)
    (hpaths' : paths'.NamesLoaders right.moduleGraph)
    (results results' : FxHashMap ModuleHandle CodeGenerationResult)
    (manifest manifest' : JavascriptRenderManifest) (hmanifest : left.HasManifest paths results manifest)
    (hmanifest' : right.HasManifest paths' results' manifest') (haddress : manifest.Addressable)
    (haddress' : manifest'.Addressable) (hkey : manifest.cacheKey = manifest'.cacheKey)
    (bytes : List UInt8)
    (hbytes : manifest.etagInput library (left.codeGenerationResults paths results) = some bytes)
    (hbytes' : manifest'.etagInput library (right.codeGenerationResults paths' results') = some bytes) :
    renderAsset library manifest (left.codeGenerationResults paths results) =
      renderAsset library manifest' (right.codeGenerationResults paths' results') :=
  renderAsset_eq_of_etagInput hself hdetermines hname (hmanifest.legible hpaths)
    (hmanifest'.legible hpaths') haddress haddress' hkey hbytes hbytes'

/-- `index` imports `style`, which goes through a loader, and loads `page`. -/
def styledCompilation : Compilation where
  options := { entryNames := ["main"] }
  moduleGraph := .ofModules [.javaScript "index" [.bareImport "style"] [.dynamicImport "page"],
    { Module.javaScript "style" [] [] with identity := { resource := ["style"], loaders := ["css.js?\x7b\x7d"] } },
    .javaScript "page" [] []] [0]
  entries := [0]
  indexed := by decide
  entries_lt := by decide

/-- The same modules, added in another order. -/
def reorderedCompilation : Compilation where
  options := { entryNames := ["main"] }
  moduleGraph := .ofModules [.javaScript "page" [] [],
    .javaScript "index" [.bareImport "style"] [.dynamicImport "page"],
    { Module.javaScript "style" [] [] with identity := { resource := ["style"], loaders := ["css.js?\x7b\x7d"] } }] [1]
  entries := [1]
  indexed := by decide
  entries_lt := by decide

/-- The results of the three modules of the two compilations. -/
def styledResults (index style page : ModuleHandle) : FxHashMap ModuleHandle CodeGenerationResult :=
  (((∅ : FxHashMap ModuleHandle CodeGenerationResult).insert index ⟨[.raw "index"], {.require, .ensureChunk}⟩).insert
    style ⟨[.raw "style"], {.makeNamespaceObject}⟩).insert page ⟨[.raw "page"], ∅⟩

def Compilation.firstManifest (compilation : Compilation)
    (results : FxHashMap ModuleHandle CodeGenerationResult) : Option JavascriptRenderManifest :=
  ((compilation.renderManifest plainPaths results).bind List.head?).map (·.render)

theorem Compilation.hasManifest_of_firstManifest {compilation : Compilation}
    {results : FxHashMap ModuleHandle CodeGenerationResult} {manifest : JavascriptRenderManifest}
    (h : compilation.firstManifest results = some manifest) :
    compilation.HasManifest plainPaths results manifest := by
  obtain ⟨entry, hentry, hrender⟩ := Option.map_eq_some_iff.mp h
  obtain ⟨entries, hentries, hhead⟩ := Option.bind_eq_some_iff.mp hentry
  exact ⟨entries, hentries, entry, List.mem_of_head? hhead, hrender⟩

/-- The entry chunks of the two compilations, their keys and what their ETags read. -/
theorem exists_styledManifests :
    ∃ manifest ∈ styledCompilation.firstManifest (styledResults 0 1 2),
      ∃ manifest' ∈ reorderedCompilation.firstManifest (styledResults 1 2 0),
        ∃ bytes ∈ manifest.etagInput plainSources
          (styledCompilation.codeGenerationResults plainPaths (styledResults 0 1 2)),
          (manifest.runtimeModules.length = 6 ∧ manifest ≠ manifest') ∧
            (manifest.modules.length < 2 ^ 64 ∧ manifest'.modules.length < 2 ^ 64 ∧
              manifest.cacheKey = manifest'.cacheKey) ∧
              manifest'.etagInput plainSources
                (reorderedCompilation.codeGenerationResults plainPaths (styledResults 1 2 0)) = some bytes := by
  decide +kernel

/-- The entry chunk with its runtime modules is rendered the same from other handles. -/
theorem validation_sound_reordered :
    ∃ manifest ∈ styledCompilation.firstManifest (styledResults 0 1 2),
      ∃ manifest' ∈ reorderedCompilation.firstManifest (styledResults 1 2 0),
        manifest.runtimeModules.length = 6 ∧ manifest ≠ manifest' ∧
          renderAsset plainSources manifest
              (styledCompilation.codeGenerationResults plainPaths (styledResults 0 1 2)) =
            renderAsset plainSources manifest'
              (reorderedCompilation.codeGenerationResults plainPaths (styledResults 1 2 0)) := by
  have hnames : plainPaths.NamesLoaders styledCompilation.moduleGraph ∧
      plainPaths.NamesLoaders reorderedCompilation.moduleGraph := by
    have hcss : ∀ loader ∈ ["css.js?\x7b\x7d"], ∃ path options,
        plainPaths.makeRequestRelative loader = path ++ ("?" ++ options) ∧ (0 : UInt8) ∉ utf8Bytes path := by
      intro loader hloader
      rw [List.mem_singleton.mp hloader]
      exact ⟨"css.js", "\x7b\x7d", by decide, by decide⟩
    have hloaders : ∀ graph : ModuleGraph,
        (∀ module ∈ graph.modules, ∀ loader ∈ module.identity.loaders, loader ∈ ["css.js?\x7b\x7d"]) →
        plainPaths.NamesLoaders graph := fun graph h module hmodule loader hloader =>
      hcss loader (h module hmodule loader hloader)
    exact ⟨hloaders _ (by decide), hloaders _ (by decide)⟩
  obtain ⟨manifest, hmanifest, manifest', hmanifest', bytes, hbytes, ⟨hruntime, hother⟩,
    ⟨haddress, haddress', hkey⟩, hbytes'⟩ := exists_styledManifests
  exact ⟨manifest, hmanifest, manifest', hmanifest', hruntime, hother,
    validation_sound plainSources_selfDelimiting plainSources_determines plainSources_startsWithName
      styledCompilation reorderedCompilation plainPaths plainPaths hnames.1 hnames.2 _ _ manifest manifest'
      (Compilation.hasManifest_of_firstManifest hmanifest) (Compilation.hasManifest_of_firstManifest hmanifest')
      haddress haddress' hkey bytes hbytes hbytes'⟩

end Unpack
