import Unpack.SealedChunkGraph
import Unpack.LoneNames
import Unpack.SplitPreservation
import Unpack.Lib.KeyedList
import Mathlib.Data.Sum.Order

/-! The file names of chunks. An unnamed chunk has its render id in the file name, a named one its name,
so the file names are apart when the render ids are and no two chunks have one name. -/

namespace Unpack

/-- `resolve_chunk_filename`; there is none for an unnamed chunk whose render id is not assigned yet. -/
def resolveChunkFilename (chunk : Chunk) : Option String :=
  match chunk.filenameOverride with
  | some filename => some filename
  | none =>
      match chunk.name with
      | some name => some (name ++ ".js")
      | none => chunk.renderId.map fun renderId => renderId.toText ++ ".js"

/-- The order in which render ids are compared: strings before numbers. -/
def RenderId.order : RenderId → String ⊕ₗ Nat
  | .string value => toLex (.inl value)
  | .number value => toLex (.inr value.toNat)

namespace ChunkGraph

/-- The id and the file name of every chunk. -/
def chunkFilenames (chunkGraph : ChunkGraph) : Option (List (RenderId × String)) :=
  chunkGraph.chunks.mapM fun chunk =>
    chunk.renderId.bind fun renderId =>
      (resolveChunkFilename chunk).map fun filename => (renderId, filename)

/-- The properties of the object literal that `render_chunk_filename_map` writes. -/
def renderChunkFilenameMap (chunkGraph : ChunkGraph) : Option (List (RenderId × String)) :=
  chunkGraph.chunkFilenames.map (KeyedList.collect fun entry => entry.1.order)

end ChunkGraph

/-- What the generated `__webpack_require__.u` answers: keys are compared by their text, and of
properties with one key the last one counts. A property `"__proto__"` of an object literal sets the
prototype, and not to a string, so that key has no file name. -/
def chunkFilenameOf (properties : List (RenderId × String)) (chunkId : RenderId) : Option String :=
  if chunkId.toText = "__proto__" then none
  else (properties.reverse.find? fun entry => entry.1.toText = chunkId.toText).map (·.2)

/-- What the building phases give a chunk for its file name. -/
def Chunk.label (chunk : Chunk) : Option String × Option String :=
  (chunk.name, chunk.filenameOverride)

namespace ChunkGraph

variable {chunkGraph : ChunkGraph}

def labels (chunkGraph : ChunkGraph) : List (Option String × Option String) :=
  chunkGraph.chunks.map Chunk.label

theorem labels_addChunk (chunkGraph : ChunkGraph) (name : Option String)
    (rootModules : List ModuleHandle) :
    (chunkGraph.addChunk name rootModules).2.labels = chunkGraph.labels ++ [(name, none)] := by
  rw [labels, addChunk, List.map_append]
  rfl

theorem labels_connectChunkAndGroup (chunkGraph : ChunkGraph) (chunk : ChunkHandle)
    (group : ChunkGroupHandle) :
    (chunkGraph.connectChunkAndGroup chunk group).labels = chunkGraph.labels :=
  map_modify_of_same _ _ _ _ fun _ => rfl

/-- A fold whose steps leave the labels leaves them. -/
theorem labels_foldl {α : Type} {f : ChunkGraph → α → ChunkGraph}
    (hf : ∀ start item, (f start item).labels = start.labels) (items : List α)
    (chunkGraph : ChunkGraph) : (items.foldl f chunkGraph).labels = chunkGraph.labels :=
  foldl_keeps (P := fun after => after.labels = chunkGraph.labels)
    (fun start item hkept => (hf start item).trans hkept) items rfl

theorem labels_addGroupWithChunk (chunkGraph : ChunkGraph) (name : Option String)
    (root : ModuleHandle) (kind : ChunkGroupKind) (origin : Option AsyncBlockOrigin)
    (modules : List ModuleHandle) :
    (addGroupWithChunk chunkGraph name root kind origin modules).2.labels =
      chunkGraph.labels ++ [(name, none)] := by
  refine (labels_foldl (f := fun start module =>
    start.connectChunkAndModule chunkGraph.chunks.length module) (fun _ _ => rfl) modules _).trans ?_
  refine (labels_connectChunkAndGroup _ _ _).trans ?_
  exact labels_addChunk chunkGraph name [root]

theorem labels_splitSource (newChunk source : ChunkHandle) :
    (splitSource newChunk chunkGraph source).labels = chunkGraph.labels := by
  unfold splitSource
  split
  · exact labels_foldl (fun start group => labels_connectChunkAndGroup start newChunk group) _ _
  · rfl

theorem labels_applySplitCandidate (name : Option String)
    (candidate : List ChunkHandle × List ModuleHandle) :
    (applySplitCandidate name chunkGraph candidate).labels =
      chunkGraph.labels ++ [(name, none)] := by
  refine (labels_foldl (fun start module => ?_) _ _).trans ?_
  · exact labels_foldl (f := fun start chunk => start.disconnectChunkAndModule chunk module)
      (fun _ _ => rfl) candidate.1 start
  · refine (labels_foldl (fun start source => labels_splitSource _ source) candidate.1 _).trans ?_
    exact labels_addChunk chunkGraph name _

theorem labels_applySplitChunks (minChunks : Nat) (name : Option String) :
    (chunkGraph.applySplitChunks minChunks name).labels = chunkGraph.labels ++
      List.replicate (chunkGraph.splitCandidates minChunks name).length (name, none) := by
  have hrun : ∀ (candidates : List (List ChunkHandle × List ModuleHandle)) (start : ChunkGraph),
      (candidates.foldl (applySplitCandidate name) start).labels =
        start.labels ++ List.replicate candidates.length (name, none) := by
    intro candidates start
    induction candidates generalizing start with
    | nil => simp
    | cons candidate candidates ih =>
        rw [List.foldl_cons, ih, labels_applySplitCandidate, List.append_assoc, List.length_cons,
          List.replicate_succ]
        rfl
  exact hrun _ chunkGraph

end ChunkGraph

/-- The name of the entry chunk: the option's, or one made from the index. -/
def entryName (options : CompilerOptions) (index : Nat) : String :=
  options.entryNames.getD index s!"entry{index}"

/-- The names of the entry chunks. -/
def entryChunkNames (options : CompilerOptions) (entries : List ModuleHandle) : List String :=
  (List.range entries.length).map (entryName options)

theorem labels_layGroups (graph : ModuleGraph) (reachable : ModuleHandle → List ModuleHandle)
    (options : CompilerOptions) (entries : List ModuleHandle) :
    ∃ count, (layGroups graph reachable options entries
        (planAsyncChunks graph reachable entries)).labels =
      (entryChunkNames options entries).map (fun name => (some name, none)) ++
        List.replicate count (none, none) := by
  have hentries : ∀ (items : List (ModuleHandle × Nat)) (start : ChunkGraph),
      (items.foldl (addEntrypointGroup reachable options) start).labels =
        start.labels ++ items.map fun item => (some (entryName options item.2), none) := by
    intro items start
    induction items generalizing start with
    | nil => simp
    | cons item items ih =>
        have hstep : (addEntrypointGroup reachable options start item).labels =
            start.labels ++ [(some (entryName options item.2), none)] :=
          ChunkGraph.labels_addGroupWithChunk _ _ _ _ _ _
        rw [List.foldl_cons, ih, hstep, List.append_assoc]
        rfl
  have htargets : ∀ (targets : List ModuleHandle) (start : ChunkGraph), ∃ count,
      (targets.foldl (addAsyncGroup graph (planAsyncChunks graph reachable entries)) start).labels =
        start.labels ++ List.replicate count (none, none) := by
    intro targets start
    induction targets generalizing start with
    | nil => exact ⟨0, by simp⟩
    | cons target targets ih =>
        obtain ⟨count, hcount⟩ :=
          ih (addAsyncGroup graph (planAsyncChunks graph reachable entries) start target)
        rw [List.foldl_cons, hcount]
        unfold addAsyncGroup
        split
        · refine ⟨count + 1, ?_⟩
          rw [ChunkGraph.labels_addGroupWithChunk, List.append_assoc, List.replicate_succ]
          rfl
        · exact ⟨count, rfl⟩
  obtain ⟨count, hcount⟩ := htargets
    (orderedTargets graph (planAsyncChunks graph reachable entries))
    (entries.zipIdx.foldl (addEntrypointGroup reachable options) {})
  refine ⟨count, hcount.trans ?_⟩
  rw [hentries, entryChunkNames, List.map_map]
  congr 1
  have hindices : entries.zipIdx.map (·.2) = List.range entries.length := by
    rw [List.zipIdx_map_snd, List.range_eq_range']
  rw [← hindices, List.map_map]
  rfl

namespace Compilation

variable (compilation : Compilation)

/-- The chunk graph before split chunks. -/
def plannedChunkGraph : ChunkGraph :=
  buildGroups compilation.moduleGraph compilation.moduleGraph.collectStaticReachable
    compilation.options compilation.entries

/-- Split chunks make a chunk of this name: they have the name, and there is a module to move. -/
def SplitsOff (name : String) : Prop :=
  ∃ options, compilation.options.splitChunks = some options ∧ options.name = some name ∧
    ∃ module, compilation.plannedChunkGraph.Shared options.minChunks module

/-- No two entry chunks have one name, and no entry chunk has the name of a split chunk. -/
def DistinctNames : Prop :=
  (entryChunkNames compilation.options compilation.entries).Nodup ∧
    ∀ name, compilation.SplitsOff name →
      name ∉ entryChunkNames compilation.options compilation.entries

end Compilation

theorem ne_nil_of_mem_splitCandidates {chunkGraph : ChunkGraph} {minChunks : Nat}
    {name : Option String} {candidate : List ChunkHandle × List ModuleHandle}
    (hcandidate : candidate ∈ chunkGraph.splitCandidates minChunks name) : candidate.2 ≠ [] := by
  have hshared : ∀ shared ∈ chunkGraph.sharedSets minChunks, shared.2 ≠ [] := by
    intro shared hmem
    have hlookup := (ChunkGraph.mem_sharedSets chunkGraph minChunks).mp hmem
    exact (ChunkGraph.foldl_addToChunkSet minChunks _ ∅ (by simp)).1 _ _ hlookup
  rw [ChunkGraph.splitCandidates] at hcandidate
  split_ifs at hcandidate with hmerge
  · rw [List.mem_singleton] at hcandidate
    obtain ⟨shared, hmem⟩ := List.exists_mem_of_length_pos (Nat.zero_lt_of_lt hmerge.2)
    obtain ⟨module, hmodule⟩ := List.exists_mem_of_ne_nil _ (hshared shared hmem)
    rw [hcandidate]
    exact List.ne_nil_of_mem (List.mem_flatMap.mpr ⟨shared, hmem, hmodule⟩)
  · exact hshared candidate hcandidate

theorem splitCandidates_ne_nil_iff {chunkGraph : ChunkGraph} (h : chunkGraph.Registered)
    (minChunks : Nat) (name : Option String) :
    chunkGraph.splitCandidates minChunks name ≠ [] ↔ ∃ module, chunkGraph.Shared minChunks module := by
  have hiff := ChunkGraph.exists_splitCandidate_iff h.handles minChunks name
  constructor
  · intro hne
    obtain ⟨candidate, hcandidate⟩ := List.exists_mem_of_ne_nil _ hne
    obtain ⟨module, hmodule⟩ :=
      List.exists_mem_of_ne_nil _ (ne_nil_of_mem_splitCandidates hcandidate)
    exact ⟨module, (hiff module).mp ⟨candidate, hcandidate, hmodule⟩⟩
  · rintro ⟨module, hshared⟩
    obtain ⟨candidate, hcandidate, -⟩ := (hiff module).mpr hshared
    exact List.ne_nil_of_mem hcandidate

theorem length_splitCandidates_le {chunkGraph : ChunkGraph} (minChunks : Nat) (name : String) :
    (chunkGraph.splitCandidates minChunks (some name)).length ≤ 1 := by
  rw [ChunkGraph.splitCandidates]
  split_ifs with hmerge
  · exact le_rfl
  · simp only [Option.isSome_some, true_and, not_lt] at hmerge
    exact hmerge

theorem labels_buildGroups (graph : ModuleGraph) (reachable : ModuleHandle → List ModuleHandle)
    (options : CompilerOptions) (entries : List ModuleHandle) :
    ∃ count, (buildGroups graph reachable options entries).labels =
      (entryChunkNames options entries).map (fun name => (some name, none)) ++
        List.replicate count (none, none) := by
  obtain ⟨-, hsame, -⟩ := connectedAfter_spec graph reachable options entries
    (List.append_nil _).symm
  obtain ⟨count, hcount⟩ := labels_layGroups graph reachable options entries
  refine ⟨count, Eq.trans ?_ hcount⟩
  rw [buildGroups_eq, ChunkGraph.labels, ChunkGraph.labels, hsame.chunks]
  rfl

/-- Concatenation changes no chunk. -/
theorem chunks_optimizeChunkModules (graph : ModuleGraph) (chunkGraph : ChunkGraph)
    (entries : List ModuleHandle) :
    (graph.optimizeChunkModules chunkGraph entries).chunks = chunkGraph.chunks := by
  have hconcatenate : ∀ (start : ChunkGraph) (module : ConcatenatedModule),
      (start.addConcatenatedModule module).chunks = start.chunks := by
    intro start module
    exact ChunkGraph.foldl_keeps (P := fun after => after.chunks = start.chunks)
      (fun middle inner hkept => ChunkGraph.foldl_keeps (P := fun after => after.chunks = start.chunks)
        (f := fun graph chunk => graph.disconnectChunkAndModule chunk inner) (fun _ _ h => h) _ hkept)
      module.innerModules rfl
  have hrun : ∀ (configurations : List ConcatenationConfiguration)
      (applied : List ModuleHandle × ChunkGraph),
      (configurations.foldl graph.applyConfiguration applied).2.chunks = applied.2.chunks := by
    intro configurations applied
    induction configurations generalizing applied with
    | nil => rfl
    | cons configuration configurations ih =>
        refine (ih _).trans ?_
        unfold ModuleGraph.applyConfiguration
        split
        · rfl
        · exact hconcatenate _ _
  exact hrun _ ([], chunkGraph)

namespace Compilation

variable (compilation : Compilation)

theorem chunks_optimizedChunkGraph :
    compilation.optimizedChunkGraph.chunks = compilation.chunkGraph.chunks := by
  unfold optimizedChunkGraph
  split
  · exact chunks_optimizeChunkModules _ _ _
  · rfl

/-- The names that split chunks add: one, when the option has a name and there is a module to move. -/
theorem labels_optimizedChunkGraph : ∃ unnamed added : Nat, ∃ name : Option String,
    compilation.optimizedChunkGraph.labels =
        (entryChunkNames compilation.options compilation.entries).map (fun name => (some name, none)) ++
          List.replicate unnamed (none, none) ++ List.replicate added (name, none) ∧
      (∀ split, name = some split → added ≤ 1) ∧
      ∀ split, compilation.SplitsOff split ↔ name = some split ∧ added ≠ 0 := by
  obtain ⟨unnamed, hunnamed⟩ := labels_buildGroups compilation.moduleGraph
    compilation.moduleGraph.collectStaticReachable compilation.options compilation.entries
  have hregistered := registered_buildGroups compilation.moduleGraph
    compilation.moduleGraph.collectStaticReachable compilation.options compilation.entries
  rw [ChunkGraph.labels, chunks_optimizedChunkGraph, chunkGraph, buildChunkGraph, buildChunkGraphFrom]
  cases hsplit : compilation.options.splitChunks with
  | none =>
      refine ⟨unnamed, 0, none, ?_, fun split hname => ?_, fun split => ⟨?_, fun h => absurd rfl h.2⟩⟩
      · rw [List.replicate_zero, List.append_nil]
        exact hunnamed
      · cases hname
      · rintro ⟨options, hoptions, -⟩
        rw [hsplit] at hoptions
        cases hoptions
  | some options =>
      refine ⟨unnamed, (compilation.plannedChunkGraph.splitCandidates options.minChunks
        options.name).length, options.name, ?_, ?_, fun split => ?_⟩
      · rw [← hunnamed]
        exact ChunkGraph.labels_applySplitChunks options.minChunks options.name
      · rintro split hname
        rw [hname]
        exact length_splitCandidates_le options.minChunks split
      · rw [Ne, List.length_eq_zero_iff]
        have hshared := splitCandidates_ne_nil_iff hregistered options.minChunks options.name
        constructor
        · rintro ⟨others, hothers, hname, hmoved⟩
          obtain rfl : options = others := Option.some.inj (hsplit.symm.trans hothers)
          exact ⟨hname, hshared.mpr hmoved⟩
        · rintro ⟨hname, hne⟩
          exact ⟨options, hsplit, hname, hshared.mp hne⟩

/-- The names of the chunks are those of the entries, and the name of the chunk that is split off. -/
theorem nodup_names_iff :
    (compilation.optimizedChunkGraph.chunks.filterMap (·.name)).Nodup ↔ compilation.DistinctNames := by
  obtain ⟨unnamed, added, name, hlabels, hone, hsplits⟩ := compilation.labels_optimizedChunkGraph
  have hnames : compilation.optimizedChunkGraph.chunks.filterMap (·.name) =
      entryChunkNames compilation.options compilation.entries ++
        (List.replicate added name).filterMap id := by
    have hfirst : compilation.optimizedChunkGraph.chunks.filterMap (·.name) =
        compilation.optimizedChunkGraph.labels.filterMap (·.1) := by
      rw [ChunkGraph.labels, List.filterMap_map]
      rfl
    rw [hfirst, hlabels]
    simp only [List.filterMap_append, List.filterMap_map, List.filterMap_replicate]
    cases name <;> simp
  rw [hnames, DistinctNames]
  cases name with
  | none =>
      have hnever : ∀ split, ¬ compilation.SplitsOff split := fun split h => by
        cases ((hsplits split).mp h).1
      have hnothing : (List.replicate added (none : Option String)).filterMap id = [] := by
        rw [List.filterMap_replicate_of_none]
        rfl
      rw [hnothing, List.append_nil]
      exact ⟨fun hnodup => ⟨hnodup, fun split h => absurd h (hnever split)⟩, And.left⟩
  | some split =>
      rcases Nat.le_one_iff_eq_zero_or_eq_one.mp (hone split rfl) with rfl | rfl
      · have hnever : ∀ other, ¬ compilation.SplitsOff other := fun other h =>
          ((hsplits other).mp h).2 rfl
        simp only [List.replicate_zero, List.filterMap_nil, List.append_nil]
        exact ⟨fun hnodup => ⟨hnodup, fun other h => absurd h (hnever other)⟩, And.left⟩
      · have honly : ∀ other, compilation.SplitsOff other ↔ split = other := fun other =>
          (hsplits other).trans ⟨fun h => Option.some.inj h.1, fun h => ⟨congrArg some h, by decide⟩⟩
        simp only [honly, forall_eq']
        exact List.nodup_append_comm.trans List.nodup_cons |>.trans and_comm

theorem filenameOverride_optimizedChunkGraph :
    ∀ chunk ∈ compilation.optimizedChunkGraph.chunks, chunk.filenameOverride = none := by
  obtain ⟨unnamed, added, name, hlabels, -⟩ := compilation.labels_optimizedChunkGraph
  intro chunk hchunk
  have hmem : chunk.label ∈ compilation.optimizedChunkGraph.labels := List.mem_map_of_mem hchunk
  rw [hlabels, List.append_assoc, List.mem_append, List.mem_append, List.mem_map] at hmem
  rcases hmem with ⟨_, -, hlabel⟩ | hunnamed | hadded
  · exact (congrArg Prod.snd hlabel).symm
  · exact congrArg Prod.snd (List.eq_of_mem_replicate hunnamed)
  · exact congrArg Prod.snd (List.eq_of_mem_replicate hadded)

end Compilation

end Unpack
