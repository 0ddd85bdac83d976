import Unpack.CacheSystem
import Unpack.SnapshotReflexivity
import Unpack.SurvivingRecords

/-! The guard of a compilation is made of the snapshots of its build dependencies. Their strategy is chosen when
they are made and once more when they are checked: the guard is valid where it was made unless the requests resolve
to automatic build dependencies and the snapshot has no times, or a path is in two lists of the resolve snapshot. -/

namespace Unpack.CacheItem

open Fallible

theorem lawfulBEq_pathKey : LawfulBEq PathKey := inferInstance

attribute [local instance] lawfulBEq_pathKey

namespace PathSet

def keys (set : PathSet) : List PathKey := set.paths.map PathBuf.key

def empty : PathSet := ⟨[], List.Pairwise.nil⟩

/-- An equal path stays. -/
def insert (set : PathSet) (path : PathBuf) : PathSet :=
  if path.key ∈ set.keys then set
  else ⟨KeyedList.insert PathBuf.key path set.paths, KeyedList.increasing_insert _ _ set.increasing⟩

def extend (set : PathSet) (paths : List PathBuf) : PathSet := paths.foldl insert set

theorem mem_keys_insert {set : PathSet} {path : PathBuf} {key : PathKey} :
    key ∈ (set.insert path).keys ↔ key = path.key ∨ key ∈ set.keys := by
  rw [insert]
  split_ifs with hpath
  · exact ⟨Or.inr, fun h => h.elim (fun heq => heq ▸ hpath) id⟩
  · rw [keys, keys, List.mem_map, List.mem_map]
    simp only [KeyedList.mem_insert_iff PathBuf.key set.increasing]
    constructor
    · rintro ⟨found, rfl | ⟨hfound, _⟩, rfl⟩
      · exact Or.inl rfl
      · exact Or.inr ⟨found, hfound, rfl⟩
    · rintro (rfl | ⟨found, hfound, rfl⟩)
      · exact ⟨path, Or.inl rfl, rfl⟩
      · refine ⟨found, Or.inr ⟨hfound, fun heq => hpath ?_⟩, rfl⟩
        rw [← heq]
        exact List.mem_map_of_mem hfound

theorem mem_keys_extend {set : PathSet} {paths : List PathBuf} {key : PathKey} :
    key ∈ (set.extend paths).keys ↔ key ∈ set.keys ∨ key ∈ paths.map PathBuf.key := by
  induction paths generalizing set with
  | nil => simp [extend]
  | cons path paths ih =>
    change key ∈ ((set.insert path).extend paths).keys ↔ _
    rw [ih, mem_keys_insert, List.map_cons, List.mem_cons, ← or_assoc, or_comm (a := key = path.key)]

theorem extend_append (set : PathSet) (paths others : List PathBuf) :
    set.extend (paths ++ others) = (set.extend paths).extend others :=
  List.foldl_append

theorem isEmpty_iff {set : PathSet} : set.paths.isEmpty = true ↔ set.keys = [] := by
  rw [List.isEmpty_iff, keys, List.map_eq_nil_iff]

end PathSet

structure BuildDependency where
  requests : List String

structure ResolveResult where
  resource : PathBuf
  fileDependencies : List PathBuf
  contextDependencies : List PathBuf
  missingDependencies : List PathBuf

structure BuildDependencyOptions where
  buildDependencies : List BuildDependency
  automaticBuildDependencies : List PathBuf
  snapshotStrategy : SnapshotStrategy
  resolveSnapshotStrategy : SnapshotStrategy

def FileSystemInfo.forBuildDependencies : FileSystemInfo := ⟨[], [], []⟩

/-- The file system at one time, and what is found in it by a resolver from the context of the compilation. -/
structure BuildTree where
  trees : FileTrees
  canonicalize : PathBuf → Except IoError PathBuf
  resolveWithDependencies : String → Except IoError ResolveResult
  alike : trees.AnswersAlike .forBuildDependencies

structure BuildInputs where
  build : PathSet
  resolved : PathSet := .empty
  files : PathSet := .empty
  contexts : PathSet := .empty
  missing : PathSet := .empty

def BuildInputs.addResolved (inputs : BuildInputs) (result : ResolveResult) : BuildInputs where
  build := inputs.build.insert result.resource
  resolved := inputs.resolved.insert result.resource
  files := (inputs.files.insert result.resource).extend result.fileDependencies
  contexts := inputs.contexts.extend result.contextDependencies
  missing := inputs.missing.extend result.missingDependencies

def SnapshotStrategy.timestampOnly : SnapshotStrategy := ⟨true, false⟩

namespace Snapshot

def hasExactPaths (snapshot : Snapshot) (paths : List PathBuf) : Bool :=
  snapshot.entries.map (·.path.key) = (normalizePaths paths).map PathBuf.key

def hasValidPathsSync (trees : FileTrees) (strategy : SnapshotStrategy) (info : FileSystemInfo) (snapshot : Snapshot)
    (paths : List PathBuf) : Bool :=
  (normalizePaths paths).all fun path =>
    (snapshot.entries.find? fun entry => entry.path.key = path.key).any
      (SnapshotEntry.isValidSync (trees.toFileSystem info) strategy info trees.itemState)

end Snapshot

namespace BuildDependencyOptions

variable (dependencies : BuildDependencyOptions) (tree : BuildTree)

/-- `BTreeSet<String>` -/
def requests : List String := KeyedList.collect id (dependencies.buildDependencies.flatMap (·.requests))

def automaticBuildInputs : PathSet :=
  .collect (dependencies.automaticBuildDependencies.map fun path => (tree.canonicalize path).toOption.getD path)

def buildInputs : Except IoError BuildInputs :=
  dependencies.requests.foldlM (fun inputs request => do
    let resolved ← tree.resolveWithDependencies request
    return inputs.addResolved resolved) { build := dependencies.automaticBuildInputs tree }

/-- The strategy under which the snapshot of the build dependencies is made. -/
def creationStrategy (inputs : BuildInputs) : SnapshotStrategy :=
  let automaticOnly := inputs.files.paths.isEmpty && inputs.build.keys = (dependencies.automaticBuildInputs tree).keys
  if automaticOnly then .timestampOnly else dependencies.snapshotStrategy

/-- The strategy under which it is checked. -/
def validationStrategy (inputs : BuildInputs) : SnapshotStrategy :=
  if !inputs.build.paths.isEmpty && inputs.build.keys.all (· ∈ (dependencies.automaticBuildInputs tree).keys) then
    .timestampOnly
  else dependencies.snapshotStrategy

def buildDependenciesAreValid (inputs : BuildInputs) (candidate : SnapshotDto) : Bool :=
  (snapshotFromDto candidate).toOption.any fun snapshot =>
    snapshot.hasExactPaths inputs.build.paths &&
      snapshot.isValidSyncIn tree.trees (dependencies.validationStrategy tree inputs) .forBuildDependencies none

def resolveBuildDependenciesAreValid (inputs : BuildInputs) (candidate : SnapshotDto) : Bool :=
  (snapshotFromDto candidate).toOption.any fun snapshot =>
    snapshot.isValidSyncIn tree.trees dependencies.resolveSnapshotStrategy .forBuildDependencies none ||
      snapshot.hasValidPathsSync tree.trees dependencies.resolveSnapshotStrategy .forBuildDependencies
        inputs.resolved.paths

end BuildDependencyOptions

theorem BuildInputs.foldl_addResolved (inputs : BuildInputs) (results : List ResolveResult) :
    results.foldl addResolved inputs = {
      build := inputs.build.extend (results.map (·.resource))
      resolved := inputs.resolved.extend (results.map (·.resource))
      files := inputs.files.extend (results.flatMap fun result => result.resource :: result.fileDependencies)
      contexts := inputs.contexts.extend (results.flatMap (·.contextDependencies))
      missing := inputs.missing.extend (results.flatMap (·.missingDependencies)) } := by
  induction results generalizing inputs with
  | nil => rfl
  | cons result results ih =>
    rw [List.foldl_cons, ih]
    simp only [List.map_cons, List.flatMap_cons, PathSet.extend_append]
    rfl

namespace BuildDependencyOptions

variable {dependencies : BuildDependencyOptions} {tree : BuildTree} {inputs : BuildInputs}
  {results : List ResolveResult}

variable (dependencies tree) in
/-- The inputs of a compilation whose requests have these results. -/
structure Collected (results : List ResolveResult) (inputs : BuildInputs) : Prop where
  build : ∀ key, key ∈ inputs.build.keys ↔
    key ∈ (dependencies.automaticBuildInputs tree).keys ∨ ∃ result ∈ results, result.resource.key = key
  automatic : results = [] → inputs.build = dependencies.automaticBuildInputs tree
  resolved : ∀ key, key ∈ inputs.resolved.keys ↔ ∃ result ∈ results, result.resource.key = key
  files : ∀ key, key ∈ inputs.files.keys ↔
    key ∈ (results.flatMap fun result => result.resource :: result.fileDependencies).map PathBuf.key
  contexts : ∀ key, key ∈ inputs.contexts.keys ↔ key ∈ (results.flatMap (·.contextDependencies)).map PathBuf.key
  missing : ∀ key, key ∈ inputs.missing.keys ↔ key ∈ (results.flatMap (·.missingDependencies)).map PathBuf.key

theorem collected_of_buildInputs (h : dependencies.buildInputs tree = .ok inputs)
    (hresults : dependencies.requests.mapM tree.resolveWithDependencies = .ok results) :
    dependencies.Collected tree results inputs := by
  have hempty : ∀ key, key ∉ PathSet.empty.keys := fun _ => List.not_mem_nil
  rw [buildInputs, foldlM_eq_foldl_mapM, hresults] at h
  have hinputs : inputs = results.foldl BuildInputs.addResolved { build := dependencies.automaticBuildInputs tree } :=
    (Except.ok.inj h).symm
  rw [BuildInputs.foldl_addResolved] at hinputs
  subst hinputs
  refine ⟨fun key => ?_, ?_, fun key => ?_, fun key => ?_, fun key => ?_, fun key => ?_⟩
  · rw [PathSet.mem_keys_extend, List.map_map, List.mem_map]
    rfl
  · rintro rfl
    rfl
  · rw [PathSet.mem_keys_extend, or_iff_right (hempty key), List.map_map, List.mem_map]
    rfl
  · rw [PathSet.mem_keys_extend, or_iff_right (hempty key)]
  · rw [PathSet.mem_keys_extend, or_iff_right (hempty key)]
  · rw [PathSet.mem_keys_extend, or_iff_right (hempty key)]

variable (dependencies tree results) in
/-- A snapshot that is checked for times was made with times: some request resolves to what is no automatic build
dependency, or the strategy has times, or there are no requests. -/
def TimesRecorded : Prop :=
  results ≠ [] → (∀ result ∈ results, result.resource.key ∈ (dependencies.automaticBuildInputs tree).keys) →
    dependencies.snapshotStrategy.timestamp = true

theorem Collected.files_isEmpty (h : dependencies.Collected tree results inputs) :
    inputs.files.paths.isEmpty = true ↔ results = [] := by
  rw [PathSet.isEmpty_iff, List.eq_nil_iff_forall_not_mem]
  simp only [h.files]
  rw [← List.eq_nil_iff_forall_not_mem, List.map_eq_nil_iff, List.flatMap_eq_nil_iff]
  cases results with
  | nil => exact iff_of_true nofun rfl
  | cons result results =>
      refine iff_of_false (fun hnone => ?_) (List.cons_ne_nil _ _)
      cases hnone result List.mem_cons_self

/-- The strategies differ where the requests resolve to automatic build dependencies. -/
theorem Collected.strategies (h : dependencies.Collected tree results inputs) :
    (inputs.build.paths.isEmpty = true ∨
      ((dependencies.validationStrategy tree inputs).timestamp = true →
          (dependencies.creationStrategy tree inputs).timestamp = true) ∧
        ((dependencies.validationStrategy tree inputs).hash = true →
          (dependencies.creationStrategy tree inputs).hash = true)) ↔
      dependencies.TimesRecorded tree results := by
  have hall : inputs.build.keys.all (· ∈ (dependencies.automaticBuildInputs tree).keys) = true ↔
      ∀ result ∈ results, result.resource.key ∈ (dependencies.automaticBuildInputs tree).keys := by
    simp only [List.all_eq_true, decide_eq_true_eq, h.build]
    constructor
    · exact fun hall result hresult => hall _ (Or.inr ⟨result, hresult, rfl⟩)
    · rintro hall key (hkey | ⟨result, hresult, rfl⟩)
      · exact hkey
      · exact hall result hresult
  cases hresults : results with
  | nil =>
      have hcreation : dependencies.creationStrategy tree inputs = .timestampOnly := by
        rw [creationStrategy, h.files_isEmpty.mpr hresults, h.automatic hresults]
        simp
      refine iff_of_true ?_ (absurd rfl)
      cases hempty : inputs.build.paths.isEmpty with
      | true => exact Or.inl rfl
      | false =>
          have hvalidation : dependencies.validationStrategy tree inputs = .timestampOnly := by
            rw [validationStrategy, hempty, hall.mpr (by simp [hresults])]
            rfl
          rw [hcreation, hvalidation]
          exact Or.inr ⟨id, id⟩
  | cons first rest =>
      have hsome : results ≠ [] := hresults ▸ List.cons_ne_nil _ _
      have hfiles : inputs.files.paths.isEmpty = false := by
        rw [← Bool.not_eq_true, h.files_isEmpty]
        exact hsome
      have hbuild : inputs.build.paths.isEmpty = false := by
        rw [← Bool.not_eq_true, PathSet.isEmpty_iff]
        refine List.ne_nil_of_mem ((h.build first.resource.key).mpr (Or.inr ⟨first, ?_, rfl⟩))
        exact hresults ▸ List.mem_cons_self
      have hcreation : dependencies.creationStrategy tree inputs = dependencies.snapshotStrategy := by
        rw [creationStrategy, hfiles]
        rfl
      rw [← hresults, hcreation, hbuild, or_iff_right Bool.false_ne_true, TimesRecorded, forall_prop_of_true hsome,
        ← hall, validationStrategy, hbuild, Bool.not_false, Bool.true_and]
      split_ifs with hautomatic
      · rw [forall_prop_of_true hautomatic]
        exact ⟨fun h => h.1 rfl, fun h => ⟨fun _ => h, nofun⟩⟩
      · exact iff_of_true ⟨id, id⟩ fun h => absurd h hautomatic

end BuildDependencyOptions

theorem classifiedPathEntry_forBuildDependencies (fileSystem : FileSystem) (path : PathBuf) :
    SnapshotEntry.classifiedPathEntry fileSystem .forBuildDependencies path = none :=
  rfl

section

variable {trees : FileTrees} {strategy other : SnapshotStrategy} {info : FileSystemInfo} {path : PathBuf}

/-- A snapshot of a file is valid under another strategy when it has what that one asks for. -/
theorem SnapshotEntry.isValidSync_createFileSync {entry : SnapshotEntry}
    (hclass : classifiedPathEntry (trees.toFileSystem info) info path = none)
    (h : createFileSync (trees.toFileSystem info) strategy info path = .ok entry) :
    entry.isValidSync (trees.toFileSystem info) other info trees.itemState = true ↔
      (other.timestamp = true → strategy.timestamp = true) ∧ (other.hash = true → strategy.hash = true) := by
  rw [createFileSync, hclass] at h
  obtain ⟨snapshot, hsnapshot, rfl⟩ := of_map_ok h
  obtain ⟨source, hread, hbytes⟩ := of_bind_ok hsnapshot
  obtain ⟨modified, hmodified, hbytes⟩ := of_bind_ok hbytes
  cases hbytes
  obtain ⟨htime, hnoTime⟩ := whenSome_eq_ok.mp hmodified
  rw [isValidSync, isValidWith, ordinarySnapshotApplies_of_classified hclass, Bool.true_and,
    FileSnapshot.isValidSync_present]
  refine and_congr (imp_congr_right fun _ => ?_) (imp_congr_right fun _ => ?_)
  · cases htimestamp : strategy.timestamp with
    | true =>
        obtain ⟨found, hfound, rfl⟩ := htime htimestamp
        exact iff_of_true ⟨found, hfound, rfl⟩ rfl
    | false =>
        rw [hnoTime htimestamp]
        refine iff_of_false (fun hfound => ?_) (fun hrequired => ?_)
        · obtain ⟨_, _, heq⟩ := hfound
          cases heq
        · cases hrequired
  · rw [hread]
    cases strategy.hash with
    | true => exact iff_of_true ⟨_, rfl, rfl⟩ rfl
    | false =>
        refine iff_of_false (fun hfound => ?_) (fun hrequired => ?_)
        · obtain ⟨_, _, heq⟩ := hfound
          cases heq
        · cases hrequired

theorem Snapshot.isValidSync_createSync {paths : List PathBuf} {snapshot : Snapshot}
    (hclass : ∀ path, SnapshotEntry.classifiedPathEntry (trees.toFileSystem info) info path = none)
    (h : createSync (trees.toFileSystem info) strategy info paths = .ok snapshot) :
    snapshot.isValidSync (trees.toFileSystem info) other info trees.itemState = true ↔ snapshot.entries = [] ∨
      (other.timestamp = true → strategy.timestamp = true) ∧ (other.hash = true → strategy.hash = true) := by
  obtain ⟨entries, hentries, h⟩ := of_bind_ok h
  cases h
  have hentry : ∀ entry ∈ entries,
      (entry.isValidSync (trees.toFileSystem info) other info trees.itemState = true ↔
        (other.timestamp = true → strategy.timestamp = true) ∧ (other.hash = true → strategy.hash = true)) := by
    intro entry hentry
    obtain ⟨path, _, hcreated⟩ := (of_mapM hentries).1 entry hentry
    exact SnapshotEntry.isValidSync_createFileSync (hclass path) hcreated
  rw [isValidSync, List.all_eq_true, forall₂_congr hentry]
  cases entries with
  | nil => exact iff_of_true (fun _ h => absurd h List.not_mem_nil) (Or.inl rfl)
  | cons entry entries =>
      rw [or_iff_right (List.cons_ne_nil _ _)]
      exact ⟨fun hall => hall entry List.mem_cons_self, fun h _ _ => h⟩

theorem Snapshot.hasExactPaths_createSync {paths : List PathBuf} {snapshot : Snapshot}
    (h : createSync (trees.toFileSystem info) strategy info paths = .ok snapshot) :
    snapshot.hasExactPaths paths = true := by
  rw [hasExactPaths, (listOf_createSync h).keys, decide_eq_true rfl]

/-- The files of a resolve snapshot are valid one by one. -/
theorem Snapshot.hasValidPathsSync_createResolve {files contexts missing paths : List PathBuf} {snapshot : Snapshot}
    (h : createResolve (trees.toFileSystem info) strategy info files contexts missing = .ok snapshot)
    (hdistinct : snapshot.PathsDistinct) (hpaths : ∀ key ∈ paths.map PathBuf.key, key ∈ files.map PathBuf.key) :
    snapshot.hasValidPathsSync trees strategy info paths = true := by
  have hvalid : ∀ key ∈ files.map PathBuf.key, ∃ entry ∈ snapshot.entries, entry.path.key = key ∧
      entry.isValidSync (trees.toFileSystem info) strategy info trees.itemState = true := by
    intro key hkey
    obtain ⟨fileEntries, hfiles, h⟩ := of_bind_ok h
    obtain ⟨contextEntries, _, h⟩ := of_bind_ok h
    cases h
    obtain ⟨file, hfile, rfl⟩ := List.mem_map.mp ((KeyedList.mem_keys_sortDedup PathBuf.key files).mpr hkey)
    obtain ⟨entry, hentry, hcreated⟩ := (of_mapM hfiles).2 file hfile
    refine ⟨entry, List.mem_append_left _ (List.mem_append_left _ hentry), ?_, ?_⟩
    · rw [(SnapshotEntry.of_createFile hcreated).path_eq]
    · exact ((SnapshotEntry.isValid_iff entry).mp (SnapshotEntry.isValid_createFile_none hcreated)).1
  rw [hasValidPathsSync, List.all_eq_true]
  intro path hpath
  have hkey := (KeyedList.mem_keys_sortDedup PathBuf.key paths).mp (List.mem_map_of_mem hpath)
  obtain ⟨entry, hentry, hsame, hentryValid⟩ := hvalid _ (hpaths _ hkey)
  cases hfound : snapshot.entries.find? (fun entry => entry.path.key = path.key) with
  | none =>
      have hnone := List.find?_eq_none.mp hfound entry hentry
      rw [decide_eq_true_eq] at hnone
      exact absurd hsame hnone
  | some found =>
      have hkeys := List.find?_some hfound
      rw [decide_eq_true_eq] at hkeys
      have heq : found = entry :=
        List.inj_on_of_nodup_map hdistinct (List.mem_of_find?_eq_some hfound) hentry (hkeys.trans hsame.symm)
      rw [heq]
      exact hentryValid

end

namespace BuildDependencyOptions

variable {dependencies : BuildDependencyOptions} {tree : BuildTree} {inputs : BuildInputs}
  {results : List ResolveResult} {snapshot : Snapshot} {dto : SnapshotDto}

theorem buildDependenciesAreValid_iff (h : dependencies.Collected tree results inputs)
    (hsnapshot : Snapshot.createSync (tree.trees.toFileSystem .forBuildDependencies)
      (dependencies.creationStrategy tree inputs) .forBuildDependencies inputs.build.paths = .ok snapshot)
    (hdto : snapshotToDto snapshot = .ok dto) :
    dependencies.buildDependenciesAreValid tree inputs dto = true ↔ dependencies.TimesRecorded tree results := by
  have hempty : snapshot.entries = [] ↔ inputs.build.paths.isEmpty = true := by
    have hkeys := (Snapshot.listOf_createSync hsnapshot).keys
    rw [PathSet.isEmpty_iff, List.eq_nil_iff_forall_not_mem (l := inputs.build.keys), ← List.map_eq_nil_iff, hkeys,
      List.eq_nil_iff_forall_not_mem]
    simp only [normalizePaths, KeyedList.mem_keys_sortDedup, PathSet.keys]
  rw [buildDependenciesAreValid, snapshotFromDto_toDto (Snapshot.Built.createSync hsnapshot).consistent hdto,
    if_pos (Snapshot.pathsDistinct_createSync hsnapshot), ← h.strategies, ← hempty]
  change (_ && _) = true ↔ _
  rw [Snapshot.hasExactPaths_createSync hsnapshot, Bool.true_and, Snapshot.isValidSyncIn_none,
    Snapshot.isValidSync_createSync (classifiedPathEntry_forBuildDependencies _) hsnapshot]

variable (results) in
/-- No path is in two of the lists that the resolver gives. -/
def ListsDisjoint : Prop :=
  let files := (results.flatMap fun result => result.resource :: result.fileDependencies).map PathBuf.key
  let contexts := (results.flatMap (·.contextDependencies)).map PathBuf.key
  let missing := (results.flatMap (·.missingDependencies)).map PathBuf.key
  List.Disjoint files contexts ∧ List.Disjoint files missing ∧ List.Disjoint contexts missing

theorem resolveBuildDependenciesAreValid_iff (h : dependencies.Collected tree results inputs)
    (hsnapshot : Snapshot.createResolveIn tree.trees dependencies.resolveSnapshotStrategy .forBuildDependencies
      (some {}) inputs.files.paths inputs.contexts.paths inputs.missing.paths = .ok snapshot)
    (hdto : snapshotToDto snapshot = .ok dto) :
    dependencies.resolveBuildDependenciesAreValid tree inputs dto = true ↔ ListsDisjoint results := by
  rw [Snapshot.createResolveIn_eq (answered_sound tree.alike) FileTrees.sound_fresh] at hsnapshot
  have hdistinct : snapshot.PathsDistinct ↔ ListsDisjoint results := by
    rw [Snapshot.pathsDistinct_createResolve_iff hsnapshot]
    simp only [ListsDisjoint, List.Disjoint, ← h.files, ← h.contexts, ← h.missing]
    rfl
  rw [resolveBuildDependenciesAreValid, snapshotFromDto_toDto (Snapshot.Built.createResolve hsnapshot).consistent hdto,
    ← hdistinct]
  split_ifs with hsnapshotDistinct
  · refine iff_of_true ?_ hsnapshotDistinct
    change (_ || _) = true
    rw [Snapshot.hasValidPathsSync_createResolve hsnapshot hsnapshotDistinct, Bool.or_true]
    intro key hkey
    obtain ⟨result, hresult, rfl⟩ := (h.resolved key).mp hkey
    refine (h.files _).mpr (List.mem_map_of_mem (List.mem_flatMap.mpr ⟨result, hresult, List.mem_cons_self⟩))
  · exact iff_of_false nofun hsnapshotDistinct

end BuildDependencyOptions

end Unpack.CacheItem

namespace Unpack.Cache

open CacheItem Fallible

/-- The guard of a compilation, and the file system as it checks other guards. A snapshot that cannot be encoded
is an error. -/
def prepareGuard (options : CacheOptions) (dependencies : BuildDependencyOptions) (tree : BuildTree) :
    Except IoError PersistentCachePreparation := do
  let inputs ← dependencies.buildInputs tree
  let buildDependencies ← Snapshot.createSync (tree.trees.toFileSystem .forBuildDependencies)
    (dependencies.creationStrategy tree inputs) .forBuildDependencies inputs.build.paths
  let resolveBuildDependencies ← Snapshot.createResolveIn tree.trees dependencies.resolveSnapshotStrategy
    .forBuildDependencies (some {}) inputs.files.paths inputs.contexts.paths inputs.missing.paths
  let buildDto ← snapshotToDto buildDependencies
  let resolveDto ← snapshotToDto resolveBuildDependencies
  return {
    guard := ⟨options.cacheVersion, buildDto, resolveDto⟩
    buildDependenciesAreValid := dependencies.buildDependenciesAreValid tree inputs
    resolveBuildDependenciesAreValid := dependencies.resolveBuildDependenciesAreValid tree inputs }

/-- When a guard is valid for the compilation that it was made for. -/
theorem prepareGuard_valid {options : CacheOptions} {dependencies : BuildDependencyOptions} {tree : BuildTree}
    {results : List ResolveResult} {preparation : PersistentCachePreparation}
    (hresults : dependencies.requests.mapM tree.resolveWithDependencies = .ok results)
    (h : prepareGuard options dependencies tree = .ok preparation) :
    (preparation.buildDependenciesAreValid preparation.guard.buildDependencies = true ↔
        dependencies.TimesRecorded tree results) ∧
      (preparation.resolveBuildDependenciesAreValid preparation.guard.resolveBuildDependencies = true ↔
        BuildDependencyOptions.ListsDisjoint results) := by
  obtain ⟨inputs, hinputs, h⟩ := of_bind_ok h
  obtain ⟨buildDependencies, hbuild, h⟩ := of_bind_ok h
  obtain ⟨resolveBuildDependencies, hresolve, h⟩ := of_bind_ok h
  obtain ⟨buildDto, hbuildDto, h⟩ := of_bind_ok h
  obtain ⟨resolveDto, hresolveDto, h⟩ := of_bind_ok h
  cases h
  have hcollected := BuildDependencyOptions.collected_of_buildInputs hinputs hresults
  exact ⟨BuildDependencyOptions.buildDependenciesAreValid_iff hcollected hbuild hbuildDto,
    BuildDependencyOptions.resolveBuildDependenciesAreValid_iff hcollected hresolve hresolveDto⟩

/-- `prepare_for_compilation`, under the lock. -/
def CacheState.prepareForCompilation {Thread Json : Type} (options : CacheOptions)
    (dependencies : BuildDependencyOptions) (tree : BuildTree) (state : CacheState Thread Json) :
    Except IoError (CacheState Thread Json) :=
  if options.kind ≠ .filesystem then .ok state
  else do
    let preparation ← prepareGuard options dependencies tree
    return { state with
      layers := (state.prepareLayers preparation).2
      persistentGuard := some preparation.guard }.markDirty (state.prepareLayers preparation).1

section

variable {Thread Json : Type} [DecidableEq Thread] {compressors : Compressors} {library : RecordLibrary Json}
  {options : CacheOptions} {dependencies : BuildDependencyOptions} {tree : BuildTree}
    {state next : CacheState Thread Json}

/-- It is a step of the cache, unless nothing is done. -/
theorem step_prepareForCompilation (h : state.prepareForCompilation options dependencies tree = .ok next)
    (hlock : state.publishing = none) :
    options.kind ≠ .filesystem ∧ next = state ∨
      ∃ preparation, prepareGuard options dependencies tree = .ok preparation ∧
        CacheStep compressors library options state (.prepare preparation) next := by
  rw [CacheState.prepareForCompilation] at h
  split_ifs at h with hkind
  · cases h
    exact Or.inl ⟨hkind, rfl⟩
  · obtain ⟨preparation, hpreparation, h⟩ := of_bind_ok h
    cases h
    exact Or.inr ⟨preparation, hpreparation, .prepare preparation (not_not.mp hkind) hlock⟩

end

end Unpack.Cache
