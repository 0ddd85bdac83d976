import Unpack.Lib.Worklist
import Unpack.Dependency
import Unpack.Module
import Unpack.ModuleGraph
import Unpack.Lib.Fixpoint
import Unpack.ModuleMask
import Unpack.ChunkGraph
import Unpack.BuildChunkGraph
import Unpack.StaticReachability
import Unpack.AsyncPlanning
import Unpack.PlanningLoop
import Unpack.Lib.Availability
import Unpack.SettledPlanning
import Unpack.LoadedGroups
import Unpack.GroupLayout
import Unpack.BuiltGroups
import Unpack.SplitChunks
import Unpack.BuiltChunkGraph
import Unpack.StaticAvailability
import Unpack.Lib.PathSearch
import Unpack.SideEffectsFlagPlugin
import Unpack.OptimizeDependencies
import Unpack.SideEffectPreservation
import Unpack.Lib.Closure
import Unpack.ModuleConcatenationPlugin
import Unpack.ConcatenationSearch
import Unpack.ModuleConcatenation
import Unpack.IdAssignment
import Unpack.SealedChunkGraph
import Unpack.LocatedDependencies
import Unpack.DynamicImports
import Unpack.DependencyTemplate
import Unpack.CodeGeneration
import Unpack.RequiredTargets
import Unpack.FlagDependencyUsagePlugin
import Unpack.UsedExports
import Unpack.ReadableExports
import Unpack.Lib.EdgeInsertion
import Unpack.ChunkGroupEdges
import Unpack.ReachableGroups
import Unpack.ChunkRegistry
import Unpack.RuntimeRequirements
import Unpack.RuntimeCoverage
import Unpack.Lib.Codec
import Unpack.PackFileRecords
import Unpack.PackFileEncoder
import Unpack.PackFileCodecs
import Unpack.PackFileRoundTrip
import Unpack.Lib.EffectProgram
import Unpack.PackFilePath
import Unpack.PackFileIndex
import Unpack.PackFile
import Unpack.PackFilePublication
import Unpack.PackFileStore
import Unpack.PackFilePlacement
import Unpack.PackFileCommit
import Unpack.PackFilePublished
import Unpack.PackFileAtomicity
import Unpack.PackFileRefinement
import Unpack.Lib.KeyedList
import Unpack.Snapshot
import Unpack.BuiltSnapshot
import Unpack.CacheItems
import Unpack.PackFileConversions
import Unpack.SurvivingRecords
import Unpack.Lib.Run
import Unpack.MemoryCache
import Unpack.CacheLayers
import Unpack.CacheSystem
import Unpack.PackFileSharing
import Unpack.CacheLookup
import Unpack.CacheLinearizability
import Unpack.AssetRender
import Unpack.AssetRenderValidation
import Unpack.RenderManifests
import Unpack.Lib.Moments
import Unpack.SnapshotValidity
import Unpack.BuildTask
import Unpack.BuildRecords
import Unpack.Make
import Unpack.BuildingModuleGraph
import Unpack.MakeEffects
import Unpack.MakeConnections
import Unpack.MakeInvariant
import Unpack.MakeOnce
import Unpack.MakeWaits
import Unpack.Compiler
import Unpack.CompilerPhases
import Unpack.CompilerSessions
import Unpack.CompilerCallbacks
import Unpack.CompilerRest
import Unpack.CompilerArbitration
import Unpack.WatchingCallbacks
import Unpack.Lib.FreshNames
import Unpack.UniqueIds
import Unpack.ChunkMembership
import Unpack.SplitPreservation
import Unpack.LargestAvailability
import Unpack.ChunkFilenames
import Unpack.FilenamesApart
import Unpack.ExportClassification
import Unpack.PrimitiveExpressions
import Unpack.PureAnalysis
import Unpack.DirectoryTree
import Unpack.ContextContents
import Unpack.Lib.Delegation
import Unpack.ReexportResolution
import Unpack.CacheLifecycle
import Unpack.Lib.Roles
import Unpack.CacheLifecycleSafety
import Unpack.LexicalPath
import Unpack.PackageSideEffects
import Unpack.CacheIdentifiers
import Unpack.PackageSideEffectsMemo
import Unpack.ChunkRelations
import Unpack.FacadeHistory
import Unpack.Lib.Sequence
import Unpack.SideEffectsGlob
import Unpack.GlobDenotation
import Unpack.PackFileMaintenance
import Unpack.PackFileRewriting
import Unpack.PackFileTidy
import Unpack.PackFileQuiescence
import Unpack.Lib.Memo
import Unpack.SnapshotCache
import Unpack.SnapshotVariants
import Unpack.SnapshotReflexivity
import Unpack.BuildDependencyGuard
import Unpack.UnchangedGuard
import Unpack.Lib.TurnCache
import Unpack.UnsafeWatchCache
import Unpack.WatchReuse
import Unpack.Lib.ModuleLoading
import Unpack.ConcatenatedEvaluation
import Unpack.CodeGenerationItems
import Unpack.CodeGenerationCache
import Unpack.Lib.Similarity
import Unpack.Lib.Marking
import Unpack.ModuleComputationCache
import Unpack.GraphSimilarity
import Unpack.ComputationReuse
import Unpack.ParserVisitors
import Unpack.SourceReplacements
import Unpack.MadeModuleGraph
import Unpack.ParserAcceptance
import Unpack.ConcatenationNames
