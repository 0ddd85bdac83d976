import Mathlib.Data.List.Basic
import Mathlib.Data.List.Infix

/-! A watch session of a compiler: its flags, the changes that it records and the watchers that it keeps. What a
regular expression matches and how a file name of an event is resolved are left open, and so is whether the
file system can watch a path. -/

namespace Unpack.Compiler

structure FileStat where
  mtimeMs : Nat
  size : Nat
  deriving DecidableEq

/-- There is none of a path that does not exist. -/
abbrev PollSnapshot := Option FileStat

inductive WatchTargetKind where
  | file
  | context
  | missing
  deriving DecidableEq

structure WatchTarget where
  path : String
  kind : WatchTargetKind
  deriving DecidableEq

structure WatchDependencySets where
  files : List String := []
  contexts : List String := []
  missing : List String := []

/-- In the place of a target of the same path, or at the end. -/
def setTarget (target : WatchTarget) : List WatchTarget → List WatchTarget
  | [] => [target]
  | first :: rest => if first.path = target.path then target :: rest else first :: setTarget target rest

def watchTargets (dependencies : WatchDependencySets) : List WatchTarget :=
  (dependencies.files.map (WatchTarget.mk · .file) ++ dependencies.contexts.map (WatchTarget.mk · .context) ++
    dependencies.missing.map (WatchTarget.mk · .missing)).foldl
      (fun targets target => setTarget target targets) []

inductive WatchIgnoredMatcher where
  | path (value : String)
  | regexp (test : String → Bool)

def normalizeWatchMatchPath (path : String) : String :=
  let normalizedPath := path.toList.map fun char => if char = '\\' then '/' else char
  String.ofList
    (if "/private/var/".toList <+: normalizedPath then
      "/var/".toList ++ normalizedPath.drop "/private/var/".length
    else normalizedPath)

def isIgnoredWatchPath (path : String) (ignored : List WatchIgnoredMatcher) : Bool :=
  let normalizedPath := normalizeWatchMatchPath path
  ignored.any fun
    | .path value => value.toList <:+: normalizedPath.toList
    | .regexp test => test normalizedPath

def isOutputWatchPath (path outputPath : String) : Bool :=
  let normalizedPath := normalizeWatchMatchPath path
  let normalizedOutputPath := normalizeWatchMatchPath outputPath
  normalizedPath = normalizedOutputPath || (normalizedOutputPath ++ "/").toList <+: normalizedPath.toList

structure NormalizedWatchOptions where
  aggregateTimeout : Nat := 20
  ignored : List WatchIgnoredMatcher := []
  pollInterval : Option Nat := none

inductive WatchSubscription where
  | poll (targets : List WatchTarget)
  | event (target : WatchTarget)

inductive ChangeKind where
  | modified
  | removed
  | context
  deriving DecidableEq

structure WatchChangeSet where
  modifiedFiles : List String
  removedFiles : List String
  changedContexts : List String

/-- The number of a call, which stands for the callback that it gave. -/
abbrev Call := Nat

/-- The watchers share the snapshots of their targets, and what an event has to be compared with. -/
structure WatchingImpl where
  closed : Bool := false
  running : Bool := false
  invalidated : Bool := false
  hasCompletedCompilation : Bool := false
  requiresFullInvalidation : Bool := false
  rebuildTimer : Bool := false
  watchers : List WatchSubscription := []
  snapshots : String → Option PollSnapshot := fun _ => none
  targets : List WatchTarget := []
  outputPath : String := ""
  modifiedFiles : List String := []
  removedFiles : List String := []
  changedContexts : List String := []
  watchOptions : NormalizedWatchOptions := {}
  closeCallbacks : List Call := []

namespace WatchingImpl

variable (watching : WatchingImpl)

def clearPendingChanges : WatchingImpl :=
  { watching with modifiedFiles := [], removedFiles := [], changedContexts := [] }

def clearRebuildTimer : WatchingImpl := { watching with rebuildTimer := false }

def closeWatchers : WatchingImpl := { watching with watchers := [] }

def recordChange (path : String) (kind : ChangeKind) : WatchingImpl :=
  let modifiedFiles := watching.modifiedFiles.erase path
  let removedFiles := watching.removedFiles.erase path
  let changedContexts := watching.changedContexts.erase path
  match kind with
  | .modified =>
      { watching with modifiedFiles := modifiedFiles ++ [path], removedFiles, changedContexts }
  | .removed => { watching with modifiedFiles, removedFiles := removedFiles ++ [path], changedContexts }
  | .context =>
      { watching with modifiedFiles, removedFiles, changedContexts := changedContexts ++ [path] }

def queueRecordedRebuild : WatchingImpl :=
  if watching.closed then watching else { watching with rebuildTimer := true }

def queueRebuild (path : String) (kind : ChangeKind) : WatchingImpl :=
  (watching.recordChange path kind).queueRecordedRebuild

def takeWatchChangeSet : Option WatchChangeSet × WatchingImpl :=
  if !watching.hasCompletedCompilation || watching.requiresFullInvalidation then
    (none, { watching.clearPendingChanges with requiresFullInvalidation := false })
  else if watching.modifiedFiles.isEmpty && watching.removedFiles.isEmpty &&
      watching.changedContexts.isEmpty then
    (none, watching)
  else
    (some ⟨watching.modifiedFiles, watching.removedFiles, watching.changedContexts⟩,
      watching.clearPendingChanges)

/-- `invalidate` of a session that is open, up to the request of a rebuild. -/
def invalidate : WatchingImpl :=
  { watching.clearRebuildTimer.clearPendingChanges with requiresFullInvalidation := true }

/-- `close`, up to its end when no compilation runs. -/
def close (call : Call) : WatchingImpl :=
  { (watching.clearRebuildTimer).closeWatchers with
    closed := true
    invalidated := false
    closeCallbacks := watching.closeCallbacks ++ [call] }

/-- The first part of `#run`, behind its guard. -/
def beginRun : Option WatchChangeSet × WatchingImpl :=
  { watching.clearRebuildTimer.closeWatchers with running := true }.takeWatchChangeSet

section

variable (files : String → PollSnapshot)

def replaceWatchers (watchable : String → Bool) (dependencies : WatchDependencySets) (outputPath : String) :
    WatchingImpl :=
  let targets := (watchTargets dependencies).filter fun target =>
    !isIgnoredWatchPath target.path watching.watchOptions.ignored
  let snapshots := fun path => if path ∈ targets.map (·.path) then some (files path) else none
  match watching.watchOptions.pollInterval with
  | some _ =>
      if targets.isEmpty then watching.closeWatchers
      else { watching.closeWatchers with watchers := [.poll targets], snapshots }
  | none =>
      { watching.closeWatchers with
        watchers := (targets.filter fun target => watchable target.path).map .event
        snapshots, targets, outputPath }

/-- The callback of a watcher. The name of the file that changed may be missing. -/
def watchEvent (target : WatchTarget) (filename : Option String) : WatchingImpl :=
  let isContext : Bool := target.kind = .context
  if isContext && filename.isNone && !watching.watchOptions.ignored.isEmpty then watching
  else
    let changedPath := if isContext then filename.getD target.path else target.path
    if isOutputWatchPath changedPath watching.outputPath then watching
    else if isContext && watching.targets.any (fun other => other.path = changedPath) then watching
    else if isIgnoredWatchPath changedPath watching.watchOptions.ignored then watching
    else if isContext then watching.queueRebuild changedPath .context
    else
      let previous := watching.snapshots target.path
      let next := files target.path
      let watching := { watching with
        snapshots := fun path => if path = target.path then some next else watching.snapshots path }
      if previous = some next then watching
      else watching.queueRebuild changedPath (if next.isSome then .modified else .removed)

/-- One target at a tick of the poll interval, and whether it has changed. -/
def pollTarget (target : WatchTarget) : Bool × WatchingImpl :=
  if isIgnoredWatchPath target.path watching.watchOptions.ignored then (false, watching)
  else
    let previous := watching.snapshots target.path
    let next := files target.path
    let watching := { watching with
      snapshots := fun path => if path = target.path then some next else watching.snapshots path }
    if previous = some next then (false, watching)
    else
      (true, watching.recordChange target.path
        (if target.kind = .context then .context else if next.isSome then .modified else .removed))

def pollTargets : WatchingImpl → List WatchTarget → Bool × WatchingImpl
  | watching, [] => (false, watching)
  | watching, target :: targets =>
      let (changed, watching) := watching.pollTarget files target
      let (rest, watching) := pollTargets watching targets
      (changed || rest, watching)

def poll (targets : List WatchTarget) : WatchingImpl :=
  let (changed, watching) := pollTargets files watching targets
  if changed then watching.queueRecordedRebuild else watching

end

end WatchingImpl

end Unpack.Compiler
