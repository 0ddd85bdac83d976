import Unpack.CacheItems
import Unpack.PackFileEncoder
import Unpack.SnapshotValidity
import Unpack.Lib.Moments
import Mathlib.Logic.Function.Basic

/-! Building a module and recording it, while others write files. The task is the program of its file
operations, each of which sees the files as they are at its own moment. It is modelled where no record is
used again and the cache is enabled; parsing, the module types and what a loader computes are parameters. -/

namespace Unpack.CacheItem

open EffectProgram

structure FileState where
  content : List UInt8
  modified : SystemTime

/-- The files, by the keys of their paths. -/
abbrev Files := List (List Nat) → Option FileState

namespace Files

variable (files : Files)

def missing : IoError := ⟨.notFound, "No such file or directory (os error 2)"⟩

def state (path : PathBuf) : Except IoError FileState :=
  match files path.key with
  | some state => .ok state
  | none => .error missing

def read (path : PathBuf) : Except IoError (List UInt8) := FileState.content <$> files.state path

/-- The files, and what else the file system answers. -/
def toFileSystem (others : FileSystem) : FileSystem :=
  { others with
    metadata := fun path => (fun state => ⟨false, .ok state.modified⟩) <$> files.state path
    read := files.read }

end Files

/-- Earlier, in nanoseconds from the epoch. -/
def SystemTime.nanos (time : SystemTime) : Int :=
  time.seconds.toInt * 1000000000 + time.nanoseconds.toNat

/-- A write from outside: the content changes, and the file is strictly newer. -/
structure FileState.Write (contents : Set (List UInt8)) (before after : FileState) : Prop where
  content_mem : after.content ∈ contents
  content_ne : after.content ≠ before.content
  newer : before.modified.nanos < after.modified.nanos

/-- One file that exists is written, with one of these contents. -/
inductive Files.Write (contents : Set (List UInt8)) (before : Files) : Files → Prop
  | file (path : PathBuf) {old new : FileState} (hold : before path.key = some old)
      (hwrite : old.Write contents new) :
      Write contents before (Function.update before path.key (some new))

/-- Any number of writes. -/
def Files.Later (contents : Set (List UInt8)) : Files → Files → Prop :=
  Relation.ReflTransGen (Files.Write contents)

/-- The files have contents among these. -/
def Files.Within (contents : Set (List UInt8)) (files : Files) : Prop :=
  ∀ key state, files key = some state → state.content ∈ contents

inductive BuildError where
  | read (path : PathBuf) (message : String)
  | loader (path : PathBuf) (message : String)
  | parse (path : PathBuf) (message : String)
  | snapshot (error : IoError)
  deriving DecidableEq

inductive LoaderRequestKind where
  | load
  | import
  deriving DecidableEq

structure LoaderModuleRequest where
  kind : LoaderRequestKind
  request : String

structure LoaderResult where
  source : String
  requests : List LoaderModuleRequest
  fileDependencies : List PathBuf

/-- What a loader does: it reads files, the file of its own code among them, and ends. -/
inductive LoaderRun where
  | finish (result : Except BuildError LoaderResult)
  | read (path : PathBuf) (next : Except IoError (List UInt8) → LoaderRun)

/-- A read that the built content is computed from. -/
structure FileUse where
  path : PathBuf
  content : Except IoError (List UInt8)

abbrev BuildAction := Action Files Empty BuildError

def readFile (path : PathBuf) : BuildAction (Except IoError (List UInt8)) :=
  observed fun files => files.read path

def LoaderRun.follow : LoaderRun → BuildAction (LoaderResult × List FileUse)
  | finish result => do
      let result ← liftM result
      return (result, [])
  | read path next => do
      let content ← readFile path
      let (result, uses) ← (next content).follow
      return (result, ⟨path, content⟩ :: uses)

/-- What a build task takes from the services of a compilation. -/
structure BuildTask (Json : Type) where
  resource : PathBuf
  loader : Option PathBuf
  /-- The loader runner, if there is one, on the source of the resource. -/
  runLoader : Option (String → LoaderRun)
  isBinary : Bool
  fromUtf8Lossy : List UInt8 → String
  /-- The text of the error for bytes that are no UTF-8. -/
  utf8Error : List UInt8 → String
  parse : String → List UInt8 → Except BuildError (ParsedModule Json)
  library : ParsedModuleLibrary Json
  strategy : SnapshotStrategy
  info : FileSystemInfo
  others : FileSystem

/-- A snapshot of one file, and how it was taken: the bytes for the hash and the files at the moment of the
metadata. -/
structure TakenSnapshot where
  path : PathBuf
  source : List UInt8
  files : Files
  snapshot : Snapshot

/-- The record, and how it came about: the reads that the content is computed from, the snapshots, and the
files at the moment of storing. -/
structure BuiltRecord (Json : Type) where
  record : ModuleBuildRecord Json
  uses : List FileUse
  taken : List TakenSnapshot
  stored : Files

namespace BuildTask

variable {Json : Type} (task : BuildTask Json)

def orFail {α : Type} (error : IoError → BuildError) (outcome : Except IoError α) : BuildAction α :=
  liftM (outcome.mapError error)

def decode (bytes : List UInt8) : Except BuildError String :=
  match Decoder.fromUtf8 bytes with
  | some source => .ok source
  | none =>
      if task.isBinary then .ok (task.fromUtf8Lossy bytes)
      else .error (.read task.resource (task.utf8Error bytes))

/-- Without a loader the source is that of the resource. -/
def load (rawSource : String) : BuildAction (LoaderResult × List FileUse) :=
  match task.loader with
  | none => return (⟨rawSource, [], []⟩, [])
  | some _ =>
      match task.runLoader with
      | none => liftM (Except.error (BuildError.loader task.resource "loader runner is unavailable"))
      | some run => (run rawSource).follow

def loaderDependency (request : LoaderModuleRequest) : Dependency :=
  let module : ModuleDependency := ⟨request.request, request.request, none, none, false⟩
  match request.kind with
  | .load => .loader module
  | .import => .loaderImport module

def builtContent (source : String) (sourceBytes : List UInt8) (requests : List LoaderModuleRequest)
    (parsed : ParsedModule Json) : BuiltModuleContent Json :=
  let parsed := { parsed with dependencies := parsed.dependencies ++ requests.map loaderDependency }
  if task.isBinary then BuiltModuleContent.newBinary task.library parsed source sourceBytes
  else BuiltModuleContent.new task.library parsed source

/-- `create_file_snapshot_bytes`: the metadata is taken after the bytes. -/
def takeSnapshot (path : PathBuf) (source : List UInt8) : BuildAction TakenSnapshot := do
  let files ← observed id
  let snapshot ← orFail .snapshot
    (Snapshot.createFileBytes (files.toFileSystem task.others) task.strategy task.info path source)
  return ⟨path, source, files, snapshot⟩

/-- The file of the loader is read again, as text. -/
def snapshotLoader : BuildAction (List TakenSnapshot) :=
  match task.loader with
  | none => return []
  | some loader => do
      let content ← readFile loader
      let bytes ← orFail (fun error => .read loader error.message) content
      let source ← liftM (((Decoder.fromUtf8 bytes).map Except.ok).getD
        (.error (BuildError.read loader "stream did not contain valid UTF-8")))
      let files ← observed id
      let snapshot ← orFail .snapshot
        (Snapshot.createFile (files.toFileSystem task.others) task.strategy task.info loader source)
      return [⟨loader, utf8Bytes source, files, snapshot⟩]

def snapshotDependencies : List PathBuf → BuildAction (List TakenSnapshot)
  | [] => return []
  | dependency :: dependencies => do
      let content ← readFile dependency
      let source ← orFail (fun error => .read dependency error.message) content
      let taken ← task.takeSnapshot dependency source
      let others ← snapshotDependencies dependencies
      return taken :: others

def run : BuildAction (BuiltRecord Json) := do
  let content ← readFile task.resource
  let rawBytes ← orFail (fun error => .read task.resource error.message) content
  let rawSource ← liftM (task.decode rawBytes)
  let (result, uses) ← task.load rawSource
  let sourceBytes := if task.loader.isSome then utf8Bytes result.source else rawBytes
  let parsed ← liftM (task.parse result.source sourceBytes)
  let builtContent := task.builtContent result.source sourceBytes result.requests parsed
  let resource ← task.takeSnapshot task.resource rawBytes
  let loader ← task.snapshotLoader
  let dependencies ← task.snapshotDependencies result.fileDependencies
  let taken := resource :: (loader ++ dependencies)
  let stored ← observed id
  return ⟨⟨builtContent, Snapshot.merge (taken.map (·.snapshot))⟩,
    ⟨task.resource, .ok rawBytes⟩ :: uses, taken, stored⟩

/-- The task, its steps interleaved with writes from outside, ends with the record. -/
def Ends (contents : Set (List UInt8)) (start : Files) (built : BuiltRecord Json) : Prop :=
  ∃ final, Relation.ReflTransGen
    (Interleaved (fun effect : Empty => effect.elim) (Files.Write contents)) (task.run.run, start)
    (.done (.ok built), final)

end BuildTask

end Unpack.CacheItem
