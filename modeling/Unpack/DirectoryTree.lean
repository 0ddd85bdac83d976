import Unpack.Lib.Codec
import Unpack.SnapshotValidity

/-! The content hash of a directory tree, as the hasher is fed along the tree, and the bytes that it is the
hash of. Answers are taken afresh: the maps of hashes in the cache of a compilation are left out. -/

namespace Unpack.CacheItem

open Fallible

/-- What is at a path, links not followed. The entries of a directory stand in the order of their names. A
link goes with the text of the path it leads to. -/
inductive Node where
  | file (content : Except IoError (List UInt8))
  | directory (entries : List (List UInt8 × Node))
  | lockedDirectory (error : IoError)
  | symlink (target : Except IoError String)
  | other

/-- `Path::join` with a file name. -/
def PathBuf.join (path : PathBuf) (name : List UInt8) : PathBuf :=
  ⟨path.bytes ++ (if path.bytes.getLast? ∈ [none, some 0x2F] then [] else [0x2F]) ++ name⟩

structure StableHasher where
  hash : UInt64

namespace StableHasher

def new : StableHasher := ⟨14695981039346656037⟩

def write (hasher : StableHasher) (source : List UInt8) : StableHasher :=
  ⟨source.foldl (fun hash byte => (hash ^^^ byte.toUInt64) * 1099511628211) hasher.hash⟩

def writeStr (hasher : StableHasher) (source : String) : StableHasher := hasher.write (utf8Bytes source)

def writeU64 (hasher : StableHasher) (value : UInt64) : StableHasher :=
  hasher.write (Codec.littleEndian 8 value.toNat)

def finish (hasher : StableHasher) : UInt64 := hasher.hash

theorem write_write (hasher : StableHasher) (first second : List UInt8) :
    (hasher.write first).write second = hasher.write (first ++ second) := by
  rw [write, write, write, List.foldl_append]

theorem finish_new_write (source : List UInt8) : (new.write source).finish = stableHashBytes source := rfl

end StableHasher

def hashBytes (source : List UInt8) : UInt64 := (StableHasher.new.write source).finish

theorem hashBytes_eq (source : List UInt8) : hashBytes source = stableHashBytes source :=
  StableHasher.finish_new_write source

def writeManagedContentHash (state : ManagedItemState) (hasher : StableHasher) : StableHasher :=
  match state with
  | .package _ version => hasher.writeStr version
  | .nodeModules | .groupingFolder => hasher

section

variable (managedItem : PathBuf → ManagedPathBoundary → Option (PathBuf × ManagedItemState))
  (info : FileSystemInfo)

mutual

def directoryContentHash (path : PathBuf) : Node → Except IoError UInt64
  | .directory entries => do
      let hasher ← writeEntries path entries StableHasher.new
      return hasher.finish
  | .lockedDirectory error => .error error
  | .symlink target => do
      let target ← target
      return hashBytes (utf8Bytes target)
  | .file content => do
      let source ← content
      return hashBytes source
  | .other => .ok (hashBytes [])

/-- The loop over the entries of a directory. -/
def writeEntries (path : PathBuf) : List (List UInt8 × Node) → StableHasher → Except IoError StableHasher
  | [], hasher => .ok hasher
  | (name, node) :: entries, hasher =>
      match info.classifyPath (path.join name) with
      | .immutable => writeEntries path entries hasher
      | .managed boundary =>
          match managedItem (path.join name) boundary with
          | some (_, state) => writeEntries path entries (writeManagedContentHash state hasher)
          | none => writeEntries path entries hasher
      | .unmanaged | .unclassified => do
          let hash ← directoryContentHash (path.join name) node
          writeEntries path entries (hasher.writeU64 hash)

end

/-- The version of a package, if the managed path is in one. -/
def versionBytes (path : PathBuf) (boundary : ManagedPathBoundary) : List UInt8 :=
  match managedItem path boundary with
  | some (_, .package _ version) => utf8Bytes version
  | _ => []

mutual

def contentBytes (path : PathBuf) : Node → Except IoError (List UInt8)
  | .directory entries => entryBytes path entries
  | .lockedDirectory error => .error error
  | .symlink target => utf8Bytes <$> target
  | .file content => content
  | .other => .ok []

def entryBytes (path : PathBuf) : List (List UInt8 × Node) → Except IoError (List UInt8)
  | [] => .ok []
  | (name, node) :: entries =>
      match info.classifyPath (path.join name) with
      | .immutable => entryBytes path entries
      | .managed boundary => do
          let rest ← entryBytes path entries
          return versionBytes managedItem (path.join name) boundary ++ rest
      | .unmanaged | .unclassified => do
          let bytes ← contentBytes (path.join name) node
          let rest ← entryBytes path entries
          return Codec.littleEndian 8 (stableHashBytes bytes).toNat ++ rest

end

variable {managedItem info}

theorem map_write_map (hasher : StableHasher) (first : List UInt8) (rest : Except IoError (List UInt8)) :
    (hasher.write first).write <$> rest = hasher.write <$> ((first ++ ·) <$> rest) := by
  cases rest with
  | error error => rfl
  | ok rest =>
      change Except.ok ((hasher.write first).write rest) = Except.ok (hasher.write (first ++ rest))
      rw [StableHasher.write_write]

section

variable {path : PathBuf} {name : List UInt8} {node : Node} {entries : List (List UInt8 × Node)}

theorem directoryContentHash_directory
    (hentries : writeEntries managedItem info path entries StableHasher.new =
      StableHasher.new.write <$> entryBytes managedItem info path entries) :
    directoryContentHash managedItem info path (.directory entries) =
      stableHashBytes <$> contentBytes managedItem info path (.directory entries) := by
  rw [directoryContentHash, contentBytes, hentries]
  cases entryBytes managedItem info path entries with
  | error error => rfl
  | ok bytes => exact congrArg Except.ok (StableHasher.finish_new_write bytes)

theorem directoryContentHash_symlink (target : Except IoError String) :
    directoryContentHash managedItem info path (.symlink target) =
      stableHashBytes <$> contentBytes managedItem info path (.symlink target) := by
  rw [directoryContentHash, contentBytes]
  cases target with
  | error error => rfl
  | ok target => exact congrArg Except.ok (hashBytes_eq _)

theorem directoryContentHash_file (content : Except IoError (List UInt8)) :
    directoryContentHash managedItem info path (.file content) =
      stableHashBytes <$> contentBytes managedItem info path (.file content) := by
  rw [directoryContentHash, contentBytes]
  cases content with
  | error error => rfl
  | ok source => exact congrArg Except.ok (hashBytes_eq source)

/-- An entry that is neither immutable nor managed. -/
theorem writeEntries_ordinary {hasher : StableHasher}
    (hnode : directoryContentHash managedItem info (path.join name) node =
      stableHashBytes <$> contentBytes managedItem info (path.join name) node)
    (hentries : ∀ hasher : StableHasher, writeEntries managedItem info path entries hasher =
      hasher.write <$> entryBytes managedItem info path entries) :
    (do
      let hash ← directoryContentHash managedItem info (path.join name) node
      writeEntries managedItem info path entries (hasher.writeU64 hash)) =
    hasher.write <$> (do
      let bytes ← contentBytes managedItem info (path.join name) node
      let rest ← entryBytes managedItem info path entries
      return Codec.littleEndian 8 (stableHashBytes bytes).toNat ++ rest) := by
  rw [hnode]
  cases contentBytes managedItem info (path.join name) node with
  | error error => rfl
  | ok bytes =>
      calc writeEntries managedItem info path entries (hasher.writeU64 (stableHashBytes bytes))
          = (hasher.writeU64 (stableHashBytes bytes)).write <$>
              entryBytes managedItem info path entries := hentries _
        _ = hasher.write <$> ((Codec.littleEndian 8 (stableHashBytes bytes).toNat ++ ·) <$>
              entryBytes managedItem info path entries) := map_write_map ..

theorem writeEntries_managed {hasher : StableHasher} (boundary : ManagedPathBoundary)
    (hentries : ∀ hasher : StableHasher, writeEntries managedItem info path entries hasher =
      hasher.write <$> entryBytes managedItem info path entries) :
    (match managedItem (path.join name) boundary with
      | some (_, state) =>
          writeEntries managedItem info path entries (writeManagedContentHash state hasher)
      | none => writeEntries managedItem info path entries hasher) =
    hasher.write <$> ((versionBytes managedItem (path.join name) boundary ++ ·) <$>
      entryBytes managedItem info path entries) := by
  have hwrites : ∀ version : List UInt8, writeEntries managedItem info path entries (hasher.write version) =
      hasher.write <$> ((version ++ ·) <$> entryBytes managedItem info path entries) := by
    intro version
    rw [hentries, map_write_map]
  rw [versionBytes]
  cases managedItem (path.join name) boundary with
  | none => exact hwrites []
  | some item =>
      obtain ⟨root, state⟩ := item
      cases state with
      | nodeModules => exact hwrites []
      | groupingFolder => exact hwrites []
      | package packageName version => exact hwrites (utf8Bytes version)

theorem writeEntries_cons {hasher : StableHasher}
    (hnode : directoryContentHash managedItem info (path.join name) node =
      stableHashBytes <$> contentBytes managedItem info (path.join name) node)
    (hentries : ∀ hasher : StableHasher, writeEntries managedItem info path entries hasher =
      hasher.write <$> entryBytes managedItem info path entries) :
    writeEntries managedItem info path ((name, node) :: entries) hasher =
      hasher.write <$> entryBytes managedItem info path ((name, node) :: entries) := by
  rw [writeEntries, entryBytes]
  cases info.classifyPath (path.join name) with
  | immutable => exact hentries hasher
  | managed boundary => exact writeEntries_managed boundary hentries
  | unmanaged => exact writeEntries_ordinary hnode hentries
  | unclassified => exact writeEntries_ordinary hnode hentries

end

mutual

theorem directoryContentHash_eq (path : PathBuf) : ∀ node : Node,
    directoryContentHash managedItem info path node =
      stableHashBytes <$> contentBytes managedItem info path node
  | .directory entries => directoryContentHash_directory (writeEntries_eq path entries _)
  | .lockedDirectory error => by
      rw [directoryContentHash, contentBytes]
      rfl
  | .symlink target => directoryContentHash_symlink target
  | .file content => directoryContentHash_file content
  | .other => by
      rw [directoryContentHash, contentBytes]
      exact congrArg Except.ok (hashBytes_eq [])

theorem writeEntries_eq (path : PathBuf) : ∀ (entries : List (List UInt8 × Node)) (hasher : StableHasher),
    writeEntries managedItem info path entries hasher =
      hasher.write <$> entryBytes managedItem info path entries
  | [], hasher => by
      rw [writeEntries, entryBytes]
      rfl
  | (name, node) :: entries, _ =>
      writeEntries_cons (directoryContentHash_eq (path.join name) node) (writeEntries_eq path entries)

end

end

end Unpack.CacheItem
