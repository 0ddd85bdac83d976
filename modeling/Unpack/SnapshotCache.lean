import Unpack.Lib.Memo
import Unpack.DirectoryTree
import Mathlib.Data.List.AList

/-! Snapshots with the cache of a compilation. It remembers the snapshots of files, the hashes of directories
and of all that is below them, and the states of managed items, under the components of their paths. Without a
cache everything is asked for again. -/

namespace Unpack.CacheItem

open Memo

abbrev DashMap (α β : Type) := AList fun _ : α => β

/-- What paths are equal by. -/
abbrev PathKey := List (List Nat)

/-- What is at a path, links not followed. The entries of a directory stand in the order of their names, and
below a directory an entry may be unreadable. -/
inductive TreeNode where
  | unreadable (error : IoError)
  | file (modified : Except IoError SystemTime) (content : Except IoError (List UInt8))
  | directory (entries : List (List UInt8 × TreeNode))
  | lockedDirectory (error : IoError)
  | symlink (modified : Except IoError SystemTime) (target : Except IoError String)
  | other (modified : Except IoError SystemTime)

/-- A file system at one time. The root of a managed item is found from a path and a boundary, and its state
from the root. -/
structure FileTrees where
  metadata : PathBuf → Except IoError Metadata
  read : PathBuf → Except IoError (List UInt8)
  node : PathBuf → TreeNode
  managedItemRoot : PathBuf → ManagedPathBoundary → Option PathBuf
  itemState : PathBuf → Option ManagedItemState
  toStringLossy : List UInt8 → String
  child : ∀ path entries, node path = .directory entries → ∀ entry ∈ entries, node (path.join entry.1) = entry.2
  metadata_of_read : ∀ path source, read path = .ok source → ∃ metadata', metadata path = .ok metadata'

structure DirectoryTimestampHash where
  hash : UInt64
  isDir : Bool
  deriving DecidableEq

structure SnapshotCache where
  fileSnapshots : DashMap (PathKey × SnapshotStrategy) FileSnapshot := ∅
  contextTimestampHashes : DashMap PathKey DirectoryTimestampHash := ∅
  contextContentHashes : DashMap PathKey UInt64 := ∅
  managedItemStates : DashMap PathKey (Option ManagedItemState) := ∅

/-- What may use a cache. -/
abbrev WithCache (α : Type) := StateM (Option SnapshotCache) α

abbrev TryWithCache (α : Type) := ExceptT IoError (StateM (Option SnapshotCache)) α

/-- What one table of the cache remembers, and how it is filled. -/
def remembered {α : Type} (find : SnapshotCache → Option α) (keep : α → SnapshotCache → SnapshotCache)
    (compute : TryWithCache α) : TryWithCache α :=
  memoized (·.bind find) (fun answer => Option.map (keep answer)) compute

def systemTimeHash (time : SystemTime) : UInt64 :=
  let (sign, duration) :=
    match time.durationSinceEpoch with
    | .ok duration => ("+", duration)
    | .error duration => ("-", duration)
  let hasher := StableHasher.new.writeStr sign
  ((hasher.writeU64 (UInt64.ofNat duration.seconds)).writeU64 (UInt64.ofNat duration.nanoseconds)).finish

def modifiedTimeHash (modified : Except IoError SystemTime) : Except IoError DirectoryTimestampHash :=
  (fun time => ⟨systemTimeHash time, false⟩) <$> modified

def writeManagedTimestampHash (state : ManagedItemState) (hasher : StableHasher) : StableHasher :=
  match state with
  | .package _ version => (hasher.writeStr "d").writeStr version
  | .nodeModules | .groupingFolder => hasher

/-- How a tree is hashed: what is not a directory, and what a directory writes for the name of an entry, a managed
item and any other entry. -/
structure TreeHash (α : Type) where
  file : Except IoError SystemTime → Except IoError (List UInt8) → Except IoError α
  symlink : Except IoError SystemTime → Except IoError String → Except IoError α
  other : Except IoError SystemTime → Except IoError α
  finish : UInt64 → α
  writeName : List UInt8 → StableHasher → StableHasher
  writeManaged : ManagedItemState → StableHasher → StableHasher
  writeEntry : Except IoError α → StableHasher → Except IoError StableHasher
  find : PathKey → SnapshotCache → Option α
  keep : PathKey → α → SnapshotCache → SnapshotCache

namespace FileTrees

variable (trees : FileTrees) (info : FileSystemInfo)

/-- `ManagedPathSnapshot::create`, without the path -/
def managedItem (path : PathBuf) (boundary : ManagedPathBoundary) : Option (PathBuf × ManagedItemState) := do
  let root ← trees.managedItemRoot path boundary
  let state ← trees.itemState root
  return (root, state)

section

variable {α : Type} (hash : TreeHash α)

mutual

def treeHashUncached (path : PathBuf) : TreeNode → TryWithCache α
  | .directory entries => do
      let hasher ← writeTree path entries StableHasher.new
      return hash.finish hasher.finish
  | .unreadable error | .lockedDirectory error => throw error
  | .file modified content => known (hash.file modified content)
  | .symlink modified target => known (hash.symlink modified target)
  | .other modified => known (hash.other modified)

/-- The loop over the entries of a directory. -/
def writeTree (path : PathBuf) : List (List UInt8 × TreeNode) → StableHasher → TryWithCache StableHasher
  | [], hasher => return hasher
  | (name, node) :: entries, hasher =>
      match info.classifyPath (path.join name) with
      | .immutable => writeTree path entries hasher
      | .managed boundary =>
          let hasher := hash.writeName name hasher
          match trees.managedItem (path.join name) boundary with
          | some (_, state) => writeTree path entries (hash.writeManaged state hasher)
          | none => writeTree path entries hasher
      | .unmanaged | .unclassified => do
          let result ← attempted (remembered (hash.find (path.join name).key) (hash.keep (path.join name).key)
            (treeHashUncached (path.join name) node))
          let hasher ← known (hash.writeEntry result (hash.writeName name hasher))
          writeTree path entries hasher

end

def treeHash (path : PathBuf) : TryWithCache α :=
  remembered (hash.find path.key) (hash.keep path.key) (trees.treeHashUncached info hash path (trees.node path))

end

/-- Times of what is not a directory, under the names of the entries. What cannot be hashed is written too. -/
def timestampHash : TreeHash DirectoryTimestampHash where
  file modified _ := modifiedTimeHash modified
  symlink modified _ := modifiedTimeHash modified
  other modified := modifiedTimeHash modified
  finish hash := ⟨hash, true⟩
  writeName name hasher := hasher.writeStr (trees.toStringLossy name)
  writeManaged := writeManagedTimestampHash
  writeEntry
    | .ok hash, hasher => .ok ((hasher.writeStr (if hash.isDir then "d" else "f")).writeU64 hash.hash)
    | .error _, hasher => .ok (hasher.writeStr "n")
  find key cache := cache.contextTimestampHashes.lookup key
  keep key hash cache := { cache with contextTimestampHashes := cache.contextTimestampHashes.insert key hash }

/-- Contents without names. -/
def contentHash : TreeHash UInt64 where
  file _ content := hashBytes <$> content
  symlink _ target := (fun target => hashBytes (utf8Bytes target)) <$> target
  other _ := .ok (hashBytes [])
  finish hash := hash
  writeName _ hasher := hasher
  writeManaged := writeManagedContentHash
  writeEntry result hasher := hasher.writeU64 <$> result
  find key cache := cache.contextContentHashes.lookup key
  keep key hash cache := { cache with contextContentHashes := cache.contextContentHashes.insert key hash }

def directoryTimestampHash (path : PathBuf) : TryWithCache DirectoryTimestampHash :=
  trees.treeHash info trees.timestampHash path

def directoryContentHash (path : PathBuf) : TryWithCache UInt64 := trees.treeHash info contentHash path

/-- The answers without a cache. -/
def toFileSystem : FileSystem where
  metadata := trees.metadata
  read := trees.read
  directoryTimestampHash path := (·.hash) <$> ((trees.directoryTimestampHash info path).run none).1
  directoryContentHash path := ((trees.directoryContentHash info path).run none).1
  managedItem := trees.managedItem

end FileTrees

def pieceComponents (pieces : List (List UInt8)) : List PathComponent :=
  pieces.filterMap fun piece =>
    if piece = [] ∨ piece = [0x2E] then none
    else if piece = [0x2E, 0x2E] then some .parentDir
    else some (.normal piece)

/-- What follows a separator adds its components. -/
theorem components_append {front name bytes : List UInt8} {pieces : List (List UInt8)}
    (hpieces : bytes.splitOn 0x2F = (front.splitOn 0x2F) ++ pieces) (hnone : pieceComponents pieces = [])
    (hhead : bytes.head? = (front ++ 0x2F :: name).head?) :
    (PathBuf.mk (front ++ 0x2F :: name)).components =
      (PathBuf.mk bytes).components ++ pieceComponents (name.splitOn 0x2F) := by
  have hfirst : ((front.splitOn 0x2F) ++ pieces).head? = (front.splitOn 0x2F ++ name.splitOn 0x2F).head? := by
    rw [List.head?_append_of_ne_nil _ (List.splitOn_ne_nil _ _),
      List.head?_append_of_ne_nil _ (List.splitOn_ne_nil _ _)]
  rw [pieceComponents] at hnone
  simp only [PathBuf.components, List.splitOn_append_cons_self, hpieces, ← hhead, hfirst, List.filterMap_append,
    hnone, List.append_nil, pieceComponents, List.append_assoc]

/-- An entry of a directory adds the components of its name. -/
theorem PathBuf.components_join {path : PathBuf} (hsome : path.bytes ≠ []) (name : List UInt8) :
    (path.join name).components = path.components ++ pieceComponents (name.splitOn 0x2F) := by
  obtain ⟨front, last, hbytes⟩ := List.eq_nil_or_concat' path.bytes |>.resolve_left hsome
  by_cases hlast : last = 0x2F
  · have hjoin : path.join name = ⟨front ++ 0x2F :: name⟩ := by
      simp [join, hbytes, hlast]
    rw [hjoin]
    refine @components_append _ _ _ [[]] ?_ rfl ?_
    · rw [hbytes, hlast]
      exact List.splitOn_append_cons_self front []
    · rw [hbytes, hlast, List.head?_append, List.head?_append]
      rfl
  · have hjoin : path.join name = ⟨path.bytes ++ 0x2F :: name⟩ := by
      simp [join, hbytes, hlast]
    rw [hjoin]
    refine @components_append _ _ _ [] (List.append_nil _).symm rfl ?_
    exact (List.head?_append_of_ne_nil _ hsome).symm

theorem PathBuf.bytes_eq_nil {path : PathBuf} (h : path.key = []) : path.bytes = [] := by
  have hnone : path.components = [] := List.map_eq_nil_iff.mp h
  cases hbytes : path.bytes with
  | nil => rfl
  | cons byte bytes =>
      exfalso
      obtain ⟨first, rest, hrest⟩ := List.exists_cons_of_ne_nil (List.splitOn_ne_nil (0x2F : UInt8) bytes)
      by_cases hroot : byte = 0x2F
      · simp [components, hbytes, hroot] at hnone
      · have hpieces : path.bytes.splitOn 0x2F = (byte :: first) :: rest := by
          rw [hbytes, List.splitOn_cons_eq_if_modifyHead, if_neg (by simpa using hroot), hrest]
          rfl
        rw [components, hpieces] at hnone
        by_cases hdot : byte :: first = [0x2E]
        · simp [hbytes, hroot, hdot] at hnone
        · by_cases hdots : byte :: first = [0x2E, 0x2E]
          · simp [hbytes, hroot, hdots] at hnone
          · simp [hbytes, hroot, hdot, hdots] at hnone

theorem PathBuf.key_join {path other : PathBuf} (h : path.key = other.key) (name : List UInt8) :
    (path.join name).key = (other.join name).key := by
  by_cases hpath : path.bytes = []
  · have hother : other.bytes = [] := PathBuf.bytes_eq_nil (by rw [← h]; simp [key, components, hpath])
    rw [join, join, hpath, hother]
  · have hother : other.bytes ≠ [] := by
      intro hnil
      exact hpath (PathBuf.bytes_eq_nil (by rw [h]; simp [key, components, hnil]))
    rw [key, key, components_join hpath, components_join hother, List.map_append, List.map_append]
    exact congrArg (· ++ _) h

theorem remembered_none {α : Type} (find : SnapshotCache → Option α) (keep : α → SnapshotCache → SnapshotCache)
    (compute : TryWithCache α) : ((remembered find keep compute).run none).1 = (compute.run none).1 := by
  rw [remembered, memoized, ExceptT.run_mk]
  rcases hcompute : compute.run none with ⟨result, cache⟩
  simp only [Option.bind_none]
  cases result <;> rfl

namespace FileTrees

variable {trees : FileTrees} {info : FileSystemInfo}

variable (trees info) in
/-- Paths that are equal are answered and classified alike. -/
structure AnswersAlike : Prop where
  metadata : ∀ {path other : PathBuf}, path.key = other.key → trees.metadata path = trees.metadata other
  read : ∀ {path other : PathBuf}, path.key = other.key → trees.read path = trees.read other
  node : ∀ {path other : PathBuf}, path.key = other.key → trees.node path = trees.node other
  managedItemRoot : ∀ {path other : PathBuf}, path.key = other.key →
    trees.managedItemRoot path = trees.managedItemRoot other
  itemState : ∀ {path other : PathBuf}, path.key = other.key → trees.itemState path = trees.itemState other
  classifyPath : ∀ {path other : PathBuf}, path.key = other.key → info.classifyPath path = info.classifyPath other

section

variable {α : Type} (hash : TreeHash α)

theorem managedItem_congr (halike : trees.AnswersAlike info) {path other : PathBuf} (h : path.key = other.key) :
    trees.managedItem path = trees.managedItem other := by
  funext boundary
  rw [managedItem, managedItem, halike.managedItemRoot h]

mutual

theorem treeHashUncached_congr (halike : trees.AnswersAlike info) :
    ∀ (node : TreeNode) {path other : PathBuf}, path.key = other.key →
    trees.treeHashUncached info hash path node = trees.treeHashUncached info hash other node
  | .directory entries, path, other, h => by
      rw [treeHashUncached, treeHashUncached, writeTree_congr halike entries _ h]
  | .unreadable error, path, other, h => by rw [treeHashUncached, treeHashUncached]
  | .lockedDirectory error, path, other, h => by rw [treeHashUncached, treeHashUncached]
  | .file modified content, path, other, h => by rw [treeHashUncached, treeHashUncached]
  | .symlink modified target, path, other, h => by rw [treeHashUncached, treeHashUncached]
  | .other modified, path, other, h => by rw [treeHashUncached, treeHashUncached]

theorem writeTree_congr (halike : trees.AnswersAlike info) : ∀ (entries : List (List UInt8 × TreeNode))
    (hasher : StableHasher) {path other : PathBuf}, path.key = other.key →
      trees.writeTree info hash path entries hasher = trees.writeTree info hash other entries hasher
  | [], hasher, path, other, h => by rw [writeTree, writeTree]
  | (name, node) :: entries, hasher, path, other, h => by
      have hname := PathBuf.key_join h name
      rw [writeTree, writeTree, halike.classifyPath hname, managedItem_congr halike hname, hname,
        treeHashUncached_congr halike node hname]
      simp only [fun hasher => writeTree_congr halike entries hasher h]

end

end

variable (trees info) in
/-- What the tables hold is what is found without a cache. -/
structure SoundCache (cache : SnapshotCache) : Prop where
  fileSnapshots : ∀ (path : PathBuf) strategy snapshot,
    cache.fileSnapshots.lookup (path.key, strategy) = some snapshot →
      FileSnapshot.createFromPath (trees.toFileSystem info) strategy path = .ok snapshot
  contextTimestampHashes : ∀ (path : PathBuf) hash, cache.contextTimestampHashes.lookup path.key = some hash →
    ((trees.directoryTimestampHash info path).run none).1 = .ok hash
  contextContentHashes : ∀ (path : PathBuf) hash, cache.contextContentHashes.lookup path.key = some hash →
    ((trees.directoryContentHash info path).run none).1 = .ok hash
  managedItemStates : ∀ (path : PathBuf) state, cache.managedItemStates.lookup path.key = some state →
    trees.itemState path = state

variable (trees info) in
def Sound (memo : Option SnapshotCache) : Prop := ∀ cache, memo = some cache → trees.SoundCache info cache

theorem sound_none : trees.Sound info none := nofun

theorem sound_fresh : trees.Sound info (some {}) := by
  intro cache hcache
  cases hcache
  exact ⟨nofun, nofun, nofun, nofun⟩

/-- An answer that holds for all equal paths may be remembered. -/
theorem yields_remembered {α : Type} {find : SnapshotCache → Option α} {keep : α → SnapshotCache → SnapshotCache}
    {compute : TryWithCache α} {value : Except IoError α}
    (hfind : ∀ cache answer, trees.SoundCache info cache → find cache = some answer → value = .ok answer)
    (hkeep : ∀ cache answer, trees.SoundCache info cache → value = .ok answer →
      trees.SoundCache info (keep answer cache))
    (hcompute : Yields (trees.Sound info) compute.run value) :
    Yields (trees.Sound info) (remembered find keep compute).run value := by
  refine Yields.memoized ?_ ?_ hcompute
  · intro memo answer hmemo hanswer
    obtain ⟨cache, rfl, hfound⟩ := Option.bind_eq_some_iff.mp hanswer
    exact hfind cache answer (hmemo cache rfl) hfound
  · intro memo answer hmemo hvalue cache hcache
    obtain ⟨before, rfl, rfl⟩ := Option.map_eq_some_iff.mp hcache
    exact hkeep before answer (hmemo before rfl) hvalue

variable (trees info) in
/-- The table of a hash holds its answers and no others. -/
structure TreeHash.Kept {α : Type} (hash : TreeHash α) : Prop where
  find : ∀ {cache : SnapshotCache} {path : PathBuf} {answer : α}, trees.SoundCache info cache →
    hash.find path.key cache = some answer → ((trees.treeHash info hash path).run none).1 = .ok answer
  keep : ∀ {cache : SnapshotCache} {path : PathBuf} {answer : α}, trees.SoundCache info cache →
    (∀ other : PathBuf, other.key = path.key → ((trees.treeHash info hash other).run none).1 = .ok answer) →
      trees.SoundCache info (hash.keep path.key answer cache)

section

variable {α : Type} {hash : TreeHash α} (halike : trees.AnswersAlike info)

include halike

theorem treeHash_congr {path other : PathBuf} (h : path.key = other.key) :
    trees.treeHash info hash path = trees.treeHash info hash other := by
  rw [treeHash, treeHash, h, halike.node h, treeHashUncached_congr hash halike _ h]

end

/-- The hash of a path is remembered when it is that of what is there. -/
theorem stable_treeHash (halike : trees.AnswersAlike info) {α : Type} {hash : TreeHash α}
    (hkept : TreeHash.Kept trees info hash) {path : PathBuf}
    (huncached : Stable (trees.Sound info) (trees.treeHashUncached info hash path (trees.node path)).run) :
    Stable (trees.Sound info) (trees.treeHash info hash path).run := by
  have hvalue : ∀ answer, ((trees.treeHashUncached info hash path (trees.node path)).run none).1 = .ok answer ↔
      ((trees.treeHash info hash path).run none).1 = .ok answer := by
    intro answer
    rw [treeHash, remembered_none]
  refine ⟨_, yields_remembered ?_ ?_ (huncached.yields sound_none)⟩
  · intro cache answer hcache hfound
    exact (hvalue answer).mpr (hkept.find hcache hfound)
  · intro cache answer hcache hanswer
    refine hkept.keep hcache fun other hother => ?_
    rw [treeHash_congr halike hother]
    exact (hvalue answer).mp hanswer

section

variable {α : Type} {hash : TreeHash α} {sound : Option SnapshotCache → Prop}

mutual

/-- A tree is hashed alike with all memos when remembering is harmless. -/
theorem stable_treeHashUncached (hremember : ∀ {path : PathBuf},
      Stable sound (trees.treeHashUncached info hash path (trees.node path)).run →
        Stable sound (trees.treeHash info hash path).run) :
    ∀ {path : PathBuf} (node : TreeNode), trees.node path = node →
      Stable sound (trees.treeHashUncached info hash path node).run
  | path, .directory entries, hnode => by
      rw [treeHashUncached]
      refine Stable.bindExcept (stable_writeTree hremember entries ?_ _) fun hasher => ⟨_, Yields.pure _⟩
      exact trees.child path entries hnode
  | path, .unreadable error, hnode => by
      rw [treeHashUncached]
      exact ⟨_, Yields.pure _⟩
  | path, .lockedDirectory error, hnode => by
      rw [treeHashUncached]
      exact ⟨_, Yields.pure _⟩
  | path, .file modified content, hnode => by
      rw [treeHashUncached]
      exact ⟨_, Yields.known _⟩
  | path, .symlink modified target, hnode => by
      rw [treeHashUncached]
      exact ⟨_, Yields.known _⟩
  | path, .other modified, hnode => by
      rw [treeHashUncached]
      exact ⟨_, Yields.known _⟩

theorem stable_writeTree (hremember : ∀ {path : PathBuf},
      Stable sound (trees.treeHashUncached info hash path (trees.node path)).run →
        Stable sound (trees.treeHash info hash path).run) :
    ∀ {path : PathBuf} (entries : List (List UInt8 × TreeNode)),
      (∀ entry ∈ entries, trees.node (path.join entry.1) = entry.2) → ∀ hasher : StableHasher,
        Stable sound (trees.writeTree info hash path entries hasher).run
  | path, [], hentries, hasher => by
      rw [writeTree]
      exact ⟨_, Yields.pure _⟩
  | path, (name, node) :: entries, hentries, hasher => by
      have hnode : trees.node (path.join name) = node := hentries (name, node) List.mem_cons_self
      have hrest := stable_writeTree hremember entries fun entry hentry =>
        hentries entry (List.mem_cons_of_mem _ hentry)
      have hentry : ∀ hasher, Stable sound (do
          let result ← attempted (remembered (hash.find (path.join name).key) (hash.keep (path.join name).key)
            (trees.treeHashUncached info hash (path.join name) node))
          let hasher ← known (hash.writeEntry result (hash.writeName name hasher))
          trees.writeTree info hash path entries hasher : TryWithCache StableHasher).run := by
        intro hasher
        have hchild := hremember (hnode ▸ stable_treeHashUncached hremember node hnode)
        rw [treeHash, hnode] at hchild
        obtain ⟨value, hvalue⟩ := hchild
        refine Stable.bindExcept ⟨_, hvalue.attempted⟩ fun result => ?_
        exact Stable.bindExcept ⟨_, Yields.known _⟩ hrest
      rw [writeTree]
      split
      · exact hrest hasher
      · dsimp only
        split
        · exact hrest _
        · exact hrest _
      · exact hentry hasher
      · exact hentry hasher

end

end

theorem lookup_insert_cases {α β : Type} [DecidableEq α] {map : DashMap α β} {key other : α} {value found : β}
    (h : (map.insert key value).lookup other = some found) :
    other = key ∧ value = found ∨ map.lookup other = some found := by
  by_cases hkey : other = key
  · subst hkey
    rw [AList.lookup_insert] at h
    exact Or.inl ⟨rfl, Option.some.inj h⟩
  · rw [AList.lookup_insert_ne hkey] at h
    exact Or.inr h

theorem kept_timestampHash : TreeHash.Kept trees info trees.timestampHash where
  find hcache hfound := hcache.contextTimestampHashes _ _ hfound
  keep hcache hanswer := {
    hcache with
    contextTimestampHashes := by
      intro path hash hfound
      rcases lookup_insert_cases hfound with ⟨hkey, rfl⟩ | hfound
      · exact hanswer path hkey
      · exact hcache.contextTimestampHashes path hash hfound }

theorem kept_contentHash : TreeHash.Kept trees info contentHash where
  find hcache hfound := hcache.contextContentHashes _ _ hfound
  keep hcache hanswer := {
    hcache with
    contextContentHashes := by
      intro path hash hfound
      rcases lookup_insert_cases hfound with ⟨hkey, rfl⟩ | hfound
      · exact hanswer path hkey
      · exact hcache.contextContentHashes path hash hfound }

/-- A hash is found with a sound cache as it is without one. -/
theorem yields_treeHash (halike : trees.AnswersAlike info) {α : Type} {hash : TreeHash α}
    (hkept : TreeHash.Kept trees info hash) (path : PathBuf) :
    Yields (trees.Sound info) (trees.treeHash info hash path).run ((trees.treeHash info hash path).run none).1 :=
  (stable_treeHash halike hkept
    (stable_treeHashUncached (stable_treeHash halike hkept) _ rfl)).yields sound_none

theorem yields_remembered_none {α : Type} {find : SnapshotCache → Option α}
    {keep : α → SnapshotCache → SnapshotCache} {compute : TryWithCache α} {value : Except IoError α}
    (h : Yields (· = none) compute.run value) : Yields (· = none) (remembered find keep compute).run value := by
  refine Yields.memoized ?_ ?_ h
  · rintro memo answer rfl hanswer
    cases hanswer
  · rintro memo answer rfl _
    rfl

theorem yields_treeHash_none {α : Type} (hash : TreeHash α) (path : PathBuf) :
    Yields (· = none) (trees.treeHash info hash path).run ((trees.treeHash info hash path).run none).1 := by
  have hremember : ∀ {path : PathBuf},
      Stable (· = none) (trees.treeHashUncached info hash path (trees.node path)).run →
        Stable (· = none) (trees.treeHash info hash path).run := by
    rintro path ⟨value, hvalue⟩
    exact ⟨value, yields_remembered_none hvalue⟩
  exact (hremember (stable_treeHashUncached hremember _ rfl)).yields rfl

end FileTrees

end Unpack.CacheItem
