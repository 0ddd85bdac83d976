import Unpack.Lib.Run
import Unpack.LexicalPath
import Mathlib.Logic.Function.Basic

/-! The `sideEffects` field that a module inherits from its package, found by walking up the directories, and the
memo that the walks share. A walk remembers what it has found for every directory that it has visited; another
walk goes on from there. Each look into the memo and each entry into it is a step of its own. -/

namespace Unpack

inductive SerdeJson.Value where
  | null
  | bool (value : Bool)
  | number (text : String)
  | string (value : String)
  | array (values : List SerdeJson.Value)
  | object (fields : List (String × SerdeJson.Value))

def SerdeJson.Value.get (key : String) : SerdeJson.Value → Option SerdeJson.Value
  | object fields => fields.lookup key
  | _ => none

namespace Path

def join (path : Path) (name : String) : Path := path.push (.normal name)

theorem rootFirst_drop {components : List Component} (h : Component.rootDir ∉ components.tail) (count : Nat) :
    Component.rootDir ∉ (components.drop count).tail := by
  rw [List.tail_drop, Nat.add_comm, ← List.drop_drop, List.drop_one]
  exact fun hroot => h (List.mem_of_mem_drop hroot)

def stripPrefix (path root : Path) : Option Path :=
  if root.components.isPrefixOf path.components then
    some ⟨path.components.drop root.components.length, rootFirst_drop path.rootFirst _⟩
  else none

end Path

def Component.text : Component → String
  | rootDir => "/"
  | curDir => "."
  | parentDir => ".."
  | normal name => name

/-- Its separators are slashes already. -/
def Path.text (path : Path) : String :=
  match path.components with
  | .rootDir :: components => "/" ++ String.intercalate "/" (components.map Component.text)
  | components => String.intercalate "/" (components.map Component.text)

namespace NormalModuleFactory

inductive Error where
  | read (path : Path) (error : String)
  | resolve (request : String) (issuer : Path) (message : String)

structure PackageSideEffects where
  packageJson : Path
  root : Path
  value : SerdeJson.Value

abbrev PackageSideEffectsCache := Path → Option (Option PackageSideEffects)

/-- A file tree as the walk sees it, with the reader of JSON texts. -/
structure FileTree where
  isFile : Path → Bool
  readToString : Path → Except String String
  fromStr : String → Except String SerdeJson.Value

section

variable (tree : FileTree) (resource : Path)

/-- The `package.json` of a directory, if it has one. -/
def packageAt (current : Path) : Except Error (Option (Option PackageSideEffects)) :=
  let packageJson := current.join "package.json"
  if tree.isFile packageJson then
    match tree.readToString packageJson with
    | .error error => .error (.read packageJson error)
    | .ok source =>
        match tree.fromStr source with
        | .error error => .error (.resolve resource.text current ("invalid package.json: " ++ error))
        | .ok data => .ok (some ((data.get "sideEffects").map fun value => ⟨packageJson, current, value⟩))
  else .ok none

inductive WalkTurn where
  | up
  | stop (metadata : Option PackageSideEffects)
  | fail (error : Error)

/-- One turn of the walk, in a directory that is not in the cache. -/
def walkTurn (current : Path) : WalkTurn :=
  match packageAt tree resource current with
  | .error error => .fail error
  | .ok (some metadata) => .stop metadata
  | .ok none => .up

/-- The loop of `package_side_effects`, with the directories that were not in the cache. -/
def walk (cache : PackageSideEffectsCache) (uncachedDirectories : List Path) :
    Option Path → Except Error (Option PackageSideEffects × List Path)
  | none => .ok (none, uncachedDirectories)
  | some current =>
      match cache current with
      | some cached => .ok (cached, uncachedDirectories)
      | none =>
          match walkTurn tree resource current with
          | .fail error => .error error
          | .stop metadata => .ok (metadata, uncachedDirectories ++ [current])
          | .up => walk cache (uncachedDirectories ++ [current]) current.parent
termination_by directory => (directory.map fun current => current.components.length + 1).getD 0
decreasing_by
  cases hparent : current.parent with
  | none => exact Nat.succ_pos _
  | some parent => exact Nat.succ_lt_succ (Path.length_parent hparent)

def insertAll (metadata : Option PackageSideEffects) (cache : PackageSideEffectsCache) (directories : List Path) :
    PackageSideEffectsCache :=
  directories.foldl (fun cache directory => Function.update cache directory (some metadata)) cache

abbrev LookupAnswer := Option (Path × String × SerdeJson.Value)

/-- The end of `package_side_effects`. -/
def packageAnswer : Option PackageSideEffects → LookupAnswer
  | none => none
  | some metadata =>
      let relativePath := ((resource.stripPrefix metadata.root).getD resource).text
      some (metadata.packageJson, "./" ++ relativePath, metadata.value)

def packageSideEffects (cache : PackageSideEffectsCache) : Except Error LookupAnswer × PackageSideEffectsCache :=
  match walk tree resource cache [] resource.parent with
  | .error error => (.error error, cache)
  | .ok (metadata, uncachedDirectories) =>
      (.ok (packageAnswer resource metadata), insertAll metadata cache uncachedDirectories)

end

/-- Where a lookup is between two of its steps on the cache. -/
inductive LookupPoint where
  | walking (directory : Option Path) (uncachedDirectories : List Path)
  | inserting (metadata : Option PackageSideEffects) (uncachedDirectories : List Path)
  | finished (result : Except Error LookupAnswer)

structure Lookup where
  resource : Path
  point : LookupPoint

structure LookupSystem where
  cache : PackageSideEffectsCache := fun _ => none
  lookups : List Lookup := []

inductive LookupEvent where
  | lookup (resource : Path)
  | turn (index : Nat)

section

variable (tree : FileTree)

def LookupPoint.turn (resource : Path) (cache : PackageSideEffectsCache) :
    LookupPoint → Option (LookupPoint × PackageSideEffectsCache)
  | walking none uncachedDirectories => some (inserting none uncachedDirectories, cache)
  | walking (some current) uncachedDirectories =>
      match cache current with
      | some cached => some (inserting cached uncachedDirectories, cache)
      | none =>
          match walkTurn tree resource current with
          | .fail error => some (finished (.error error), cache)
          | .stop metadata => some (inserting metadata (uncachedDirectories ++ [current]), cache)
          | .up => some (walking current.parent (uncachedDirectories ++ [current]), cache)
  | inserting metadata (directory :: uncachedDirectories) =>
      some (inserting metadata uncachedDirectories, Function.update cache directory (some metadata))
  | inserting metadata [] => some (finished (.ok (packageAnswer resource metadata)), cache)
  | finished _ => none

def LookupSystem.step (system : LookupSystem) : LookupEvent → Option LookupSystem
  | .lookup resource =>
      some { system with lookups := system.lookups ++ [⟨resource, .walking resource.parent []⟩] }
  | .turn index => do
      let lookup ← system.lookups[index]?
      let (point, cache) ← lookup.point.turn tree lookup.resource system.cache
      return { cache, lookups := system.lookups.set index { lookup with point } }

/-- From an empty cache on. -/
abbrev LookupRun : List (LookupSystem × LookupEvent) → LookupSystem → Prop :=
  Interleaving.Run (fun system => system = {}) fun system event next => system.step tree event = some next

end

end NormalModuleFactory

end Unpack
