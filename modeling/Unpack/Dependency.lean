import Mathlib.Data.String.Basic
import Mathlib.Data.Prod.Lex
import Mathlib.Order.WithBot

/-! The dependency records of a module and the predicates the later phases ask of them. Fields that
no modelled phase reads (`user_request`, `weak`, the unused `import_var`) are left out. -/

namespace Unpack

/-- Arena handles are dense indices. -/
abbrev ModuleHandle := Nat
abbrev ModuleGraphConnectionHandle := Nat
abbrev DependencyIndex := Nat
abbrev AsyncDependenciesBlockIndex := Nat

/-- A byte range of the module source; `stop` is the source's `end`. -/
structure SourceRange where
  start : Nat
  stop : Nat
  deriving DecidableEq

structure ModuleDependency where
  request : String
  sourceOrder : Option Nat := none
  range : Option SourceRange := none
  deriving DecidableEq

structure EntryDependency where
  module : ModuleDependency
  deriving DecidableEq

structure HarmonyImportSideEffectDependency where
  module : ModuleDependency
  deriving DecidableEq

structure HarmonyImportSpecifierDependency where
  module : ModuleDependency
  ids : List String
  name : String
  usageRange : SourceRange
  shorthand : Bool := false
  deriving DecidableEq

structure HarmonyExportHeaderDependency where
  declarationRange : Option SourceRange
  statementRange : SourceRange
  deriving DecidableEq

structure HarmonyExportSpecifierDependency where
  id : String
  name : String
  deriving DecidableEq

structure HarmonyExportExpressionDependency where
  range : SourceRange
  statementRange : SourceRange
  declarationId : Option String
  deriving DecidableEq

structure HarmonyExportImportedSpecifierDependency where
  module : ModuleDependency
  ids : List String
  name : Option String
  isStar : Bool
  deriving DecidableEq

structure ConstDependency where
  expression : String
  range : SourceRange
  deriving DecidableEq

structure ImportDependency where
  module : ModuleDependency
  deriving DecidableEq

structure LoaderDependency where
  module : ModuleDependency
  deriving DecidableEq

inductive Dependency where
  | entry (dep : EntryDependency)
  | harmonyImportSideEffect (dep : HarmonyImportSideEffectDependency)
  | harmonyImportSpecifier (dep : HarmonyImportSpecifierDependency)
  | harmonyExportHeader (dep : HarmonyExportHeaderDependency)
  | harmonyExportSpecifier (dep : HarmonyExportSpecifierDependency)
  | harmonyExportExpression (dep : HarmonyExportExpressionDependency)
  | harmonyExportImportedSpecifier (dep : HarmonyExportImportedSpecifierDependency)
  | null
  | const (dep : ConstDependency)
  | import (dep : ImportDependency)
  | loader (dep : LoaderDependency)
  | loaderImport (dep : LoaderDependency)
  deriving DecidableEq

namespace Dependency

def moduleDependency : Dependency → Option ModuleDependency
  | .entry dep => some dep.module
  | .harmonyImportSideEffect dep => some dep.module
  | .harmonyImportSpecifier dep => some dep.module
  | .harmonyExportImportedSpecifier dep => some dep.module
  | .import dep => some dep.module
  | .loader dep => some dep.module
  | .loaderImport dep => some dep.module
  | .harmonyExportHeader _ | .harmonyExportSpecifier _ | .harmonyExportExpression _
  | .null | .const _ => none

/-- A dependency with a resource identifier, which every one with a request has. -/
def isModuleDependency (dependency : Dependency) : Bool :=
  dependency.moduleDependency.isSome

def isStaticModuleDependency : Dependency → Bool
  | .entry _ | .harmonyImportSideEffect _ | .harmonyImportSpecifier _
  | .harmonyExportImportedSpecifier _ => true
  | _ => false

def isImportDependency : Dependency → Bool
  | .import _ => true
  | _ => false

def isHarmonyDependency : Dependency → Bool
  | .harmonyImportSideEffect _ | .harmonyImportSpecifier _ | .harmonyExportHeader _
  | .harmonyExportSpecifier _ | .harmonyExportExpression _
  | .harmonyExportImportedSpecifier _ => true
  | _ => false

def canConcatenate : Dependency → Bool
  | .harmonyImportSideEffect _ | .harmonyImportSpecifier _
  | .harmonyExportImportedSpecifier _ => true
  | _ => false

def isHarmonyImportSideEffect : Dependency → Bool
  | .harmonyImportSideEffect _ => true
  | _ => false

def isHarmonyImportSpecifier : Dependency → Bool
  | .harmonyImportSpecifier _ => true
  | _ => false

/-- A star re-export with a name of its own, which the parser never makes. -/
def isNamedStar : Dependency → Bool
  | .harmonyExportImportedSpecifier dep => dep.isStar && dep.name.isSome
  | _ => false

/-- The rewrite of the side effects phase: the first id of a named import or re-export. -/
def setFirstId (name : String) : Dependency → Dependency
  | .harmonyImportSpecifier dep =>
      match dep.ids with
      | _ :: rest => .harmonyImportSpecifier { dep with ids := name :: rest }
      | [] => .harmonyImportSpecifier dep
  | .harmonyExportImportedSpecifier dep =>
      match dep.ids with
      | _ :: rest => .harmonyExportImportedSpecifier { dep with ids := name :: rest }
      | [] => .harmonyExportImportedSpecifier dep
  | dependency => dependency

@[simp] theorem isStaticModuleDependency_setFirstId (name : String) (dependency : Dependency) :
    (dependency.setFirstId name).isStaticModuleDependency = dependency.isStaticModuleDependency := by
  cases dependency <;> simp only [setFirstId] <;> split <;> rfl

@[simp] theorem isImportDependency_setFirstId (name : String) (dependency : Dependency) :
    (dependency.setFirstId name).isImportDependency = dependency.isImportDependency := by
  cases dependency <;> simp only [setFirstId] <;> split <;> rfl

/-- Static imports and re-exports are never dynamic imports. -/
theorem isStaticModuleDependency_of_isHarmonyImportSideEffect {dependency : Dependency}
    (h : dependency.isHarmonyImportSideEffect = true) :
    dependency.isStaticModuleDependency = true := by
  cases dependency <;> simp_all [isHarmonyImportSideEffect, isStaticModuleDependency]

/-- Dynamic imports are neither static nor concatenated. -/
theorem static_canConcatenate_of_isImportDependency {dependency : Dependency}
    (h : dependency.isImportDependency = true) :
    dependency.isStaticModuleDependency = false ∧ dependency.canConcatenate = false := by
  cases dependency with
  | «import» dep => exact ⟨rfl, rfl⟩
  | _ => cases h

end Dependency

inductive ModuleType where
  | javaScriptAuto
  | json
  | asset
  | assetResource
  | assetInline
  | assetSource
  deriving DecidableEq

/-- The position in the declaration, which the derived order compares. -/
def ModuleType.rank : ModuleType → Nat
  | javaScriptAuto => 0
  | json => 1
  | asset => 2
  | assetResource => 3
  | assetInline => 4
  | assetSource => 5

theorem ModuleType.rank_injective : Function.Injective ModuleType.rank := by
  intro left right h
  cases left <;> cases right <;> simp_all [rank]

/-- A path is the list of its components, which is what paths compare by; the root of an absolute
path is an empty first component. -/
abbrev PathBuf := List String

namespace PathBuf

def text (path : PathBuf) : String := if path = [""] then "/" else "/".intercalate path

/-- There is none above a root. -/
def parent (path : PathBuf) : Option PathBuf := if path = [""] ∨ path = [] then none else some path.dropLast

end PathBuf

structure ModuleIdentity where
  moduleType : ModuleType := .javaScriptAuto
  resource : PathBuf
  query : Option String := none
  fragment : Option String := none
  layer : Option String := none
  loaders : List String := []
  deriving DecidableEq

namespace ModuleIdentity

/-- The derived order compares the fields from left to right; an absent one comes first. -/
def key (identity : ModuleIdentity) :
    Nat ×ₗ List String ×ₗ WithBot String ×ₗ WithBot String ×ₗ WithBot String ×ₗ List String :=
  toLex (identity.moduleType.rank, toLex (identity.resource, toLex (identity.query,
    toLex (identity.fragment, toLex (identity.layer, identity.loaders)))))

theorem key_injective : Function.Injective key := by
  intro left right h
  obtain ⟨htype, h⟩ := Prod.mk.inj (toLex.injective h)
  obtain ⟨hresource, h⟩ := Prod.mk.inj (toLex.injective h)
  obtain ⟨hquery, h⟩ := Prod.mk.inj (toLex.injective h)
  obtain ⟨hfragment, h⟩ := Prod.mk.inj (toLex.injective h)
  obtain ⟨hlayer, hloaders⟩ := Prod.mk.inj (toLex.injective h)
  cases left
  cases right
  rw [ModuleIdentity.mk.injEq]
  exact ⟨ModuleType.rank_injective htype, hresource, hquery, hfragment, hlayer, hloaders⟩

instance : LinearOrder ModuleIdentity := LinearOrder.lift' key key_injective

end ModuleIdentity

end Unpack
