import Unpack.Make

/-! The import and export declarations of a module, and the pass of the parser that turns them into
dependencies: one walk over the body that collects import bindings and classifies exports on the way.
Syntax that the pass does not read, such as initializers and function bodies, is left out. -/

namespace Unpack

namespace Ecma

/-- A string literal: its text, unless a lone surrogate keeps it from being UTF-8. -/
inductive Wtf8Atom where
  | utf8 (value : String)
  | loneSurrogate
  deriving DecidableEq

mutual

inductive Pat where
  | ident (id : String)
  | array (elems : List (Option Pat))
  | rest (arg : Pat)
  | object (props : List ObjectPatProp)
  | assign (left : Pat)
  | invalid
  | expr

inductive ObjectPatProp where
  | keyValue (value : Pat)
  | assign (key : String)
  | rest (arg : Pat)

end

inductive ModuleExportName where
  | ident (id : String)
  | str (value : Wtf8Atom)
  deriving DecidableEq

inductive ImportSpecifier where
  | named (isTypeOnly : Bool) (local_ : String) (imported : Option ModuleExportName)
  | default (local_ : String)
  | namespace (local_ : String)
  deriving DecidableEq

structure ImportDecl where
  specifiers : List ImportSpecifier
  src : Wtf8Atom
  typeOnly : Bool := false
  span : SourceRange
  deriving DecidableEq

inductive Decl where
  | class (ident : String)
  | fn (ident : String)
  | var (decls : List Pat)
  | using

structure ExportDecl where
  decl : Decl
  declSpan : SourceRange
  span : SourceRange

structure ExportNamedSpecifier where
  orig : ModuleExportName
  exported : Option ModuleExportName := none
  isTypeOnly : Bool := false
  span : SourceRange
  deriving DecidableEq

/-- `export * as name from` is a specifier of a named export. -/
inductive ExportSpecifier where
  | named (specifier : ExportNamedSpecifier)
  | namespace (name : ModuleExportName)
  deriving DecidableEq

structure NamedExport where
  specifiers : List ExportSpecifier
  src : Option Wtf8Atom := none
  typeOnly : Bool := false
  span : SourceRange
  deriving DecidableEq

inductive DefaultDecl where
  | fn (ident : Option String)
  | class (ident : Option String)
  deriving DecidableEq

structure ExportDefaultDecl where
  decl : DefaultDecl
  declSpan : SourceRange
  span : SourceRange
  deriving DecidableEq

structure ExportDefaultExpr where
  exprSpan : SourceRange
  span : SourceRange
  deriving DecidableEq

structure ExportAll where
  src : Wtf8Atom
  typeOnly : Bool := false
  span : SourceRange
  deriving DecidableEq

inductive ModuleDecl where
  | import (decl : ImportDecl)
  | exportDecl (decl : ExportDecl)
  | exportNamed (decl : NamedExport)
  | exportDefaultDecl (decl : ExportDefaultDecl)
  | exportDefaultExpr (decl : ExportDefaultExpr)
  | exportAll (decl : ExportAll)

/-- Statements are not read here. -/
inductive ModuleItem where
  | moduleDecl (decl : ModuleDecl)
  | stmt

end Ecma

open Ecma

structure ImportBinding where
  request : String
  sourceOrder : Nat
  ids : List String
  local_ : String
  deriving DecidableEq

def wtf8ToString : Wtf8Atom → Option String
  | .utf8 value => some value
  | .loneSurrogate => none

def specifierToString (path : PathBuf) (specifier : Wtf8Atom) :
    Except Make.Error String :=
  match wtf8ToString specifier with
  | some value => .ok value
  | none => .error (.parse path "module specifier is not valid UTF-8")

def moduleExportNameToString : ModuleExportName → Except Make.Error String
  | .ident id => .ok id
  | .str value =>
      match wtf8ToString value with
      | some value => .ok value
      | none => .error (.parse [] "module export name is not valid UTF-8")

/-- `collect_binding` of a vector. -/
def collectBinding (bindings : List String) (name : String) : List String :=
  if name ∈ bindings then bindings else bindings ++ [name]

mutual

def addPatBindings (bindings : List String) : Pat → List String
  | .ident id => collectBinding bindings id
  | .array elems => addElemBindings bindings elems
  | .rest arg => addPatBindings bindings arg
  | .object props => addPropBindings bindings props
  | .assign left => addPatBindings bindings left
  | .invalid | .expr => bindings

def addElemBindings (bindings : List String) : List (Option Pat) → List String
  | [] => bindings
  | none :: elems => addElemBindings bindings elems
  | some elem :: elems => addElemBindings (addPatBindings bindings elem) elems

def addPropBindings (bindings : List String) : List ObjectPatProp → List String
  | [] => bindings
  | .keyValue value :: props => addPropBindings (addPatBindings bindings value) props
  | .assign key :: props => addPropBindings (collectBinding bindings key) props
  | .rest arg :: props => addPropBindings (addPatBindings bindings arg) props

end

def collectDeclExports : Decl → List Dependency
  | .class ident | .fn ident => [.harmonyExportSpecifier { id := ident, name := ident }]
  | .var decls =>
      (decls.foldl addPatBindings []).map fun name =>
        .harmonyExportSpecifier { id := name, name := name }
  | .using => []

/-- What the walk carries. -/
structure ModuleDeclState where
  parsed : ParsedModule := {}
  importBindings : FxHashMap String ImportBinding := ∅
  sourceOrder : Nat := 0

namespace ModuleDeclState

variable (state : ModuleDeclState)

def pushDependency (dependency : Dependency) : ModuleDeclState :=
  { state with
    parsed := { state.parsed with dependencies := state.parsed.dependencies ++ [dependency] } }

def pushPresentational (dependency : Dependency) : ModuleDeclState :=
  { state with
    parsed := { state.parsed with
      presentationalDependencies := state.parsed.presentationalDependencies ++ [dependency] } }

/-- A declaration with a source: its text is removed, and its module is evaluated in its turn. -/
def pushSource (request : String) (span : SourceRange) : ModuleDeclState :=
  let sourceOrder := state.sourceOrder + 1
  let state := { state with sourceOrder }
  (state.pushPresentational (.const { expression := "", range := span })).pushDependency
    (.harmonyImportSideEffect { module := { request, sourceOrder, range := span } })

def insertBinding (request local_ : String) (ids : List String) : ModuleDeclState :=
  { state with
    importBindings := state.importBindings.insert local_
      { request, sourceOrder := state.sourceOrder, ids, local_ } }

/-- A name of an export or import specifier that may stand without `as`. -/
def nameOr (name : Option ModuleExportName) (other : String) : Except Make.Error String :=
  match name with
  | some name => moduleExportNameToString name
  | none => .ok other

def collectImportSpecifier (request : String) (state : ModuleDeclState) :
    ImportSpecifier → Except Make.Error ModuleDeclState
  | .named isTypeOnly local_ imported =>
      if isTypeOnly then .ok state
      else do
        let imported ← nameOr imported local_
        return state.insertBinding request local_ [imported]
  | .default local_ => .ok (state.insertBinding request local_ ["default"])
  | .namespace local_ => .ok (state.insertBinding request local_ [])

/-- A specifier of `export { .. } from`. -/
def collectExportFrom (request : String) (state : ModuleDeclState) :
    ExportSpecifier → Except Make.Error ModuleDeclState
  | .named specifier =>
      if specifier.isTypeOnly then .ok state
      else do
        let orig ← moduleExportNameToString specifier.orig
        let exported ← nameOr specifier.exported orig
        return state.pushDependency (.harmonyExportImportedSpecifier
          { module := { request, sourceOrder := state.sourceOrder, range := specifier.span }
            ids := [orig], name := some exported, isStar := false })
  | .namespace _ => .ok state

/-- A specifier of `export { .. }`: a re-export when its local is an import binding by now. -/
def collectExportLocal (state : ModuleDeclState) :
    ExportSpecifier → Except Make.Error ModuleDeclState
  | .named specifier =>
      if specifier.isTypeOnly then .ok state
      else do
        let orig ← moduleExportNameToString specifier.orig
        let exported ← nameOr specifier.exported orig
        match state.importBindings.lookup orig with
        | some binding =>
            return state.pushDependency (.harmonyExportImportedSpecifier
              { module := { request := binding.request, sourceOrder := binding.sourceOrder,
                            range := specifier.span }
                ids := binding.ids, name := some exported, isStar := false })
        | none => return state.pushDependency (.harmonyExportSpecifier { id := orig, name := exported })
  | .namespace _ => .ok state

def collectModuleDecl (path : PathBuf) (state : ModuleDeclState) :
    ModuleDecl → Except Make.Error ModuleDeclState
  | .import decl =>
      if decl.typeOnly then .ok state
      else do
        let request ← specifierToString path decl.src
        decl.specifiers.foldlM (collectImportSpecifier request) (state.pushSource request decl.span)
  | .exportDecl decl =>
      let state := state.pushPresentational
        (.harmonyExportHeader { declarationRange := some decl.declSpan, statementRange := decl.span })
      .ok ((collectDeclExports decl.decl).foldl pushDependency state)
  | .exportNamed decl =>
      if decl.typeOnly then .ok state
      else
        match decl.src with
        | some src => do
            let request ← specifierToString path src
            decl.specifiers.foldlM (collectExportFrom request) (state.pushSource request decl.span)
        | none =>
            decl.specifiers.foldlM collectExportLocal (state.pushPresentational
              (.harmonyExportHeader { declarationRange := none, statementRange := decl.span }))
  | .exportDefaultDecl decl =>
      let declarationId := match decl.decl with
        | .fn ident | .class ident => ident
      .ok (state.pushDependency (.harmonyExportExpression
        { range := decl.declSpan, statementRange := decl.span, declarationId }))
  | .exportDefaultExpr decl =>
      .ok (state.pushDependency (.harmonyExportExpression
        { range := decl.exprSpan, statementRange := decl.span, declarationId := none }))
  | .exportAll decl =>
      if decl.typeOnly then .ok state
      else do
        let request ← specifierToString path decl.src
        let state := state.pushSource request decl.span
        return state.pushDependency (.harmonyExportImportedSpecifier
          { module := { request, sourceOrder := state.sourceOrder, range := decl.span }
            ids := [], name := none, isStar := true })

def collectModuleItem (path : PathBuf) (state : ModuleDeclState) :
    ModuleItem → Except Make.Error ModuleDeclState
  | .moduleDecl decl => collectModuleDecl path state decl
  | .stmt => .ok state

end ModuleDeclState

def collectModuleDeclDependencies (path : PathBuf) (body : List ModuleItem)
    (state : ModuleDeclState) : Except Make.Error ModuleDeclState :=
  body.foldlM (ModuleDeclState.collectModuleItem path) state

end Unpack
