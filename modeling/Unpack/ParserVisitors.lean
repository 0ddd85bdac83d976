import Unpack.ModuleDeclarations

/-! The visitors that walk the whole syntax of a module once its declarations are read: the uses of import
bindings, the dynamic imports and the identifiers. The default traversal visits the parts of a node in the
order of its source. -/

namespace Unpack

namespace Ecma

/-- What the visitors tell nodes apart by. Declared names that are not visited as nodes and the patterns
that are read for the names they bind are part of the kind. -/
inductive NodeKind where
  | ident (sym : String)
  | bindingIdent (sym : String)
  | shorthand (sym : String)
  | str (value : Wtf8Atom)
  /-- The cooked texts of a template; its expressions are its parts. -/
  | tpl (quasis : List (Option Wtf8Atom))
  /-- An argument after `...`. -/
  | spread
  | paren
  /-- The callee is the head. -/
  | call
  /-- The parts are the arguments. -/
  | importCall
  | blockStmt
  | fnDecl (ident : String) (params : List Pat)
  | fnExpr (ident : Option String) (params : List Pat)
  | arrowExpr (params : List Pat)
  | classDecl (ident : String)
  | classExpr (ident : Option String)
  | varDeclarator (name : Pat)
  | other

/-- The heads come before the parts: the nodes of a function's decorators and parameters, before its body,
and those of a declarator's pattern, before its initializer. -/
inductive Node where
  | mk (kind : NodeKind) (span : SourceRange) (heads parts : List Node)

namespace Node

def kind : Node → NodeKind
  | mk kind _ _ _ => kind

def span : Node → SourceRange
  | mk _ span _ _ => span

end Node

/-- An item of a module's body with the nodes below it: the statement, the exported declaration or the
exported expression. -/
structure ModuleSyntax where
  item : ModuleItem
  nodes : List Node := []

end Ecma

open Ecma

/-- The innermost scope comes first. -/
structure ImportUsageVisitor where
  dependencies : List Dependency := []
  scopes : List (List String) := [[]]

namespace ImportUsageVisitor

variable (imports : FxHashMap String ImportBinding) (visitor : ImportUsageVisitor)

def isShadowed (name : String) : Bool := visitor.scopes.any (name ∈ ·)

/-- Changes the innermost scope. -/
def modifyScope (change : List String → List String) : ImportUsageVisitor :=
  { visitor with scopes := visitor.scopes.modifyHead change }

def addBinding (name : String) : ImportUsageVisitor := visitor.modifyScope (collectBinding · name)

def addPatterns (patterns : List Pat) : ImportUsageVisitor :=
  visitor.modifyScope (patterns.foldl addPatBindings)

def pushScope : ImportUsageVisitor := { visitor with scopes := [] :: visitor.scopes }

def popScope : ImportUsageVisitor := { visitor with scopes := visitor.scopes.tail }

def addImportUsage (sym : String) (span : SourceRange) (shorthand : Bool) : ImportUsageVisitor :=
  match imports.lookup sym with
  | none => visitor
  | some binding =>
      if visitor.isShadowed sym then visitor
      else
        { visitor with
          dependencies := visitor.dependencies ++ [.harmonyImportSpecifier
            { module := { request := binding.request, sourceOrder := binding.sourceOrder, range := span }
              ids := binding.ids, name := binding.local_, usageRange := span, shorthand }] }

mutual

/-- The heads of a function and of a declarator are not visited. -/
def visit (visitor : ImportUsageVisitor) : Node → ImportUsageVisitor
  | .mk kind span heads parts =>
      match kind with
      | .ident sym => visitor.addImportUsage imports sym span false
      | .bindingIdent _ => visitor
      | .shorthand sym => visitor.addImportUsage imports sym span true
      | .blockStmt => (visitAll (visitAll visitor.pushScope heads) parts).popScope
      | .fnDecl ident params =>
          (visitAll (((visitor.addBinding ident).pushScope).addPatterns params) parts).popScope
      | .fnExpr ident params =>
          (visitAll ((ident.elim visitor.pushScope visitor.pushScope.addBinding).addPatterns params)
            parts).popScope
      | .arrowExpr params =>
          (visitAll (visitAll (visitor.pushScope.addPatterns params) heads) parts).popScope
      | .classDecl ident => visitAll (visitAll (visitor.addBinding ident) heads) parts
      | .classExpr ident =>
          (visitAll (visitAll (ident.elim visitor.pushScope visitor.pushScope.addBinding) heads)
            parts).popScope
      | .varDeclarator name => visitAll (visitor.addPatterns [name]) parts
      | .str _ | .tpl _ | .spread | .paren | .call | .importCall | .other =>
          visitAll (visitAll visitor heads) parts

def visitAll (visitor : ImportUsageVisitor) : List Node → ImportUsageVisitor
  | [] => visitor
  | node :: nodes => visitAll (visit visitor node) nodes

end

/-- Of the module declarations only exported declarations and expressions are visited. -/
def visitItem (visitor : ImportUsageVisitor) (tree : ModuleSyntax) : ImportUsageVisitor :=
  match tree.item with
  | .stmt => visitAll imports visitor tree.nodes
  | .moduleDecl (.exportDecl _) => visitAll imports visitor tree.nodes
  | .moduleDecl (.exportDefaultExpr _) => visitAll imports visitor tree.nodes
  | .moduleDecl _ => visitor

end ImportUsageVisitor

def collectImportUsages (body : List ModuleSyntax) (importBindings : FxHashMap String ImportBinding)
    (dependencies : List Dependency) : List Dependency :=
  if importBindings.entries.isEmpty then dependencies
  else dependencies ++ (body.foldl (ImportUsageVisitor.visitItem importBindings) {}).dependencies

def unsupportedDynamicImport (path : PathBuf) : Make.Error :=
  .unsupportedDynamicImport path
    "only static string specifiers are supported; context modules are not supported yet"

def staticTemplateToString (path : PathBuf) (exprs : List Node) (quasis : List (Option Wtf8Atom)) :
    Except Make.Error String :=
  if exprs ≠ [] ∨ quasis.length ≠ 1 then .error (unsupportedDynamicImport path)
  else
    match quasis.head?.join.bind wtf8ToString with
    | some value => .ok value
    | none => .error (.parse path "dynamic import template specifier is not valid UTF-8")

/-- The request of an import call, unless it has no argument at all. -/
def staticImportCallSpecifier (path : PathBuf) (args : List Node) : Except Make.Error (Option String) :=
  match args.head? with
  | none => .ok none
  | some (.mk (.str value) _ _ _) => some <$> specifierToString path value
  | some (.mk (.tpl quasis) _ _ exprs) => some <$> staticTemplateToString path exprs quasis
  | some _ => .error (unsupportedDynamicImport path)

structure DynamicImportVisitor where
  blocks : List AsyncDependenciesBlock := []
  error : Option Make.Error := none

namespace DynamicImportVisitor

variable (path : PathBuf) (visitor : DynamicImportVisitor)

/-- The first error is kept. -/
def addImportCall (span : SourceRange) (args : List Node) : DynamicImportVisitor :=
  match staticImportCallSpecifier path args with
  | .ok (some request) =>
      { visitor with
        blocks := visitor.blocks ++ [⟨[.import { module := { request, range := span } }]⟩] }
  | .ok none => visitor
  | .error error => { visitor with error := visitor.error.or error }

mutual

def visit (visitor : DynamicImportVisitor) : Node → DynamicImportVisitor
  | .mk .importCall span heads parts =>
      visitAll (visitAll (visitor.addImportCall path span parts) heads) parts
  | .mk _ _ heads parts => visitAll (visitAll visitor heads) parts

def visitAll (visitor : DynamicImportVisitor) : List Node → DynamicImportVisitor
  | [] => visitor
  | node :: nodes => visitAll (visit visitor node) nodes

end

def visitItem (visitor : DynamicImportVisitor) (tree : ModuleSyntax) : DynamicImportVisitor :=
  visitAll path visitor tree.nodes

end DynamicImportVisitor

def collectDynamicImportDependencies (path : PathBuf) (body : List ModuleSyntax)
    (blocks : List AsyncDependenciesBlock) : Except Make.Error (List AsyncDependenciesBlock) :=
  let visitor := body.foldl (DynamicImportVisitor.visitItem path) {}
  match visitor.error with
  | some error => .error error
  | none => .ok (blocks ++ visitor.blocks)

/-- The identifiers of a node that its kind holds. -/
def Ecma.NodeKind.identifiers : NodeKind → List String
  | .ident sym | .bindingIdent sym | .shorthand sym => [sym]
  | .fnDecl name _ | .classDecl name => [name]
  | .fnExpr name _ | .classExpr name => name.toList
  | _ => []

/-- An identifier, in any number of parentheses. -/
def expressionIsDirectEval : Node → Bool
  | .mk (.ident sym) _ _ _ => sym = "eval"
  | .mk .paren _ _ [inner] => expressionIsDirectEval inner
  | _ => false

structure IdentifierCollector where
  identifiers : List String := []
  usesDirectEval : Bool := false

namespace IdentifierCollector

variable (collector : IdentifierCollector)

def insert (names : List String) : IdentifierCollector :=
  { collector with identifiers := names.foldl collectBinding collector.identifiers }

mutual

def visit (collector : IdentifierCollector) : Node → IdentifierCollector
  | .mk kind _ heads parts =>
      let collector := collector.insert kind.identifiers
      let collector := match kind with
        | .call => { collector with
            usesDirectEval := collector.usesDirectEval || heads.any expressionIsDirectEval }
        | _ => collector
      visitAll (visitAll collector heads) parts

def visitAll (collector : IdentifierCollector) : List Node → IdentifierCollector
  | [] => collector
  | node :: nodes => visitAll (visit collector node) nodes

end

end IdentifierCollector

namespace Ecma

def ModuleExportName.identifiers : ModuleExportName → List String
  | .ident id => [id]
  | .str _ => []

def ImportSpecifier.identifiers : ImportSpecifier → List String
  | .named _ local_ imported => local_ :: imported.toList.flatMap ModuleExportName.identifiers
  | .default local_ | .namespace local_ => [local_]

def ExportSpecifier.identifiers : ExportSpecifier → List String
  | .named specifier =>
      specifier.orig.identifiers ++ specifier.exported.toList.flatMap ModuleExportName.identifiers
  | .namespace name => name.identifiers

/-- The identifiers of an item outside its nodes. -/
def ModuleItem.identifiers : ModuleItem → List String
  | .moduleDecl (.import decl) => decl.specifiers.flatMap ImportSpecifier.identifiers
  | .moduleDecl (.exportNamed decl) => decl.specifiers.flatMap ExportSpecifier.identifiers
  | .moduleDecl _ | .stmt => []

end Ecma

def IdentifierCollector.visitItem (collector : IdentifierCollector) (tree : ModuleSyntax) :
    IdentifierCollector :=
  visitAll (collector.insert tree.item.identifiers) tree.nodes

/-- The answer of the purity plugin is left in the build meta last. -/
def parseModuleDependencies (path : PathBuf) (sideEffectFree : Option Bool) (body : List ModuleSyntax) :
    Except Make.Error ParsedModule := do
  let collector := body.foldl IdentifierCollector.visitItem {}
  let state ← collectModuleDeclDependencies path (body.map (·.item))
    { parsed := { identifiers := collector.identifiers.mergeSort (· ≤ ·) } }
  let blocks ← collectDynamicImportDependencies path body state.parsed.blocks
  return { state.parsed with
    dependencies := collectImportUsages body state.importBindings state.parsed.dependencies
    blocks
    buildMeta := { sideEffectFree, usesDirectEval := collector.usesDirectEval } }

end Unpack
