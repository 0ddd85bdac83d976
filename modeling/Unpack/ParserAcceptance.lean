import Mathlib.Data.List.ReduceOption
import Unpack.SourceReplacements

/-! What the parser takes. The pass over the declarations fails on a literal with a lone surrogate, if it reads the
literal. The visitor of dynamic imports goes on behind a call that it cannot take and fails in the end, as a walk over
the calls that stops there would. What is taken has an async block for each call, in the order of the calls. -/

namespace Unpack

open Ecma Fallible

namespace Ecma

/-- The literals that are read: those of types are skipped, and so is the name of a namespace. -/
def ImportSpecifier.readLiterals : ImportSpecifier → List Wtf8Atom
  | .named isTypeOnly _ imported => if isTypeOnly then [] else imported.elim [] ModuleExportName.literals
  | .default _ | .namespace _ => []

def ExportSpecifier.readLiterals : ExportSpecifier → List Wtf8Atom
  | .named specifier => if specifier.isTypeOnly then [] else (ExportSpecifier.named specifier).literals
  | .namespace _ => []

def ModuleDecl.readLiterals : ModuleDecl → List Wtf8Atom
  | .import decl => if decl.typeOnly then [] else decl.src :: decl.specifiers.flatMap ImportSpecifier.readLiterals
  | .exportNamed decl =>
      if decl.typeOnly then [] else decl.src.toList ++ decl.specifiers.flatMap ExportSpecifier.readLiterals
  | .exportAll decl => if decl.typeOnly then [] else [decl.src]
  | .exportDecl _ | .exportDefaultDecl _ | .exportDefaultExpr _ => []

def ModuleItem.readLiterals : ModuleItem → List Wtf8Atom
  | .moduleDecl decl => decl.readLiterals
  | .stmt => []

end Ecma

theorem exists_specifierToString_iff (path : PathBuf) {atom : Wtf8Atom} :
    (∃ text, specifierToString path atom = .ok text) ↔ .loneSurrogate ≠ atom := by
  cases atom with
  | utf8 text => exact ⟨fun _ => nofun, fun _ => ⟨text, rfl⟩⟩
  | loneSurrogate => exact ⟨nofun, fun hne => absurd rfl hne⟩

theorem exists_moduleExportNameToString_iff {name : ModuleExportName} :
    (∃ text, moduleExportNameToString name = .ok text) ↔ .loneSurrogate ∉ name.literals := by
  cases name with
  | ident id => exact ⟨fun _ => List.not_mem_nil, fun _ => ⟨id, rfl⟩⟩
  | str atom =>
      rw [ModuleExportName.literals, List.mem_singleton]
      cases atom with
      | utf8 text => exact ⟨fun _ => nofun, fun _ => ⟨text, rfl⟩⟩
      | loneSurrogate => exact ⟨nofun, fun hne => absurd rfl hne⟩

namespace ModuleDeclState

theorem exists_nameOr_iff {name : Option ModuleExportName} {other : String} :
    (∃ text, nameOr name other = .ok text) ↔ .loneSurrogate ∉ name.elim [] ModuleExportName.literals := by
  cases name with
  | none => exact ⟨fun _ => List.not_mem_nil, fun _ => ⟨other, rfl⟩⟩
  | some name => exact exists_moduleExportNameToString_iff

theorem exists_collectImportSpecifier_iff (request : String) (specifier : ImportSpecifier)
    (state : ModuleDeclState) :
    (∃ after, collectImportSpecifier request state specifier = .ok after) ↔
      .loneSurrogate ∉ specifier.readLiterals := by
  cases specifier with
  | named isTypeOnly local_ imported =>
      rw [collectImportSpecifier, ImportSpecifier.readLiterals]
      split_ifs
      · exact ⟨fun _ => List.not_mem_nil, fun _ => ⟨state, rfl⟩⟩
      · exact (exists_bind_ok_iff_of_forall fun text => ⟨_, rfl⟩).trans exists_nameOr_iff
  | default local_ => exact ⟨fun _ => List.not_mem_nil, fun _ => ⟨_, rfl⟩⟩
  | «namespace» local_ => exact ⟨fun _ => List.not_mem_nil, fun _ => ⟨_, rfl⟩⟩

theorem exists_collectExportFrom_iff (request : String) (specifier : ExportSpecifier) (state : ModuleDeclState) :
    (∃ after, collectExportFrom request state specifier = .ok after) ↔ .loneSurrogate ∉ specifier.readLiterals := by
  cases specifier with
  | «namespace» name => exact ⟨fun _ => List.not_mem_nil, fun _ => ⟨state, rfl⟩⟩
  | named specifier =>
      rw [collectExportFrom, ExportSpecifier.readLiterals]
      split_ifs
      · exact ⟨fun _ => List.not_mem_nil, fun _ => ⟨state, rfl⟩⟩
      · rw [ExportSpecifier.literals, List.mem_append, not_or, ← exists_moduleExportNameToString_iff]
        refine exists_bind_ok_iff fun orig => ?_
        exact (exists_bind_ok_iff_of_forall fun exported => ⟨_, rfl⟩).trans exists_nameOr_iff

theorem exists_collectExportLocal_iff (specifier : ExportSpecifier) (state : ModuleDeclState) :
    (∃ after, collectExportLocal state specifier = .ok after) ↔ .loneSurrogate ∉ specifier.readLiterals := by
  cases specifier with
  | «namespace» name => exact ⟨fun _ => List.not_mem_nil, fun _ => ⟨state, rfl⟩⟩
  | named specifier =>
      rw [collectExportLocal, ExportSpecifier.readLiterals]
      split_ifs
      · exact ⟨fun _ => List.not_mem_nil, fun _ => ⟨state, rfl⟩⟩
      · rw [ExportSpecifier.literals, List.mem_append, not_or, ← exists_moduleExportNameToString_iff]
        refine exists_bind_ok_iff fun orig => ?_
        refine (exists_bind_ok_iff_of_forall fun exported => ?_).trans exists_nameOr_iff
        cases state.importBindings.lookup orig with
        | none => exact ⟨_, rfl⟩
        | some binding => exact ⟨_, rfl⟩

/-- Specifiers are taken one by one. -/
theorem exists_specifiers_iff {α : Type} {f : ModuleDeclState → α → Except Make.Error ModuleDeclState}
    {literals : α → List Wtf8Atom}
    (hf : ∀ specifier state, (∃ after, f state specifier = .ok after) ↔ .loneSurrogate ∉ literals specifier)
    {specifiers : List α} {state : ModuleDeclState} :
    (∃ after, specifiers.foldlM f state = .ok after) ↔ .loneSurrogate ∉ specifiers.flatMap literals := by
  rw [exists_foldlM_ok_iff hf, List.mem_flatMap]
  exact ⟨fun hall ⟨specifier, hmem, hlone⟩ => hall specifier hmem hlone,
    fun hnone specifier hmem hlone => hnone ⟨specifier, hmem, hlone⟩⟩

theorem exists_collectModuleDecl_iff (path : PathBuf) (decl : ModuleDecl) (state : ModuleDeclState) :
    (∃ after, collectModuleDecl path state decl = .ok after) ↔ .loneSurrogate ∉ decl.readLiterals := by
  cases decl with
  | «import» decl =>
      rw [collectModuleDecl, ModuleDecl.readLiterals]
      split_ifs
      · exact ⟨fun _ => List.not_mem_nil, fun _ => ⟨state, rfl⟩⟩
      · rw [List.mem_cons, not_or, ← ne_eq, ← exists_specifierToString_iff path]
        exact exists_bind_ok_iff fun request => exists_specifiers_iff (exists_collectImportSpecifier_iff request)
  | exportNamed decl =>
      obtain ⟨specifiers, src, typeOnly, span⟩ := decl
      rw [collectModuleDecl, ModuleDecl.readLiterals]
      split_ifs
      · exact ⟨fun _ => List.not_mem_nil, fun _ => ⟨state, rfl⟩⟩
      · cases src with
        | none => exact exists_specifiers_iff exists_collectExportLocal_iff
        | some src =>
            rw [Option.toList_some, List.singleton_append, List.mem_cons, not_or, ← ne_eq,
              ← exists_specifierToString_iff path]
            exact exists_bind_ok_iff fun request => exists_specifiers_iff (exists_collectExportFrom_iff request)
  | exportAll decl =>
      rw [collectModuleDecl, ModuleDecl.readLiterals]
      split_ifs
      · exact ⟨fun _ => List.not_mem_nil, fun _ => ⟨state, rfl⟩⟩
      · rw [List.mem_singleton, ← ne_eq, ← exists_specifierToString_iff path]
        exact exists_bind_ok_iff_of_forall fun request => ⟨_, rfl⟩
  | exportDecl decl | exportDefaultDecl decl | exportDefaultExpr decl =>
      exact ⟨fun _ => List.not_mem_nil, fun _ => ⟨_, rfl⟩⟩

theorem exists_collectModuleItem_iff (path : PathBuf) (item : ModuleItem) (state : ModuleDeclState) :
    (∃ after, collectModuleItem path state item = .ok after) ↔ .loneSurrogate ∉ item.readLiterals := by
  cases item with
  | moduleDecl decl => exact exists_collectModuleDecl_iff path decl state
  | stmt => exact ⟨fun _ => List.not_mem_nil, fun _ => ⟨state, rfl⟩⟩

end ModuleDeclState

namespace Ecma

/-- `import(…)`. -/
structure ImportCall where
  span : SourceRange
  args : List Node

def NodeKind.importCalls (span : SourceRange) (parts : List Node) : NodeKind → List ImportCall
  | .importCall => [⟨span, parts⟩]
  | _ => []

mutual

/-- The import calls of a node, from the outside in. -/
def Node.importCalls : Node → List ImportCall
  | .mk kind span heads parts => kind.importCalls span parts ++ (allImportCalls heads ++ allImportCalls parts)

def allImportCalls : List Node → List ImportCall
  | [] => []
  | node :: nodes => node.importCalls ++ allImportCalls nodes

end

/-- The node is a text known before it runs: a string, or a template without expressions. -/
inductive Node.Spells : Node → String → Prop where
  | str {span : SourceRange} {heads parts : List Node} {text : String} :
      Node.Spells (.mk (.str (.utf8 text)) span heads parts) text
  | tpl {span : SourceRange} {heads : List Node} {text : String} :
      Node.Spells (.mk (.tpl [some (.utf8 text)]) span heads []) text

namespace ImportCall

/-- Its first argument is the text. -/
def Requests (call : ImportCall) (request : String) : Prop := ∃ first ∈ call.args.head?, first.Spells request

/-- The block of the call. -/
def requestBlock (call : ImportCall) (request : String) : AsyncDependenciesBlock :=
  ⟨[.import { module := { request, range := call.span } }]⟩

/-- The block, unless there is no argument. -/
def block (call : ImportCall) (path : PathBuf) : Except Make.Error (Option AsyncDependenciesBlock) :=
  Option.map call.requestBlock <$> staticImportCallSpecifier path call.args

/-- There is no argument, or the first one is a text. -/
def IsStatic (call : ImportCall) : Prop := call.args = [] ∨ ∃ request, call.Requests request

end ImportCall

end Ecma

theorem staticTemplateToString_eq_ok_iff {path : PathBuf} {exprs : List Node} {quasis : List (Option Wtf8Atom)}
    {text : String} : staticTemplateToString path exprs quasis = .ok text ↔
      exprs = [] ∧ quasis = [some (.utf8 text)] := by
  rw [staticTemplateToString]
  split_ifs with hbad
  · refine ⟨nofun, ?_⟩
    rintro ⟨rfl, rfl⟩
    exact absurd hbad (by simp only [ne_eq, not_true_eq_false, List.length_singleton, or_self, not_false_eq_true])
  · rw [not_or, not_not, not_not] at hbad
    obtain ⟨rfl, hlength⟩ := hbad
    obtain ⟨quasi, rfl⟩ := List.length_eq_one_iff.mp hlength
    constructor
    · intro h
      cases quasi with
      | none => cases h
      | some atom =>
          cases atom with
          | utf8 spelled =>
              cases h
              exact ⟨rfl, rfl⟩
          | loneSurrogate => cases h
    · rintro ⟨-, h⟩
      cases h
      rfl

/-- The request of a call is the text that its first argument spells. -/
theorem staticImportCallSpecifier_cons_iff {path : PathBuf} {first : Node} {rest : List Node}
    {found : Option String} : staticImportCallSpecifier path (first :: rest) = .ok found ↔
      ∃ request, first.Spells request ∧ found = some request := by
  obtain ⟨kind, span, heads, parts⟩ := first
  cases kind with
  | str value =>
      constructor
      · intro h
        cases value with
        | utf8 text =>
            cases h
            exact ⟨text, .str, rfl⟩
        | loneSurrogate => cases h
      · rintro ⟨request, h, rfl⟩
        cases h
        rfl
  | tpl quasis =>
      constructor
      · intro h
        obtain ⟨text, htext, rfl⟩ :=
          of_map_ok (show some <$> staticTemplateToString path parts quasis = .ok found from h)
        obtain ⟨rfl, rfl⟩ := staticTemplateToString_eq_ok_iff.mp htext
        exact ⟨text, .tpl, rfl⟩
      · rintro ⟨request, h, rfl⟩
        cases h
        rfl
  | ident sym | shorthand sym | bindingIdent sym | blockStmt | fnDecl ident params | fnExpr ident params
  | arrowExpr params | classDecl ident | classExpr ident | varDeclarator name | spread | paren | call | importCall
  | other =>
      refine ⟨nofun, ?_⟩
      rintro ⟨request, ⟨⟩, -⟩

namespace Ecma.ImportCall

theorem block_eq_ok_iff {call : ImportCall} {path : PathBuf} {found : Option AsyncDependenciesBlock} :
    call.block path = .ok found ↔ (call.args = [] ∧ found = none) ∨
      ∃ request, call.Requests request ∧ found = some (call.requestBlock request) := by
  obtain ⟨span, args⟩ := call
  cases args with
  | nil =>
      constructor
      · intro h
        cases h
        exact Or.inl ⟨rfl, rfl⟩
      · rintro (⟨-, rfl⟩ | ⟨request, ⟨first, hfirst, -⟩, -⟩)
        · rfl
        · cases hfirst
  | cons first rest =>
      rw [or_iff_right fun hand => List.cons_ne_nil _ _ hand.1]
      constructor
      · intro h
        obtain ⟨request, hrequest, rfl⟩ := of_map_ok h
        obtain ⟨text, htext, rfl⟩ := staticImportCallSpecifier_cons_iff.mp hrequest
        exact ⟨text, ⟨first, rfl, htext⟩, rfl⟩
      · rintro ⟨request, ⟨spelling, hfirst, hspells⟩, rfl⟩
        cases hfirst
        rw [block, staticImportCallSpecifier_cons_iff.mpr ⟨request, hspells, rfl⟩]
        rfl

theorem exists_block_iff {call : ImportCall} {path : PathBuf} :
    (∃ found, call.block path = .ok found) ↔ call.IsStatic := by
  constructor
  · rintro ⟨found, h⟩
    exact (block_eq_ok_iff.mp h).imp And.left fun ⟨request, hrequest, _⟩ => ⟨request, hrequest⟩
  · rintro (hnone | ⟨request, hrequest⟩)
    · exact ⟨none, block_eq_ok_iff.mpr (Or.inl ⟨hnone, rfl⟩)⟩
    · exact ⟨_, block_eq_ok_iff.mpr (Or.inr ⟨request, hrequest, rfl⟩)⟩

theorem Requests.args_ne_nil {call : ImportCall} {request : String} (h : call.Requests request) : call.args ≠ [] := by
  obtain ⟨first, hfirst, -⟩ := h
  intro hnone
  rw [hnone] at hfirst
  cases hfirst

/-- The blocks of calls that are taken. -/
theorem forall₂_reduceOption {path : PathBuf} {calls : List ImportCall}
    {found : List (Option AsyncDependenciesBlock)}
    (h : List.Forall₂ (fun call found => ImportCall.block call path = .ok found) calls found) :
    List.Forall₂ (fun call block => ∃ request, call.Requests request ∧ block = call.requestBlock request)
      (calls.filter (!·.args.isEmpty)) found.reduceOption := by
  induction h with
  | nil => exact .nil
  | cons hblock _ ih =>
      rcases block_eq_ok_iff.mp hblock with ⟨hargs, rfl⟩ | ⟨request, hrequest, rfl⟩
      · rw [List.reduceOption_cons_of_none, List.filter_cons_of_neg (by rw [hargs]; exact Bool.false_ne_true)]
        exact ih
      · rw [List.reduceOption_cons_of_some, List.filter_cons_of_pos]
        · exact .cons ⟨request, hrequest, rfl⟩ ih
        · rw [Bool.not_eq_true', List.isEmpty_eq_false_iff]
          exact hrequest.args_ne_nil

end Ecma.ImportCall

namespace DynamicImportVisitor

def result (visitor : DynamicImportVisitor) : Except Make.Error (List AsyncDependenciesBlock) :=
  match visitor.error with
  | some error => .error error
  | none => .ok visitor.blocks

/-- A call that cannot be taken is the result unless one came before. -/
theorem result_addImportCall (path : PathBuf) (visitor : DynamicImportVisitor) (call : ImportCall) :
    (visitor.addImportCall path call.span call.args).result =
      visitor.result >>= fun blocks => (fun found => blocks ++ found.toList) <$> call.block path := by
  obtain ⟨blocks, error⟩ := visitor
  rw [addImportCall, ImportCall.block]
  cases hspecifier : staticImportCallSpecifier path call.args with
  | error bad => cases error <;> rfl
  | ok request =>
      cases request with
      | none =>
          cases error with
          | none => exact congrArg Except.ok (List.append_nil blocks).symm
          | some error => rfl
      | some request => cases error <;> rfl

/-- The walk ends as one that stops at the first call that cannot be taken. -/
theorem result_foldl (path : PathBuf) (calls : List ImportCall) (visitor : DynamicImportVisitor) :
    (calls.foldl (fun visitor call => visitor.addImportCall path call.span call.args) visitor).result =
      visitor.result >>= fun blocks => (fun found => blocks ++ found.reduceOption) <$> calls.mapM (·.block path) := by
  induction calls generalizing visitor with
  | nil =>
      rw [List.foldl_nil]
      cases visitor.result with
      | error error => rfl
      | ok blocks => exact congrArg Except.ok (List.append_nil blocks).symm
  | cons call calls ih =>
      rw [List.foldl_cons, ih, result_addImportCall, List.mapM_cons]
      cases visitor.result with
      | error error => rfl
      | ok blocks =>
          cases call.block path with
          | error error => rfl
          | ok found =>
              cases calls.mapM (·.block path) with
              | error error => rfl
              | ok others =>
                  refine congrArg Except.ok ?_
                  cases found with
                  | none => exact congrArg (· ++ others.reduceOption) (List.append_nil blocks)
                  | some block => exact List.append_assoc blocks [block] _

mutual

theorem visit_eq_foldl (path : PathBuf) : ∀ (visitor : DynamicImportVisitor) (node : Node), visit path visitor node =
    node.importCalls.foldl (fun visitor call => visitor.addImportCall path call.span call.args) visitor
  | visitor, .mk kind span heads parts => by
      rw [Node.importCalls, List.foldl_append, List.foldl_append, ← visitAll_eq_foldl path _ heads,
        ← visitAll_eq_foldl path _ parts]
      cases kind with
      | importCall =>
          rw [visit]
          rfl
      | ident sym | shorthand sym | bindingIdent sym | blockStmt | fnDecl ident params | fnExpr ident params
      | arrowExpr params | classDecl ident | classExpr ident | varDeclarator name | str value | tpl quasis
      | spread | paren | call | other =>
          rw [visit]
          · rfl
          · nofun

theorem visitAll_eq_foldl (path : PathBuf) : ∀ (visitor : DynamicImportVisitor) (nodes : List Node),
    visitAll path visitor nodes =
      (allImportCalls nodes).foldl (fun visitor call => visitor.addImportCall path call.span call.args) visitor
  | visitor, [] => by
      rw [visitAll]
      rfl
  | visitor, node :: nodes => by
      rw [visitAll, allImportCalls, List.foldl_append, visit_eq_foldl path visitor node, visitAll_eq_foldl path _ nodes]

end

end DynamicImportVisitor

theorem collectDynamicImportDependencies_eq_mapM (path : PathBuf) (body : List ModuleSyntax)
    (blocks : List AsyncDependenciesBlock) : collectDynamicImportDependencies path body blocks =
      (fun found => blocks ++ found.reduceOption) <$>
        (body.flatMap (allImportCalls ·.nodes)).mapM (·.block path) := by
  have hwalk : ∀ visitor : DynamicImportVisitor, body.foldl (DynamicImportVisitor.visitItem path) visitor =
      (body.flatMap (allImportCalls ·.nodes)).foldl
        (fun visitor call => visitor.addImportCall path call.span call.args) visitor := by
    induction body with
    | nil => exact fun _ => rfl
    | cons tree body ih =>
        intro visitor
        rw [List.foldl_cons, List.flatMap_cons, List.foldl_append, ih, DynamicImportVisitor.visitItem,
          DynamicImportVisitor.visitAll_eq_foldl]
  have hresult := DynamicImportVisitor.result_foldl path (body.flatMap (allImportCalls ·.nodes)) {}
  rw [← hwalk] at hresult
  have hcollect : collectDynamicImportDependencies path body blocks =
      (blocks ++ ·) <$> (body.foldl (DynamicImportVisitor.visitItem path) {}).result := by
    rw [collectDynamicImportDependencies, DynamicImportVisitor.result]
    cases (body.foldl (DynamicImportVisitor.visitItem path) {}).error <;> rfl
  rw [hcollect, hresult]
  cases (body.flatMap (allImportCalls ·.nodes)).mapM (·.block path) <;> rfl

/-- **The parser takes a module exactly when it can read every request.** No literal of an import or export that it
reads has a lone surrogate, and every dynamic import has a static text or no argument. Then it has left one block for
each dynamic import with an argument, in the order of the visit, that requests the text at the place of the call. -/
theorem parse_accepts_iff (path : PathBuf) (sideEffectFree : Option Bool) (body : List ModuleSyntax) :
    let calls := body.flatMap (allImportCalls ·.nodes)
    ((∃ parsed, parseModuleDependencies path sideEffectFree body = .ok parsed) ↔
      (∀ tree ∈ body, .loneSurrogate ∉ tree.item.readLiterals) ∧ ∀ call ∈ calls, call.IsStatic) ∧
    ∀ parsed, parseModuleDependencies path sideEffectFree body = .ok parsed →
      List.Forall₂ (fun call block => ∃ request, call.Requests request ∧ block = call.requestBlock request)
        (calls.filter (!·.args.isEmpty)) parsed.blocks := by
  constructor
  · have hcalls : ∀ blocks, (∃ after, collectDynamicImportDependencies path body blocks = .ok after) ↔
        ∀ call ∈ body.flatMap (allImportCalls ·.nodes), call.IsStatic := by
      intro blocks
      rw [collectDynamicImportDependencies_eq_mapM, exists_map_ok_iff, exists_mapM_ok]
      exact forall₂_congr fun call _ => ImportCall.exists_block_iff
    have hdecls : ∀ start, (∃ state, collectModuleDeclDependencies path (body.map (·.item)) start = .ok state) ↔
        ∀ tree ∈ body, .loneSurrogate ∉ tree.item.readLiterals := by
      intro start
      rw [collectModuleDeclDependencies, exists_foldlM_ok_iff (ModuleDeclState.exists_collectModuleItem_iff path),
        List.forall_mem_map]
    refine (exists_bind_ok_iff fun state => ?_).trans (and_congr_left' (hdecls _))
    exact (exists_bind_ok_iff_of_forall fun blocks => ⟨_, rfl⟩).trans (hcalls state.parsed.blocks)
  · intro parsed h
    obtain ⟨state, hstate, h⟩ := of_bind_ok h
    obtain ⟨blocks, hblocks, h⟩ := of_bind_ok h
    cases h
    rw [collectModuleDeclDependencies] at hstate
    have hnone := (ModuleDeclState.leaves_foldlM
      (fun before item after => @ModuleDeclState.leaves_collectModuleItem before after path item) hstate).blocks
    rw [collectDynamicImportDependencies_eq_mapM, hnone] at hblocks
    obtain ⟨found, hfound, rfl⟩ := of_map_ok hblocks
    exact ImportCall.forall₂_reduceOption (forall₂_of_mapM hfound)

end Unpack
