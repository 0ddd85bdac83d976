import Unpack.ConcatenatedEvaluation
import Unpack.SourceReplacements
import Unpack.UniqueIds

/-! The names that a concatenation declares. Its inner modules share one scope, so they must not mention them: the
suffix of the names is the first one that leaves them all unmentioned. A module that evaluates text could still read
any name and is in no concatenation. -/

namespace Unpack

open Ecma FreshNames

namespace Ecma

/-- The node is the other one or below it. -/
inductive Node.Within (node : Node) : Node → Prop where
  | self : Node.Within node node
  | head {kind : NodeKind} {span : SourceRange} {heads parts : List Node} {child : Node} :
      child ∈ heads → Node.Within node child → Node.Within node (.mk kind span heads parts)
  | part {kind : NodeKind} {span : SourceRange} {heads parts : List Node} {child : Node} :
      child ∈ parts → Node.Within node child → Node.Within node (.mk kind span heads parts)

/-- The name `eval`, in parentheses or not. -/
inductive Node.NamesEval : Node → Prop where
  | ident {span : SourceRange} {heads parts : List Node} : Node.NamesEval (.mk (.ident "eval") span heads parts)
  | paren {span : SourceRange} {heads : List Node} {inner : Node} :
      inner.NamesEval → Node.NamesEval (.mk .paren span heads [inner])

/-- A direct call of `eval`, whose text is evaluated in the scope of the call. -/
inductive Node.EvaluatesText : Node → Prop where
  | call {span : SourceRange} {heads parts : List Node} {callee : Node} :
      callee ∈ heads → callee.NamesEval → Node.EvaluatesText (.mk .call span heads parts)

namespace ModuleSyntax

def Contains (tree : ModuleSyntax) (node : Node) : Prop := ∃ root ∈ tree.nodes, node.Within root

def Mentions (tree : ModuleSyntax) (name : String) : Prop :=
  name ∈ tree.item.identifiers ∨ ∃ node, tree.Contains node ∧ name ∈ node.kind.identifiers

def EvaluatesText (tree : ModuleSyntax) : Prop := ∃ node, tree.Contains node ∧ node.EvaluatesText

end ModuleSyntax

theorem Node.within_mk_iff {node : Node} {kind : NodeKind} {span : SourceRange} {heads parts : List Node} :
    node.Within (.mk kind span heads parts) ↔
      (node = .mk kind span heads parts ∨ ∃ root ∈ heads, node.Within root) ∨ ∃ root ∈ parts, node.Within root := by
  constructor
  · rintro (_ | ⟨hmem, h⟩ | ⟨hmem, h⟩)
    · exact Or.inl (Or.inl rfl)
    · exact Or.inl (Or.inr ⟨_, hmem, h⟩)
    · exact Or.inr ⟨_, hmem, h⟩
  · rintro ((rfl | ⟨root, hmem, h⟩) | ⟨root, hmem, h⟩)
    · exact .self
    · exact .head hmem h
    · exact .part hmem h

theorem expressionIsDirectEval_iff : ∀ node : Node, expressionIsDirectEval node = true ↔ node.NamesEval
  | .mk (.ident sym) span heads parts => by
      rw [expressionIsDirectEval, decide_eq_true_eq]
      constructor
      · rintro rfl
        exact .ident
      · rintro ⟨⟩
        rfl
  | .mk .paren span heads [inner] => by
      rw [expressionIsDirectEval, expressionIsDirectEval_iff inner]
      constructor
      · exact .paren
      · rintro (_ | h)
        exact h
  | .mk .paren _ _ [] => by
      constructor <;> nofun
  | .mk .paren _ _ (_ :: _ :: _) => by
      constructor <;> nofun
  | .mk (.bindingIdent _) _ _ _ | .mk (.shorthand _) _ _ _ | .mk (.str _) _ _ _ | .mk (.tpl _) _ _ _
  | .mk .spread _ _ _ | .mk .call _ _ _ | .mk .importCall _ _ _ | .mk .blockStmt _ _ _ | .mk (.fnDecl _ _) _ _ _
  | .mk (.fnExpr _ _) _ _ _ | .mk (.arrowExpr _) _ _ _ | .mk (.classDecl _) _ _ _ | .mk (.classExpr _) _ _ _
  | .mk (.varDeclarator _) _ _ _ | .mk .other _ _ _ => by
      constructor <;> nofun

end Ecma

namespace IdentifierCollector

theorem mem_insert {collector : IdentifierCollector} {names : List String} {name : String} :
    name ∈ (collector.insert names).identifiers ↔ name ∈ collector.identifiers ∨ name ∈ names := by
  rw [insert]
  generalize collector.identifiers = identifiers
  induction names generalizing identifiers with
  | nil => simp only [List.foldl_nil, List.not_mem_nil, or_false]
  | cons first names ih => rw [List.foldl_cons, ih, mem_collectBinding, List.mem_cons, or_assoc]

/-- The collector holds what it held before and what the nodes have. -/
structure Gathers (before after : IdentifierCollector) (among : Node → Prop) : Prop where
  identifiers : ∀ name, name ∈ after.identifiers ↔
    name ∈ before.identifiers ∨ ∃ node, among node ∧ name ∈ node.kind.identifiers
  usesDirectEval : after.usesDirectEval = true ↔
    before.usesDirectEval = true ∨ ∃ node, among node ∧ node.EvaluatesText

variable {before middle after : IdentifierCollector} {among others : Node → Prop}

theorem Gathers.trans (h : Gathers before middle among) (hmiddle : Gathers middle after others) :
    Gathers before after fun node => among node ∨ others node where
  identifiers name := by
    rw [hmiddle.identifiers, h.identifiers]
    simp only [or_and_right, exists_or, or_assoc]
  usesDirectEval := by
    rw [hmiddle.usesDirectEval, h.usesDirectEval]
    simp only [or_and_right, exists_or, or_assoc]

theorem Gathers.congr (h : Gathers before after among) (hiff : ∀ node, others node ↔ among node) :
    Gathers before after others := by
  rwa [show others = among from funext fun node => propext (hiff node)]

/-- What one node has. -/
theorem Gathers.single {node : Node}
    (hidentifiers : after.identifiers = (before.insert node.kind.identifiers).identifiers)
    (heval : after.usesDirectEval = true ↔ before.usesDirectEval = true ∨ node.EvaluatesText) :
    Gathers before after (· = node) where
  identifiers name := by rw [hidentifiers, mem_insert, exists_eq_left]
  usesDirectEval := by rw [heval, exists_eq_left]

theorem evaluatesText_call_iff {span : SourceRange} {heads parts : List Node} :
    Node.EvaluatesText (.mk .call span heads parts) ↔ heads.any expressionIsDirectEval = true := by
  rw [List.any_eq_true]
  constructor
  · rintro ⟨hmem, h⟩
    exact ⟨_, hmem, (expressionIsDirectEval_iff _).mpr h⟩
  · rintro ⟨callee, hmem, h⟩
    exact .call hmem ((expressionIsDirectEval_iff callee).mp h)

mutual

theorem visit_gathers (collector : IdentifierCollector) : ∀ node : Node,
    Gathers collector (visit collector node) (·.Within node)
  | .mk kind span heads parts => by
      refine Gathers.congr ?_ fun node => Node.within_mk_iff
      cases kind with
      | call =>
          rw [visit]
          refine (Gathers.trans ?_ (visitAll_gathers _ heads)).trans (visitAll_gathers _ parts)
          refine .single rfl ?_
          rw [evaluatesText_call_iff, ← Bool.or_eq_true]
          rfl
      | _ =>
          rw [visit]
          · refine (Gathers.trans ?_ (visitAll_gathers _ heads)).trans (visitAll_gathers _ parts)
            exact .single rfl ⟨Or.inl, fun h => h.elim id nofun⟩
          · nofun

theorem visitAll_gathers (collector : IdentifierCollector) : ∀ nodes : List Node,
    Gathers collector (visitAll collector nodes) (fun node => ∃ root ∈ nodes, node.Within root)
  | [] => by
      rw [visitAll]
      refine ⟨fun name => (or_iff_left ?_).symm, (or_iff_left ?_).symm⟩ <;>
        rintro ⟨node, ⟨root, hmem, -⟩, -⟩ <;> cases hmem
  | node :: nodes => by
      rw [visitAll]
      refine ((visit_gathers collector node).trans (visitAll_gathers _ nodes)).congr fun inner => ?_
      simp only [List.mem_cons, or_and_right, exists_or, exists_eq_left]

end

theorem mem_identifiers_visitItem {collector : IdentifierCollector} {tree : ModuleSyntax} {name : String} :
    name ∈ (collector.visitItem tree).identifiers ↔ name ∈ collector.identifiers ∨ tree.Mentions name := by
  rw [visitItem, (visitAll_gathers _ tree.nodes).identifiers, mem_insert, or_assoc]
  rfl

theorem usesDirectEval_visitItem {collector : IdentifierCollector} {tree : ModuleSyntax} :
    (collector.visitItem tree).usesDirectEval = true ↔ collector.usesDirectEval = true ∨ tree.EvaluatesText := by
  rw [visitItem, (visitAll_gathers _ tree.nodes).usesDirectEval]
  rfl

theorem mem_identifiers_foldl {body : List ModuleSyntax} {collector : IdentifierCollector} {name : String} :
    name ∈ (body.foldl visitItem collector).identifiers ↔
      name ∈ collector.identifiers ∨ ∃ tree ∈ body, tree.Mentions name := by
  induction body generalizing collector with
  | nil => simp only [List.foldl_nil, List.not_mem_nil, false_and, exists_false, or_false]
  | cons tree body ih => rw [List.foldl_cons, ih, mem_identifiers_visitItem, List.exists_mem_cons_iff, or_assoc]

theorem usesDirectEval_foldl {body : List ModuleSyntax} {collector : IdentifierCollector} :
    (body.foldl visitItem collector).usesDirectEval = true ↔
      collector.usesDirectEval = true ∨ ∃ tree ∈ body, tree.EvaluatesText := by
  induction body generalizing collector with
  | nil => simp only [List.foldl_nil, List.not_mem_nil, false_and, exists_false, or_false]
  | cons tree body ih => rw [List.foldl_cons, ih, usesDirectEval_visitItem, List.exists_mem_cons_iff, or_assoc]

end IdentifierCollector

section

variable {path : PathBuf} {sideEffectFree : Option Bool} {body : List ModuleSyntax} {parsed : ParsedModule}

/-- The identifiers of a parse are the names that the module mentions. -/
theorem parse_mem_identifiers_iff (h : parseModuleDependencies path sideEffectFree body = .ok parsed)
    {name : String} : name ∈ parsed.identifiers ↔ ∃ tree ∈ body, tree.Mentions name := by
  obtain ⟨state, hstate, h⟩ := Fallible.of_bind_ok h
  obtain ⟨blocks, -, h⟩ := Fallible.of_bind_ok h
  cases h
  have hleaves := ModuleDeclState.leaves_foldlM
    (fun before item after => @ModuleDeclState.leaves_collectModuleItem before after path item) hstate
  show name ∈ state.parsed.identifiers ↔ _
  rw [hleaves.identifiers, List.mem_mergeSort, IdentifierCollector.mem_identifiers_foldl]
  exact or_iff_right List.not_mem_nil

theorem parse_usesDirectEval_iff (h : parseModuleDependencies path sideEffectFree body = .ok parsed) :
    parsed.buildMeta.usesDirectEval = true ↔ ∃ tree ∈ body, tree.EvaluatesText := by
  obtain ⟨state, -, h⟩ := Fallible.of_bind_ok h
  obtain ⟨blocks, -, h⟩ := Fallible.of_bind_ok h
  cases h
  exact IdentifierCollector.usesDirectEval_foldl.trans (or_iff_right Bool.false_ne_true)

end

namespace ConcatenationScope

/-- The names that a scope with the suffix declares. -/
def namesOf (suffix : Nat) : List String := [exportsNameOf suffix, initializedNameOf suffix, initializersNameOf suffix]

def stems : List String :=
  ["__webpack_concatenation_exports__", "__webpack_concatenation_initialized__",
    "__webpack_concatenation_initializers__"]

theorem namesOf_eq_map (suffix : Nat) : namesOf suffix = stems.map (· ++ toString suffix) := rfl

theorem stems_apart : ∀ stem ∈ stems, ∀ other ∈ stems, stem.toList <+: other.toList → stem = other := by
  decide

/-- A name has one suffix. -/
theorem suffix_unique {name : String} {suffix other : Nat} (h : name ∈ namesOf suffix) (hother : name ∈ namesOf other) :
    suffix = other := by
  rw [namesOf_eq_map] at h hother
  obtain ⟨stem, hstem, rfl⟩ := List.mem_map.mp h
  obtain ⟨stem', hstem', heq⟩ := List.mem_map.mp hother
  have hlist := congrArg String.toList heq
  simp only [String.toList_append] at hlist
  have hstems : stem' = stem := by
    rcases List.prefix_or_prefix_of_prefix ⟨_, hlist⟩ ⟨_, rfl⟩ with hfirst | hfirst
    · exact stems_apart stem' hstem' stem hstem hfirst
    · exact (stems_apart stem hstem stem' hstem' hfirst).symm
  rw [hstems] at hlist
  exact (toString_injective (String.toList_inj.mp (List.append_cancel_left hlist))).symm

/-- One of the names with the suffix is an identifier. -/
def Taken (identifiers : List String) (suffix : Nat) : Prop := ∃ name ∈ namesOf suffix, name ∈ identifiers

variable {identifiers : List String}

theorem not_taken_iff {suffix : Nat} : ¬ Taken identifiers suffix ↔ exportsNameOf suffix ∉ identifiers ∧
    initializedNameOf suffix ∉ identifiers ∧ initializersNameOf suffix ∉ identifiers := by
  simp only [Taken, namesOf, List.mem_cons, List.not_mem_nil, or_false, exists_eq_or_imp, exists_eq_left, not_or]

theorem searches_freeSuffix : Searches (freeSuffix identifiers) (Taken identifiers) where
  zero _ := rfl
  stop _ _ hfree := if_pos (not_taken_iff.mp hfree)
  next _ _ htaken := if_neg fun hfree => not_taken_iff.mpr hfree htaken

/-- The suffix of a scope is the first free one: each suffix takes an identifier of its own. -/
theorem isLeast_suffix (modules : List ModuleHandle) (identifiers : List String) :
    IsLeast {suffix | ¬ Taken identifiers suffix} (ConcatenationScope.new modules identifiers).suffix := by
  constructor
  · exact searches_freeSuffix.not_taken (fun name suffix => name ∈ namesOf suffix)
      (fun suffix ⟨name, hname, hmem⟩ => ⟨name, hmem, hname⟩) (fun _ _ _ => suffix_unique)
      identifiers.toFinset_card_le 0
  · intro suffix hfree
    by_contra hlt
    exact hfree (searches_freeSuffix.taken_of_lt identifiers.length (Nat.zero_le suffix) (Nat.not_le.mp hlt))

end ConcatenationScope

namespace ModuleGraph

variable {graph : ModuleGraph} {chunkGraph : ChunkGraph} {handle : ModuleHandle} {module : Module}

theorem usesDirectEval_of_moduleCanConcatenate (hcan : graph.moduleCanConcatenate chunkGraph handle = true)
    (hmodule : graph.module handle = some module) : module.usesDirectEval = false := by
  rw [moduleCanConcatenate, hmodule] at hcan
  simp only [Bool.and_eq_true, Bool.not_eq_true'] at hcan
  exact hcan.1.1.2

end ModuleGraph

/-- **The names of a concatenation are hygienic.** Their suffix is the first one with which no inner module mentions
any of them, and no inner module evaluates text in its own scope, from which the names could be read all the same. -/
theorem concatenated_names_unmentioned (compilation : OptimizedCompilation) (context : RenderPathContext)
    {root : ModuleHandle} {concatenated : ConcatenatedModule}
    (hconcatenated : (compilation.sealedChunkGraph context).concatenatedModule root = some concatenated)
    {body : ModuleHandle → List ModuleSyntax}
    (hparse : ∀ handle ∈ concatenated.modules, ∃ module path sideEffectFree,
      compilation.moduleGraph.module handle = some module ∧
        parseModuleDependencies path sideEffectFree (body handle) = .ok module.builtContent.parsed) :
    IsLeast {suffix | ∀ handle ∈ concatenated.modules, ∀ tree ∈ body handle,
        ∀ name ∈ ConcatenationScope.namesOf suffix, ¬ tree.Mentions name}
      (concatenated.concatenationScope compilation.moduleGraph).suffix ∧
    ∀ handle ∈ concatenated.modules, ∀ tree ∈ body handle, ¬ tree.EvaluatesText := by
  constructor
  · have hleast := ConcatenationScope.isLeast_suffix concatenated.modules (concatenated.modules.flatMap fun handle =>
      (compilation.moduleGraph.module handle).elim [] (·.identifiers))
    have hfree : ∀ suffix, (∀ handle ∈ concatenated.modules, ∀ tree ∈ body handle,
        ∀ name ∈ ConcatenationScope.namesOf suffix, ¬ tree.Mentions name) ↔
          ¬ ConcatenationScope.Taken (concatenated.modules.flatMap fun handle =>
            (compilation.moduleGraph.module handle).elim [] (·.identifiers)) suffix := by
      intro suffix
      constructor
      · rintro hunmentioned ⟨name, hname, hmem⟩
        obtain ⟨handle, hhandle, hidentifier⟩ := List.mem_flatMap.mp hmem
        obtain ⟨module, path, sideEffectFree, hmodule, hparsed⟩ := hparse handle hhandle
        rw [hmodule] at hidentifier
        obtain ⟨tree, htree, hmentions⟩ := (parse_mem_identifiers_iff hparsed).mp hidentifier
        exact hunmentioned handle hhandle tree htree name hname hmentions
      · intro hfree handle hhandle tree htree name hname hmentions
        obtain ⟨module, path, sideEffectFree, hmodule, hparsed⟩ := hparse handle hhandle
        refine hfree ⟨name, hname, List.mem_flatMap.mpr ⟨handle, hhandle, ?_⟩⟩
        rw [hmodule]
        exact (parse_mem_identifiers_iff hparsed).mpr ⟨tree, htree, hmentions⟩
    rwa [show {suffix | ∀ handle ∈ concatenated.modules, ∀ tree ∈ body handle,
      ∀ name ∈ ConcatenationScope.namesOf suffix, ¬ tree.Mentions name} = _ from Set.ext hfree]
  · intro handle hhandle tree htree hevaluates
    obtain ⟨module, path, sideEffectFree, hmodule, hparsed⟩ := hparse handle hhandle
    have hcan := OptimizedCompilation.concatenated_moduleCanConcatenate hconcatenated hhandle
    have hnot := ModuleGraph.usesDirectEval_of_moduleCanConcatenate hcan hmodule
    exact Bool.false_ne_true (hnot.symm.trans ((parse_usesDirectEval_iff hparsed).mpr ⟨tree, htree, hevaluates⟩))

/-- The importer names what the first suffix would declare. -/
def reservedNameBody : ModuleHandle → List ModuleSyntax
  | 0 => [⟨.moduleDecl (.import { specifiers := [], src := .utf8 "b", span := ⟨0, 11⟩ }), []⟩,
      ⟨.stmt, [.mk (.ident "__webpack_concatenation_exports__0") ⟨12, 46⟩ [] []]⟩]
  | _ => [⟨.moduleDecl (.exportNamed { specifiers := [], span := ⟨0, 10⟩ }), []⟩]

def reservedNameModule (name : String) (handle : ModuleHandle) : Module :=
  { Module.javaScript name [] [] with
    builtContent := { parsed := (parseModuleDependencies [] none (reservedNameBody handle)).toOption.getD {} } }

def reservedNameCompilation : OptimizedCompilation where
  options := { entryNames := ["main"], concatenateModules := true }
  moduleGraph := (ModuleGraph.ofModules [reservedNameModule "a" 0, reservedNameModule "b" 1] [0]).setExportsInfo 0
    (.fromNames [])
  entries := [0]
  indexed := by decide +kernel
  entries_lt := by decide +kernel
  nonstatic_active := by decide +kernel

theorem concatenated_names_unmentioned_second :
    (reservedNameCompilation.sealedChunkGraph plainPaths).concatenatedModule 0 = some ⟨0, [0, 1]⟩ ∧
      ∀ handle ∈ [0, 1], ∀ tree ∈ reservedNameBody handle, ∀ name ∈ ConcatenationScope.namesOf 1,
        ¬ tree.Mentions name := by
  have hconcatenated : (reservedNameCompilation.sealedChunkGraph plainPaths).concatenatedModule 0 =
      some ⟨0, [0, 1]⟩ := by decide +kernel
  have hsuffix : ((⟨0, [0, 1]⟩ : ConcatenatedModule).concatenationScope
      reservedNameCompilation.moduleGraph).suffix = 1 := by decide +kernel
  have hparse : ∀ handle ∈ [0, 1], ∃ module path sideEffectFree,
      reservedNameCompilation.moduleGraph.module handle = some module ∧
        parseModuleDependencies path sideEffectFree (reservedNameBody handle) = .ok module.builtContent.parsed := by
    intro handle hmem
    rcases List.mem_pair.mp hmem with rfl | rfl
    · exact ⟨_, [], none, rfl, rfl⟩
    · exact ⟨_, [], none, rfl, rfl⟩
  obtain ⟨⟨hunmentioned, -⟩, -⟩ :=
    concatenated_names_unmentioned reservedNameCompilation plainPaths hconcatenated hparse
  rw [hsuffix] at hunmentioned
  exact ⟨hconcatenated, hunmentioned⟩

end Unpack
