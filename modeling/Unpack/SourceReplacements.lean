import Unpack.CodeGeneration
import Unpack.ExportClassification
import Unpack.ParserVisitors

/-! Where the replacements of a module's source lie. A parse leaves dependencies that rewrite the text of
declarations, of uses of import bindings and of dynamic imports; the syntax tree keeps these texts apart,
except for what stands inside the arguments of an import call. -/

namespace Unpack

open Ecma

namespace SourceRange

def Apart (left right : SourceRange) : Prop := left.stop ≤ right.start ∨ right.stop ≤ left.start

def Within (inner outer : SourceRange) : Prop := outer.start ≤ inner.start ∧ inner.stop ≤ outer.stop

/-- In bounds and on character boundaries. -/
def Lies (source : String) (range : SourceRange) : Prop :=
  range.start ≤ range.stop ∧ range.stop ≤ source.utf8ByteSize ∧
    range.start ∈ charBoundaries source ∧ range.stop ∈ charBoundaries source

instance (left right : SourceRange) : Decidable (left.Apart right) := inferInstanceAs (Decidable (_ ∨ _))

instance (inner outer : SourceRange) : Decidable (inner.Within outer) := inferInstanceAs (Decidable (_ ∧ _))

instance (source : String) (range : SourceRange) : Decidable (range.Lies source) :=
  inferInstanceAs (Decidable (_ ∧ _ ∧ _ ∧ _))

variable {inner outer left right : SourceRange}

theorem Apart.symm (h : left.Apart right) : right.Apart left := Or.symm h

theorem Within.refl (range : SourceRange) : range.Within range := ⟨le_refl _, le_refl _⟩

theorem Within.trans {middle : SourceRange} (h : inner.Within middle) (hmiddle : middle.Within outer) :
    inner.Within outer := ⟨hmiddle.1.trans h.1, h.2.trans hmiddle.2⟩

theorem Apart.within {left' right' : SourceRange} (h : left.Apart right) (hleft : left'.Within left)
    (hright : right'.Within right) : left'.Apart right' :=
  h.imp (fun hle => hleft.2.trans (hle.trans hright.1)) (fun hle => hright.2.trans (hle.trans hleft.1))

/-- A text is not apart from one that it stands in. -/
theorem Within.not_apart (h : inner.Within outer) (hlt : inner.start < inner.stop) : ¬ inner.Apart outer := by
  obtain ⟨hstart, hstop⟩ := h
  rw [Apart]
  omega

end SourceRange

namespace Ecma

def NodeKind.isImportCall : NodeKind → Bool
  | importCall => true
  | _ => false

/-- An identifier, which has no parts. -/
def NodeKind.isIdentifier : NodeKind → Bool
  | ident _ | shorthand _ => true
  | _ => false

mutual

/-- The parts of a node lie in it, apart from each other; those of an import call come after its keyword. -/
def Node.WellSpanned (source : String) : Node → Prop
  | .mk kind span heads parts =>
      span.Lies source ∧ (kind.isIdentifier = true → span.start < span.stop ∧ heads = [] ∧ parts = []) ∧
        (kind.isImportCall = true → span.start < span.stop ∧ ∀ part ∈ heads ++ parts, span.start < part.span.start) ∧
        (∀ part ∈ heads ++ parts, part.span.Within span) ∧
        (heads ++ parts).Pairwise (fun left right => left.span.Apart right.span) ∧
        AllWellSpanned source heads ∧ AllWellSpanned source parts

def AllWellSpanned (source : String) : List Node → Prop
  | [] => True
  | node :: nodes => node.WellSpanned source ∧ AllWellSpanned source nodes

end

def ModuleDecl.span : ModuleDecl → SourceRange
  | .import decl => decl.span
  | .exportDecl decl => decl.span
  | .exportNamed decl => decl.span
  | .exportDefaultDecl decl => decl.span
  | .exportDefaultExpr decl => decl.span
  | .exportAll decl => decl.span

/-- The declaration or expression that is exported. -/
def ModuleDecl.inner : ModuleDecl → Option SourceRange
  | .exportDecl decl => some decl.declSpan
  | .exportDefaultDecl decl => some decl.declSpan
  | .exportDefaultExpr decl => some decl.exprSpan
  | .import _ | .exportNamed _ | .exportAll _ => none

namespace ModuleSyntax

/-- The texts of an item. -/
def extents (tree : ModuleSyntax) : List SourceRange :=
  match tree.item with
  | .moduleDecl decl => [decl.span]
  | .stmt => tree.nodes.map Node.span

structure WellSpanned (source : String) (tree : ModuleSyntax) : Prop where
  span : ∀ decl, tree.item = .moduleDecl decl → decl.span.Lies source
  inner : ∀ decl, tree.item = .moduleDecl decl → ∀ inner ∈ decl.inner,
    inner.Lies source ∧ inner.Within decl.span
  within : ∀ decl, tree.item = .moduleDecl decl → ∀ node ∈ tree.nodes, ∃ inner ∈ decl.inner, node.span.Within inner
  nodes : AllWellSpanned source tree.nodes
  apart : tree.nodes.Pairwise fun left right => left.span.Apart right.span

end ModuleSyntax

/-- What the spans of a syntax tree are assumed to be: in bounds, on character boundaries, and nested or
apart as the nodes are. -/
structure BodyWellSpanned (source : String) (body : List ModuleSyntax) : Prop where
  items : ∀ tree ∈ body, tree.WellSpanned source
  apart : (body.flatMap ModuleSyntax.extents).Pairwise SourceRange.Apart

end Ecma

inductive ReplacedKind where
  | declaration
  | usage
  | importCall
  deriving DecidableEq

structure Replaceable where
  kind : ReplacedKind
  range : SourceRange
  deriving DecidableEq

namespace Replaceable

/-- The text of an import call with another inside its arguments. -/
def Holds (outer inner : Replaceable) : Prop :=
  outer.kind = .importCall ∧ inner.kind ≠ .declaration ∧ outer.range.start < inner.range.start ∧
    inner.range.stop ≤ outer.range.stop

def Laid (left right : Replaceable) : Prop :=
  left.range.Apart right.range ∨ left.Holds right ∨ right.Holds left

variable {left right : Replaceable}

theorem Laid.symm (h : left.Laid right) : right.Laid left := h.imp SourceRange.Apart.symm Or.symm

theorem Holds.within (h : left.Holds right) : right.range.Within left.range := ⟨h.2.2.1.le, h.2.2.2⟩

end Replaceable

def Ecma.NodeKind.replaceables (span : SourceRange) : NodeKind → List Replaceable
  | .ident _ | .shorthand _ => [⟨.usage, span⟩]
  | .importCall => [⟨.importCall, span⟩]
  | _ => []

namespace Ecma.NodeKind

variable {kind : NodeKind} {span : SourceRange}

theorem replaceables_of_isIdentifier (h : kind.isIdentifier = true) :
    kind.replaceables span = [⟨.usage, span⟩] := by
  cases kind <;> simp_all [isIdentifier, replaceables]

theorem replaceables_of_isImportCall (h : kind.isImportCall = true) :
    kind.replaceables span = [⟨.importCall, span⟩] := by
  cases kind <;> simp_all [isImportCall, replaceables]

theorem replaceables_eq_nil (hidentifier : kind.isIdentifier = false) (hcall : kind.isImportCall = false) :
    kind.replaceables span = [] := by
  cases kind <;> simp_all [isIdentifier, isImportCall, replaceables]

end Ecma.NodeKind

mutual

/-- The identifiers and import calls of a node, from the outside in. -/
def Ecma.Node.replaceables : Node → List Replaceable
  | .mk kind span heads parts =>
      kind.replaceables span ++ (allReplaceables heads ++ allReplaceables parts)

def allReplaceables : List Node → List Replaceable
  | [] => []
  | node :: nodes => node.replaceables ++ allReplaceables nodes

end

/-- What holds of the texts of a well spanned node or list of nodes. -/
structure WellPlaced (source : String) (ranges : List SourceRange) (texts : List Replaceable) : Prop where
  kind : ∀ text ∈ texts, text.kind ≠ .declaration
  lies : ∀ text ∈ texts, text.range.Lies source
  nonempty : ∀ text ∈ texts, text.range.start < text.range.stop
  within : ∀ text ∈ texts, ∃ range ∈ ranges, text.range.Within range
  laid : texts.Pairwise Replaceable.Laid

namespace WellPlaced

variable {source : String} {ranges others : List SourceRange} {texts more : List Replaceable}

theorem empty : WellPlaced source ranges [] where
  kind := nofun
  lies := nofun
  nonempty := nofun
  within := nofun
  laid := .nil

theorem append (h : WellPlaced source ranges texts) (hmore : WellPlaced source others more)
    (hapart : ∀ range ∈ ranges, ∀ other ∈ others, range.Apart other) :
    WellPlaced source (ranges ++ others) (texts ++ more) where
  kind text htext := (List.mem_append.mp htext).elim (h.kind text) (hmore.kind text)
  lies text htext := (List.mem_append.mp htext).elim (h.lies text) (hmore.lies text)
  nonempty text htext := (List.mem_append.mp htext).elim (h.nonempty text) (hmore.nonempty text)
  within text htext := by
    rcases List.mem_append.mp htext with htext | htext
    · obtain ⟨range, hrange, hwithin⟩ := h.within text htext
      exact ⟨range, List.mem_append_left _ hrange, hwithin⟩
    · obtain ⟨range, hrange, hwithin⟩ := hmore.within text htext
      exact ⟨range, List.mem_append_right _ hrange, hwithin⟩
  laid := by
    refine List.pairwise_append.mpr ⟨h.laid, hmore.laid, fun text htext other hother => Or.inl ?_⟩
    obtain ⟨range, hrange, hwithin⟩ := h.within text htext
    obtain ⟨range', hrange', hwithin'⟩ := hmore.within other hother
    exact (hapart range hrange range' hrange').within hwithin hwithin'

/-- Texts inside a larger one. -/
theorem enlarge {outer : SourceRange} (h : WellPlaced source ranges texts)
    (hwithin : ∀ range ∈ ranges, range.Within outer) : WellPlaced source [outer] texts :=
  { h with
    within := fun text htext => by
      obtain ⟨range, hrange, hinside⟩ := h.within text htext
      exact ⟨outer, List.mem_singleton_self outer, hinside.trans (hwithin range hrange)⟩ }

/-- An import call around the texts of its arguments. -/
theorem call {outer : SourceRange} (h : WellPlaced source ranges texts) (hlies : outer.Lies source)
    (hlt : outer.start < outer.stop) (hwithin : ∀ range ∈ ranges, range.Within outer)
    (hafter : ∀ range ∈ ranges, outer.start < range.start) :
    WellPlaced source [outer] (⟨.importCall, outer⟩ :: texts) where
  kind := List.forall_mem_cons.mpr ⟨nofun, h.kind⟩
  lies := List.forall_mem_cons.mpr ⟨hlies, h.lies⟩
  nonempty := List.forall_mem_cons.mpr ⟨hlt, h.nonempty⟩
  within := List.forall_mem_cons.mpr
    ⟨⟨outer, List.mem_singleton_self outer, .refl outer⟩, (h.enlarge hwithin).within⟩
  laid := by
    refine List.pairwise_cons.mpr ⟨fun text htext => Or.inr (Or.inl ⟨rfl, h.kind text htext, ?_⟩), h.laid⟩
    obtain ⟨range, hrange, hinside⟩ := h.within text htext
    exact ⟨(hafter range hrange).trans_le hinside.1, hinside.2.trans (hwithin range hrange).2⟩

end WellPlaced

mutual

theorem wellPlaced {source : String} : ∀ {node : Node}, node.WellSpanned source →
    WellPlaced source [node.span] node.replaceables
  | .mk kind span heads parts, h => by
      rw [Node.WellSpanned] at h
      obtain ⟨hlies, hident, hcall, hwithin, hapart, hheads, hparts⟩ := h
      obtain ⟨happart, hpapart, hacross⟩ := List.pairwise_append.mp hapart
      have hinside : WellPlaced source ((heads ++ parts).map Node.span)
        (allReplaceables heads ++ allReplaceables parts) := by
        rw [List.map_append]
        refine (wellPlaced_all happart hheads).append (wellPlaced_all hpapart hparts) ?_
        simp only [List.mem_map, forall_exists_index, and_imp, forall_apply_eq_imp_iff₂]
        exact hacross
      have hranges : ∀ range ∈ (heads ++ parts).map Node.span, range.Within span := by
        simpa only [List.mem_map, forall_exists_index, and_imp, forall_apply_eq_imp_iff₂] using hwithin
      rw [Node.replaceables, Node.span]
      cases hkind : kind.isIdentifier with
      | true =>
          obtain ⟨hlt, rfl, rfl⟩ := hident hkind
          rw [NodeKind.replaceables_of_isIdentifier hkind]
          refine ⟨?_, ?_, ?_, ?_, List.pairwise_singleton _ _⟩ <;>
            simp only [allReplaceables, List.append_nil, List.mem_singleton, forall_eq]
          · nofun
          · exact hlies
          · exact hlt
          · exact ⟨span, rfl, .refl span⟩
      | false =>
          cases hcalled : kind.isImportCall with
          | true =>
              rw [NodeKind.replaceables_of_isImportCall hcalled]
              obtain ⟨hlt, hafter⟩ := hcall hcalled
              refine hinside.call hlies hlt hranges ?_
              simpa only [List.mem_map, forall_exists_index, and_imp, forall_apply_eq_imp_iff₂] using hafter
          | false =>
              rw [NodeKind.replaceables_eq_nil hkind hcalled, List.nil_append]
              exact hinside.enlarge hranges

theorem wellPlaced_all {source : String} : ∀ {nodes : List Node},
    nodes.Pairwise (fun left right => left.span.Apart right.span) → AllWellSpanned source nodes →
      WellPlaced source (nodes.map Node.span) (allReplaceables nodes)
  | [], _, _ => .empty
  | node :: nodes, hapart, h => by
      rw [AllWellSpanned] at h
      obtain ⟨hfirst, hrest⟩ := List.pairwise_cons.mp hapart
      rw [allReplaceables, List.map_cons]
      refine (wellPlaced h.1).append (wellPlaced_all hrest h.2) ?_
      simp only [List.mem_singleton, forall_eq, List.mem_map, forall_exists_index, and_imp,
        forall_apply_eq_imp_iff₂]
      exact hfirst

end

/-- The texts that the template of a dependency replaces. -/
def Dependency.replacedRanges : Dependency → List SourceRange
  | .const dep => [dep.range]
  | .harmonyExportHeader dep =>
      [⟨dep.statementRange.start, dep.declarationRange.elim dep.statementRange.stop (·.start)⟩]
  | .harmonyExportExpression dep => [⟨dep.statementRange.start, dep.range.start⟩]
  | .harmonyImportSpecifier dep => [dep.usageRange]
  | .import dep => dep.module.range.toList
  | _ => []

namespace Replaceable

def ofKind (kind : ReplacedKind) (texts : List Replaceable) : List SourceRange :=
  (texts.filter (·.kind = kind)).map (·.range)

theorem ofKind_append (kind : ReplacedKind) (texts others : List Replaceable) :
    ofKind kind (texts ++ others) = ofKind kind texts ++ ofKind kind others := by
  rw [ofKind, List.filter_append, List.map_append, ofKind, ofKind]

theorem ofKind_sublist_append (kind : ReplacedKind) (texts others : List Replaceable) :
    (ofKind kind texts).Sublist (ofKind kind (others ++ texts)) := by
  rw [ofKind_append]
  exact List.sublist_append_right _ _

theorem map_ofKind (kind : ReplacedKind) (texts : List Replaceable) :
    (ofKind kind texts).map (mk kind) = texts.filter (·.kind = kind) := by
  rw [ofKind, List.map_map]
  refine (List.map_congr_left fun text htext => ?_).trans (List.map_id _)
  have hkind := of_decide_eq_true (List.mem_filter.mp htext).2
  subst hkind
  rfl

/-- Uses and import calls that are recorded are among all texts. -/
theorem ofKind_subperm {texts : List Replaceable} {used calls : List SourceRange}
    (hused : used.Sublist (ofKind .usage texts)) (hcalls : calls.Sublist (ofKind .importCall texts)) :
    (used.map (mk .usage) ++ calls.map (mk .importCall)).Subperm texts := by
  have hfirst : (used.map (mk .usage)).Sublist (texts.filter (·.kind = .usage)) := by
    rw [← map_ofKind]
    exact hused.map _
  have hlater : (calls.map (mk .importCall)).Sublist (texts.filter fun text => ! decide (text.kind = .usage)) := by
    have hsub := hcalls.map (mk .importCall)
    rw [map_ofKind] at hsub
    refine hsub.trans (List.monotone_filter_right _ fun text htext => ?_)
    have hkind := of_decide_eq_true htext
    rw [hkind]
    rfl
  exact (List.filter_append_perm _ texts).subperm_left.mp (hfirst.append hlater).subperm

end Replaceable

open Replaceable (ofKind)

/-- The list grew by items whose ranges are among the texts of one kind, in their order. -/
def GrewFrom {α : Type} (ranges : α → List SourceRange) (good : α → Prop) (kind : ReplacedKind)
    (before after : List α) (texts : List Replaceable) : Prop :=
  ∃ added, after = before ++ added ∧ (added.flatMap ranges).Sublist (ofKind kind texts) ∧ ∀ item ∈ added, good item

namespace GrewFrom

variable {α : Type} {ranges : α → List SourceRange} {good : α → Prop} {kind : ReplacedKind}
  {before middle after : List α} {texts others : List Replaceable}

theorem refl : GrewFrom ranges good kind before before texts :=
  ⟨[], (List.append_nil before).symm, List.nil_sublist _, nofun⟩

theorem trans (h : GrewFrom ranges good kind before middle texts)
    (hmiddle : GrewFrom ranges good kind middle after others) :
    GrewFrom ranges good kind before after (texts ++ others) := by
  obtain ⟨added, rfl, hsub, hall⟩ := h
  obtain ⟨more, rfl, hsub', hall'⟩ := hmiddle
  refine ⟨added ++ more, List.append_assoc _ _ _, ?_, ?_⟩
  · rw [List.flatMap_append, Replaceable.ofKind_append]
    exact hsub.append hsub'
  · exact fun item hmem => (List.mem_append.mp hmem).elim (hall item) (hall' item)

/-- Texts that are not visited. -/
theorem behind (h : GrewFrom ranges good kind before after texts) (others : List Replaceable) :
    GrewFrom ranges good kind before after (others ++ texts) := by
  obtain ⟨added, hadded, hsub, hall⟩ := h
  exact ⟨added, hadded, hsub.trans (Replaceable.ofKind_sublist_append _ _ _), hall⟩

end GrewFrom

namespace ImportUsageVisitor

variable {imports : FxHashMap String ImportBinding}

/-- Of the identifiers among the texts some are recorded as uses, in their order. -/
def Records (visitor after : ImportUsageVisitor) (texts : List Replaceable) : Prop :=
  GrewFrom Dependency.replacedRanges (·.isHarmonyImportSpecifier = true) .usage visitor.dependencies after.dependencies
    texts

theorem records_addImportUsage (visitor : ImportUsageVisitor) (sym : String) (span : SourceRange) (shorthand : Bool)
    (others : List Replaceable) :
    visitor.Records (visitor.addImportUsage imports sym span shorthand) ([⟨.usage, span⟩] ++ others) := by
  rw [addImportUsage]
  split
  · exact GrewFrom.refl
  · split_ifs
    · exact GrewFrom.refl
    · refine ⟨_, rfl, ?_, fun dependency hmem => ?_⟩
      · rw [Replaceable.ofKind_append]
        exact List.sublist_append_left [span] _
      · rw [List.mem_singleton.mp hmem]
        rfl

mutual

/-- Scopes hold no dependencies, so that opening and closing them records nothing. -/
theorem records_visit (imports : FxHashMap String ImportBinding) : ∀ (visitor : ImportUsageVisitor) (node : Node),
    visitor.Records (visit imports visitor node) node.replaceables
  | visitor, .mk kind span heads parts => by
      rw [Node.replaceables]
      have hboth : ∀ start : ImportUsageVisitor, start.Records (visitAll imports (visitAll imports start heads) parts)
          (kind.replaceables span ++ (allReplaceables heads ++ allReplaceables parts)) := fun start =>
        ((records_visitAll imports start heads).trans (records_visitAll imports _ parts)).behind _
      have hparts : ∀ start : ImportUsageVisitor, start.Records (visitAll imports start parts)
          (kind.replaceables span ++ (allReplaceables heads ++ allReplaceables parts)) := fun start =>
        ((records_visitAll imports start parts).behind _).behind _
      cases kind with
      | ident sym =>
          rw [visit]
          exact records_addImportUsage visitor sym span false _
      | shorthand sym =>
          rw [visit]
          exact records_addImportUsage visitor sym span true _
      | bindingIdent sym =>
          rw [visit]
          exact GrewFrom.refl
      | blockStmt =>
          rw [visit]
          exact hboth visitor.pushScope
      | fnDecl ident params =>
          rw [visit]
          exact hparts ((visitor.addBinding ident).pushScope.addPatterns params)
      | fnExpr ident params =>
          rw [visit]
          cases ident with
          | none => exact hparts (visitor.pushScope.addPatterns params)
          | some name => exact hparts ((visitor.pushScope.addBinding name).addPatterns params)
      | arrowExpr params =>
          rw [visit]
          exact hboth (visitor.pushScope.addPatterns params)
      | classDecl ident =>
          rw [visit]
          exact hboth (visitor.addBinding ident)
      | classExpr ident =>
          rw [visit]
          cases ident with
          | none => exact hboth visitor.pushScope
          | some name => exact hboth (visitor.pushScope.addBinding name)
      | varDeclarator name =>
          rw [visit]
          exact hparts (visitor.addPatterns [name])
      | str value | tpl quasis | spread | paren | call | importCall | other =>
          rw [visit]
          exact hboth visitor

theorem records_visitAll (imports : FxHashMap String ImportBinding) :
    ∀ (visitor : ImportUsageVisitor) (nodes : List Node),
      visitor.Records (visitAll imports visitor nodes) (allReplaceables nodes)
  | visitor, [] => by
      rw [visitAll]
      exact GrewFrom.refl
  | visitor, node :: nodes => by
      rw [visitAll, allReplaceables]
      exact (records_visit imports visitor node).trans (records_visitAll imports _ nodes)

end

theorem records_visitItem (imports : FxHashMap String ImportBinding) (visitor : ImportUsageVisitor)
    (tree : ModuleSyntax) : visitor.Records (visitItem imports visitor tree) (allReplaceables tree.nodes) := by
  rw [visitItem]
  split
  · exact records_visitAll imports visitor tree.nodes
  · exact records_visitAll imports visitor tree.nodes
  · exact records_visitAll imports visitor tree.nodes
  · exact GrewFrom.refl

theorem records_foldl (imports : FxHashMap String ImportBinding) (body : List ModuleSyntax)
    (visitor : ImportUsageVisitor) :
    visitor.Records (body.foldl (visitItem imports) visitor) (body.flatMap (allReplaceables ·.nodes)) := by
  induction body generalizing visitor with
  | nil => exact GrewFrom.refl
  | cons tree body ih =>
      rw [List.foldl_cons, List.flatMap_cons]
      exact (records_visitItem imports visitor tree).trans (ih _)

end ImportUsageVisitor

theorem exists_collectImportUsages (body : List ModuleSyntax) (imports : FxHashMap String ImportBinding)
    (dependencies : List Dependency) :
    ∃ added, collectImportUsages body imports dependencies = dependencies ++ added ∧
      (added.flatMap Dependency.replacedRanges).Sublist (ofKind .usage (body.flatMap (allReplaceables ·.nodes))) ∧
      ∀ dependency ∈ added, dependency.isHarmonyImportSpecifier = true := by
  rw [collectImportUsages]
  split_ifs
  · exact ⟨[], (List.append_nil _).symm, List.nil_sublist _, nofun⟩
  · obtain ⟨added, hadded, hrest⟩ := ImportUsageVisitor.records_foldl imports body {}
    exact ⟨added, by rw [hadded]; rfl, hrest⟩

namespace AsyncDependenciesBlock

/-- One dynamic import, with the text of its call. -/
def IsImport (block : AsyncDependenciesBlock) : Prop :=
  ∃ dependency : ImportDependency, block.dependencies = [.import dependency] ∧ dependency.module.range.isSome

def replacedRanges (block : AsyncDependenciesBlock) : List SourceRange :=
  block.dependencies.flatMap Dependency.replacedRanges

end AsyncDependenciesBlock

namespace DynamicImportVisitor

/-- Of the import calls among the texts some become blocks, in their order. -/
def Records (visitor after : DynamicImportVisitor) (texts : List Replaceable) : Prop :=
  GrewFrom AsyncDependenciesBlock.replacedRanges AsyncDependenciesBlock.IsImport .importCall visitor.blocks after.blocks
    texts

theorem records_addImportCall (path : PathBuf) (visitor : DynamicImportVisitor) (span : SourceRange)
    (args : List Node) : visitor.Records (visitor.addImportCall path span args) [⟨.importCall, span⟩] := by
  rw [addImportCall]
  split
  · refine ⟨_, rfl, .refl _, fun block hmem => ?_⟩
    rw [List.mem_singleton.mp hmem]
    exact ⟨_, rfl, rfl⟩
  · exact GrewFrom.refl
  · exact GrewFrom.refl

mutual

theorem records_visit (path : PathBuf) : ∀ (visitor : DynamicImportVisitor) (node : Node),
    visitor.Records (visit path visitor node) node.replaceables
  | visitor, .mk kind span heads parts => by
      rw [Node.replaceables]
      have hboth : ∀ start : DynamicImportVisitor, start.Records (visitAll path (visitAll path start heads) parts)
          (allReplaceables heads ++ allReplaceables parts) := fun start =>
        (records_visitAll path start heads).trans (records_visitAll path _ parts)
      cases kind with
      | importCall =>
          rw [visit]
          exact (records_addImportCall path visitor span parts).trans (hboth _)
      | ident sym | shorthand sym | bindingIdent sym | blockStmt | fnDecl ident params | fnExpr ident params
      | arrowExpr params | classDecl ident | classExpr ident | varDeclarator name | str value | tpl quasis
      | spread | paren | call | other =>
          rw [visit]
          · exact (hboth visitor).behind _
          · nofun

theorem records_visitAll (path : PathBuf) : ∀ (visitor : DynamicImportVisitor) (nodes : List Node),
    visitor.Records (visitAll path visitor nodes) (allReplaceables nodes)
  | visitor, [] => by
      rw [visitAll]
      exact GrewFrom.refl
  | visitor, node :: nodes => by
      rw [visitAll, allReplaceables]
      exact (records_visit path visitor node).trans (records_visitAll path _ nodes)

end

theorem records_foldl (path : PathBuf) (body : List ModuleSyntax) (visitor : DynamicImportVisitor) :
    visitor.Records (body.foldl (visitItem path) visitor) (body.flatMap (allReplaceables ·.nodes)) := by
  induction body generalizing visitor with
  | nil => exact GrewFrom.refl
  | cons tree body ih =>
      rw [List.foldl_cons, List.flatMap_cons]
      exact (records_visitAll path visitor tree.nodes).trans (ih _)

end DynamicImportVisitor

theorem exists_collectDynamicImportDependencies {path : PathBuf} {body : List ModuleSyntax}
    {blocks after : List AsyncDependenciesBlock}
    (h : collectDynamicImportDependencies path body blocks = .ok after) :
    ∃ added, after = blocks ++ added ∧
      (added.flatMap AsyncDependenciesBlock.replacedRanges).Sublist
        (ofKind .importCall (body.flatMap (allReplaceables ·.nodes))) ∧
      ∀ block ∈ added, block.IsImport := by
  obtain ⟨added, hadded, hrest⟩ := DynamicImportVisitor.records_foldl path body {}
  rw [collectDynamicImportDependencies] at h
  split at h
  · cases h
  · refine ⟨added, ?_, hrest⟩
    cases h
    rw [hadded]
    rfl

namespace Ecma

/-- The text of a declaration that is dropped. -/
def ModuleDecl.dropped : ModuleDecl → List SourceRange
  | .import decl => if decl.typeOnly then [] else [decl.span]
  | .exportDecl decl => [⟨decl.span.start, decl.declSpan.start⟩]
  | .exportNamed decl => if decl.typeOnly then [] else [decl.span]
  | .exportAll decl => if decl.typeOnly then [] else [decl.span]
  | .exportDefaultDecl _ | .exportDefaultExpr _ => []

/-- The text before a default export. -/
def ModuleDecl.bound : ModuleDecl → List SourceRange
  | .exportDefaultDecl decl => [⟨decl.span.start, decl.declSpan.start⟩]
  | .exportDefaultExpr decl => [⟨decl.span.start, decl.exprSpan.start⟩]
  | .import _ | .exportDecl _ | .exportNamed _ | .exportAll _ => []

def ModuleItem.dropped : ModuleItem → List SourceRange
  | .moduleDecl decl => decl.dropped
  | .stmt => []

def ModuleItem.bound : ModuleItem → List SourceRange
  | .moduleDecl decl => decl.bound
  | .stmt => []

end Ecma

/-- Left by a declaration and not by a visitor, which leaves no star re-export with a name. -/
def Dependency.isDeclared (dependency : Dependency) : Bool :=
  !dependency.isImportDependency && !dependency.isHarmonyImportSpecifier && !dependency.isNamedStar

theorem Dependency.isHarmonyImportSpecifier_of_isDeclared {dependency : Dependency}
    (h : dependency.isDeclared = true) : dependency.isHarmonyImportSpecifier = false := by
  rw [isDeclared, Bool.and_eq_true, Bool.and_eq_true, Bool.not_eq_true', Bool.not_eq_true'] at h
  exact h.1.2

theorem Dependency.isNamedStar_of_isDeclared {dependency : Dependency} (h : dependency.isDeclared = true) :
    dependency.isNamedStar = false := by
  rw [isDeclared, Bool.and_eq_true, Bool.not_eq_true'] at h
  exact h.2

namespace ModuleDeclState

/-- The texts that the dependencies pushed on the way replace. -/
structure Leaves (state after : ModuleDeclState) (dropped bound : List SourceRange) : Prop where
  presentational : after.parsed.presentationalDependencies.flatMap Dependency.replacedRanges =
    state.parsed.presentationalDependencies.flatMap Dependency.replacedRanges ++ dropped
  dependencies : ∃ added, after.parsed.dependencies = state.parsed.dependencies ++ added ∧
    added.flatMap Dependency.replacedRanges = bound ∧ ∀ dependency ∈ added, dependency.isDeclared = true
  blocks : after.parsed.blocks = state.parsed.blocks
  identifiers : after.parsed.identifiers = state.parsed.identifiers

variable {state middle after : ModuleDeclState} {dropped bound dropped' bound' : List SourceRange}

theorem Leaves.of_parsed (h : after.parsed = state.parsed) : Leaves state after [] [] := by
  refine ⟨?_, ⟨[], ?_, rfl, nofun⟩, congrArg ParsedModule.blocks h, congrArg ParsedModule.identifiers h⟩
  · rw [h, List.append_nil]
  · rw [h, List.append_nil]

theorem Leaves.trans (h : Leaves state middle dropped bound) (hmiddle : Leaves middle after dropped' bound') :
    Leaves state after (dropped ++ dropped') (bound ++ bound') := by
  obtain ⟨hpresentational, ⟨added, hadded, hranges, hdeclared⟩, hblocks, hidentifiers⟩ := h
  obtain ⟨hpresentational', ⟨added', hadded', hranges', hdeclared'⟩, hblocks', hidentifiers'⟩ := hmiddle
  refine ⟨?_, ⟨added ++ added', ?_, ?_, ?_⟩, hblocks'.trans hblocks, hidentifiers'.trans hidentifiers⟩
  · rw [hpresentational', hpresentational, List.append_assoc]
  · rw [hadded', hadded, List.append_assoc]
  · rw [List.flatMap_append, hranges, hranges']
  · exact fun dependency hmem => (List.mem_append.mp hmem).elim (hdeclared dependency) (hdeclared' dependency)

theorem leaves_pushDependency (state : ModuleDeclState) {dependency : Dependency}
    (h : dependency.isDeclared = true) :
    Leaves state (state.pushDependency dependency) [] dependency.replacedRanges := by
  refine ⟨(List.append_nil _).symm, ⟨[dependency], rfl, List.append_nil _, ?_⟩, rfl, rfl⟩
  exact List.forall_mem_singleton.mpr h

theorem leaves_pushPresentational (state : ModuleDeclState) (dependency : Dependency) :
    Leaves state (state.pushPresentational dependency) dependency.replacedRanges [] := by
  refine ⟨?_, ⟨[], (List.append_nil _).symm, rfl, nofun⟩, rfl, rfl⟩
  rw [pushPresentational, List.flatMap_append, List.flatMap_singleton]

/-- The statement is dropped; the dependency on its source replaces nothing. -/
theorem leaves_pushSource (state : ModuleDeclState) (request : String) (span : SourceRange) :
    Leaves state (state.pushSource request span) [span] [] := by
  obtain ⟨parsed, bindings, order⟩ := state
  have hfirst : Leaves ⟨parsed, bindings, order⟩ ⟨parsed, bindings, order + 1⟩ [] [] := .of_parsed rfl
  exact (hfirst.trans (leaves_pushPresentational _ (.const { expression := "", range := span }))).trans
    (leaves_pushDependency _ rfl)

theorem leaves_foldlM {α : Type} {f : ModuleDeclState → α → Except Make.Error ModuleDeclState}
    {droppedBy boundBy : α → List SourceRange}
    (hf : ∀ state item after, f state item = .ok after → Leaves state after (droppedBy item) (boundBy item))
    {items : List α} (h : items.foldlM f state = .ok after) :
    Leaves state after (items.flatMap droppedBy) (items.flatMap boundBy) := by
  induction items generalizing state with
  | nil =>
      cases h
      exact .of_parsed rfl
  | cons item items ih =>
      rw [List.foldlM_cons] at h
      obtain ⟨middle, hmiddle, hrest⟩ := Fallible.of_bind_ok h
      exact (hf state item middle hmiddle).trans (ih hrest)

/-- Steps that replace nothing. -/
theorem leaves_foldlM_nil {α : Type} {f : ModuleDeclState → α → Except Make.Error ModuleDeclState}
    (hf : ∀ state item after, f state item = .ok after → Leaves state after [] []) {items : List α}
    (h : items.foldlM f state = .ok after) : Leaves state after [] [] := by
  have hall := leaves_foldlM hf h
  rwa [List.flatMap_eq_nil_iff.mpr fun _ _ => rfl] at hall

theorem leaves_foldl_exports (part : List Dependency) (state : ModuleDeclState)
    (h : ∀ dependency ∈ part, dependency.replacedRanges = [] ∧ dependency.isDeclared = true) :
    Leaves state (part.foldl pushDependency state) [] [] := by
  induction part generalizing state with
  | nil => exact .of_parsed rfl
  | cons dependency part ih =>
      obtain ⟨hfirst, hrest⟩ := List.forall_mem_cons.mp h
      have hpush := leaves_pushDependency state hfirst.2
      rw [hfirst.1] at hpush
      exact hpush.trans (ih _ hrest)

theorem leaves_collectExportFrom {request : String} {specifier : ExportSpecifier}
    (h : collectExportFrom request state specifier = .ok after) : Leaves state after [] [] := by
  cases specifier with
  | named specifier =>
      rw [collectExportFrom] at h
      split_ifs at h
      · cases h
        exact .of_parsed rfl
      · obtain ⟨orig, -, h⟩ := Fallible.of_bind_ok h
        obtain ⟨exported, -, h⟩ := Fallible.of_bind_ok h
        cases h
        exact leaves_pushDependency state rfl
  | «namespace» name =>
      cases h
      exact .of_parsed rfl

theorem leaves_collectExportLocal {specifier : ExportSpecifier}
    (h : collectExportLocal state specifier = .ok after) : Leaves state after [] [] := by
  cases specifier with
  | named specifier =>
      rw [collectExportLocal] at h
      split_ifs at h
      · cases h
        exact .of_parsed rfl
      · obtain ⟨orig, -, h⟩ := Fallible.of_bind_ok h
        obtain ⟨exported, -, h⟩ := Fallible.of_bind_ok h
        split at h
        · cases h
          exact leaves_pushDependency state rfl
        · cases h
          exact leaves_pushDependency state rfl
  | «namespace» name =>
      cases h
      exact .of_parsed rfl

theorem collectDeclExports_declared (decl : Decl) : ∀ dependency ∈ collectDeclExports decl,
    dependency.replacedRanges = [] ∧ dependency.isDeclared = true := by
  intro dependency hmem
  cases decl with
  | «class» ident | fn ident =>
      rw [List.mem_singleton.mp hmem]
      exact ⟨rfl, rfl⟩
  | var decls =>
      obtain ⟨name, -, rfl⟩ := List.mem_map.mp hmem
      exact ⟨rfl, rfl⟩
  | «using» => cases hmem

theorem leaves_collectModuleDecl {path : PathBuf} {decl : ModuleDecl}
    (h : collectModuleDecl path state decl = .ok after) : Leaves state after decl.dropped decl.bound := by
  cases decl with
  | «import» decl =>
      rw [collectModuleDecl] at h
      rw [ModuleDecl.dropped]
      split_ifs at h ⊢
      · cases h
        exact .of_parsed rfl
      · obtain ⟨request, -, hrest⟩ := Fallible.of_bind_ok h
        exact (leaves_pushSource state request decl.span).trans
          (.of_parsed (foldlM_collectImportSpecifier hrest).1)
  | exportDecl decl =>
      cases h
      exact (leaves_pushPresentational state _).trans
        (leaves_foldl_exports _ _ (collectDeclExports_declared decl.decl))
  | exportNamed decl =>
      rw [collectModuleDecl] at h
      rw [ModuleDecl.dropped]
      split_ifs at h ⊢
      · cases h
        exact .of_parsed rfl
      · split at h
        · obtain ⟨request, -, hrest⟩ := Fallible.of_bind_ok h
          exact (leaves_pushSource state request decl.span).trans
            (leaves_foldlM_nil (fun _ _ _ => leaves_collectExportFrom) hrest)
        · exact (leaves_pushPresentational state _).trans
            (leaves_foldlM_nil (fun _ _ _ => leaves_collectExportLocal) h)
  | exportDefaultDecl decl =>
      cases h
      exact leaves_pushDependency state rfl
  | exportDefaultExpr decl =>
      cases h
      exact leaves_pushDependency state rfl
  | exportAll decl =>
      rw [collectModuleDecl] at h
      rw [ModuleDecl.dropped]
      split_ifs at h ⊢
      · cases h
        exact .of_parsed rfl
      · obtain ⟨request, -, hrest⟩ := Fallible.of_bind_ok h
        cases hrest
        exact (leaves_pushSource state request decl.span).trans (leaves_pushDependency _ rfl)

theorem leaves_collectModuleItem {path : PathBuf} {item : ModuleItem}
    (h : collectModuleItem path state item = .ok after) : Leaves state after item.dropped item.bound := by
  cases item with
  | moduleDecl decl => exact leaves_collectModuleDecl h
  | stmt =>
      cases h
      exact .of_parsed rfl

end ModuleDeclState

/-- The texts that a parsed module's dependencies replace. -/
def ParsedModule.replacedRanges (parsed : ParsedModule) : List SourceRange :=
  parsed.presentationalDependencies.flatMap Dependency.replacedRanges ++
    (parsed.dependencies.flatMap Dependency.replacedRanges ++
      parsed.blocks.flatMap AsyncDependenciesBlock.replacedRanges)

/-- The uses of import bindings that are recorded. -/
def ParsedModule.usageRanges (parsed : ParsedModule) : List SourceRange :=
  (parsed.dependencies.filter Dependency.isHarmonyImportSpecifier).flatMap Dependency.replacedRanges

def ParsedModule.importRanges (parsed : ParsedModule) : List SourceRange :=
  parsed.blocks.flatMap AsyncDependenciesBlock.replacedRanges

/-- What a parse leaves, by the syntax it comes from. -/
theorem exists_parse {path : PathBuf} {sideEffectFree : Option Bool} {body : List ModuleSyntax}
    {parsed : ParsedModule} (h : parseModuleDependencies path sideEffectFree body = .ok parsed) :
    let texts := body.flatMap (allReplaceables ·.nodes)
    ∃ declared used : List Dependency, parsed.dependencies = declared ++ used ∧
      parsed.presentationalDependencies.flatMap Dependency.replacedRanges = body.flatMap (·.item.dropped) ∧
      declared.flatMap Dependency.replacedRanges = body.flatMap (·.item.bound) ∧
      (∀ dependency ∈ declared, dependency.isDeclared = true) ∧
      (used.flatMap Dependency.replacedRanges).Sublist (ofKind .usage texts) ∧
      (∀ dependency ∈ used, dependency.isHarmonyImportSpecifier = true) ∧
      (parsed.blocks.flatMap AsyncDependenciesBlock.replacedRanges).Sublist (ofKind .importCall texts) ∧
      ∀ block ∈ parsed.blocks, block.IsImport := by
  obtain ⟨state, hstate, h⟩ := Fallible.of_bind_ok h
  obtain ⟨blocks, hblocks, h⟩ := Fallible.of_bind_ok h
  cases h
  rw [collectModuleDeclDependencies] at hstate
  have hleaves := ModuleDeclState.leaves_foldlM
    (fun before item after => @ModuleDeclState.leaves_collectModuleItem before after path item) hstate
  obtain ⟨hpresentational, ⟨declared, hadded, hbound, hdeclared⟩, hnone, -⟩ := hleaves
  obtain ⟨added, hblocks, himports, hall⟩ := exists_collectDynamicImportDependencies hblocks
  obtain ⟨used, hused, husages, hspecifiers⟩ :=
    exists_collectImportUsages body state.importBindings state.parsed.dependencies
  rw [hnone, List.nil_append] at hblocks
  subst hblocks
  rw [List.flatMap_map] at hpresentational hbound
  exact ⟨declared, used, hused.trans (congrArg (· ++ used) hadded), hpresentational, hbound, hdeclared, husages,
    hspecifiers, himports, hall⟩

namespace Ecma.ModuleSyntax

variable {source : String} {tree : ModuleSyntax}

/-- The texts of an item that may be replaced. -/
def texts (tree : ModuleSyntax) : List Replaceable :=
  (tree.item.dropped ++ tree.item.bound).map (.mk .declaration) ++ allReplaceables tree.nodes

end Ecma.ModuleSyntax

/-- A declaration's own text starts with it and ends where the exported part starts. -/
theorem Ecma.ModuleDecl.header_cases (decl : ModuleDecl) :
    decl.dropped ++ decl.bound = [] ∨ (decl.inner = none ∧ decl.dropped ++ decl.bound = [decl.span]) ∨
      ∃ inner, decl.inner = some inner ∧ decl.dropped ++ decl.bound = [⟨decl.span.start, inner.start⟩] := by
  cases decl with
  | «import» decl | exportNamed decl | exportAll decl =>
      cases htype : decl.typeOnly with
      | true => exact Or.inl (by simp [dropped, bound, htype])
      | false => exact Or.inr (Or.inl ⟨rfl, by simp [dropped, bound, htype, span]⟩)
  | exportDecl decl | exportDefaultDecl decl | exportDefaultExpr decl => exact Or.inr (Or.inr ⟨_, rfl, rfl⟩)

/-- What holds of the texts of an item and of a body. -/
structure TextsLaid (source : String) (extents : List SourceRange) (texts : List Replaceable) : Prop where
  lies : ∀ text ∈ texts, text.range.Lies source
  within : ∀ text ∈ texts, ∃ extent ∈ extents, text.range.Within extent
  nonempty : ∀ text ∈ texts, text.kind ≠ .declaration → text.range.start < text.range.stop
  laid : texts.Pairwise Replaceable.Laid

theorem WellPlaced.textsLaid {source : String} {ranges : List SourceRange} {texts : List Replaceable}
    (h : WellPlaced source ranges texts) : TextsLaid source ranges texts :=
  ⟨h.lies, h.within, fun text htext _ => h.nonempty text htext, h.laid⟩

/-- A declaration's own text before the others of its item. -/
theorem TextsLaid.header {source : String} {outer header : SourceRange} {ranges : List SourceRange}
    {texts : List Replaceable} (h : WellPlaced source ranges texts) (hwithin : ∀ range ∈ ranges, range.Within outer)
    (hheader : header.Within outer) (hlies : header.Lies source)
    (hbefore : ∀ range ∈ ranges, header.stop ≤ range.start) :
    TextsLaid source [outer] (⟨.declaration, header⟩ :: texts) where
  lies := List.forall_mem_cons.mpr ⟨hlies, h.lies⟩
  within := List.forall_mem_cons.mpr ⟨⟨outer, List.mem_singleton_self outer, hheader⟩, (h.enlarge hwithin).within⟩
  nonempty := List.forall_mem_cons.mpr ⟨fun hkind => absurd rfl hkind, fun text htext _ => h.nonempty text htext⟩
  laid := by
    refine List.pairwise_cons.mpr ⟨fun text htext => Or.inl (Or.inl ?_), h.laid⟩
    obtain ⟨range, hrange, hinside⟩ := h.within text htext
    exact (hbefore range hrange).trans hinside.1

theorem Ecma.ModuleSyntax.WellSpanned.textsLaid {source : String} {tree : ModuleSyntax}
    (h : tree.WellSpanned source) : TextsLaid source tree.extents tree.texts := by
  obtain ⟨item, nodes⟩ := tree
  have hplaced := wellPlaced_all h.apart h.nodes
  cases item with
  | stmt => exact hplaced.textsLaid
  | moduleDecl decl =>
      have hspan := h.span decl rfl
      have hinner := h.inner decl rfl
      have hnode := h.within decl rfl
      have hinside : ∀ range ∈ nodes.map Node.span, ∃ inner ∈ decl.inner, range.Within inner := by
        simpa only [List.mem_map, forall_exists_index, and_imp, forall_apply_eq_imp_iff₂] using hnode
      have hwithin : ∀ range ∈ nodes.map Node.span, range.Within decl.span := fun range hrange => by
        obtain ⟨inner, hmem, hrange⟩ := hinside range hrange
        exact hrange.trans (hinner inner hmem).2
      rw [ModuleSyntax.extents, ModuleSyntax.texts, ModuleItem.dropped, ModuleItem.bound]
      rcases decl.header_cases with hnone | ⟨hnone, hsole⟩ | ⟨inner, hsome, hsole⟩
      · rw [hnone]
        exact (hplaced.enlarge hwithin).textsLaid
      · rw [hsole]
        refine TextsLaid.header hplaced hwithin (.refl _) hspan fun range hrange => ?_
        obtain ⟨inner, hmem, -⟩ := hinside range hrange
        rw [hnone] at hmem
        cases hmem
      · rw [hsole]
        obtain ⟨hlies, hstart, hstop⟩ := hinner inner hsome
        refine TextsLaid.header hplaced hwithin ⟨le_refl _, hlies.1.trans hstop⟩
          ⟨hstart, hlies.1.trans hlies.2.1, hspan.2.2.1, hlies.2.2.1⟩ fun range hrange => ?_
        obtain ⟨other, hmem, hrange⟩ := hinside range hrange
        rw [hsome] at hmem
        cases hmem
        exact hrange.1

theorem Ecma.BodyWellSpanned.textsLaid {source : String} {body : List ModuleSyntax}
    (h : BodyWellSpanned source body) :
    TextsLaid source (body.flatMap ModuleSyntax.extents) (body.flatMap ModuleSyntax.texts) := by
  have hall := fun tree htree => (h.items tree htree).textsLaid
  refine ⟨fun text htext => ?_, fun text htext => ?_, fun text htext => ?_, List.pairwise_flatMap.mpr ⟨?_, ?_⟩⟩
  · obtain ⟨tree, htree, htext⟩ := List.mem_flatMap.mp htext
    exact (hall tree htree).lies text htext
  · obtain ⟨tree, htree, htext⟩ := List.mem_flatMap.mp htext
    obtain ⟨extent, hextent, hwithin⟩ := (hall tree htree).within text htext
    exact ⟨extent, List.mem_flatMap.mpr ⟨tree, htree, hextent⟩, hwithin⟩
  · obtain ⟨tree, htree, htext⟩ := List.mem_flatMap.mp htext
    exact (hall tree htree).nonempty text htext
  · exact fun tree htree => (hall tree htree).laid
  · refine (List.pairwise_flatMap.mp h.apart).2.imp_of_mem fun htree htree' hapart text htext text' htext' => ?_
    obtain ⟨extent, hextent, hwithin⟩ := (hall _ htree).within text htext
    obtain ⟨extent', hextent', hwithin'⟩ := (hall _ htree').within text' htext'
    exact Or.inl ((hapart extent hextent extent' hextent').within hwithin hwithin')

theorem TextsLaid.subperm {source : String} {extents : List SourceRange} {texts all : List Replaceable}
    (h : TextsLaid source extents all) (hsub : texts.Subperm all) : TextsLaid source extents texts where
  lies text htext := h.lies text (hsub.subset htext)
  within text htext := h.within text (hsub.subset htext)
  nonempty text htext := h.nonempty text (hsub.subset htext)
  laid := by
    obtain ⟨others, hperm, hsublist⟩ := hsub
    exact (h.laid.sublist hsublist).perm hperm Replaceable.Laid.symm

/-- The replaced texts of a parsed module with their kinds. -/
def ParsedModule.texts (parsed : ParsedModule) : List Replaceable :=
  (parsed.presentationalDependencies.flatMap Dependency.replacedRanges).map (.mk .declaration) ++
    (parsed.dependencies.flatMap (fun dependency => dependency.replacedRanges.map
        (.mk (if dependency.isHarmonyImportSpecifier then .usage else .declaration))) ++
      parsed.importRanges.map (.mk .importCall))

theorem ParsedModule.map_texts (parsed : ParsedModule) : parsed.texts.map (·.range) = parsed.replacedRanges := by
  simp [texts, replacedRanges, importRanges, List.map_flatMap, Function.comp_def]

theorem parse_texts_subperm {path : PathBuf} {sideEffectFree : Option Bool} {body : List ModuleSyntax}
    {parsed : ParsedModule} (h : parseModuleDependencies path sideEffectFree body = .ok parsed) :
    parsed.texts.Subperm (body.flatMap ModuleSyntax.texts) := by
  obtain ⟨declared, used, hdependencies, hpresentational, hbound, hdeclared, hused, hspecifiers, himports, -⟩ :=
    exists_parse h
  have hvisited := Replaceable.ofKind_subperm hused himports
  have hfirst : declared.flatMap (fun dependency => dependency.replacedRanges.map
      (Replaceable.mk (if dependency.isHarmonyImportSpecifier then .usage else .declaration))) =
      (body.flatMap (·.item.bound)).map (.mk .declaration) := by
    rw [← hbound, List.map_flatMap]
    refine List.flatMap_congr fun dependency hmem => ?_
    rw [Dependency.isHarmonyImportSpecifier_of_isDeclared (hdeclared dependency hmem)]
    rfl
  have hlater : used.flatMap (fun dependency => dependency.replacedRanges.map
      (Replaceable.mk (if dependency.isHarmonyImportSpecifier then .usage else .declaration))) =
      (used.flatMap Dependency.replacedRanges).map (.mk .usage) := by
    rw [List.map_flatMap]
    refine List.flatMap_congr fun dependency hmem => ?_
    rw [hspecifiers dependency hmem]
    rfl
  have hsplit : parsed.texts =
      (body.flatMap (·.item.dropped) ++ body.flatMap (·.item.bound)).map (.mk .declaration) ++
        ((used.flatMap Dependency.replacedRanges).map (.mk .usage) ++ parsed.importRanges.map (.mk .importCall)) := by
    rw [ParsedModule.texts, hpresentational, hdependencies, List.flatMap_append, hfirst, hlater, List.map_append]
    simp only [List.append_assoc]
  have hall : List.Perm ((body.flatMap (fun tree => tree.item.dropped) ++
      body.flatMap (fun tree => tree.item.bound)).map (Replaceable.mk .declaration) ++
      body.flatMap (fun tree => allReplaceables tree.nodes)) (body.flatMap ModuleSyntax.texts) := by
    refine (List.Perm.append_right _ ?_).trans (List.flatMap_append_perm body _ _)
    rw [← List.map_flatMap]
    exact (List.flatMap_append_perm body _ _).map _
  rw [hsplit]
  exact hall.subperm_left.mp ((List.subperm_append_left _).mpr hvisited)

def CodeGenerationReplacement.range (replacement : CodeGenerationReplacement) : SourceRange :=
  ⟨replacement.start, replacement.stop⟩

namespace TemplateState

variable (state : TemplateState)

def ranges : List SourceRange := state.replacements.map CodeGenerationReplacement.range

@[simp] theorem ranges_addRuntimeRequirement (requirement : RuntimeRequirement) :
    (state.addRuntimeRequirement requirement).ranges = state.ranges := rfl

@[simp] theorem ranges_addGetter (usedName : Option String) (expression : String) :
    (state.addGetter usedName expression).ranges = state.ranges := by
  cases usedName <;> rfl

@[simp] theorem ranges_replace (range : SourceRange) (content : String) :
    (state.replace range content).ranges = state.ranges ++ [range] := by
  rw [ranges, replace, List.map_append]
  rfl

end TemplateState

theorem expect_eq_ok {α : Type} {value : Option α} {message : String} {result : α}
    (h : expect value message = .ok result) : value = some result := by
  cases value with
  | none => cases h
  | some value =>
      cases h
      rfl

/-- Past the check of its source ranges. -/
theorem of_applyDependencyTemplate {ranges : List SourceRange} {context : DependencyTemplateContext}
    {apply : DependencyTemplateContext → TemplateState → Except CodeGenerationError TemplateState}
    {state after : TemplateState} (h : applyDependencyTemplate ranges apply context state = .ok after) :
    apply context state = .ok after := by
  obtain ⟨-, -, h⟩ := Fallible.of_bind_ok h
  exact h

theorem HarmonyImportSideEffectDependency.ranges_apply {dependency : HarmonyImportSideEffectDependency}
    {context : DependencyTemplateContext} {state after : TemplateState}
    (h : dependency.apply context state = .ok after) : after.ranges = state.ranges := by
  obtain ⟨target, -, h⟩ := Fallible.of_bind_ok h
  split at h
  · cases h
    rfl
  · split at h <;>
    · cases h
      rfl

theorem HarmonyImportSpecifierDependency.ranges_apply {dependency : HarmonyImportSpecifierDependency}
    {context : DependencyTemplateContext} {state after : TemplateState}
    (h : dependency.apply context state = .ok after) : after.ranges = state.ranges ++ [dependency.usageRange] := by
  obtain ⟨target, -, h⟩ := Fallible.of_bind_ok h
  cases h
  exact state.ranges_replace _ _

theorem HarmonyExportImportedSpecifierDependency.ranges_apply
    {dependency : HarmonyExportImportedSpecifierDependency} {context : DependencyTemplateContext}
    {state after : TemplateState} (h : dependency.apply context state = .ok after) :
    after.ranges = state.ranges := by
  obtain ⟨target, -, h⟩ := Fallible.of_bind_ok h
  split_ifs at h
  · cases h
    rfl
  · cases h
    rfl
  · split at h
    · cases h
      rfl
    · cases h
      rw [TemplateState.ranges_addGetter, TemplateState.ranges_addRuntimeRequirement]

theorem ImportDependency.ranges_apply {dependency : ImportDependency} {context : DependencyTemplateContext}
    {state after : TemplateState} (h : dependency.apply context state = .ok after) :
    after.ranges = state.ranges ++ dependency.module.range.toList := by
  obtain ⟨block, -, h⟩ := Fallible.of_bind_ok h
  obtain ⟨target, -, h⟩ := Fallible.of_bind_ok h
  obtain ⟨renderId, -, h⟩ := Fallible.of_bind_ok h
  split at h
  · obtain ⟨chunkIds, -, h⟩ := Fallible.of_bind_ok h
    obtain ⟨range, hrange, h⟩ := Fallible.of_bind_ok h
    cases h
    rw [expect_eq_ok hrange, TemplateState.ranges_replace]
    rfl
  · obtain ⟨range, hrange, h⟩ := Fallible.of_bind_ok h
    cases h
    rw [expect_eq_ok hrange, TemplateState.ranges_replace]
    rfl

/-- A template replaces the texts of its dependency, whatever it adds besides. -/
theorem Dependency.ranges_applyTemplate {context : DependencyTemplateContext} {dependency : Dependency}
    {state after : TemplateState} (h : dependency.applyTemplate context state = .ok after) :
    after.ranges = state.ranges ++ dependency.replacedRanges := by
  rw [applyTemplate.eq_def] at h
  cases dependency with
  | entry dep | loader dep | loaderImport dep =>
      cases h
      exact (List.append_nil _).symm
  | harmonyImportSideEffect dep =>
      exact (HarmonyImportSideEffectDependency.ranges_apply (of_applyDependencyTemplate h)).trans
        (List.append_nil _).symm
  | harmonyImportSpecifier dep => exact HarmonyImportSpecifierDependency.ranges_apply (of_applyDependencyTemplate h)
  | harmonyExportHeader dep =>
      cases of_applyDependencyTemplate h
      exact state.ranges_replace _ _
  | harmonyExportSpecifier dep =>
      cases of_applyDependencyTemplate h
      rw [HarmonyExportSpecifierDependency.apply, TemplateState.ranges_addGetter]
      exact (List.append_nil _).symm
  | harmonyExportExpression dep =>
      cases of_applyDependencyTemplate h
      rw [HarmonyExportExpressionDependency.apply, TemplateState.ranges_addGetter, TemplateState.ranges_replace,
        TemplateState.ranges_addRuntimeRequirement, replacedRanges]
  | harmonyExportImportedSpecifier dep =>
      exact (HarmonyExportImportedSpecifierDependency.ranges_apply (of_applyDependencyTemplate h)).trans
        (List.append_nil _).symm
  | null =>
      cases of_applyDependencyTemplate h
      exact (List.append_nil _).symm
  | const dep =>
      cases of_applyDependencyTemplate h
      exact state.ranges_replace _ _
  | «import» dep => exact ImportDependency.ranges_apply (of_applyDependencyTemplate h)

theorem Module.flatMap_templateDependencies (module : Module) :
    module.templateDependencies.flatMap (·.2.replacedRanges) = module.builtContent.parsed.replacedRanges := by
  have hindexed : ∀ dependencies : List Dependency,
      dependencies.zipIdx.flatMap (·.1.replacedRanges) = dependencies.flatMap Dependency.replacedRanges := by
    intro dependencies
    conv_rhs => rw [← List.zipIdx_map_fst 0 dependencies, List.flatMap_map]
  have hblocks : ∀ blocks : List AsyncDependenciesBlock,
      blocks.zipIdx.flatMap (fun found => found.1.dependencies.zipIdx.flatMap (·.1.replacedRanges)) =
        blocks.flatMap AsyncDependenciesBlock.replacedRanges := by
    intro blocks
    conv_rhs => rw [← List.zipIdx_map_fst 0 blocks, List.flatMap_map]
    exact List.flatMap_congr fun found _ => hindexed found.1.dependencies
  rw [templateDependencies, locatedDependencies, ParsedModule.replacedRanges, List.flatMap_append, List.flatMap_map,
    List.flatMap_map, List.flatMap_append, List.flatMap_map, List.flatMap_assoc]
  congr 2
  · exact hindexed module.dependencies
  · refine Eq.trans ?_ (hblocks module.blocks)
    exact List.flatMap_congr fun found _ => List.flatMap_map _ _ _

namespace ModuleGeneratorContext

variable {context : ModuleGeneratorContext} {scope : Option ConcatenationScope} {record : CodeGenerationRecord}

/-- The replacements of a record replace the texts of the module's dependencies in its source. -/
theorem exists_replacements (h : context.generateWithConcatenationScope scope = .ok record) :
    ∃ prefixText name replacements, record.source =
      .originalWithReplacements prefixText context.module.sourceLen name replacements "" ∧
        replacements.map CodeGenerationReplacement.range = context.module.builtContent.parsed.replacedRanges := by
  obtain ⟨state, hstate, h⟩ := Fallible.of_bind_ok h
  have hranges := Fallible.foldlM_collects
    (fun before item after =>
      @Dependency.ranges_applyTemplate (context.templateContext scope item.1) item.2 before after)
    hstate
  split_ifs at h
  cases h
  refine ⟨_, _, _, rfl, hranges.trans ?_⟩
  have hstart : context.initialState.ranges = [] := by
    rw [initialState]
    split_ifs <;> rfl
  rw [hstart, List.nil_append, Module.flatMap_templateDependencies]

end ModuleGeneratorContext

namespace CodeGenerationSource

def replacements : CodeGenerationSource → List CodeGenerationReplacement
  | raw _ => []
  | originalWithReplacements _ _ _ replacements _ => replacements

end CodeGenerationSource

namespace ParsedModule

variable (parsed : ParsedModule)

/-- A dynamic import's text around another one's or around a use of an import binding. -/
def ImportAround (outer inner : SourceRange) : Prop :=
  outer ∈ parsed.importRanges ∧ inner ∈ parsed.usageRanges ++ parsed.importRanges ∧ outer.start < inner.start ∧
    inner.stop ≤ outer.stop

/-- No dynamic import has another one, or a recorded use of an import binding, in its text. -/
def ImportsAlone : Prop :=
  ∀ outer ∈ parsed.importRanges, ∀ inner ∈ parsed.usageRanges ++ parsed.importRanges,
    inner.Within outer → inner = outer

end ParsedModule

namespace ParsedModule

variable {parsed : ParsedModule} {range : SourceRange}

theorem mem_importRanges_iff :
    range ∈ parsed.importRanges ↔ ∃ text ∈ parsed.texts, text.kind = .importCall ∧ text.range = range := by
  constructor
  · intro h
    exact ⟨⟨.importCall, range⟩,
      List.mem_append_right _ (List.mem_append_right _ (List.mem_map_of_mem h)), rfl, rfl⟩
  · rintro ⟨text, htext, hkind, rfl⟩
    rcases List.mem_append.mp htext with hdeclared | hrest
    · obtain ⟨own, -, rfl⟩ := List.mem_map.mp hdeclared
      cases hkind
    · rcases List.mem_append.mp hrest with hdependency | hcall
      · obtain ⟨dependency, -, hown⟩ := List.mem_flatMap.mp hdependency
        obtain ⟨own, -, rfl⟩ := List.mem_map.mp hown
        dsimp only at hkind
        split_ifs at hkind
      · obtain ⟨own, hown, rfl⟩ := List.mem_map.mp hcall
        exact hown

theorem mem_usageRanges_iff :
    range ∈ parsed.usageRanges ↔ ∃ text ∈ parsed.texts, text.kind = .usage ∧ text.range = range := by
  constructor
  · intro h
    obtain ⟨dependency, hmem, hrange⟩ := List.mem_flatMap.mp h
    obtain ⟨hmem, hspecifier⟩ := List.mem_filter.mp hmem
    refine ⟨⟨.usage, range⟩, List.mem_append_right _ (List.mem_append_left _ ?_), rfl, rfl⟩
    refine List.mem_flatMap.mpr ⟨dependency, hmem, ?_⟩
    rw [if_pos hspecifier]
    exact List.mem_map_of_mem hrange
  · rintro ⟨text, htext, hkind, rfl⟩
    rcases List.mem_append.mp htext with hdeclared | hrest
    · obtain ⟨own, -, rfl⟩ := List.mem_map.mp hdeclared
      cases hkind
    · rcases List.mem_append.mp hrest with hdependency | hcall
      · obtain ⟨dependency, hmem, hown⟩ := List.mem_flatMap.mp hdependency
        obtain ⟨own, hrange, rfl⟩ := List.mem_map.mp hown
        dsimp only at hkind
        split_ifs at hkind with hspecifier
        exact List.mem_flatMap.mpr ⟨dependency, List.mem_filter.mpr ⟨hmem, hspecifier⟩, hrange⟩
      · obtain ⟨own, -, rfl⟩ := List.mem_map.mp hcall
        cases hkind

theorem mem_recorded_iff : range ∈ parsed.usageRanges ++ parsed.importRanges ↔
    ∃ text ∈ parsed.texts, text.kind ≠ .declaration ∧ text.range = range := by
  rw [List.mem_append, mem_usageRanges_iff, mem_importRanges_iff, ← exists_or]
  refine exists_congr fun text => ?_
  cases hkind : text.kind <;> simp

theorem importAround_of_holds {outer inner : Replaceable} (hmem : outer ∈ parsed.texts)
    (hmem' : inner ∈ parsed.texts) (h : outer.Holds inner) : parsed.ImportAround outer.range inner.range :=
  ⟨mem_importRanges_iff.mpr ⟨outer, hmem, h.1, rfl⟩, mem_recorded_iff.mpr ⟨inner, hmem', h.2.1, rfl⟩, h.2.2⟩

/-- A dynamic import that stands alone is around no other text. -/
theorem ImportsAlone.not_around {outer inner : SourceRange} (h : parsed.ImportsAlone) :
    ¬ parsed.ImportAround outer inner := by
  rintro ⟨houter, hinner, hstart, hstop⟩
  rw [h outer houter inner hinner ⟨hstart.le, hstop⟩] at hstart
  exact hstart.false

end ParsedModule

/-- The replacements of a module's source are in bounds and on character boundaries. Two overlap only where
one is a dynamic import around another or around a use of an import binding. -/
theorem generated_replacements_laid {path : PathBuf} {sideEffectFree : Option Bool} {body : List ModuleSyntax}
    {context : ModuleGeneratorContext} {scope : Option ConcatenationScope} {record : CodeGenerationRecord}
    (hspans : BodyWellSpanned context.module.source body)
    (hparse : parseModuleDependencies path sideEffectFree body = .ok context.module.builtContent.parsed)
    (hrecord : context.generateWithConcatenationScope scope = .ok record) :
    let parsed := context.module.builtContent.parsed
    let ranges := record.source.replacements.map CodeGenerationReplacement.range
    record.source.isCompatibleWith context.module.source = true ∧
      ranges.Pairwise (fun left right =>
        left.Apart right ∨ parsed.ImportAround left right ∨ parsed.ImportAround right left) ∧
      (ranges.Pairwise SourceRange.Apart ↔ parsed.ImportsAlone) := by
  obtain ⟨prefixText, name, replacements, hsource, hranges⟩ := ModuleGeneratorContext.exists_replacements hrecord
  have hlaid := hspans.textsLaid.subperm (parse_texts_subperm hparse)
  rw [hsource]
  dsimp only [CodeGenerationSource.replacements]
  rw [hranges, ← ParsedModule.map_texts]
  have haround : (context.module.builtContent.parsed.texts.map (·.range)).Pairwise fun left right =>
      left.Apart right ∨ context.module.builtContent.parsed.ImportAround left right ∨
        context.module.builtContent.parsed.ImportAround right left := by
    refine List.pairwise_map.mpr (hlaid.laid.imp_of_mem fun hleft hright => ?_)
    exact Or.imp_right (Or.imp (ParsedModule.importAround_of_holds hleft hright)
      (ParsedModule.importAround_of_holds hright hleft))
  refine ⟨?_, haround, fun hapart => ?_, fun halone => haround.imp fun h => ?_⟩
  · have hlies : ∀ replacement ∈ replacements, replacement.range.Lies context.module.source := by
      intro replacement hmem
      have hrange := List.mem_map_of_mem (f := CodeGenerationReplacement.range) hmem
      rw [hranges, ← ParsedModule.map_texts] at hrange
      obtain ⟨text, htext, htextRange⟩ := List.mem_map.mp hrange
      exact htextRange ▸ hlaid.lies text htext
    rw [CodeGenerationSource.isCompatibleWith, Bool.and_eq_true, decide_eq_true_eq, List.all_eq_true]
    refine ⟨rfl, fun replacement hmem => ?_⟩
    obtain ⟨hle, hstop, hfirst, hlast⟩ := hlies replacement hmem
    simp only [Bool.and_eq_true, decide_eq_true_eq]
    exact ⟨⟨⟨hle, hstop⟩, hfirst⟩, hlast⟩
  · intro outer houter inner hinner hwithin
    obtain ⟨call, hcall, -, rfl⟩ := ParsedModule.mem_importRanges_iff.mp houter
    obtain ⟨text, htext, hkind, rfl⟩ := ParsedModule.mem_recorded_iff.mp hinner
    by_contra hne
    have : Std.Symm SourceRange.Apart := ⟨fun _ _ => SourceRange.Apart.symm⟩
    exact hwithin.not_apart (hlaid.nonempty text htext hkind)
      (hapart.forall (List.mem_map_of_mem htext) (List.mem_map_of_mem hcall) hne)
  · exact h.resolve_right fun hor => hor.elim halone.not_around halone.not_around

instance (parsed : ParsedModule) : Decidable parsed.ImportsAlone :=
  inferInstanceAs (Decidable (∀ outer ∈ _, ∀ inner ∈ _, _ → _))

/-- A dynamic import whose options use an import binding. -/
def nestedImportBody : List ModuleSyntax :=
  [⟨.moduleDecl (.import { specifiers := [.named false "a" none], src := .utf8 "m", span := ⟨0, 22⟩ }), []⟩,
    ⟨.moduleDecl (.exportDefaultExpr { exprSpan := ⟨38, 52⟩, span := ⟨23, 53⟩ }),
      [.mk .importCall ⟨38, 52⟩ [] [.mk (.str (.utf8 "n")) ⟨45, 48⟩ [] [], .mk (.ident "a") ⟨50, 51⟩ [] []]]⟩]

def nestedImportModule : Module :=
  { handle := 0
    identity := { resource := ["e"] }
    builtContent :=
      { parsed := (parseModuleDependencies [] none nestedImportBody).toOption.getD {}
        source := "import { a } from \"m\";\nexport default import(\"n\", a);" }
    harmony := true }

def nestedImportContext : ModuleGeneratorContext where
  module := nestedImportModule
  moduleGraph := .ofModules [nestedImportModule, .javaScript "m" [] [], .javaScript "n" [] []] [0]
  chunkGraph := {}
  moduleRenderIds handle := some (.number handle.toUInt32)

theorem bodyWellSpanned_nestedImport : BodyWellSpanned nestedImportContext.module.source nestedImportBody := by
  refine ⟨fun tree htree => ?_, by decide⟩
  rcases List.mem_pair.mp htree with rfl | rfl
  · refine ⟨fun decl hdecl => ?_, fun decl hdecl => ?_, fun _ _ => nofun, trivial, .nil⟩
    · cases hdecl
      decide
    · cases hdecl
      nofun
  · refine ⟨fun decl hdecl => ?_, fun decl hdecl => ?_, fun decl hdecl => ?_, ⟨?_, trivial⟩,
      List.pairwise_singleton _ _⟩
    · cases hdecl
      decide
    · cases hdecl
      decide
    · cases hdecl
      decide
    · simp only [Node.WellSpanned, AllWellSpanned]
      decide

/-- The replacement of the use lies in that of the call. -/
theorem generated_replacements_laid_nested : ∃ record : CodeGenerationRecord,
    nestedImportContext.generateWithConcatenationScope none = .ok record ∧
      record.source.isCompatibleWith nestedImportModule.source = true ∧
      ¬ (record.source.replacements.map CodeGenerationReplacement.range).Pairwise SourceRange.Apart := by
  have hok : (nestedImportContext.generateWithConcatenationScope none).isOk = true := by decide +kernel
  cases hrecord : nestedImportContext.generateWithConcatenationScope none with
  | error error =>
      rw [hrecord] at hok
      cases hok
  | ok record =>
      obtain ⟨hcompatible, -, hapart⟩ := generated_replacements_laid bodyWellSpanned_nestedImport
        (show parseModuleDependencies [] none nestedImportBody = .ok _ from rfl) hrecord
      refine ⟨record, rfl, hcompatible, fun h => ?_⟩
      exact absurd (hapart.mp h) (by decide)

end Unpack
