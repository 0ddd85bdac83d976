import Unpack.ModuleDeclarations
import Unpack.Lib.Fallible

/-! What a module exports by its declarations, in whatever order they stand, against what the pass of
the parser records. An import that comes after the export of its binding is not seen, and a namespace
re-export leaves no dependency. -/

namespace Unpack

open Ecma

namespace Ecma

/-- The names that a pattern binds. -/
inductive Pat.Binds : Pat → String → Prop where
  | ident (id : String) : Binds (.ident id) id
  | array {elems : List (Option Pat)} {elem : Pat} {name : String} (hmem : some elem ∈ elems)
      (h : Binds elem name) : Binds (.array elems) name
  | rest {arg : Pat} {name : String} (h : Binds arg name) : Binds (.rest arg) name
  | keyValue {props : List ObjectPatProp} {value : Pat} {name : String}
      (hmem : .keyValue value ∈ props) (h : Binds value name) : Binds (.object props) name
  | assignProp {props : List ObjectPatProp} {key : String} (hmem : .assign key ∈ props) :
      Binds (.object props) key
  | restProp {props : List ObjectPatProp} {arg : Pat} {name : String} (hmem : .rest arg ∈ props)
      (h : Binds arg name) : Binds (.object props) name
  | assign {left : Pat} {name : String} (h : Binds left name) : Binds (.assign left) name

inductive ModuleExportName.Is : ModuleExportName → String → Prop where
  | ident (id : String) : Is (.ident id) id
  | str (value : String) : Is (.str (.utf8 value)) value

/-- The name after `as`, or the other one. -/
def NameOr (name : Option ModuleExportName) (other text : String) : Prop :=
  name.elim (text = other) (·.Is text)

/-- A value import of a name, of the default export, or of the namespace. -/
inductive ImportSpecifier.Binds : ImportSpecifier → String → List String → Prop where
  | named {local_ text : String} {imported : Option ModuleExportName} (h : NameOr imported local_ text) :
      Binds (.named false local_ imported) local_ [text]
  | default (local_ : String) : Binds (.default local_) local_ ["default"]
  | namespace (local_ : String) : Binds (.namespace local_) local_ []

/-- The import declaration binds `local_` to this of `request`. -/
def ModuleDecl.Imports (decl : ModuleDecl) (local_ request : String) (ids : List String) : Prop :=
  ∃ importDecl, decl = .import importDecl ∧ importDecl.typeOnly = false ∧
    importDecl.src = .utf8 request ∧ ∃ specifier ∈ importDecl.specifiers, specifier.Binds local_ ids

def Decl.Binds : Decl → String → Prop
  | .class ident, name | .fn ident, name => name = ident
  | .var decls, name => ∃ pattern ∈ decls, pattern.Binds name
  | .using, _ => False

/-- The specifier of a value export of one name. -/
def ExportSpecifier.value : ExportSpecifier → Option ExportNamedSpecifier
  | .named specifier => if specifier.isTypeOnly then none else some specifier
  | .namespace _ => none

def NamedExport.valueSpecifiers (decl : NamedExport) : List ExportNamedSpecifier :=
  decl.specifiers.filterMap ExportSpecifier.value

/-- The names that a declaration exports by any form but a namespace re-export. The names that
`export * from` passes on are not its own. -/
def ModuleDecl.ExportsName : ModuleDecl → String → Prop
  | .import _, _ | .exportAll _, _ => False
  | .exportDecl decl, name => decl.decl.Binds name
  | .exportNamed decl, name => decl.typeOnly = false ∧ ∃ specifier ∈ decl.valueSpecifiers,
      ∃ orig, specifier.orig.Is orig ∧ NameOr specifier.exported orig name
  | .exportDefaultDecl _, name | .exportDefaultExpr _, name => name = "default"

def ModuleDecl.ExportsNamespace (decl : ModuleDecl) (name : String) : Prop :=
  ∃ named, decl = .exportNamed named ∧ named.typeOnly = false ∧
    ∃ exported, .namespace exported ∈ named.specifiers ∧ exported.Is name

/-- The string literals of a declaration that are names or requests. -/
def ModuleExportName.literals : ModuleExportName → List Wtf8Atom
  | .ident _ => []
  | .str value => [value]

def ImportSpecifier.literals : ImportSpecifier → List Wtf8Atom
  | .named _ _ imported => imported.elim [] ModuleExportName.literals
  | .default _ | .namespace _ => []

def ExportSpecifier.literals : ExportSpecifier → List Wtf8Atom
  | .named specifier =>
      specifier.orig.literals ++ specifier.exported.elim [] ModuleExportName.literals
  | .namespace name => name.literals

def ModuleDecl.literals : ModuleDecl → List Wtf8Atom
  | .import decl => decl.src :: decl.specifiers.flatMap ImportSpecifier.literals
  | .exportNamed decl => decl.src.toList ++ decl.specifiers.flatMap ExportSpecifier.literals
  | .exportAll decl => [decl.src]
  | .exportDecl _ | .exportDefaultDecl _ | .exportDefaultExpr _ => []

def Imports (body : List ModuleItem) (local_ request : String) (ids : List String) : Prop :=
  ∃ decl, .moduleDecl decl ∈ body ∧ decl.Imports local_ request ids

/-- An import declaration of the body binds the name, wherever it stands. -/
def BoundByImport (body : List ModuleItem) (local_ : String) : Prop :=
  ∃ request ids, Imports body local_ request ids

/-- No string literal of an import or export has a lone surrogate. -/
def Utf8 (body : List ModuleItem) : Prop :=
  ∀ decl, .moduleDecl decl ∈ body → .loneSurrogate ∉ decl.literals

def ExportsName (body : List ModuleItem) (name : String) : Prop :=
  ∃ decl, .moduleDecl decl ∈ body ∧ decl.ExportsName name

def ExportsNamespace (body : List ModuleItem) (name : String) : Prop :=
  ∃ decl, .moduleDecl decl ∈ body ∧ decl.ExportsNamespace name

/-- Each export of an import binding comes after an import that binds it. -/
def ImportsFirst (body : List ModuleItem) : Prop :=
  ∀ before decl after, body = before ++ .moduleDecl (.exportNamed decl) :: after → decl.src = none →
    decl.typeOnly = false → ∀ specifier ∈ decl.valueSpecifiers, ∀ orig, specifier.orig.Is orig →
      BoundByImport body orig → BoundByImport before orig

/-- No namespace is re-exported, but under a name that another form exports too. -/
def NamespacesElsewhere (body : List ModuleItem) : Prop :=
  ∀ name, ExportsNamespace body name → ExportsName body name

end Ecma

/-- The dependency alone makes the exports info provide the name. -/
def Dependency.Provides (dependency : Dependency) (name : String) : Prop :=
  ∃ names, (ExportsInfo.fromDependencies [dependency]).providedExports = some names ∧ name ∈ names

/-- The dependency of `export { orig as exported }`: a re-export of what an import binds `orig` to, and
a local export when none does. -/
def Classified (body : List ModuleItem) (specifier : ExportNamedSpecifier) (dependency : Dependency) :
    Prop :=
  ∃ orig exported, specifier.orig.Is orig ∧ NameOr specifier.exported orig exported ∧
    ((∃ request ids sourceOrder, Imports body orig request ids ∧
        dependency = .harmonyExportImportedSpecifier
          { module := { request, sourceOrder := some sourceOrder, range := specifier.span }
            ids, name := some exported, isStar := false }) ∨
      ¬ BoundByImport body orig ∧
        dependency = .harmonyExportSpecifier { id := orig, name := exported })

/-- The dependencies of a body, as the language has it: those of an export clause are right whatever
the order of the declarations, and each name that the body exports is provided by one of them. -/
structure ExportsRecorded (path : PathBuf) (body : List ModuleItem) (result : ModuleDeclState) :
    Prop where
  classified : ∀ before decl after, body = before ++ .moduleDecl (.exportNamed decl) :: after →
    decl.src = none → decl.typeOnly = false →
    ∀ earlier, collectModuleDeclDependencies path before {} = .ok earlier →
      ∃ part later, result.parsed.dependencies = earlier.parsed.dependencies ++ part ++ later ∧
        List.Forall₂ (Classified body) decl.valueSpecifiers part
  provided : ∀ name, ExportsName body name ∨ ExportsNamespace body name →
    ∃ dependency ∈ result.parsed.dependencies, dependency.Provides name

theorem mem_collectBinding {bindings : List String} {added name : String} :
    name ∈ collectBinding bindings added ↔ name ∈ bindings ∨ name = added := by
  unfold collectBinding
  split_ifs with hmem
  · refine ⟨Or.inl, fun hor => hor.elim id fun heq => heq ▸ hmem⟩
  · rw [List.mem_append, List.mem_singleton]

def ObjectPatProp.Binds : ObjectPatProp → String → Prop
  | .keyValue value, name => value.Binds name
  | .assign key, name => name = key
  | .rest arg, name => arg.Binds name

theorem object_binds_iff {props : List ObjectPatProp} {name : String} :
    (Pat.object props).Binds name ↔ ∃ prop ∈ props, ObjectPatProp.Binds prop name := by
  constructor
  · intro h
    cases h with
    | keyValue hmem h => exact ⟨_, hmem, h⟩
    | assignProp hmem => exact ⟨_, hmem, rfl⟩
    | restProp hmem h => exact ⟨_, hmem, h⟩
  · rintro ⟨prop, hmem, h⟩
    cases prop with
    | keyValue value => exact .keyValue hmem h
    | assign key => exact h ▸ .assignProp hmem
    | rest arg => exact .restProp hmem h

mutual

theorem mem_addPatBindings (bindings : List String) (name : String) : ∀ pattern : Pat,
    name ∈ addPatBindings bindings pattern ↔ name ∈ bindings ∨ pattern.Binds name
  | .ident id => by
      rw [addPatBindings, mem_collectBinding]
      refine or_congr Iff.rfl ⟨?_, ?_⟩
      · rintro rfl
        exact .ident name
      · rintro (⟨⟩)
        rfl
  | .array elems => by
      rw [addPatBindings, mem_addElemBindings]
      refine or_congr Iff.rfl ⟨?_, ?_⟩
      · rintro ⟨elem, hmem, h⟩
        exact .array hmem h
      · rintro (_ | ⟨hmem, h⟩)
        exact ⟨_, hmem, h⟩
  | .rest arg => by
      rw [addPatBindings, mem_addPatBindings bindings name arg]
      refine or_congr Iff.rfl ⟨.rest, ?_⟩
      rintro (_ | _ | h)
      exact h
  | .object props => by
      rw [addPatBindings, mem_addPropBindings, object_binds_iff]
  | .assign left => by
      rw [addPatBindings, mem_addPatBindings bindings name left]
      refine or_congr Iff.rfl ⟨.assign, ?_⟩
      rintro (_ | _ | _ | _ | _ | _ | h)
      exact h
  | .invalid => by
      rw [addPatBindings]
      exact ⟨Or.inl, fun hor => hor.elim id nofun⟩
  | .expr => by
      rw [addPatBindings]
      exact ⟨Or.inl, fun hor => hor.elim id nofun⟩

theorem mem_addElemBindings (bindings : List String) (name : String) : ∀ elems : List (Option Pat),
    name ∈ addElemBindings bindings elems ↔
      name ∈ bindings ∨ ∃ elem, some elem ∈ elems ∧ elem.Binds name
  | [] => by simp [addElemBindings]
  | none :: elems => by
      rw [addElemBindings, mem_addElemBindings bindings name elems]
      simp
  | some elem :: elems => by
      rw [addElemBindings, mem_addElemBindings _ name elems, mem_addPatBindings bindings name elem]
      simp only [List.mem_cons, Option.some.injEq, or_and_right, exists_or, exists_eq_left, or_assoc]

theorem mem_addPropBindings (bindings : List String) (name : String) : ∀ props : List ObjectPatProp,
    name ∈ addPropBindings bindings props ↔
      name ∈ bindings ∨ ∃ prop ∈ props, ObjectPatProp.Binds prop name
  | [] => by simp [addPropBindings]
  | .keyValue value :: props => by
      rw [addPropBindings, mem_addPropBindings _ name props, mem_addPatBindings bindings name value]
      simp only [List.exists_mem_cons_iff, ObjectPatProp.Binds, or_assoc]
  | .assign key :: props => by
      rw [addPropBindings, mem_addPropBindings _ name props, mem_collectBinding]
      simp only [List.exists_mem_cons_iff, ObjectPatProp.Binds, or_assoc]
  | .rest arg :: props => by
      rw [addPropBindings, mem_addPropBindings _ name props, mem_addPatBindings bindings name arg]
      simp only [List.exists_mem_cons_iff, ObjectPatProp.Binds, or_assoc]

end

theorem mem_declNames {decls : List Pat} {name : String} :
    name ∈ decls.foldl addPatBindings [] ↔ ∃ pattern ∈ decls, pattern.Binds name := by
  have hrun : ∀ (decls : List Pat) (bindings : List String), name ∈ decls.foldl addPatBindings bindings ↔
      name ∈ bindings ∨ ∃ pattern ∈ decls, pattern.Binds name := by
    intro decls bindings
    induction decls generalizing bindings with
    | nil => simp
    | cons pattern decls ih =>
        rw [List.foldl_cons, ih, mem_addPatBindings]
        simp only [List.exists_mem_cons_iff, or_assoc]
  rw [hrun]
  simp

namespace Dependency

@[simp] theorem provides_harmonyExportSpecifier (dep : HarmonyExportSpecifierDependency) (name : String) :
    (harmonyExportSpecifier dep).Provides name ↔ name = dep.name := by
  simp [Provides, ExportsInfo.fromDependencies, ExportsInfo.addDependency, ExportsInfo.addProvidedExport]

@[simp] theorem provides_harmonyExportExpression (dep : HarmonyExportExpressionDependency)
    (name : String) : (harmonyExportExpression dep).Provides name ↔ name = "default" := by
  simp [Provides, ExportsInfo.fromDependencies, ExportsInfo.addDependency, ExportsInfo.addProvidedExport]

@[simp] theorem provides_harmonyExportImportedSpecifier
    (dep : HarmonyExportImportedSpecifierDependency) (name : String) :
    (harmonyExportImportedSpecifier dep).Provides name ↔ dep.isStar = false ∧ dep.name = some name := by
  obtain ⟨_, _, exported, isStar⟩ := dep
  cases isStar <;> cases exported <;>
    simp [Provides, ExportsInfo.fromDependencies, ExportsInfo.addDependency,
      ExportsInfo.addProvidedExport, eq_comm]

@[simp] theorem not_provides_harmonyImportSideEffect (dep : HarmonyImportSideEffectDependency)
    (name : String) : ¬ (harmonyImportSideEffect dep).Provides name := by
  simp [Provides, ExportsInfo.fromDependencies, ExportsInfo.addDependency]

end Dependency

theorem is_of_ok {name : ModuleExportName} {text : String}
    (h : moduleExportNameToString name = .ok text) : name.Is text := by
  cases name with
  | ident id =>
      cases h
      exact .ident _
  | str value =>
      cases value with
      | utf8 value =>
          cases h
          exact .str _
      | loneSurrogate => cases h

theorem nameOr_of_ok {name : Option ModuleExportName} {other text : String}
    (h : ModuleDeclState.nameOr name other = .ok text) : NameOr name other text := by
  cases name with
  | none =>
      cases h
      exact rfl
  | some name => exact is_of_ok h

theorem specifierToString_ok {path : PathBuf} {specifier : Wtf8Atom} {text : String}
    (h : specifierToString path specifier = .ok text) : specifier = .utf8 text := by
  cases specifier with
  | utf8 value =>
      cases h
      rfl
  | loneSurrogate => cases h

theorem is_unique {name : ModuleExportName} {left right : String} (hleft : name.Is left)
    (hright : name.Is right) : left = right := by
  cases hleft <;> cases hright <;> rfl

theorem nameOr_unique {name : Option ModuleExportName} {other left right : String}
    (hleft : NameOr name other left) (hright : NameOr name other right) : left = right := by
  cases name with
  | none => exact hleft.trans hright.symm
  | some name => exact is_unique hleft hright

namespace ModuleDeclState

variable {state after : ModuleDeclState}

theorem collectImportSpecifier_ok {request : String} {specifier : ImportSpecifier}
    (h : collectImportSpecifier request state specifier = .ok after) :
    after.parsed = state.parsed ∧
      ((after = state ∧ ∀ local_ ids, ¬ specifier.Binds local_ ids) ∨
        ∃ local_ ids, after = state.insertBinding request local_ ids ∧
          ∀ other others, specifier.Binds other others ↔ other = local_ ∧ others = ids) := by
  cases specifier with
  | named isTypeOnly local_ imported =>
      cases isTypeOnly with
      | true =>
          cases h
          exact ⟨rfl, Or.inl ⟨rfl, fun _ _ hbinds => by cases hbinds⟩⟩
      | false =>
          obtain ⟨text, htext, hstate⟩ := Fallible.of_bind_ok h
          cases hstate
          refine ⟨rfl, Or.inr ⟨local_, [text], rfl, fun other others => ⟨?_, ?_⟩⟩⟩
          · rintro (hname)
            cases hname with
            | named hname => exact ⟨rfl, by rw [nameOr_unique hname (nameOr_of_ok htext)]⟩
          · rintro ⟨rfl, rfl⟩
            exact .named (nameOr_of_ok htext)
  | default local_ =>
      cases h
      refine ⟨rfl, Or.inr ⟨local_, ["default"], rfl, fun other others => ⟨?_, ?_⟩⟩⟩
      · rintro ⟨⟩
        exact ⟨rfl, rfl⟩
      · rintro ⟨rfl, rfl⟩
        exact .default other
  | «namespace» local_ =>
      cases h
      refine ⟨rfl, Or.inr ⟨local_, [], rfl, fun other others => ⟨?_, ?_⟩⟩⟩
      · rintro ⟨⟩
        exact ⟨rfl, rfl⟩
      · rintro ⟨rfl, rfl⟩
        exact .namespace other

/-- What a step does to the import bindings: old ones stay or are replaced by new ones, and new names are
bound. -/
structure Binds (state after : ModuleDeclState) (new : String → String → List String → Prop) : Prop where
  from_ : ∀ local_ binding, after.importBindings.lookup local_ = some binding →
    state.importBindings.lookup local_ = some binding ∨ new local_ binding.request binding.ids
  bound : ∀ local_, (after.importBindings.lookup local_).isSome ↔
    (state.importBindings.lookup local_).isSome ∨ ∃ request ids, new local_ request ids

theorem binds_of_same {new : String → String → List String → Prop}
    (hsame : after.importBindings = state.importBindings)
    (hnew : ∀ local_ request ids, ¬ new local_ request ids) : state.Binds after new where
  from_ := fun local_ binding hlookup => Or.inl (hsame ▸ hlookup)
  bound := fun local_ => by
    rw [hsame]
    exact ⟨Or.inl, fun hor => hor.elim id fun ⟨request, ids, h⟩ => absurd h (hnew local_ request ids)⟩

theorem Binds.trans {middle : ModuleDeclState} {first second : String → String → List String → Prop}
    (h : state.Binds middle first) (h' : middle.Binds after second) :
    state.Binds after fun local_ request ids =>
      first local_ request ids ∨ second local_ request ids where
  from_ := by
    intro local_ binding hlookup
    rcases h'.from_ local_ binding hlookup with hmiddle | hsecond
    · exact (h.from_ local_ binding hmiddle).imp_right Or.inl
    · exact Or.inr (Or.inr hsecond)
  bound := by
    intro local_
    rw [h'.bound, h.bound, or_assoc]
    refine or_congr Iff.rfl ⟨?_, ?_⟩
    · rintro (⟨request, ids, hnew⟩ | ⟨request, ids, hnew⟩)
      · exact ⟨request, ids, Or.inl hnew⟩
      · exact ⟨request, ids, Or.inr hnew⟩
    · rintro ⟨request, ids, hnew | hnew⟩
      · exact Or.inl ⟨request, ids, hnew⟩
      · exact Or.inr ⟨request, ids, hnew⟩

theorem Binds.congr {old new : String → String → List String → Prop} (h : state.Binds after old)
    (heq : ∀ local_ request ids, old local_ request ids ↔ new local_ request ids) :
    state.Binds after new where
  from_ := fun local_ binding hlookup => (h.from_ local_ binding hlookup).imp_right (heq _ _ _).mp
  bound := fun local_ => by
    rw [h.bound]
    simp only [heq]

theorem binds_collectImportSpecifier {request : String} {specifier : ImportSpecifier}
    (h : collectImportSpecifier request state specifier = .ok after) :
    state.Binds after fun local_ other ids => other = request ∧ specifier.Binds local_ ids := by
  obtain ⟨-, ⟨rfl, hnone⟩ | ⟨local_, ids, rfl, hbinds⟩⟩ := collectImportSpecifier_ok h
  · exact binds_of_same rfl fun local_ _ ids hnew => hnone local_ ids hnew.2
  · refine ⟨fun other binding hlookup => ?_, fun other => ?_⟩
    · by_cases hsame : other = local_
      · subst hsame
        rw [insertBinding, AList.lookup_insert] at hlookup
        cases hlookup
        exact Or.inr ⟨rfl, (hbinds _ _).mpr ⟨rfl, rfl⟩⟩
      · rw [insertBinding, AList.lookup_insert_ne hsame] at hlookup
        exact Or.inl hlookup
    · by_cases hsame : other = local_
      · subst hsame
        rw [insertBinding, AList.lookup_insert]
        exact ⟨fun _ => Or.inr ⟨request, ids, rfl, (hbinds _ _).mpr ⟨rfl, rfl⟩⟩, fun _ => rfl⟩
      · rw [insertBinding, AList.lookup_insert_ne hsame]
        refine ⟨Or.inl, fun hor => hor.elim id ?_⟩
        rintro ⟨_, others, -, hother⟩
        exact absurd ((hbinds _ _).mp hother).1 hsame

theorem foldlM_collectImportSpecifier {request : String} {specifiers : List ImportSpecifier}
    (h : specifiers.foldlM (collectImportSpecifier request) state = .ok after) :
    after.parsed = state.parsed ∧ state.Binds after fun local_ other ids =>
      other = request ∧ ∃ specifier ∈ specifiers, specifier.Binds local_ ids := by
  induction specifiers generalizing state with
  | nil =>
      cases h
      exact ⟨rfl, binds_of_same rfl fun _ _ _ hnew => by simp at hnew⟩
  | cons specifier specifiers ih =>
      rw [List.foldlM_cons] at h
      obtain ⟨middle, hstep, hrest⟩ := Fallible.of_bind_ok h
      obtain ⟨hparsed, hbinds⟩ := ih hrest
      refine ⟨hparsed.trans (collectImportSpecifier_ok hstep).1, ?_⟩
      refine ((binds_collectImportSpecifier hstep).trans hbinds).congr fun local_ other ids => ?_
      rw [← and_or_left, List.exists_mem_cons_iff]

/-- A step over an export specifier: a value specifier pushes a dependency, any other nothing. -/
def Pushes (R : ExportNamedSpecifier → Dependency → Prop) (state after : ModuleDeclState)
    (specifier : ExportSpecifier) : Prop :=
  match specifier.value with
  | some named => ∃ dependency, after = state.pushDependency dependency ∧ R named dependency
  | none => after = state

/-- A fold of such steps pushes a dependency for each value specifier. -/
theorem foldlM_pushes {R : FxHashMap String ImportBinding → ExportNamedSpecifier → Dependency → Prop}
    {f : ModuleDeclState → ExportSpecifier → Except Make.Error ModuleDeclState}
    (hf : ∀ state after specifier, f state specifier = .ok after →
      Pushes (R state.importBindings) state after specifier)
    {specifiers : List ExportSpecifier} (h : specifiers.foldlM f state = .ok after) :
    after.importBindings = state.importBindings ∧
      ∃ part, after.parsed.dependencies = state.parsed.dependencies ++ part ∧
        List.Forall₂ (R state.importBindings) (specifiers.filterMap ExportSpecifier.value) part := by
  induction specifiers generalizing state with
  | nil =>
      cases h
      exact ⟨rfl, [], (List.append_nil _).symm, .nil⟩
  | cons specifier specifiers ih =>
      rw [List.foldlM_cons] at h
      obtain ⟨middle, hstep, hrest⟩ := Fallible.of_bind_ok h
      obtain ⟨hbindings, part, hdependencies, hparts⟩ := ih hrest
      have hpushes := hf state middle specifier hstep
      unfold Pushes at hpushes
      cases hvalue : specifier.value with
      | none =>
          rw [hvalue] at hpushes
          subst hpushes
          refine ⟨hbindings, part, hdependencies, ?_⟩
          rwa [List.filterMap_cons_none hvalue]
      | some named =>
          rw [hvalue] at hpushes
          obtain ⟨dependency, rfl, hR⟩ := hpushes
          refine ⟨hbindings, dependency :: part, ?_, ?_⟩
          · rw [hdependencies, pushDependency]
            simp
          · rw [List.filterMap_cons_some hvalue]
            exact .cons hR hparts

/-- The dependency provides the name that the specifier exports and no other. -/
def ProvidesExported (specifier : ExportNamedSpecifier) (dependency : Dependency) : Prop :=
  ∀ name, dependency.Provides name ↔
    ∃ orig, specifier.orig.Is orig ∧ NameOr specifier.exported orig name

theorem pushes_collectExportFrom {request : String} {specifier : ExportSpecifier}
    (h : collectExportFrom request state specifier = .ok after) :
    Pushes ProvidesExported state after specifier := by
  cases specifier with
  | «namespace» name =>
      cases h
      rfl
  | named specifier =>
      obtain ⟨orig, exported, isTypeOnly, span⟩ := specifier
      cases isTypeOnly with
      | true =>
          cases h
          rfl
      | false =>
          obtain ⟨text, htext, hrest⟩ := Fallible.of_bind_ok h
          obtain ⟨name, hname, hstate⟩ := Fallible.of_bind_ok hrest
          cases hstate
          refine ⟨_, rfl, fun other => ?_⟩
          rw [Dependency.provides_harmonyExportImportedSpecifier]
          constructor
          · rintro ⟨-, heq⟩
            cases heq
            exact ⟨text, is_of_ok htext, nameOr_of_ok hname⟩
          · rintro ⟨own, horig, hown⟩
            obtain rfl := is_unique horig (is_of_ok htext)
            exact ⟨rfl, congrArg some (nameOr_unique (nameOr_of_ok hname) hown)⟩

/-- What the clause makes of a specifier with the bindings collected so far. -/
def ClassifiedBy (bindings : FxHashMap String ImportBinding) (specifier : ExportNamedSpecifier)
    (dependency : Dependency) : Prop :=
  ∃ orig exported, specifier.orig.Is orig ∧ NameOr specifier.exported orig exported ∧
    dependency =
      match bindings.lookup orig with
      | some binding => .harmonyExportImportedSpecifier
          { module := { request := binding.request, sourceOrder := binding.sourceOrder,
                        range := specifier.span }
            ids := binding.ids, name := some exported, isStar := false }
      | none => .harmonyExportSpecifier { id := orig, name := exported }

theorem pushes_collectExportLocal {specifier : ExportSpecifier}
    (h : collectExportLocal state specifier = .ok after) :
    Pushes (ClassifiedBy state.importBindings) state after specifier := by
  cases specifier with
  | «namespace» name =>
      cases h
      rfl
  | named specifier =>
      obtain ⟨orig, exported, isTypeOnly, span⟩ := specifier
      cases isTypeOnly with
      | true =>
          cases h
          rfl
      | false =>
          obtain ⟨text, htext, hrest⟩ := Fallible.of_bind_ok h
          obtain ⟨name, hname, hstate⟩ := Fallible.of_bind_ok hrest
          refine ⟨_, ?_, text, name, is_of_ok htext, nameOr_of_ok hname, rfl⟩
          cases hlookup : state.importBindings.lookup text with
          | none =>
              simp only [hlookup] at hstate
              cases hstate
              rfl
          | some binding =>
              simp only [hlookup] at hstate
              cases hstate
              rfl

theorem ClassifiedBy.providesExported {bindings : FxHashMap String ImportBinding}
    {specifier : ExportNamedSpecifier} {dependency : Dependency}
    (h : ClassifiedBy bindings specifier dependency) : ProvidesExported specifier dependency := by
  obtain ⟨orig, exported, horig, hexported, rfl⟩ := h
  have hname : ∀ name, name = exported ↔
      ∃ other, specifier.orig.Is other ∧ NameOr specifier.exported other name := by
    intro name
    constructor
    · rintro rfl
      exact ⟨orig, horig, hexported⟩
    · rintro ⟨other, hother, hown⟩
      obtain rfl := is_unique horig hother
      exact nameOr_unique hown hexported
  intro name
  rw [← hname name]
  split
  · rw [Dependency.provides_harmonyExportImportedSpecifier]
    simp only [true_and, Option.some.injEq, eq_comm]
  · rw [Dependency.provides_harmonyExportSpecifier]

/-- What a declaration adds: dependencies that provide the names it exports, and its bindings. -/
structure Adds (decl : ModuleDecl) (state after : ModuleDeclState) : Prop where
  dependencies : ∃ part, after.parsed.dependencies = state.parsed.dependencies ++ part ∧
    ∀ name, (∃ dependency ∈ part, dependency.Provides name) ↔ decl.ExportsName name
  binds : state.Binds after decl.Imports

theorem foldl_pushDependency (part : List Dependency) (state : ModuleDeclState) :
    (part.foldl pushDependency state).parsed.dependencies = state.parsed.dependencies ++ part ∧
      (part.foldl pushDependency state).importBindings = state.importBindings := by
  induction part generalizing state with
  | nil => exact ⟨(List.append_nil _).symm, rfl⟩
  | cons dependency part ih =>
      obtain ⟨hdependencies, hbindings⟩ := ih (state.pushDependency dependency)
      refine ⟨?_, hbindings⟩
      rw [List.foldl_cons, hdependencies, pushDependency]
      simp

theorem provides_collectDeclExports (decl : Decl) (name : String) :
    (∃ dependency ∈ collectDeclExports decl, dependency.Provides name) ↔ decl.Binds name := by
  cases decl with
  | «class» ident => simp [collectDeclExports, Decl.Binds]
  | fn ident => simp [collectDeclExports, Decl.Binds]
  | var decls =>
      rw [Decl.Binds, ← mem_declNames, collectDeclExports]
      simp only [List.mem_map, exists_exists_and_eq_and, Dependency.provides_harmonyExportSpecifier]
      constructor
      · rintro ⟨own, hmem, rfl⟩
        exact hmem
      · exact fun hmem => ⟨name, hmem, rfl⟩
  | «using» => simp [collectDeclExports, Decl.Binds]

theorem not_imports {decl : ModuleDecl} (h : ∀ importDecl, decl ≠ .import importDecl)
    (local_ request : String) (ids : List String) : ¬ decl.Imports local_ request ids :=
  fun ⟨importDecl, heq, _⟩ => h importDecl heq

/-- Dependencies of the value specifiers provide their names. -/
theorem provides_of_forall₂ {specifiers : List ExportNamedSpecifier} {part : List Dependency}
    (h : List.Forall₂ ProvidesExported specifiers part) (name : String) :
    (∃ dependency ∈ part, dependency.Provides name) ↔ ∃ specifier ∈ specifiers,
      ∃ orig, specifier.orig.Is orig ∧ NameOr specifier.exported orig name := by
  induction h with
  | nil => simp
  | cons hhead _ ih => rw [List.exists_mem_cons_iff, List.exists_mem_cons_iff, ih, hhead name]

theorem adds_collectModuleDecl {path : PathBuf} {decl : ModuleDecl}
    (h : collectModuleDecl path state decl = .ok after) : Adds decl state after := by
  cases decl with
  | «import» decl =>
      obtain ⟨specifiers, src, typeOnly, span⟩ := decl
      cases typeOnly with
      | true =>
          cases h
          refine ⟨⟨[], (List.append_nil _).symm, fun name => by simp [ModuleDecl.ExportsName]⟩,
            binds_of_same rfl ?_⟩
          rintro local_ request ids ⟨importDecl, heq, hvalue, -⟩
          cases heq
          cases hvalue
      | false =>
          obtain ⟨request, hrequest, hrest⟩ := Fallible.of_bind_ok h
          obtain ⟨hparsed, hbinds⟩ := foldlM_collectImportSpecifier hrest
          have hstart : state.Binds after fun local_ other ids =>
              other = request ∧ ∃ specifier ∈ specifiers, specifier.Binds local_ ids :=
            ⟨hbinds.from_, hbinds.bound⟩
          refine ⟨⟨[_], congrArg ParsedModule.dependencies hparsed, fun name => ?_⟩,
            hstart.congr fun local_ other ids => ?_⟩
          · simp [ModuleDecl.ExportsName]
          · obtain rfl : src = .utf8 request := specifierToString_ok hrequest
            constructor
            · rintro ⟨rfl, hspecifier⟩
              exact ⟨_, rfl, rfl, rfl, hspecifier⟩
            · rintro ⟨importDecl, heq, -, hsrc, hspecifier⟩
              cases heq
              cases hsrc
              exact ⟨rfl, hspecifier⟩
  | exportDecl decl =>
      cases h
      obtain ⟨hdependencies, hbindings⟩ := foldl_pushDependency (collectDeclExports decl.decl)
        (state.pushPresentational (.harmonyExportHeader
          { declarationRange := some decl.declSpan, statementRange := decl.span }))
      exact ⟨⟨_, hdependencies, provides_collectDeclExports decl.decl⟩,
        binds_of_same hbindings (not_imports nofun)⟩
  | exportNamed decl =>
      obtain ⟨specifiers, src, typeOnly, span⟩ := decl
      cases typeOnly with
      | true =>
          cases h
          exact ⟨⟨[], (List.append_nil _).symm, fun name => by simp [ModuleDecl.ExportsName]⟩,
            binds_of_same rfl (not_imports nofun)⟩
      | false =>
          cases src with
          | some src =>
              obtain ⟨request, hrequest, hrest⟩ := Fallible.of_bind_ok h
              obtain ⟨hbindings, part, hdependencies, hparts⟩ := foldlM_pushes
                (R := fun _ => ProvidesExported) (fun _ _ _ => pushes_collectExportFrom) hrest
              refine ⟨⟨_, hdependencies.trans (List.append_assoc _ [_] part), fun name => ?_⟩,
                binds_of_same hbindings (not_imports nofun)⟩
              rw [List.singleton_append, List.exists_mem_cons_iff, provides_of_forall₂ hparts]
              simp [ModuleDecl.ExportsName, NamedExport.valueSpecifiers]
          | none =>
              obtain ⟨hbindings, part, hdependencies, hparts⟩ := foldlM_pushes
                (R := ClassifiedBy) (fun _ _ _ => pushes_collectExportLocal) h
              refine ⟨⟨part, hdependencies, fun name => ?_⟩,
                binds_of_same hbindings (not_imports nofun)⟩
              rw [provides_of_forall₂ (hparts.imp fun _ _ => ClassifiedBy.providesExported)]
              simp [ModuleDecl.ExportsName, NamedExport.valueSpecifiers]
  | exportDefaultDecl decl =>
      cases h
      exact ⟨⟨[_], rfl, fun name => by simp [ModuleDecl.ExportsName]⟩,
        binds_of_same rfl (not_imports nofun)⟩
  | exportDefaultExpr decl =>
      cases h
      exact ⟨⟨[_], rfl, fun name => by simp [ModuleDecl.ExportsName]⟩,
        binds_of_same rfl (not_imports nofun)⟩
  | exportAll decl =>
      obtain ⟨src, typeOnly, span⟩ := decl
      cases typeOnly with
      | true =>
          cases h
          exact ⟨⟨[], (List.append_nil _).symm, fun name => by simp [ModuleDecl.ExportsName]⟩,
            binds_of_same rfl (not_imports nofun)⟩
      | false =>
          obtain ⟨request, hrequest, hrest⟩ := Fallible.of_bind_ok h
          cases hrest
          refine ⟨⟨[_, _], List.append_assoc _ [_] [_], fun name => ?_⟩,
            binds_of_same rfl (not_imports nofun)⟩
          simp [ModuleDecl.ExportsName]

/-- After a body: its dependencies provide what it exports, and exactly its imports are bound. -/
structure AddsAll (body : List ModuleItem) (state after : ModuleDeclState) : Prop where
  dependencies : ∃ part, after.parsed.dependencies = state.parsed.dependencies ++ part ∧
    ∀ name, (∃ dependency ∈ part, dependency.Provides name) ↔ Ecma.ExportsName body name
  binds : state.Binds after (Ecma.Imports body)

theorem addsAll_collect {path : PathBuf} {body : List ModuleItem}
    (h : collectModuleDeclDependencies path body state = .ok after) : AddsAll body state after := by
  induction body generalizing state with
  | nil =>
      cases h
      refine ⟨⟨[], (List.append_nil _).symm, fun name => ?_⟩, binds_of_same rfl ?_⟩
      · simp [Ecma.ExportsName]
      · rintro local_ request ids ⟨decl, hmem, -⟩
        exact List.not_mem_nil hmem
  | cons item body ih =>
      rw [collectModuleDeclDependencies, List.foldlM_cons] at h
      obtain ⟨middle, hstep, hrest⟩ := Fallible.of_bind_ok h
      obtain ⟨⟨part, hpart, hprovides⟩, hbinds⟩ := ih hrest
      cases item with
      | stmt =>
          cases hstep
          refine ⟨⟨part, hpart, fun name => ?_⟩, hbinds.congr fun local_ request ids => ?_⟩
          · rw [hprovides]
            simp [Ecma.ExportsName]
          · simp [Ecma.Imports]
      | moduleDecl decl =>
          obtain ⟨⟨first, hfirst, hfirstProvides⟩, hfirstBinds⟩ := adds_collectModuleDecl hstep
          refine ⟨⟨first ++ part, ?_, fun name => ?_⟩,
            (hfirstBinds.trans hbinds).congr fun local_ request ids => ?_⟩
          · rw [hpart, hfirst, List.append_assoc]
          · simp only [List.mem_append, or_and_right, exists_or, hprovides, hfirstProvides,
              Ecma.ExportsName, List.mem_cons, ModuleItem.moduleDecl.injEq, exists_eq_left]
          · simp only [Ecma.Imports, List.mem_cons, ModuleItem.moduleDecl.injEq, or_and_right,
              exists_or, exists_eq_left]

/-- The bindings when a declaration is reached are those of the imports before it. -/
theorem bound_iff {path : PathBuf} {body : List ModuleItem}
    (h : collectModuleDeclDependencies path body {} = .ok after) (local_ : String) :
    (after.importBindings.lookup local_).isSome ↔ BoundByImport body local_ := by
  rw [(addsAll_collect h).binds.bound]
  simp [BoundByImport]

theorem imports_of_lookup {path : PathBuf} {body : List ModuleItem}
    (h : collectModuleDeclDependencies path body {} = .ok after) {local_ : String}
    {binding : ImportBinding} (hlookup : after.importBindings.lookup local_ = some binding) :
    Ecma.Imports body local_ binding.request binding.ids :=
  ((addsAll_collect h).binds.from_ local_ binding hlookup).resolve_left (by simp)

/-- A run over a body that has a clause: up to it, over it and after it. -/
theorem collect_split {path : PathBuf} {before after' : List ModuleItem} {item : ModuleItem}
    (h : collectModuleDeclDependencies path (before ++ item :: after') state = .ok after) :
    ∃ earlier later, collectModuleDeclDependencies path before state = .ok earlier ∧
      collectModuleItem path earlier item = .ok later ∧
      collectModuleDeclDependencies path after' later = .ok after := by
  rw [collectModuleDeclDependencies, List.foldlM_append] at h
  obtain ⟨earlier, hearlier, hrest⟩ := Fallible.of_bind_ok h
  rw [List.foldlM_cons] at hrest
  obtain ⟨later, hitem, hafter⟩ := Fallible.of_bind_ok hrest
  exact ⟨earlier, later, hearlier, hitem, hafter⟩

end ModuleDeclState

open ModuleDeclState

/-- The dependencies of a clause: each specifier by the bindings before it. -/
theorem classifiedBy_of_collect {path : PathBuf} {before after : List ModuleItem}
    {decl : NamedExport} {result : ModuleDeclState}
    (h : collectModuleDeclDependencies path (before ++ .moduleDecl (.exportNamed decl) :: after) {} =
      .ok result) (hsrc : decl.src = none) (hvalue : decl.typeOnly = false) :
    ∃ earlier part later, collectModuleDeclDependencies path before {} = .ok earlier ∧
      result.parsed.dependencies = earlier.parsed.dependencies ++ part ++ later ∧
      List.Forall₂ (ClassifiedBy earlier.importBindings) decl.valueSpecifiers part := by
  obtain ⟨earlier, middle, hearlier, hclause, hrest⟩ := collect_split h
  obtain ⟨⟨later, hlater, -⟩, -⟩ := addsAll_collect hrest
  rw [collectModuleItem, collectModuleDecl] at hclause
  simp only [hvalue, hsrc] at hclause
  obtain ⟨-, part, hpart, hparts⟩ := foldlM_pushes (R := ClassifiedBy)
    (fun _ _ _ => pushes_collectExportLocal) hclause
  exact ⟨earlier, part, later, hearlier, by rw [hlater, hpart]; rfl, hparts⟩

theorem imports_of_prefix {before after : List ModuleItem} {local_ request : String}
    {ids : List String} (h : Imports before local_ request ids) :
    Imports (before ++ after) local_ request ids := by
  obtain ⟨decl, hmem, hdecl⟩ := h
  exact ⟨decl, List.mem_append_left _ hmem, hdecl⟩

/-- A specifier is classified right when its local is bound before it or not at all. -/
theorem classified_of_bound {path : PathBuf} {before after : List ModuleItem}
    {earlier : ModuleDeclState} (h : collectModuleDeclDependencies path before {} = .ok earlier)
    {specifier : ExportNamedSpecifier} {dependency : Dependency}
    (hfirst : ∀ orig, specifier.orig.Is orig → BoundByImport (before ++ after) orig →
      BoundByImport before orig)
    (hclassified : ClassifiedBy earlier.importBindings specifier dependency) :
    Classified (before ++ after) specifier dependency := by
  obtain ⟨orig, exported, horig, hexported, rfl⟩ := hclassified
  refine ⟨orig, exported, horig, hexported, ?_⟩
  cases hlookup : earlier.importBindings.lookup orig with
  | some binding =>
      exact Or.inl ⟨binding.request, binding.ids, binding.sourceOrder,
        imports_of_prefix (imports_of_lookup h hlookup), rfl⟩
  | none =>
      refine Or.inr ⟨fun hbound => ?_, rfl⟩
      have hsome := (bound_iff h orig).mpr (hfirst orig horig hbound)
      rw [hlookup] at hsome
      exact absurd hsome (by decide)

/-- A specifier that is classified right has its local bound before it or not at all. -/
theorem bound_of_classified {path : PathBuf} {body before : List ModuleItem}
    {earlier : ModuleDeclState} (h : collectModuleDeclDependencies path before {} = .ok earlier)
    {specifier : ExportNamedSpecifier} {dependency : Dependency}
    (hclassifiedBy : ClassifiedBy earlier.importBindings specifier dependency)
    (hclassified : Classified body specifier dependency) {orig : String}
    (horig : specifier.orig.Is orig) (hbound : BoundByImport body orig) :
    BoundByImport before orig := by
  obtain ⟨own, exported, hown, -, rfl⟩ := hclassifiedBy
  obtain rfl := is_unique horig hown
  rw [← bound_iff h, Option.isSome_iff_ne_none]
  intro hnone
  obtain ⟨other, _, hother, -, ⟨_, _, _, -, heq⟩ | ⟨hunbound, -⟩⟩ := hclassified
  · rw [hnone] at heq
    cases heq
  · obtain rfl := is_unique horig hother
    exact hunbound hbound

/-- The body is recorded right exactly when exports of import bindings come after the imports, and
namespaces are not re-exported. -/
theorem exportsRecorded_iff {path : PathBuf} {body : List ModuleItem} {result : ModuleDeclState}
    (h : collectModuleDeclDependencies path body {} = .ok result) :
    ExportsRecorded path body result ↔ ImportsFirst body ∧ NamespacesElsewhere body := by
  obtain ⟨all, hall, hprovides⟩ := (addsAll_collect h).dependencies
  rw [List.nil_append] at hall
  constructor
  · intro hrecorded
    refine ⟨?_, fun name hname => ?_⟩
    · rintro before decl after rfl hsrc hvalue specifier hspecifier orig horig hbound
      obtain ⟨earlier, part, later, hearlier, hpart, hparts⟩ :=
        classifiedBy_of_collect h hsrc hvalue
      obtain ⟨right, rest, hright, hrights⟩ :=
        hrecorded.classified before decl after rfl hsrc hvalue earlier hearlier
      -- both parts begin where the clause begins and have one dependency for each specifier
      obtain rfl : part = right := by
        rw [hpart, List.append_assoc, List.append_assoc] at hright
        exact (List.append_inj (List.append_cancel_left hright)
          (hparts.length_eq.symm.trans hrights.length_eq)).1
      have hboth := hparts.mp (S := fun specifier _ => ∀ orig, specifier.orig.Is orig →
        BoundByImport _ orig → BoundByImport before orig)
        (fun _ _ hby hright orig horig hbound => bound_of_classified hearlier hby hright horig hbound)
        hrights
      obtain ⟨_, -, hfirst⟩ := Fallible.exists_of_mem_right hboth.flip hspecifier
      exact hfirst orig horig hbound
    · obtain ⟨dependency, hmem, hdependency⟩ := hrecorded.provided name (Or.inr hname)
      rw [hall] at hmem
      exact (hprovides name).mp ⟨dependency, hmem, hdependency⟩
  · rintro ⟨hfirst, helsewhere⟩
    refine ⟨?_, fun name hname => ?_⟩
    · rintro before decl after rfl hsrc hvalue earlier hearlier
      obtain ⟨other, part, later, hother, hpart, hparts⟩ := classifiedBy_of_collect h hsrc hvalue
      obtain rfl : other = earlier := Except.ok.inj (hother.symm.trans hearlier)
      refine ⟨part, later, hpart, ?_⟩
      have hbounds := (List.forall₂_and_left _ _).mpr
        ⟨hfirst before decl after rfl hsrc hvalue, hparts⟩
      exact hbounds.imp fun specifier dependency ⟨hbound, hby⟩ =>
        classified_of_bound hearlier hbound hby
    · rw [hall]
      exact (hprovides name).mpr (hname.elim id (helsewhere name))

theorem wtf8ToString_of_ne {atom : Wtf8Atom} (h : atom ≠ .loneSurrogate) :
    ∃ text, atom = .utf8 text := by
  cases atom with
  | utf8 text => exact ⟨text, rfl⟩
  | loneSurrogate => exact absurd rfl h

theorem specifierToString_of_ne (path : PathBuf) {atom : Wtf8Atom} (h : atom ≠ .loneSurrogate) :
    ∃ text, specifierToString path atom = .ok text := by
  obtain ⟨text, rfl⟩ := wtf8ToString_of_ne h
  exact ⟨text, rfl⟩

theorem moduleExportNameToString_of_utf8 {name : ModuleExportName}
    (h : .loneSurrogate ∉ name.literals) : ∃ text, moduleExportNameToString name = .ok text := by
  cases name with
  | ident id => exact ⟨id, rfl⟩
  | str atom =>
      have hne : atom ≠ .loneSurrogate := fun heq => h (heq ▸ List.mem_cons_self)
      obtain ⟨text, rfl⟩ := wtf8ToString_of_ne hne
      exact ⟨text, rfl⟩

theorem nameOr_of_utf8 {name : Option ModuleExportName} (other : String)
    (h : .loneSurrogate ∉ name.elim [] ModuleExportName.literals) :
    ∃ text, nameOr name other = .ok text := by
  cases name with
  | none => exact ⟨other, rfl⟩
  | some name => exact moduleExportNameToString_of_utf8 h

/-- A fold of steps that succeed succeeds. -/
theorem foldlM_succeeds {σ α : Type} {f : σ → α → Except Make.Error σ} {items : List α}
    (hf : ∀ item ∈ items, ∀ state, ∃ after, f state item = .ok after) (state : σ) :
    ∃ after, items.foldlM f state = .ok after := by
  induction items generalizing state with
  | nil => exact ⟨state, rfl⟩
  | cons item items ih =>
      obtain ⟨middle, hmiddle⟩ := hf item List.mem_cons_self state
      obtain ⟨after, hafter⟩ := ih (fun other hother => hf other (List.mem_cons_of_mem _ hother)) middle
      refine ⟨after, ?_⟩
      rw [List.foldlM_cons, hmiddle]
      exact hafter

theorem exists_collectImportSpecifier (request : String) {specifier : ImportSpecifier}
    (h : .loneSurrogate ∉ specifier.literals) (state : ModuleDeclState) :
    ∃ after, collectImportSpecifier request state specifier = .ok after := by
  cases specifier with
  | named isTypeOnly local_ imported =>
      obtain ⟨text, htext⟩ := nameOr_of_utf8 local_ h
      cases isTypeOnly with
      | true => exact ⟨state, rfl⟩
      | false =>
          simp only [collectImportSpecifier, htext]
          exact ⟨_, rfl⟩
  | default local_ => exact ⟨_, rfl⟩
  | «namespace» local_ => exact ⟨_, rfl⟩

theorem exists_collectExportFrom (request : String) {specifier : ExportSpecifier}
    (h : .loneSurrogate ∉ specifier.literals) (state : ModuleDeclState) :
    ∃ after, collectExportFrom request state specifier = .ok after := by
  cases specifier with
  | «namespace» name => exact ⟨state, rfl⟩
  | named specifier =>
      rw [ExportSpecifier.literals, List.mem_append, not_or] at h
      obtain ⟨orig, horig⟩ := moduleExportNameToString_of_utf8 h.1
      obtain ⟨exported, hexported⟩ := nameOr_of_utf8 orig h.2
      rw [collectExportFrom]
      split_ifs
      · exact ⟨state, rfl⟩
      · simp only [horig, bind, Except.bind, hexported]
        exact ⟨_, rfl⟩

theorem exists_collectExportLocal {specifier : ExportSpecifier}
    (h : .loneSurrogate ∉ specifier.literals) (state : ModuleDeclState) :
    ∃ after, collectExportLocal state specifier = .ok after := by
  cases specifier with
  | «namespace» name => exact ⟨state, rfl⟩
  | named specifier =>
      rw [ExportSpecifier.literals, List.mem_append, not_or] at h
      obtain ⟨orig, horig⟩ := moduleExportNameToString_of_utf8 h.1
      obtain ⟨exported, hexported⟩ := nameOr_of_utf8 orig h.2
      rw [collectExportLocal]
      split_ifs
      · exact ⟨state, rfl⟩
      · simp only [horig, bind, Except.bind, hexported]
        split <;> exact ⟨_, rfl⟩

theorem exists_collectModuleDecl (path : PathBuf) {decl : ModuleDecl}
    (h : .loneSurrogate ∉ decl.literals) (state : ModuleDeclState) :
    ∃ after, collectModuleDecl path state decl = .ok after := by
  have hspecifier : ∀ {α : Type} {literals : α → List Wtf8Atom} {items : List α},
      .loneSurrogate ∉ items.flatMap literals → ∀ item ∈ items, .loneSurrogate ∉ literals item :=
    fun hnot item hitem hmem => hnot (List.mem_flatMap.mpr ⟨item, hitem, hmem⟩)
  cases decl with
  | «import» decl =>
      rw [ModuleDecl.literals, List.mem_cons, not_or] at h
      obtain ⟨request, hrequest⟩ := specifierToString_of_ne path (Ne.symm h.1)
      rw [collectModuleDecl]
      split_ifs
      · exact ⟨state, rfl⟩
      · simp only [hrequest, bind, Except.bind]
        exact foldlM_succeeds (fun specifier hmem =>
          exists_collectImportSpecifier request (hspecifier h.2 specifier hmem)) _
  | exportNamed decl =>
      obtain ⟨specifiers, src, typeOnly, span⟩ := decl
      rw [ModuleDecl.literals, List.mem_append, not_or] at h
      rw [collectModuleDecl]
      split_ifs
      · exact ⟨state, rfl⟩
      · cases src with
        | none =>
            exact foldlM_succeeds (fun specifier hmem =>
              exists_collectExportLocal (hspecifier h.2 specifier hmem)) _
        | some src =>
            have hne : src ≠ .loneSurrogate := fun heq => h.1 (heq ▸ List.mem_cons_self)
            obtain ⟨request, hrequest⟩ := specifierToString_of_ne path hne
            simp only [hrequest, bind, Except.bind]
            exact foldlM_succeeds (fun specifier hmem =>
              exists_collectExportFrom request (hspecifier h.2 specifier hmem)) _
  | exportAll decl =>
      rw [ModuleDecl.literals, List.mem_singleton] at h
      obtain ⟨request, hrequest⟩ := specifierToString_of_ne path (Ne.symm h)
      rw [collectModuleDecl]
      split_ifs
      · exact ⟨state, rfl⟩
      · simp only [hrequest, bind, Except.bind]
        exact ⟨_, rfl⟩
  | exportDecl decl => exact ⟨_, rfl⟩
  | exportDefaultDecl decl => exact ⟨_, rfl⟩
  | exportDefaultExpr decl => exact ⟨_, rfl⟩

theorem exists_collectModuleDeclDependencies (path : PathBuf) {body : List ModuleItem}
    (h : Utf8 body) : ∃ result, collectModuleDeclDependencies path body {} = .ok result := by
  refine foldlM_succeeds (fun item hitem state => ?_) _
  cases item with
  | stmt => exact ⟨state, rfl⟩
  | moduleDecl decl => exact exists_collectModuleDecl path (h decl hitem) state

/-- **Exports are recorded in the order of the declarations.** The pass succeeds on names that are
UTF-8; where it does, export clauses are classified right and each exported name is provided exactly when
no export of an import binding stands before the import, and no namespace is re-exported. -/
theorem collectModuleDeclDependencies_exportsRecorded (path : PathBuf) (body : List ModuleItem) :
    (Utf8 body → ∃ result, collectModuleDeclDependencies path body {} = .ok result) ∧
      ∀ result, collectModuleDeclDependencies path body {} = .ok result →
        (ExportsRecorded path body result ↔ ImportsFirst body ∧ NamespacesElsewhere body) :=
  ⟨exists_collectModuleDeclDependencies path, fun _ h => exportsRecorded_iff h⟩

/-- `export { x }; import { x } from "m";`. -/
def exportBeforeImport : List ModuleItem :=
  [.moduleDecl (.exportNamed
    { specifiers := [.named { orig := .ident "x", span := ⟨9, 10⟩ }], span := ⟨0, 13⟩ }),
   .moduleDecl (.import
    { specifiers := [.named false "x" none], src := .utf8 "m", span := ⟨14, 36⟩ })]

/-- The import is bound in the module, but `x` is recorded as a local export. -/
theorem exportBeforeImport_not_exportsRecorded :
    ¬ ∀ (path : PathBuf) (body : List ModuleItem) (result : ModuleDeclState),
      collectModuleDeclDependencies path body {} = .ok result → ExportsRecorded path body result := by
  intro hall
  have hrecorded := hall [] exportBeforeImport _ rfl
  obtain ⟨part, later, hpart, hparts⟩ := hrecorded.classified [] _ _ rfl rfl rfl {} rfl
  cases hparts with
  | cons hclassified hrest =>
      cases hrest with
      | nil =>
          obtain ⟨orig, exported, horig, -, ⟨_, _, _, -, heq⟩ | ⟨hunbound, -⟩⟩ := hclassified
          · rw [heq] at hpart
            exact absurd (List.cons.inj hpart).1 (by rintro ⟨⟩)
          · obtain rfl : orig = "x" := by
              cases horig
              rfl
            exact hunbound ⟨"m", ["x"], _, List.mem_cons_of_mem _ List.mem_cons_self, _, rfl, rfl, rfl,
              _, List.mem_cons_self, .named rfl⟩

end Unpack
