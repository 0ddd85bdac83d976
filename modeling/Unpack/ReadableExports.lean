import Unpack.UsedExports

/-! The exports that generated code can read, and when the analysis marks them all. It follows entries,
dynamic imports, named imports and re-exports, but asks for nothing where a module is used through its
namespace object. -/

namespace Unpack

section

variable (graph : ModuleGraph) (entries : List ModuleHandle)

/-- Connected from the entries. -/
inductive Reached : ModuleHandle → Prop where
  | entry {entry : ModuleHandle} (hentry : entry ∈ entries) : Reached entry
  | connection {connection : ModuleGraphConnection} {origin : ModuleHandle}
      (hconnection : connection ∈ graph.connections) (horigin : connection.originModule = some origin)
      (hreached : Reached origin) : Reached connection.module

/-- The export names that the code of some reached module can read from a module. Of a namespace object the
code reads `members`: the name of `ns.name`, or every name where the object escapes, which no dependency
records. -/
inductive Readable (members : ModuleGraphConnection → String → Prop) : ModuleHandle → String → Prop where
  | entry {entry : ModuleHandle} {name : String} (hentry : entry ∈ entries)
      (hexport : graph.mayExport entry name = true) : Readable members entry name
  | dynamicImport {connection : ModuleGraphConnection} {origin : ModuleHandle} {name : String}
      (hconnection : connection ∈ graph.connections) (horigin : connection.originModule = some origin)
      (hreached : Reached graph entries origin) (hkind : connection.dependency.isImportDependency = true)
      (hexport : graph.mayExport connection.module name = true) : Readable members connection.module name
  | specifier {connection : ModuleGraphConnection} {dependency : HarmonyImportSpecifierDependency}
      {origin : ModuleHandle} {name : String} (hconnection : connection ∈ graph.connections)
      (horigin : connection.originModule = some origin) (hreached : Reached graph entries origin)
      (hkind : connection.dependency = .harmonyImportSpecifier dependency)
      (hname : dependency.ids.head? = some name)
      (hexport : graph.mayExport connection.module name = true) : Readable members connection.module name
  | namespaceUse {connection : ModuleGraphConnection} {dependency : HarmonyImportSpecifierDependency}
      {origin : ModuleHandle} {name : String} (hconnection : connection ∈ graph.connections)
      (horigin : connection.originModule = some origin) (hreached : Reached graph entries origin)
      (hkind : connection.dependency = .harmonyImportSpecifier dependency) (hids : dependency.ids = [])
      (hmember : members connection name)
      (hexport : graph.mayExport connection.module name = true) : Readable members connection.module name
  | reexport {connection : ModuleGraphConnection}
      {dependency : HarmonyExportImportedSpecifierDependency} {origin : ModuleHandle}
      {exported name : String} (hconnection : connection ∈ graph.connections)
      (hkind : connection.dependency = .harmonyExportImportedSpecifier dependency)
      (horigin : connection.originModule = some origin) (hexported : dependency.name = some exported)
      (hname : dependency.ids.head? = some name) (hread : Readable members origin exported)
      (hexport : graph.mayExport connection.module name = true) : Readable members connection.module name
  | namespaceReexport {connection : ModuleGraphConnection}
      {dependency : HarmonyExportImportedSpecifierDependency} {origin : ModuleHandle}
      {exported name : String} (hconnection : connection ∈ graph.connections)
      (hkind : connection.dependency = .harmonyExportImportedSpecifier dependency)
      (hstar : dependency.isStar = false) (horigin : connection.originModule = some origin)
      (hexported : dependency.name = some exported) (hids : dependency.ids = [])
      (hread : Readable members origin exported) (hmember : members connection name)
      (hexport : graph.mayExport connection.module name = true) : Readable members connection.module name
  | star {connection : ModuleGraphConnection}
      {dependency : HarmonyExportImportedSpecifierDependency} {origin : ModuleHandle} {name : String}
      (hconnection : connection ∈ graph.connections)
      (hkind : connection.dependency = .harmonyExportImportedSpecifier dependency)
      (hstar : dependency.isStar = true) (horigin : connection.originModule = some origin)
      (hdefault : name ≠ "default") (hread : Readable members origin name)
      (hexport : graph.mayExport connection.module name = true) : Readable members connection.module name

/-- Read through the namespace object: by a use of the object in a reached module, or behind a re-export of it
under a name that can be read itself. -/
inductive NamespaceRead (members : ModuleGraphConnection → String → Prop) : ModuleHandle → String → Prop where
  | use {connection : ModuleGraphConnection} {dependency : HarmonyImportSpecifierDependency}
      {origin : ModuleHandle} {name : String} (hconnection : connection ∈ graph.connections)
      (horigin : connection.originModule = some origin) (hreached : Reached graph entries origin)
      (hkind : connection.dependency = .harmonyImportSpecifier dependency) (hids : dependency.ids = [])
      (hmember : members connection name)
      (hexport : graph.mayExport connection.module name = true) : NamespaceRead members connection.module name
  | reexport {connection : ModuleGraphConnection}
      {dependency : HarmonyExportImportedSpecifierDependency} {origin : ModuleHandle}
      {exported name : String} (hconnection : connection ∈ graph.connections)
      (hkind : connection.dependency = .harmonyExportImportedSpecifier dependency)
      (hstar : dependency.isStar = false) (horigin : connection.originModule = some origin)
      (hexported : dependency.name = some exported) (hids : dependency.ids = [])
      (hread : Readable graph entries members origin exported) (hmember : members connection name)
      (hexport : graph.mayExport connection.module name = true) : NamespaceRead members connection.module name

end

variable {graph : ModuleGraph} {entries : List ModuleHandle} {members : ModuleGraphConnection → String → Prop}

theorem Readable.lt (hgraph : graph.Indexed) (hentries : ∀ entry ∈ entries, entry < graph.modules.length)
    {module : ModuleHandle} {name : String} (h : Readable graph entries members module name) :
    module < graph.modules.length := by
  cases h with
  | entry hentry => exact hentries _ hentry
  | dynamicImport hconnection | specifier hconnection | namespaceUse hconnection
  | reexport hconnection | namespaceReexport hconnection | star hconnection =>
      exact hgraph.target_lt _ hconnection

/-- What is read through a namespace object can be read. -/
theorem NamespaceRead.readable {module : ModuleHandle} {name : String}
    (h : NamespaceRead graph entries members module name) : Readable graph entries members module name := by
  cases h with
  | use hconnection horigin hreached hkind hids hmember hexport =>
      exact .namespaceUse hconnection horigin hreached hkind hids hmember hexport
  | reexport hconnection hkind hstar horigin hexported hids hread hmember hexport =>
      exact .namespaceReexport hconnection hkind hstar horigin hexported hids hread hmember hexport

/-- Whatever can be read is asked for, if all that is read through namespace objects is. -/
theorem Readable.askedFor
    (hnamespace : ∀ module name, NamespaceRead graph entries members module name →
      AskedFor graph entries module none ∨ AskedFor graph entries module (some name))
    {module : ModuleHandle} {name : String} (h : Readable graph entries members module name) :
    AskedFor graph entries module none ∨ AskedFor graph entries module (some name) := by
  induction h with
  | @entry entry name hentry hexport =>
      cases hprovided : (graph.exportsInfo entry).providedExports with
      | none => exact Or.inl (.openEntry hentry hprovided)
      | some provided =>
          rw [ModuleGraph.mayExport, hprovided] at hexport
          exact Or.inr (.entry hentry hprovided (of_decide_eq_true hexport))
  | dynamicImport hconnection _ _ hkind => exact Or.inl (.dynamicImport hconnection hkind)
  | specifier hconnection _ _ hkind hname => exact Or.inr (.specifier hconnection hkind hname)
  | namespaceUse hconnection horigin hreached hkind hids hmember hexport =>
      exact hnamespace _ _ (.use hconnection horigin hreached hkind hids hmember hexport)
  | reexport hconnection hkind horigin hexported hname _ _ ih =>
      rcases ih with hall | hexport
      · exact Or.inr (.reexport hconnection hkind horigin hexported hname (Or.inl rfl) hall)
      · exact Or.inr (.reexport hconnection hkind horigin hexported hname (Or.inr rfl) hexport)
  | namespaceReexport hconnection hkind hstar horigin hexported hids hread hmember hexport =>
      exact hnamespace _ _
        (.reexport hconnection hkind hstar horigin hexported hids hread hmember hexport)
  | star hconnection hkind hstar horigin hdefault _ hexport ih =>
      rcases ih with hall | hname
      · exact Or.inl (.starAll hconnection hkind hstar horigin hall)
      · exact Or.inr (.star hconnection hkind hstar horigin hdefault hexport hname)

/-- **When the used-exports analysis is sound.** Whatever the code reads of namespace objects, every export that
can be read keeps its name exactly when each one read through a namespace object is asked for in one of the ways
the analysis follows. -/
theorem used_exports_sound_iff (compilation : Compilation)
    (hstars : compilation.moduleGraph.StarsUnnamed) (members : ModuleGraphConnection → String → Prop) :
    (∀ module name, Readable compilation.moduleGraph compilation.entries members module name →
      (((compilation.moduleGraph.flagDependencyUsage compilation.entries).exportsInfo
        module).getUsedName name).isSome = true) ↔
    ∀ module name, NamespaceRead compilation.moduleGraph compilation.entries members module name →
      AskedFor compilation.moduleGraph compilation.entries module none ∨
        AskedFor compilation.moduleGraph compilation.entries module (some name) := by
  have hgraph := compilation.indexed
  have hentries := compilation.entries_lt
  constructor
  · intro hsound module name hread
    have hused := hsound module name hread.readable
    rw [isSome_getUsedName_flagDependencyUsage hgraph (hread.readable.lt hgraph hentries)] at hused
    exact (usedExports_uses_iff hgraph hentries hstars).mp hused
  · intro hnamespace module name hread
    rw [isSome_getUsedName_flagDependencyUsage hgraph (hread.lt hgraph hentries)]
    exact (usedExports_uses_iff hgraph hentries hstars).mpr (hread.askedFor hnamespace)

/-- The entry `a` imports `t` and uses bindings of these ids; `t` exports `x`. -/
def bindingUseGraph (uses : List (List String)) : ModuleGraph :=
  (ModuleGraph.ofModules [.javaScript "a" (.bareImport "t" :: uses.map fun ids =>
    .harmonyImportSpecifier ⟨{ request := "t" }, ids, "x", ⟨0, 0⟩, false⟩) [],
    .javaScript "t" [.harmonyExportSpecifier ⟨"x", "x"⟩] []] [0]).flagDependencyExports

/-- `import * as ns from "t"`, with `ns.x`. -/
def namespaceUseCompilation : Compilation where
  options := { entryNames := ["main"] }
  moduleGraph := bindingUseGraph [[]]
  entries := [0]
  indexed := by decide
  entries_lt := by decide

/-- `import * as ns from "t"` and `import { x } from "t"`, with `ns.x` and `x`. -/
def namedUseCompilation : Compilation where
  options := { entryNames := ["main"] }
  moduleGraph := bindingUseGraph [["x"], []]
  entries := [0]
  indexed := by decide
  entries_lt := by decide

/-- The export that `ns.x` reads has lost its used name. -/
theorem namespace_read_dropped :
    Readable namespaceUseCompilation.moduleGraph namespaceUseCompilation.entries (fun _ name => name = "x") 1 "x" ∧
      ((namespaceUseCompilation.moduleGraph.flagDependencyUsage
        namespaceUseCompilation.entries).exportsInfo 1).getUsedName "x" = none := by
  refine ⟨?_, by decide⟩
  have hconnection : namespaceUseCompilation.moduleGraph.connections.getD 2
      ⟨0, none, none, none, .null, 0, 0, .active⟩ ∈ namespaceUseCompilation.moduleGraph.connections := by
    decide
  exact .namespaceUse hconnection (by rfl) (.entry (List.mem_singleton_self 0)) (by rfl) rfl rfl (by decide)

/-- Where a named import asks for it too, the export that `ns.x` reads keeps its name. -/
theorem used_exports_sound_iff_named :
    (((namedUseCompilation.moduleGraph.flagDependencyUsage
      namedUseCompilation.entries).exportsInfo 1).getUsedName "x").isSome = true := by
  have hnamed : namedUseCompilation.moduleGraph.connections.getD 2
      ⟨0, none, none, none, .null, 0, 0, .active⟩ ∈ namedUseCompilation.moduleGraph.connections := by
    decide
  have hnamespace : namedUseCompilation.moduleGraph.connections.getD 3
      ⟨0, none, none, none, .null, 0, 0, .active⟩ ∈ namedUseCompilation.moduleGraph.connections := by
    decide
  have hasked : AskedFor namedUseCompilation.moduleGraph namedUseCompilation.entries 1 (some "x") :=
    .specifier hnamed (by rfl) rfl
  have htargets : ∀ connection ∈ namedUseCompilation.moduleGraph.connections,
      connection.dependency.canConcatenate = true → connection.module = 1 := by decide
  refine (used_exports_sound_iff namedUseCompilation (by decide) fun _ name => name = "x").mpr ?_ 1 "x"
    (.namespaceUse hnamespace (by rfl) (.entry (List.mem_singleton_self 0)) (by rfl) rfl rfl (by decide))
  intro module name hread
  cases hread with
  | use hconnection _ _ hkind _ hmember =>
      rw [htargets _ hconnection (by rw [hkind]; rfl), hmember]
      exact .inr hasked
  | reexport hconnection hkind _ _ _ _ _ hmember =>
      rw [htargets _ hconnection (by rw [hkind]; rfl), hmember]
      exact .inr hasked

end Unpack
