import Unpack.FlagDependencyUsagePlugin

/-! What the used-exports analysis computes: exactly the requests that can be derived from the entries and
the connections. -/

namespace Unpack

namespace ExportsUsage

def weight (usage : ExportsUsage) : Nat := (if usage.all then 1 else 0) + usage.names.card

theorem markAll_grows (usage : ExportsUsage) :
    usage.markAll = usage ∨ usage.weight < usage.markAll.weight := by
  cases hall : usage.all with
  | false => exact Or.inr (by simp [weight, markAll, hall])
  | true =>
      refine Or.inl ?_
      cases usage
      simp_all [markAll]

theorem insertNames_grows (usage : ExportsUsage) (names : Finset String) :
    usage.insertNames names = usage ∨ usage.weight < (usage.insertNames names).weight := by
  by_cases hsub : names ⊆ usage.names
  · refine Or.inl ?_
    rw [insertNames, Finset.union_eq_left.mpr hsub]
  · refine Or.inr ?_
    have hcard : usage.names.card < (usage.names ∪ names).card := by
      refine Finset.card_lt_card (Finset.ssubset_iff_subset_ne.mpr ⟨Finset.subset_union_left, ?_⟩)
      exact fun heq => hsub (Finset.union_eq_left.mp heq.symm)
    exact Nat.add_lt_add_left hcard _

end ExportsUsage

namespace UsedExports

variable (used : UsedExports)

theorem usage_modify (module other : ModuleHandle) (f : ExportsUsage → ExportsUsage) :
    UsedExports.usage (used.modify module f) other =
      if module = other ∧ other < used.length then f (used.usage other) else used.usage other :=
  ChunkGraph.getD_modify used f module other {}

def weight : Nat := (used.map ExportsUsage.weight).sum

/-- An update of one module that only ever grows its usage grows the whole. -/
theorem modify_grows {f : ExportsUsage → ExportsUsage}
    (hf : ∀ usage, f usage = usage ∨ usage.weight < (f usage).weight) (module : ModuleHandle) :
    used.modify module f = used ∨ used.weight < weight (used.modify module f) := by
  induction used generalizing module with
  | nil => exact Or.inl (by simp)
  | cons first rest ih =>
      cases module with
      | zero =>
          rcases hf first with hsame | hless
          · exact Or.inl (by rw [List.modify_zero_cons, hsame])
          · refine Or.inr ?_
            simp only [weight, List.modify_zero_cons, List.map_cons, List.sum_cons]
            omega
      | succ module =>
          rcases ih module with hsame | hless
          · exact Or.inl (by rw [List.modify_succ_cons, hsame])
          · refine Or.inr ?_
            simp only [weight, List.modify_succ_cons, List.map_cons, List.sum_cons] at hless ⊢
            omega

theorem eq_of_modify_eq {module : ModuleHandle} {f : ExportsUsage → ExportsUsage}
    (hlt : module < used.length) (h : used.modify module f = used) :
    f (used.usage module) = used.usage module := by
  have husage := usage_modify used module module f
  rw [if_pos ⟨rfl, hlt⟩, h] at husage
  exact husage.symm

end UsedExports

section

variable (graph : ModuleGraph) (entries : List ModuleHandle)

/-- What the analysis follows. A request for `none` asks for everything. -/
inductive AskedFor : ModuleHandle → Option String → Prop where
  | entry {entry : ModuleHandle} {provided : Finset String} {name : String}
      (hentry : entry ∈ entries)
      (hprovided : (graph.exportsInfo entry).providedExports = some provided)
      (hname : name ∈ provided) : AskedFor entry (some name)
  | openEntry {entry : ModuleHandle} (hentry : entry ∈ entries)
      (hprovided : (graph.exportsInfo entry).providedExports = none) : AskedFor entry none
  | dynamicImport {connection : ModuleGraphConnection} (hconnection : connection ∈ graph.connections)
      (hkind : connection.dependency.isImportDependency = true) : AskedFor connection.module none
  | specifier {connection : ModuleGraphConnection} {dependency : HarmonyImportSpecifierDependency}
      {name : String} (hconnection : connection ∈ graph.connections)
      (hkind : connection.dependency = .harmonyImportSpecifier dependency)
      (hname : dependency.ids.head? = some name) : AskedFor connection.module (some name)
  | reexport {connection : ModuleGraphConnection}
      {dependency : HarmonyExportImportedSpecifierDependency} {origin : ModuleHandle}
      {exported name : String} {request : Option String}
      (hconnection : connection ∈ graph.connections)
      (hkind : connection.dependency = .harmonyExportImportedSpecifier dependency)
      (horigin : connection.originModule = some origin) (hexported : dependency.name = some exported)
      (hname : dependency.ids.head? = some name)
      (hrequest : request = none ∨ request = some exported) (hasked : AskedFor origin request) :
      AskedFor connection.module (some name)
  | star {connection : ModuleGraphConnection}
      {dependency : HarmonyExportImportedSpecifierDependency} {origin : ModuleHandle} {name : String}
      (hconnection : connection ∈ graph.connections)
      (hkind : connection.dependency = .harmonyExportImportedSpecifier dependency)
      (hstar : dependency.isStar = true) (horigin : connection.originModule = some origin)
      (hdefault : name ≠ "default") (hexport : graph.mayExport connection.module name = true)
      (hasked : AskedFor origin (some name)) : AskedFor connection.module (some name)
  | starAll {connection : ModuleGraphConnection}
      {dependency : HarmonyExportImportedSpecifierDependency} {origin : ModuleHandle}
      (hconnection : connection ∈ graph.connections)
      (hkind : connection.dependency = .harmonyExportImportedSpecifier dependency)
      (hstar : dependency.isStar = true) (horigin : connection.originModule = some origin)
      (hasked : AskedFor origin none) : AskedFor connection.module none

/-- Marked only for requests that can be derived. -/
def UsageSound (used : UsedExports) : Prop :=
  ∀ module, ((used.usage module).all = true → AskedFor graph entries module none) ∧
    ∀ name ∈ (used.usage module).names, AskedFor graph entries module (some name)

/-- Marked as the entries ask. -/
def EntryMarked (used : UsedExports) (entry : ModuleHandle) : Prop :=
  match (graph.exportsInfo entry).providedExports with
  | some provided => provided ⊆ (used.usage entry).names
  | none => (used.usage entry).all = true

end

variable {graph : ModuleGraph} {entries : List ModuleHandle} {used : UsedExports}

theorem ExportsUsage.Uses.askedFor {module : ModuleHandle} {name : String}
    (hsound : UsageSound graph entries used) (h : (used.usage module).Uses name) :
    ∃ request, (request = none ∨ request = some name) ∧ AskedFor graph entries module request := by
  rcases h with hall | hname
  · exact ⟨none, Or.inl rfl, (hsound module).1 hall⟩
  · exact ⟨some name, Or.inr rfl, (hsound module).2 name hname⟩

theorem UsageSound.markAll (h : UsageSound graph entries used) {module : ModuleHandle}
    (hasked : AskedFor graph entries module none) :
    UsageSound graph entries (used.modify module (·.markAll)) := by
  intro other
  rw [UsedExports.usage_modify]
  split_ifs with hsame
  · obtain ⟨rfl, -⟩ := hsame
    exact ⟨fun _ => hasked, (h module).2⟩
  · exact h other

theorem UsageSound.insertNames (h : UsageSound graph entries used) {module : ModuleHandle}
    {names : Finset String} (hasked : ∀ name ∈ names, AskedFor graph entries module (some name)) :
    UsageSound graph entries (used.modify module (·.insertNames names)) := by
  intro other
  rw [UsedExports.usage_modify]
  split_ifs with hsame
  · obtain ⟨rfl, -⟩ := hsame
    refine ⟨(h module).1, fun name hname => ?_⟩
    rcases Finset.mem_union.mp hname with hold | hnew
    · exact (h module).2 name hold
    · exact hasked name hnew
  · exact h other

namespace ModuleGraph

theorem requestedName_eq_some {connection : ModuleGraphConnection} {name : String}
    (h : requestedName used connection = some name) :
    (∃ dependency, connection.dependency = .harmonyImportSpecifier dependency ∧
      dependency.ids.head? = some name) ∨
    ∃ dependency origin exported,
      connection.dependency = .harmonyExportImportedSpecifier dependency ∧
      connection.originModule = some origin ∧ dependency.name = some exported ∧
      dependency.ids.head? = some name ∧ (used.usage origin).Uses exported := by
  unfold requestedName at h
  split at h
  next dependency hkind => exact Or.inl ⟨dependency, hkind, h⟩
  next dependency hkind =>
    split_ifs at h with hcond
    rw [Option.any_eq_true] at hcond
    obtain ⟨exported, hexported, hcond⟩ := hcond
    rw [Option.any_eq_true] at hcond
    obtain ⟨origin, horigin, huses⟩ := hcond
    exact Or.inr ⟨dependency, origin, exported, hkind, horigin, hexported, h,
      of_decide_eq_true huses⟩
  next => exact absurd h (Option.some_ne_none name).symm

/-- What one connection does to the usage of its target, with the request that justifies it. -/
theorem flagConnection_spec (hsound : UsageSound graph entries used)
    {connection : ModuleGraphConnection} (hconnection : connection ∈ graph.connections) :
    graph.flagConnection used connection = used ∨
    (AskedFor graph entries connection.module none ∧
      graph.flagConnection used connection = used.modify connection.module (·.markAll)) ∨
    ∃ names : Finset String,
      (∀ name ∈ names, AskedFor graph entries connection.module (some name)) ∧
      graph.flagConnection used connection =
        used.modify connection.module (·.insertNames names) := by
  unfold flagConnection
  split
  next dependency hkind =>
    exact Or.inr (Or.inl ⟨.dynamicImport hconnection (by rw [hkind]; rfl), rfl⟩)
  next name hname _ =>
    refine Or.inr (Or.inr ⟨{name}, fun other hother => ?_, rfl⟩)
    obtain rfl := Finset.mem_singleton.mp hother
    rcases requestedName_eq_some hname with ⟨dependency, hkind, hid⟩ |
      ⟨dependency, origin, exported, hkind, horigin, hexported, hid, huses⟩
    · exact .specifier hconnection hkind hid
    · obtain ⟨request, hrequest, hasked⟩ := huses.askedFor hsound
      exact .reexport hconnection hkind horigin hexported hid hrequest hasked
  next dependency hkind _ =>
    by_cases hstar : dependency.isStar = true
    · rw [if_pos hstar, flagStar]
      cases horigin : connection.originModule with
      | none =>
          refine Or.inr (Or.inr ⟨_, ?_, rfl⟩)
          simp
      | some origin =>
          rw [Option.elim_some]
          by_cases hall : (used.usage origin).all = true
          · rw [if_pos hall]
            exact Or.inr (Or.inl
              ⟨.starAll hconnection hkind hstar horigin ((hsound origin).1 hall), rfl⟩)
          · rw [if_neg hall]
            refine Or.inr (Or.inr ⟨_, fun name hname => ?_, rfl⟩)
            rw [Finset.mem_filter] at hname
            exact .star hconnection hkind hstar horigin hname.2.1 hname.2.2
              ((hsound origin).2 name hname.1)
    · rw [if_neg hstar]
      exact Or.inl rfl
  next => exact Or.inl rfl

theorem mem_requestableNames {module : ModuleHandle} {name : String}
    (h : AskedFor graph entries module (some name)) : name ∈ graph.requestableNames entries := by
  generalize hrequest : some name = request at h
  have hconnections : ∀ connection ∈ graph.connections, firstId connection = some name →
      name ∈ graph.requestableNames entries := fun connection hconnection hid =>
    Finset.mem_union_left _ (List.mem_toFinset.mpr (List.mem_filterMap.mpr
      ⟨connection, hconnection, hid⟩))
  induction h generalizing name with
  | entry hentry hprovided hname =>
      obtain rfl := Option.some.inj hrequest
      refine Finset.mem_union_right _ ?_
      clear hconnections
      induction entries with
      | nil => exact absurd hentry List.not_mem_nil
      | cons first rest ih =>
          rw [List.foldr_cons, Finset.mem_union]
          rcases List.mem_cons.mp hentry with rfl | hrest
          · exact Or.inl (by rw [hprovided]; exact hname)
          · exact Or.inr (ih hrest)
  | openEntry | dynamicImport | starAll => exact absurd hrequest (Option.some_ne_none name)
  | specifier hconnection hkind hname =>
      exact hconnections _ hconnection (by rw [firstId, hkind, hrequest]; exact hname)
  | reexport hconnection hkind _ _ hname _ _ _ =>
      exact hconnections _ hconnection (by rw [firstId, hkind, hrequest]; exact hname)
  | star _ _ _ _ _ _ _ ih => exact ih hrequest hconnections

end ModuleGraph

/-- What every update of the analysis keeps. -/
structure UsageInv (graph : ModuleGraph) (entries : List ModuleHandle) (used : UsedExports) : Prop where
  length : used.length = graph.modules.length
  sound : UsageSound graph entries used
  entries_marked : ∀ entry ∈ entries, EntryMarked graph used entry

namespace UsageInv

theorem entryMarked_markAll {entry module : ModuleHandle} (h : EntryMarked graph used entry) :
    EntryMarked graph (used.modify module (·.markAll)) entry := by
  unfold EntryMarked at h ⊢
  rw [UsedExports.usage_modify]
  split_ifs
  · cases hprovided : (graph.exportsInfo entry).providedExports with
    | none => rfl
    | some provided =>
        rw [hprovided] at h
        exact h
  · exact h

theorem entryMarked_insertNames {entry module : ModuleHandle} (names : Finset String)
    (h : EntryMarked graph used entry) :
    EntryMarked graph (used.modify module (·.insertNames names)) entry := by
  unfold EntryMarked at h ⊢
  rw [UsedExports.usage_modify]
  split_ifs
  · cases hprovided : (graph.exportsInfo entry).providedExports with
    | none =>
        rw [hprovided] at h
        exact h
    | some provided =>
        rw [hprovided] at h
        exact h.trans Finset.subset_union_left
  · exact h

theorem flagConnection (h : UsageInv graph entries used) {connection : ModuleGraphConnection}
    (hconnection : connection ∈ graph.connections) :
    UsageInv graph entries (graph.flagConnection used connection) := by
  rcases ModuleGraph.flagConnection_spec h.sound hconnection with
    hsame | ⟨hasked, heq⟩ | ⟨names, hasked, heq⟩
  · rwa [hsame]
  · rw [heq]
    exact ⟨(List.length_modify ..).trans h.length, h.sound.markAll hasked,
      fun entry hentry => entryMarked_markAll (h.entries_marked entry hentry)⟩
  · rw [heq]
    exact ⟨(List.length_modify ..).trans h.length, h.sound.insertNames hasked,
      fun entry hentry => entryMarked_insertNames names (h.entries_marked entry hentry)⟩

theorem flagConnection_grows (h : UsageInv graph entries used) {connection : ModuleGraphConnection}
    (hconnection : connection ∈ graph.connections) :
    graph.flagConnection used connection = used ∨
      used.weight < UsedExports.weight (graph.flagConnection used connection) := by
  rcases ModuleGraph.flagConnection_spec h.sound hconnection with hsame | ⟨-, heq⟩ | ⟨names, -, heq⟩
  · exact Or.inl hsame
  · rw [heq]
    exact used.modify_grows ExportsUsage.markAll_grows _
  · rw [heq]
    exact used.modify_grows (fun usage => usage.insertNames_grows names) _

theorem weight_le (h : UsageInv graph entries used) : used.weight ≤ graph.usageFuel entries := by
  have hone : ∀ usage ∈ used, usage.weight ≤ (graph.requestableNames entries).card + 1 := by
    intro usage husage
    obtain ⟨module, hmodule⟩ := List.mem_iff_getElem?.mp husage
    have husageAt : used.usage module = usage := by
      rw [UsedExports.usage, List.getD_eq_getElem?_getD, hmodule]
      rfl
    have hsub : usage.names ⊆ graph.requestableNames entries := by
      intro name hname
      exact ModuleGraph.mem_requestableNames ((h.sound module).2 name (husageAt ▸ hname))
    have hcard := Finset.card_le_card hsub
    unfold ExportsUsage.weight
    split_ifs <;> omega
  calc used.weight
      ≤ (used.map ExportsUsage.weight).length • ((graph.requestableNames entries).card + 1) := by
        refine List.sum_le_card_nsmul _ _ fun weight hweight => ?_
        obtain ⟨usage, husage, rfl⟩ := List.mem_map.mp hweight
        exact hone usage husage
    _ = graph.usageFuel entries := by
        rw [List.length_map, h.length]
        rfl

end UsageInv

theorem usageInv_foldl_flagEntry (hentries : ∀ entry ∈ entries, entry < graph.modules.length)
    {rest : List ModuleHandle} {used : UsedExports} (hsub : ∀ entry ∈ rest, entry ∈ entries)
    (hlength : used.length = graph.modules.length) (hsound : UsageSound graph entries used)
    (hmarked : ∀ entry ∈ entries, entry ∉ rest → EntryMarked graph used entry) :
    UsageInv graph entries (rest.foldl graph.flagEntry used) := by
  induction rest generalizing used with
  | nil => exact ⟨hlength, hsound, fun entry hentry => hmarked entry hentry List.not_mem_nil⟩
  | cons first rest ih =>
      have hfirst := hsub first List.mem_cons_self
      have hlt := hentries first hfirst
      have hself : ∀ f : ExportsUsage → ExportsUsage,
          UsedExports.usage (used.modify first f) first = f (used.usage first) := by
        intro f
        rw [UsedExports.usage_modify, if_pos ⟨rfl, hlength ▸ hlt⟩]
      have hrest : ∀ entry ∈ rest, entry ∈ entries := fun entry hentry =>
        hsub entry (List.mem_cons_of_mem _ hentry)
      rw [List.foldl_cons, ModuleGraph.flagEntry]
      cases hprovided : (graph.exportsInfo first).providedExports with
      | some provided =>
          refine ih hrest ((List.length_modify ..).trans hlength)
            (hsound.insertNames fun name hname => .entry hfirst hprovided hname) ?_
          intro entry hentry hnot
          by_cases hsame : entry = first
          · subst hsame
            rw [EntryMarked, hprovided, hself]
            exact Finset.subset_union_right
          · exact UsageInv.entryMarked_insertNames _ (hmarked entry hentry
              fun hmem => (List.mem_cons.mp hmem).elim hsame hnot)
      | none =>
          refine ih hrest ((List.length_modify ..).trans hlength)
            (hsound.markAll (.openEntry hfirst hprovided)) ?_
          intro entry hentry hnot
          by_cases hsame : entry = first
          · subst hsame
            rw [EntryMarked, hprovided, hself]
            rfl
          · exact UsageInv.entryMarked_markAll (hmarked entry hentry
              fun hmem => (List.mem_cons.mp hmem).elim hsame hnot)

theorem usageInv_init (hentries : ∀ entry ∈ entries, entry < graph.modules.length) :
    UsageInv graph entries (entries.foldl graph.flagEntry (graph.modules.map fun _ => {})) := by
  refine usageInv_foldl_flagEntry hentries (fun _ hentry => hentry) (List.length_map _) ?_ ?_
  · intro module
    have hempty : UsedExports.usage (graph.modules.map fun _ => ({} : ExportsUsage)) module = {} := by
      rw [UsedExports.usage, List.getD_eq_getElem?_getD, List.getElem?_map]
      cases graph.modules[module]? <;> rfl
    rw [hempty]
    exact ⟨fun hall => Bool.noConfusion hall, fun name hname => absurd hname (Finset.notMem_empty _)⟩
  · intro entry hentry hnot
    exact absurd hentry hnot

/-- The analysis ends with its invariant, where no connection asks for more. -/
theorem usedExports_spec (hentries : ∀ entry ∈ entries, entry < graph.modules.length) :
    UsageInv graph entries (graph.usedExports entries) ∧
      ∀ connection ∈ graph.connections,
        graph.flagConnection (graph.usedExports entries) connection = graph.usedExports entries :=
  Saturation.saturate_spec UsedExports.weight
    (fun _ h _ hconnection => h.flagConnection hconnection)
    (fun _ h _ hconnection => h.flagConnection_grows hconnection) (fun _ h => h.weight_le)
    (usageInv_init hentries)

/-- A request that the usage meets. -/
def ExportsUsage.Meets (usage : ExportsUsage) : Option String → Prop
  | none => usage.all = true
  | some name => usage.Uses name

/-- A star re-export has no name of its own, as the parser makes them. -/
def ModuleGraph.StarsUnnamed (graph : ModuleGraph) : Prop :=
  ∀ connection ∈ graph.connections, connection.dependency.isNamedStar = false

instance (graph : ModuleGraph) : Decidable graph.StarsUnnamed :=
  inferInstanceAs (Decidable (∀ connection ∈ graph.connections, _))

theorem ModuleGraph.StarsUnnamed.name_eq_none (h : graph.StarsUnnamed)
    {connection : ModuleGraphConnection} (hconnection : connection ∈ graph.connections)
    {dependency : HarmonyExportImportedSpecifierDependency}
    (hkind : connection.dependency = .harmonyExportImportedSpecifier dependency)
    (hstar : dependency.isStar = true) : dependency.name = none := by
  have hplain := h connection hconnection
  rw [hkind, Dependency.isNamedStar, hstar, Bool.true_and] at hplain
  exact Option.not_isSome_iff_eq_none.mp (by simp [hplain])

namespace ModuleGraph

theorem flagConnection_import {connection : ModuleGraphConnection}
    (hkind : connection.dependency.isImportDependency = true) :
    graph.flagConnection used connection = used.modify connection.module (·.markAll) := by
  cases hdependency : connection.dependency <;>
    simp_all [Dependency.isImportDependency, flagConnection]

theorem flagConnection_requested {connection : ModuleGraphConnection} {name : String}
    (hname : requestedName used connection = some name) :
    graph.flagConnection used connection =
      used.modify connection.module (·.insertNames {name}) := by
  rcases requestedName_eq_some hname with ⟨dependency, hkind, -⟩ |
    ⟨dependency, origin, exported, hkind, -, -, -, -⟩
  · simp [flagConnection, hkind, hname]
  · simp [flagConnection, hkind, hname]

theorem flagConnection_star {connection : ModuleGraphConnection}
    {dependency : HarmonyExportImportedSpecifierDependency}
    (hkind : connection.dependency = .harmonyExportImportedSpecifier dependency)
    (hstar : dependency.isStar = true) (hname : dependency.name = none) :
    graph.flagConnection used connection = graph.flagStar used connection := by
  have hnone : requestedName used connection = none := by
    simp [requestedName, hkind, hname]
  simp [flagConnection, hkind, hnone, hstar]

end ModuleGraph

section

variable (hgraph : graph.Indexed) (hentries : ∀ entry ∈ entries, entry < graph.modules.length)
variable (hstars : graph.StarsUnnamed)

include hgraph hentries hstars

/-- Where no connection asks for more, every derived request is met. -/
theorem AskedFor.meets {module : ModuleHandle} {request : Option String}
    (h : AskedFor graph entries module request) :
    ((graph.usedExports entries).usage module).Meets request := by
  obtain ⟨hinv, hsettled⟩ := usedExports_spec hentries
  have htarget : ∀ connection ∈ graph.connections,
      connection.module < (graph.usedExports entries).length := fun connection hconnection =>
    hinv.length ▸ hgraph.target_lt connection hconnection
  have hnamed : ∀ connection ∈ graph.connections, ∀ name,
      ModuleGraph.requestedName (graph.usedExports entries) connection = some name →
        ((graph.usedExports entries).usage connection.module).Uses name := by
    intro connection hconnection name hname
    have hsame := hsettled connection hconnection
    rw [ModuleGraph.flagConnection_requested hname] at hsame
    have husage := UsedExports.eq_of_modify_eq _ (htarget connection hconnection) hsame
    rw [← husage]
    exact Or.inr (Finset.mem_union_right _ (Finset.mem_singleton_self name))
  induction h with
  | entry hentry hprovided hname =>
      have hmarked := hinv.entries_marked _ hentry
      rw [EntryMarked, hprovided] at hmarked
      exact Or.inr (hmarked hname)
  | openEntry hentry hprovided =>
      have hmarked := hinv.entries_marked _ hentry
      rw [EntryMarked, hprovided] at hmarked
      exact hmarked
  | dynamicImport hconnection hkind =>
      have hsame := hsettled _ hconnection
      rw [ModuleGraph.flagConnection_import hkind] at hsame
      have husage := UsedExports.eq_of_modify_eq _ (htarget _ hconnection) hsame
      exact congrArg ExportsUsage.all husage.symm
  | specifier hconnection hkind hname =>
      exact hnamed _ hconnection _ (by rw [ModuleGraph.requestedName, hkind]; exact hname)
  | @reexport connection dependency origin exported name request hconnection hkind horigin hexported
      hname hrequest _ ih =>
      have huses : ((graph.usedExports entries).usage origin).Uses exported := by
        rcases hrequest with rfl | rfl
        · exact Or.inl ih
        · exact ih
      refine hnamed _ hconnection _ ?_
      simp [ModuleGraph.requestedName, hkind, hexported, horigin, huses, hname]
  | @star connection dependency origin name hconnection hkind hstar horigin hdefault hexport _ ih =>
      have hsame := hsettled _ hconnection
      rw [ModuleGraph.flagConnection_star hkind hstar (hstars.name_eq_none hconnection hkind hstar),
        ModuleGraph.flagStar, horigin, Option.elim_some] at hsame
      split_ifs at hsame with hall
      · have husage := UsedExports.eq_of_modify_eq _ (htarget _ hconnection) hsame
        exact Or.inl (congrArg ExportsUsage.all husage.symm)
      · have husage := UsedExports.eq_of_modify_eq _ (htarget _ hconnection) hsame
        have hmem : name ∈ ((graph.usedExports entries).usage origin).names :=
          ih.resolve_left hall
        rw [← husage]
        exact Or.inr (Finset.mem_union_right _ (Finset.mem_filter.mpr ⟨hmem, hdefault, hexport⟩))
  | @starAll connection dependency origin hconnection hkind hstar horigin _ ih =>
      have hall : ((graph.usedExports entries).usage origin).all = true := ih
      have hsame := hsettled _ hconnection
      rw [ModuleGraph.flagConnection_star hkind hstar (hstars.name_eq_none hconnection hkind hstar),
        ModuleGraph.flagStar, horigin, Option.elim_some, if_pos hall] at hsame
      have husage := UsedExports.eq_of_modify_eq _ (htarget _ hconnection) hsame
      exact congrArg ExportsUsage.all husage.symm

/-- **What the analysis marks**: a name is used exactly when it, or everything, is asked for. -/
theorem usedExports_uses_iff {module : ModuleHandle} {name : String} :
    ((graph.usedExports entries).usage module).Uses name ↔
      AskedFor graph entries module none ∨ AskedFor graph entries module (some name) := by
  constructor
  · intro huses
    obtain ⟨request, hrequest, hasked⟩ := huses.askedFor (usedExports_spec hentries).1.sound
    rcases hrequest with rfl | rfl
    · exact Or.inl hasked
    · exact Or.inr hasked
  · intro h
    rcases h with hall | hname
    · exact Or.inl (hall.meets hgraph hentries hstars)
    · exact hname.meets hgraph hentries hstars

end

/-- The exports info after the analysis answers by the usage. -/
theorem isSome_getUsedName_flagDependencyUsage (hgraph : graph.Indexed) {module : ModuleHandle}
    (hlt : module < graph.modules.length) (name : String) :
    (((graph.flagDependencyUsage entries).exportsInfo module).getUsedName name).isSome = true ↔
      ((graph.usedExports entries).usage module).Uses name := by
  have hinfo : (graph.flagDependencyUsage entries).exportsInfo module =
      ModuleGraph.setUsage (graph.usedExports entries) module (graph.exportsInfo module) := by
    rw [← hgraph.exportsInfos_length] at hlt
    simp [ModuleGraph.exportsInfo, ModuleGraph.flagDependencyUsage, List.getD_eq_getElem?_getD, hlt]
  rw [hinfo, ModuleGraph.setUsage]
  unfold ExportsUsage.Uses
  split_ifs with hall
  · simp [ExportsInfo.getUsedName, ExportsInfo.setAllExportsUsed, hall]
  · simp only [ExportsInfo.getUsedName, ExportsInfo.setUsedExports, hall, Bool.false_eq_true,
      if_false, false_or]
    split_ifs with hmem <;> simp [hmem]

end Unpack
