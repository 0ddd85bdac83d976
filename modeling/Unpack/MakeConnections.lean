import Unpack.MakeEffects
import Unpack.BuildingModuleGraph
import Unpack.LocatedDependencies
import Mathlib.Algebra.BigOperators.Group.Multiset.Basic

/-! Connections against what the tasks that are left still owe. A module dependency is owed by the task that
carries it until it is connected, so what is owed and what is connected are together the dependencies of the
module, each once. -/

namespace Unpack.Make

abbrev LocatedDependency := DependencyLocation × Dependency

def QueuedDependency.located (queued : QueuedDependency) : Option LocatedDependency :=
  if queued.dependency.isModuleDependency then
    queued.originDependencyIndex.map fun index => (⟨queued.originBlock, index⟩, queued.dependency)
  else none

def located (dependencies : List QueuedDependency) : Multiset LocatedDependency :=
  dependencies.filterMap QueuedDependency.located

/-- The dependencies of the module that the task is going to connect, or hands on. -/
def MakeTask.owes (module : ModuleHandle) : MakeTask → Multiset LocatedDependency
  | factorize task => if task.originModule = some module then located task.dependencies else 0
  | add task => if task.originModule = some module then located task.dependencies else 0
  | build _ => 0
  | processDependencies task => if task.originModule = module then located task.dependencies else 0

def owed (pending : Multiset MakeTask) (module : ModuleHandle) : Multiset LocatedDependency :=
  (pending.map (·.owes module)).sum

def connectionAt (module : ModuleHandle) (connection : ModuleGraphConnection) : Option LocatedDependency :=
  if connection.originModule = some module then
    connection.originDependencyIndex.map fun index => (⟨connection.originBlock, index⟩, connection.dependency)
  else none

def connected (graph : ModuleGraph) (module : ModuleHandle) : Multiset LocatedDependency :=
  graph.connections.filterMap (connectionAt module)

/-- The dependencies of a module that need a connection. -/
def needed (module : Module) : Multiset LocatedDependency :=
  module.locatedDependencies.filter (·.2.isModuleDependency)

theorem located_append (left right : List QueuedDependency) :
    located (left ++ right) = located left + located right := by
  rw [located, List.filterMap_append]
  rfl

theorem located_eq_zero {queued : QueuedDependency} (h : queued.dependency.isModuleDependency = false) :
    located [queued] = 0 := by
  simp [located, QueuedDependency.located, h]

@[simp]
theorem owed_add (left right : Multiset MakeTask) (module : ModuleHandle) :
    owed (left + right) module = owed left module + owed right module := by
  rw [owed, Multiset.map_add, Multiset.sum_add]
  rfl

theorem owed_singleton (task : MakeTask) (module : ModuleHandle) :
    owed ([task] : List MakeTask) module = task.owes module := by
  simp [owed]

theorem guard_located (block : Option AsyncDependenciesBlockIndex) (index : DependencyIndex)
    (dependency : Dependency) :
    QueuedDependency.located ⟨none, block, some index, dependency⟩ =
      Option.guard (fun place : LocatedDependency => place.2.isModuleDependency) (⟨block, index⟩, dependency) := by
  simp [QueuedDependency.located, Option.guard]

/-- The dependencies of a module are those that its task carries. -/
theorem located_queuedDependencies (module : Module) :
    located (queuedDependencies module.builtContent.parsed) = needed module := by
  rw [located, needed, queuedDependencies, Module.locatedDependencies, ← List.filterMap_eq_filter,
    List.filterMap_append, List.filterMap_append, List.filterMap_map, List.filterMap_map, List.filterMap_flatMap,
    List.filterMap_flatMap]
  refine congrArg _ (congr (congrArg _ ?_) ?_)
  · exact List.filterMap_congr fun place _ => guard_located ..
  · refine congrArg (fun f => List.flatMap f _) (funext fun place => ?_)
    rw [List.filterMap_map, List.filterMap_map]
    exact List.filterMap_congr fun place _ => guard_located ..

theorem nodup_indices {α : Type} (items : List α) : (items.zipIdx.map Prod.snd).Nodup := by
  rw [List.zipIdx_map_snd]
  exact List.nodup_range'

/-- No location occurs twice in a module. -/
theorem nodup_locations (module : Module) : ((needed module).map Prod.fst).Nodup := by
  let located (block : Option AsyncDependenciesBlockIndex) (dependencies : List Dependency) :
      List LocatedDependency := dependencies.zipIdx.map fun place => (⟨block, place.2⟩, place.1)
  have hindices : ∀ block dependencies, ((located block dependencies).map Prod.fst).Nodup := by
    intro block dependencies
    have hmap : (located block dependencies).map Prod.fst =
        (dependencies.zipIdx.map Prod.snd).map fun index => (⟨block, index⟩ : DependencyLocation) := by
      rw [List.map_map, List.map_map]
      rfl
    rw [hmap]
    exact (nodup_indices dependencies).map fun left right heq => (DependencyLocation.mk.inj heq).2
  have hblock : ∀ block dependencies, ∀ location ∈ (located block dependencies).map Prod.fst,
      location.block = block := by
    intro block dependencies location hlocation
    obtain ⟨_, hplace, rfl⟩ := List.mem_map.mp hlocation
    obtain ⟨_, -, rfl⟩ := List.mem_map.mp hplace
    rfl
  have hall : ((located none module.dependencies ++ module.blocks.zipIdx.flatMap fun place =>
      located (some place.2) place.1.dependencies).map Prod.fst).Nodup := by
    rw [List.map_append, List.nodup_append, List.map_flatMap]
    refine ⟨hindices none module.dependencies, ?_, ?_⟩
    · rw [List.nodup_flatMap]
      refine ⟨fun place _ => hindices (some place.2) place.1.dependencies, ?_⟩
      refine (List.pairwise_map.mp (nodup_indices module.blocks)).imp fun {left right} hne => ?_
      intro location hleft hright
      have hsame := (hblock _ _ location hleft).symm.trans (hblock _ _ location hright)
      exact hne (Option.some.inj hsame)
    · rintro location hnone other hsome rfl
      obtain ⟨place, -, hplace⟩ := List.mem_flatMap.mp hsome
      have hsame := (hblock _ _ location hnone).symm.trans (hblock _ _ location hplace)
      cases hsame
  exact Multiset.coe_nodup.mpr (hall.sublist (List.filter_sublist.map _))

theorem forDependency_eq_none {dependency : Dependency} :
    FactorizeGroupKey.forDependency dependency = none ↔ dependency.isModuleDependency = false := by
  rw [FactorizeGroupKey.forDependency, Option.map_eq_none_iff, Dependency.isModuleDependency]
  cases dependency.moduleDependency <;> simp

/-- Dependencies of one group have the same request. -/
theorem request_of_forDependency {dependency : Dependency} {key : FactorizeGroupKey}
    (h : FactorizeGroupKey.forDependency dependency = some key) :
    ∃ module, dependency.moduleDependency = some module ∧
      "context|module" ++ module.request = key.resourceIdentifier := by
  rw [FactorizeGroupKey.forDependency, Option.map_eq_some_iff] at h
  obtain ⟨module, hmodule, rfl⟩ := h
  exact ⟨module, hmodule, rfl⟩

/-- No group is empty, and the dependencies of a group have its key. -/
def GroupsOk (groups : List (FactorizeGroupKey × List QueuedDependency)) : Prop :=
  ∀ group ∈ groups, group.2 ≠ [] ∧
    ∀ queued ∈ group.2, FactorizeGroupKey.forDependency queued.dependency = some group.1

theorem groupsOk_pushToGroup {key : FactorizeGroupKey} {queued : QueuedDependency}
    (hkey : FactorizeGroupKey.forDependency queued.dependency = some key)
    {groups : List (FactorizeGroupKey × List QueuedDependency)} (h : GroupsOk groups) :
    GroupsOk (pushToGroup key queued groups) := by
  induction groups with
  | nil =>
    intro group hgroup
    rw [List.mem_singleton.mp hgroup]
    exact ⟨List.cons_ne_nil _ _, fun other hother => by rw [List.mem_singleton.mp hother, hkey]⟩
  | cons first groups ih =>
    obtain ⟨groupKey, group⟩ := first
    have hrest : GroupsOk groups := fun other hother => h other (List.mem_cons_of_mem _ hother)
    obtain ⟨-, hgroup⟩ := h (groupKey, group) List.mem_cons_self
    rw [pushToGroup]
    split_ifs with heq
    · intro other hother
      rcases List.mem_cons.mp hother with rfl | hother
      · refine ⟨by simp, fun found hfound => ?_⟩
        rcases List.mem_append.mp hfound with hfound | hfound
        · exact hgroup found hfound
        · rw [List.mem_singleton.mp hfound, hkey, heq]
      · exact hrest other hother
    · intro other hother
      rcases List.mem_cons.mp hother with rfl | hother
      · exact h _ List.mem_cons_self
      · exact ih hrest other hother

/-- What the groups hold together. -/
def grouped (groups : List (FactorizeGroupKey × List QueuedDependency)) : Multiset LocatedDependency :=
  (groups.map fun group => located group.2).sum

theorem grouped_pushToGroup (key : FactorizeGroupKey) (queued : QueuedDependency)
    (groups : List (FactorizeGroupKey × List QueuedDependency)) :
    grouped (pushToGroup key queued groups) = grouped groups + located [queued] := by
  induction groups with
  | nil => simp [pushToGroup, grouped]
  | cons first groups ih =>
    obtain ⟨groupKey, group⟩ := first
    rw [pushToGroup]
    split_ifs with heq
    · simp only [grouped, List.map_cons, List.sum_cons, located_append]
      abel
    · simp only [grouped, List.map_cons, List.sum_cons] at ih ⊢
      rw [ih, add_assoc]

theorem groupDependenciesForFactorization_spec (dependencies : List QueuedDependency) :
    GroupsOk (groupDependenciesForFactorization dependencies) ∧
      grouped (groupDependenciesForFactorization dependencies) = located dependencies := by
  induction dependencies using List.reverseRecOn with
  | nil => exact ⟨fun group hgroup => absurd hgroup List.not_mem_nil, rfl⟩
  | append_singleton dependencies queued ih =>
    obtain ⟨hok, hgrouped⟩ := ih
    rw [groupDependenciesForFactorization, List.foldl_append, List.foldl_cons, List.foldl_nil,
      ← groupDependenciesForFactorization, located_append, ← hgrouped]
    cases hkey : FactorizeGroupKey.forDependency queued.dependency with
    | none => exact ⟨hok, by rw [located_eq_zero (forDependency_eq_none.mp hkey), add_zero]⟩
    | some key => exact ⟨groupsOk_pushToGroup hkey hok, grouped_pushToGroup key queued _⟩

/-- Grouping loses no module dependency. -/
theorem owed_run (task : ProcessDependenciesTask) (module : ModuleHandle) :
    owed task.run module = (MakeTask.processDependencies task).owes module := by
  obtain ⟨-, hgrouped⟩ := groupDependenciesForFactorization_spec task.dependencies
  rw [MakeTask.owes, ← hgrouped, ProcessDependenciesTask.run, owed, grouped]
  split_ifs with horigin
  · simp [MakeTask.owes, horigin, Function.comp_def]
  · simp [MakeTask.owes, horigin, Function.comp_def]

/-- The connections of a graph against what is owed to its modules, some of which are still to be built. -/
structure ConnectedOnce (graph : ModuleGraph) (owed : ModuleHandle → Multiset LocatedDependency)
    (unbuilt : ModuleHandle → Prop) : Prop where
  indexed : graph.Indexed
  account : ∀ handle module, graph.module handle = some module → module.buildError = none ∨ unbuilt handle →
    owed handle + connected graph handle = needed module
  unbuilt_needed : ∀ handle module, graph.module handle = some module → unbuilt handle → needed module = 0
  locations : ∀ handle, ((owed handle + connected graph handle).map Prod.fst).Nodup

namespace ConnectedOnce

variable {graph : ModuleGraph} {owed owed' : ModuleHandle → Multiset LocatedDependency}
  {unbuilt unbuilt' : ModuleHandle → Prop}

theorem congr (h : ConnectedOnce graph owed unbuilt) (howed : ∀ handle, owed' handle = owed handle)
    (hunbuilt : ∀ handle, unbuilt' handle → unbuilt handle) : ConnectedOnce graph owed' unbuilt' where
  indexed := h.indexed
  account handle module hmodule hwhen := by
    rw [howed]
    exact h.account handle module hmodule (hwhen.imp_right (hunbuilt handle))
  unbuilt_needed handle module hmodule hwhen := h.unbuilt_needed handle module hmodule (hunbuilt handle hwhen)
  locations handle := by
    rw [howed]
    exact h.locations handle

theorem mem_connected {handle : ModuleHandle} {location : DependencyLocation} {connection : ModuleGraphConnection}
    (hconnection : connection ∈ graph.connections) (hat : connection.At handle location) :
    (location, connection.dependency) ∈ connected graph handle := by
  obtain ⟨horigin, hblock, hindex⟩ := hat
  refine List.mem_filterMap.mpr ⟨connection, hconnection, ?_⟩
  rw [connectionAt, if_pos horigin, hindex, hblock]
  rfl

/-- An owed dependency is connected. -/
theorem connect {originModule : Option ModuleHandle} {queued : QueuedDependency} {target : ModuleHandle}
    (h : ConnectedOnce graph owed unbuilt) (htarget : target < graph.modules.length)
    (horigin : ∀ origin, originModule = some origin → origin < graph.modules.length)
    (hmodule : queued.dependency.isModuleDependency = true)
    (howed : ∀ handle, owed handle =
      (if originModule = some handle then located [queued] else 0) + owed' handle) :
    ConnectedOnce (graph.connect originModule queued.originBlock queued.originDependencyIndex queued.dependency
      target) owed' unbuilt := by
  have hlocated : queued.located = queued.originDependencyIndex.map fun index =>
      (⟨queued.originBlock, index⟩, queued.dependency) := if_pos hmodule
  have hconnected : ∀ handle, connected (graph.connect originModule queued.originBlock
      queued.originDependencyIndex queued.dependency target) handle =
        connected graph handle + (if originModule = some handle then located [queued] else 0) := by
    intro handle
    rw [connected, ModuleGraph.Indexed.connections_connect, List.filterMap_append, ← Multiset.coe_add]
    refine congrArg _ ?_
    by_cases hsame : originModule = some handle
    · rw [if_pos hsame, located, List.filterMap_cons, List.filterMap_cons, connectionAt, if_pos hsame, hlocated]
      rfl
    · rw [if_neg hsame, List.filterMap_cons, connectionAt, if_neg hsame]
      rfl
  have hsum : ∀ handle, owed' handle + connected (graph.connect originModule queued.originBlock
      queued.originDependencyIndex queued.dependency target) handle = owed handle + connected graph handle := by
    intro handle
    rw [hconnected, howed]
    abel
  refine
    { indexed := h.indexed.connect htarget horigin fun origin index hsame hindex connection hconnection hat => ?_
      account := fun handle module hfound hwhen => ?_
      unbuilt_needed := h.unbuilt_needed
      locations := fun handle => ?_ }
  · -- The location would be owed and connected.
    have hnodup := h.locations origin
    rw [Multiset.map_add, Multiset.nodup_add] at hnodup
    obtain ⟨-, -, hdisjoint⟩ := hnodup
    have howes : (⟨⟨queued.originBlock, index⟩, queued.dependency⟩ : LocatedDependency) ∈ owed origin := by
      rw [howed, if_pos hsame]
      refine Multiset.mem_add.mpr (.inl (List.mem_filterMap.mpr ⟨queued, List.mem_singleton_self _, ?_⟩))
      rw [hlocated, hindex]
      rfl
    have hlocation := Multiset.mem_map_of_mem Prod.fst (mem_connected hconnection hat)
    exact Multiset.disjoint_left.mp hdisjoint (Multiset.mem_map_of_mem Prod.fst howes) hlocation
  · rw [hsum]
    exact h.account handle module hfound hwhen
  · rw [hsum]
    exact h.locations handle

/-- A new module has no dependencies yet. -/
theorem addModule (h : ConnectedOnce graph owed unbuilt) {module : ModuleHandle → Module}
    (hhandle : (module graph.modules.length).handle = graph.modules.length)
    (hneeded : needed (module graph.modules.length) = 0) (howed : owed graph.modules.length = 0)
    (hunbuilt : ∀ handle, unbuilt' handle → handle = graph.modules.length ∨ unbuilt handle) :
    ConnectedOnce (graph.addModule module) owed unbuilt' := by
  have hnone : connected graph graph.modules.length = 0 := by
    refine congrArg _ (List.filterMap_eq_nil_iff.mpr fun connection hconnection => if_neg fun horigin => ?_)
    exact absurd (h.indexed.origin_lt connection hconnection _ (Option.mem_toList.mpr horigin)) (lt_irrefl _)
  refine
    { indexed := h.indexed.addModule hhandle
      account := fun handle found hfound hwhen => ?_
      unbuilt_needed := fun handle found hfound hwhen => ?_
      locations := h.locations }
  · change owed handle + connected graph handle = needed found
    rcases ModuleGraph.module_addModule.mp hfound with hold | ⟨rfl, rfl⟩
    · refine h.account handle found hold (hwhen.imp_right fun hnow => (hunbuilt handle hnow).resolve_left ?_)
      exact (ModuleGraph.Indexed.module_lt hold).ne
    · rw [howed, hnone, hneeded]
      rfl
  · rcases ModuleGraph.module_addModule.mp hfound with hold | ⟨rfl, rfl⟩
    · exact h.unbuilt_needed handle found hold
        ((hunbuilt handle hwhen).resolve_left (ModuleGraph.Indexed.module_lt hold).ne)
    · exact hneeded

theorem module_modify {handle other : ModuleHandle} {f : Module → Module} {found : Module}
    (h : ({ graph with modules := graph.modules.modify handle f } : ModuleGraph).module other = some found) :
    ∃ module, graph.module other = some module ∧ found = if handle = other then f module else module := by
  change (graph.modules.modify handle f)[other]? = some found at h
  rw [List.getElem?_modify] at h
  obtain ⟨module, hmodule, hresult⟩ := Option.map_eq_some_iff.mp h
  exact ⟨module, hmodule, hresult.symm⟩

/-- A module gets its content, and owes what the content needs. -/
theorem finishModule (h : ConnectedOnce graph owed unbuilt) {handle : ModuleHandle} {f : Module → Module}
    (hhandle : ∀ module, (f module).handle = module.handle) {module : Module}
    (hmodule : graph.module handle = some module) (hbuilding : unbuilt handle)
    (hunbuilt : ∀ other, unbuilt' other → unbuilt other ∧ other ≠ handle)
    (howed : ∀ other, owed' other = (if other = handle then needed (f module) else 0) + owed other) :
    ConnectedOnce { graph with modules := graph.modules.modify handle f } owed' unbuilt' := by
  have hnone : owed handle + connected graph handle = 0 :=
    (h.account handle module hmodule (.inr hbuilding)).trans (h.unbuilt_needed handle module hmodule hbuilding)
  have hsum : ∀ other, owed' other + connected graph other =
      if other = handle then needed (f module) else owed other + connected graph other := by
    intro other
    rw [howed]
    split_ifs with heq
    · rw [heq, add_assoc, hnone, add_zero]
    · rw [zero_add]
  refine
    { indexed := h.indexed.modifyModule handle hhandle
      account := fun other found hfound hwhen => ?_
      unbuilt_needed := fun other found hfound hwhen => ?_
      locations := fun other => ?_ }
  · obtain ⟨old, hold, rfl⟩ := module_modify hfound
    change owed' other + connected graph other = _
    rw [hsum]
    by_cases heq : other = handle
    · subst heq
      rw [hmodule] at hold
      rw [if_pos rfl, if_pos rfl, Option.some.inj hold]
    · rw [if_neg heq, if_neg (Ne.symm heq)]
      rw [if_neg (Ne.symm heq)] at hwhen
      exact h.account other old hold (hwhen.imp_right fun hnow => (hunbuilt other hnow).1)
  · obtain ⟨old, hold, rfl⟩ := module_modify hfound
    obtain ⟨hbefore, hne⟩ := hunbuilt other hwhen
    rw [if_neg (Ne.symm hne)]
    exact h.unbuilt_needed other old hold hbefore
  · change ((owed' other + connected graph other).map Prod.fst).Nodup
    rw [hsum]
    split_ifs
    · exact nodup_locations _
    · exact h.locations other

/-- A module fails, and needs nothing. -/
theorem failModule (h : ConnectedOnce graph owed unbuilt) (handle : ModuleHandle) {f : Module → Module}
    (hhandle : ∀ module, (f module).handle = module.handle) (hneeded : ∀ module, needed (f module) = 0)
    (herror : ∀ module, (f module).buildError ≠ none) (hunbuilt : ∀ other, unbuilt' other → unbuilt other)
    (howed : ∀ other, owed' other = owed other) :
    ConnectedOnce { graph with modules := graph.modules.modify handle f } owed' unbuilt' := by
  refine
    { indexed := h.indexed.modifyModule handle hhandle
      account := fun other found hfound hwhen => ?_
      unbuilt_needed := fun other found hfound hwhen => ?_
      locations := fun other => ?_ }
  · obtain ⟨old, hold, rfl⟩ := module_modify hfound
    change owed' other + connected graph other = _
    rw [howed]
    by_cases heq : handle = other
    · rw [if_pos heq] at hwhen ⊢
      have hbuilding := hunbuilt other (hwhen.resolve_left (herror old))
      rw [h.account other old hold (.inr hbuilding), h.unbuilt_needed other old hold hbuilding, hneeded]
    · rw [if_neg heq] at hwhen ⊢
      exact h.account other old hold (hwhen.imp_right (hunbuilt other))
  · obtain ⟨old, hold, rfl⟩ := module_modify hfound
    split_ifs
    · exact hneeded old
    · exact h.unbuilt_needed other old hold (hunbuilt other hwhen)
  · change ((owed' other + connected graph other).map Prod.fst).Nodup
    rw [howed]
    exact h.locations other

end ConnectedOnce

end Unpack.Make
