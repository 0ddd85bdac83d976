import Unpack.MakeConnections

/-! What every step of Make keeps: the builds that are left and those that have run are together those that were
asked for, and the dependencies that are owed and those that are connected are together those of the modules. -/

namespace Unpack.Make

variable {hashes : ContentHashes}

def MakeTask.builds (handle : ModuleHandle) : MakeTask → Bool
  | build task => task.moduleHandle = handle
  | _ => false

/-- The dependencies of no module, which are left when a module has no other. -/
def MakeTask.ConnectsNothing (task : MakeTask) : Prop :=
  ∃ process, task = .processDependencies process ∧
    ∀ queued ∈ process.dependencies, queued.dependency.isModuleDependency = false

def FactorizeTaskResult.isSuccess : FactorizeTaskResult → Bool
  | success _ => true
  | failed _ => false

namespace MakeEvent

/-- A build task of the module ran. -/
def builds (handle : ModuleHandle) : MakeEvent → Bool
  | built task => task.moduleHandle = handle
  | failed _ task _ => task.builds handle
  | _ => false

/-- The module was new when its request had been factorized. -/
def addsFactorized (handle : ModuleHandle) : MakeEvent → Bool
  | added task result => task.result.isSuccess && result.isNew && result.moduleHandle = handle
  | requested _ _ result => result.isNew && result.moduleHandle = handle
  | _ => false

/-- The module was new when its request had failed. -/
def AddsFailed (handle : ModuleHandle) (event : MakeEvent) : Prop :=
  ∃ task, event = added task ⟨handle, true⟩ ∧ task.result.isSuccess = false

/-- A request was factorized to a module with this identity. -/
def FactorizesTo (identity : ModuleIdentity) : MakeEvent → Prop
  | factorized _ (.success module) => module.identity = identity
  | added task _ => task.result.isSuccess = true ∧ task.identity = identity
  | requested _ module _ => module.identity = identity
  | _ => False

/-- A module was asked for by its identity. -/
def Resolves (identity : ModuleIdentity) (handle : ModuleHandle) : MakeEvent → Prop
  | added task result => task.identity = identity ∧ result.moduleHandle = handle
  | requested _ module result => module.identity = identity ∧ result.moduleHandle = handle
  | _ => False

theorem exists_of_addsFactorized {event : MakeEvent} {handle : ModuleHandle}
    (h : event.addsFactorized handle = true) :
    ∃ identity, event.Resolves identity handle ∧ event.FactorizesTo identity := by
  cases event with
  | added task result =>
    simp only [addsFactorized, Bool.and_eq_true, decide_eq_true_eq] at h
    exact ⟨task.identity, ⟨rfl, h.2⟩, h.1.1, rfl⟩
  | requested origin module result =>
    simp only [addsFactorized, Bool.and_eq_true, decide_eq_true_eq] at h
    exact ⟨module.identity, ⟨rfl, h.2⟩, rfl⟩
  | _ => cases h

def IsOuterFailure : MakeEvent → Prop
  | failed false _ _ => True
  | _ => False

/-- When a task of a request fails, it is a build, and what is dropped with it would connect nothing. -/
def Lossless : MakeEvent → Prop
  | failed true task dropped => (∃ build, task = .build build) ∧ ∀ other ∈ dropped, other.ConnectsNothing
  | _ => True

/-- What is never done: a task that failed before anything was added, and what is dropped with a task. -/
def lost : MakeEvent → List MakeTask
  | failed _ (.build _) dropped => dropped
  | failed _ task dropped => task :: dropped
  | _ => []

end MakeEvent

/-- The tasks that no step of the run has done or will do. -/
def lostTasks (history : List MakeEvent) : Multiset MakeTask := history.flatMap MakeEvent.lost

theorem lostTasks_append (history : List MakeEvent) (event : MakeEvent) :
    lostTasks (history ++ [event]) = event.lost + lostTasks history := by
  rw [lostTasks, List.flatMap_append, List.flatMap_singleton, ← Multiset.coe_add, add_comm]
  rfl

/-- No request is factorized to the module that another request left when it failed. -/
def FailuresApart (history : List MakeEvent) : Prop :=
  ∀ task handle, .added task ⟨handle, true⟩ ∈ history → task.result.isSuccess = false →
    ∀ event ∈ history, ¬event.FactorizesTo task.identity

/-- The connection was made for a dependency whose request was factorized, and leads to the module that this
gave. -/
def Targets (history : List MakeEvent) (graph : ModuleGraph) (connection : ModuleGraphConnection) : Prop :=
  ∃ task result, .factorized task result ∈ history ∧ task.originModule = connection.originModule ∧
    (∃ queued ∈ task.dependencies, queued.originBlock = connection.originBlock ∧
      queued.originDependencyIndex = connection.originDependencyIndex ∧
        queued.dependency = connection.dependency) ∧
      (∀ queued ∈ task.dependencies, ∀ other ∈ task.dependencies,
        queued.dependency.moduleDependency.map (·.request) = other.dependency.moduleDependency.map (·.request)) ∧
        ∃ module, graph.module connection.module = some module ∧
          module.identity = AddTask.identity ⟨task.originModule, task.context, task.dependencies, result⟩

/-- The modules of the graph are those known by their identities. -/
structure MakeState.Identified (state : MakeState) : Prop where
  lookup : ∀ handle module, state.moduleGraph.module handle = some module →
    state.modulesByIdentity.lookup module.identity = some handle
  module : ∀ identity handle, state.modulesByIdentity.lookup identity = some handle →
    ∃ module, state.moduleGraph.module handle = some module ∧ module.identity = identity

/-- Every module keeps its place and its identity. -/
def KeepsModules (graph next : ModuleGraph) : Prop :=
  ∀ handle module, graph.module handle = some module →
    ∃ later, next.module handle = some later ∧ later.identity = module.identity

theorem KeepsModules.refl (graph : ModuleGraph) : KeepsModules graph graph :=
  fun _ module hmodule => ⟨module, hmodule, rfl⟩

theorem KeepsModules.trans {first second third : ModuleGraph} (h : KeepsModules first second)
    (h' : KeepsModules second third) : KeepsModules first third := by
  intro handle module hmodule
  obtain ⟨middle, hmiddle, hidentity⟩ := h handle module hmodule
  obtain ⟨last, hlast, hidentity'⟩ := h' handle middle hmiddle
  exact ⟨last, hlast, hidentity'.trans hidentity⟩

theorem KeepsModules.of_modules {graph next : ModuleGraph} (h : next.modules = graph.modules) :
    KeepsModules graph next := by
  intro handle module hmodule
  refine ⟨module, ?_, rfl⟩
  rw [ModuleGraph.module, h]
  exact hmodule

theorem Targets.mono {history : List MakeEvent} {graph next : ModuleGraph} {connection : ModuleGraphConnection}
    (h : Targets history graph connection) (hkeeps : KeepsModules graph next) (event : MakeEvent) :
    Targets (history ++ [event]) next connection := by
  obtain ⟨task, result, hevent, horigin, hqueued, hsame, module, hmodule, hidentity⟩ := h
  obtain ⟨later, hlater, hkept⟩ := hkeeps _ module hmodule
  exact ⟨task, result, List.mem_append_left _ hevent, horigin, hqueued, hsame, later, hlater,
    hkept.trans hidentity⟩

section

variable {state : MakeState} {f : Module → Module}

theorem keepsModules_modify {graph : ModuleGraph} (handle : ModuleHandle)
    (hidentity : ∀ module, (f module).identity = module.identity) :
    KeepsModules graph { graph with modules := graph.modules.modify handle f } := by
  intro other module hmodule
  refine ⟨if handle = other then f module else module, ?_, ?_⟩
  · change (graph.modules.modify handle f)[other]? = _
    rw [List.getElem?_modify]
    exact congrArg (Option.map fun module => if handle = other then f module else module) hmodule
  · split_ifs
    · exact hidentity module
    · rfl

namespace MakeState.Identified

theorem of_modules {next : MakeState} (h : state.Identified)
    (hmodules : next.moduleGraph.modules = state.moduleGraph.modules)
    (hidentities : next.modulesByIdentity = state.modulesByIdentity) : next.Identified := by
  have hmodule : ∀ handle, next.moduleGraph.module handle = state.moduleGraph.module handle := fun handle => by
    rw [ModuleGraph.module, ModuleGraph.module, hmodules]
  constructor
  · intro handle module hfound
    rw [hidentities]
    exact h.lookup handle module ((hmodule handle).symm.trans hfound)
  · intro identity handle hlookup
    rw [hidentities] at hlookup
    rw [hmodule]
    exact h.module identity handle hlookup

theorem of_modify {next : MakeState} {handle : ModuleHandle} (h : state.Identified)
    (hidentity : ∀ module, (f module).identity = module.identity)
    (hmodules : next.moduleGraph.modules = state.moduleGraph.modules.modify handle f)
    (hidentities : next.modulesByIdentity = state.modulesByIdentity) : next.Identified := by
  have hgraph : ∀ other, next.moduleGraph.module other =
      ({ state.moduleGraph with modules := state.moduleGraph.modules.modify handle f } : ModuleGraph).module other :=
    fun other => by rw [ModuleGraph.module, hmodules]; rfl
  constructor
  · intro other module hfound
    obtain ⟨old, hold, hresult⟩ := ConnectedOnce.module_modify ((hgraph other).symm.trans hfound)
    have hkept : module.identity = old.identity := by
      rw [hresult]
      split_ifs
      · exact hidentity old
      · rfl
    rw [hidentities, hkept]
    exact h.lookup other old hold
  · intro identity other hlookup
    rw [hidentities] at hlookup
    obtain ⟨module, hmodule, rfl⟩ := h.module identity other hlookup
    obtain ⟨later, hlater, hkept⟩ := keepsModules_modify handle hidentity other module hmodule
    exact ⟨later, (hgraph other).trans hlater, hkept⟩

/-- The module of the identity, which may be new. -/
theorem addModule (h : state.Identified) (hashes : ContentHashes) (identity : ModuleIdentity)
    (sideEffectFree : Option Bool) :
    (state.addModule hashes identity sideEffectFree).1.Identified ∧
      KeepsModules state.moduleGraph (state.addModule hashes identity sideEffectFree).1.moduleGraph ∧
        ∃ module, (state.addModule hashes identity sideEffectFree).1.moduleGraph.module
          (state.addModule hashes identity sideEffectFree).2.moduleHandle = some module ∧
            module.identity = identity := by
  rcases state.addModule_cases hashes identity sideEffectFree with ⟨handle, hlookup, heq⟩ | ⟨hnone, heq⟩
  · rw [heq]
    exact ⟨h, .refl _, h.module identity handle hlookup⟩
  · rw [heq]
    refine ⟨⟨fun other module hmodule => ?_, fun other handle hlookup => ?_⟩,
      fun handle module hmodule => ⟨module, ModuleGraph.module_addModule.mpr (.inl hmodule), rfl⟩,
      _, ModuleGraph.module_addModule.mpr (.inr ⟨rfl, rfl⟩), rfl⟩
    · rcases ModuleGraph.module_addModule.mp hmodule with hold | ⟨rfl, rfl⟩
      · have hknown := h.lookup other module hold
        rw [AList.lookup_insert_ne, hknown]
        rintro rfl
        rw [hnone] at hknown
        cases hknown
      · exact AList.lookup_insert _
    · by_cases hsame : other = identity
      · subst hsame
        rw [AList.lookup_insert] at hlookup
        cases hlookup
        exact ⟨_, ModuleGraph.module_addModule.mpr (.inr ⟨rfl, rfl⟩), rfl⟩
      · rw [AList.lookup_insert_ne hsame] at hlookup
        obtain ⟨module, hmodule, hidentity⟩ := h.module other handle hlookup
        exact ⟨module, ModuleGraph.module_addModule.mpr (.inl hmodule), hidentity⟩

end MakeState.Identified

end

section

variable {originModule : Option ModuleHandle} {target : ModuleHandle}

theorem ConnectedOnce.foldl {owed owed' : ModuleHandle → Multiset LocatedDependency}
    {unbuilt : ModuleHandle → Prop} (dependencies : List QueuedDependency) {state : MakeState}
    (h : ConnectedOnce state.moduleGraph owed unbuilt) (htarget : target < state.count)
    (horigin : ∀ origin, originModule = some origin → origin < state.count)
    (hmodules : ∀ queued ∈ dependencies, queued.dependency.isModuleDependency = true)
    (howed : ∀ handle, owed handle =
      (if originModule = some handle then located dependencies else 0) + owed' handle) :
    ConnectedOnce (dependencies.foldl (MakeState.connectDependency originModule target) state).moduleGraph
      owed' unbuilt := by
  induction dependencies generalizing state owed with
  | nil =>
    refine h.congr (fun handle => ?_) fun _ hwhen => hwhen
    rw [howed]
    split_ifs <;> exact (zero_add _).symm
  | cons queued dependencies ih =>
    refine @ih (fun handle => (if originModule = some handle then located dependencies else 0) + owed' handle) _
      ?_ htarget horigin (fun other hother => hmodules other (List.mem_cons_of_mem _ hother)) fun _ => rfl
    refine h.connect htarget horigin (hmodules queued List.mem_cons_self) fun handle => ?_
    rw [howed]
    split_ifs
    · rw [← add_assoc, ← located_append]
      rfl
    · simp only [zero_add]

theorem mem_connections_foldl {dependencies : List QueuedDependency} {state : MakeState}
    {connection : ModuleGraphConnection}
    (h : connection ∈ (dependencies.foldl (MakeState.connectDependency originModule target)
      state).moduleGraph.connections) :
    connection ∈ state.moduleGraph.connections ∨
      connection.originModule = originModule ∧ connection.module = target ∧
        ∃ queued ∈ dependencies, queued.originBlock = connection.originBlock ∧
          queued.originDependencyIndex = connection.originDependencyIndex ∧
            queued.dependency = connection.dependency := by
  induction dependencies generalizing state with
  | nil => exact .inl h
  | cons queued dependencies ih =>
    rcases ih h with hbefore | ⟨horigin, htarget, other, hother, hsame⟩
    · rcases ModuleGraph.Indexed.mem_connections_connect.mp hbefore with hold | rfl
      · exact .inl hold
      · exact .inr ⟨rfl, rfl, queued, List.mem_cons_self, rfl, rfl, rfl⟩
    · exact .inr ⟨horigin, htarget, other, List.mem_cons_of_mem _ hother, hsame⟩

end

/-- The dependencies of a group are of modules, and have one request. -/
structure GroupReady (dependencies : List QueuedDependency) : Prop where
  modules : ∀ queued ∈ dependencies, queued.dependency.isModuleDependency = true
  requests : ∀ queued ∈ dependencies, ∀ other ∈ dependencies,
    queued.dependency.moduleDependency.map (·.request) = other.dependency.moduleDependency.map (·.request)

/-- What is added has been factorized. -/
def MakeTask.Ready (history : List MakeEvent) : MakeTask → Prop
  | factorize task => GroupReady task.dependencies
  | add task => GroupReady task.dependencies ∧ ∃ factorize, .factorized factorize task.result ∈ history ∧
      factorize.originModule = task.originModule ∧ factorize.context = task.context ∧
        factorize.dependencies = task.dependencies
  | build _ | processDependencies _ => True

theorem MakeTask.Ready.mono {history : List MakeEvent} {task : MakeTask} (h : task.Ready history)
    (event : MakeEvent) : task.Ready (history ++ [event]) := by
  cases task with
  | add task =>
    obtain ⟨hgroup, factorize, hevent, hsame⟩ := h
    exact ⟨hgroup, factorize, List.mem_append_left _ hevent, hsame⟩
  | _ => exact h

def buildsLeft (pending : Multiset MakeTask) (handle : ModuleHandle) : Nat :=
  pending.countP fun task => task.builds handle = true

theorem buildsLeft_add (left right : Multiset MakeTask) (handle : ModuleHandle) :
    buildsLeft (left + right) handle = buildsLeft left handle + buildsLeft right handle :=
  Multiset.countP_add ..

structure Makes (history : List MakeEvent) (state : MakeState) (pending : Multiset MakeTask) : Prop where
  identified : state.Identified
  once : ConnectedOnce state.moduleGraph (owed pending) fun handle => 0 < buildsLeft pending handle
  builds : ∀ handle, buildsLeft pending handle + history.countP (·.builds handle) =
    history.countP (·.addsFactorized handle)
  added_le_one : ∀ handle, history.countP (·.addsFactorized handle) ≤ 1
  added : ∀ handle < state.count, history.countP (·.addsFactorized handle) = 1 ∨
    ∃ event ∈ history, event.AddsFailed handle
  not_added : ∀ handle, state.count ≤ handle → history.countP (·.addsFactorized handle) = 0
  ready : ∀ task ∈ pending, task.Ready history
  targets : ∀ connection ∈ state.moduleGraph.connections, connection.originModule ≠ none →
    Targets history state.moduleGraph connection
  resolved : ∀ event ∈ history, ∀ identity handle, event.Resolves identity handle →
    ∃ module, state.moduleGraph.module handle = some module ∧ module.identity = identity

/-- What a step has to keep. -/
theorem Makes.extend {history : List MakeEvent} {event : MakeEvent} {state next : MakeState}
    {consumed produced : List MakeTask} {rest : Multiset MakeTask} (h : Makes history state (consumed + rest))
    (hidentified : next.Identified)
    (honce : ConnectedOnce next.moduleGraph (owed (produced + rest)) fun handle =>
      0 < buildsLeft (produced + rest) handle)
    (hbalanced : ∀ handle, buildsLeft produced handle + (if event.builds handle = true then 1 else 0) =
      buildsLeft consumed handle + if event.addsFactorized handle = true then 1 else 0)
    (hle : state.count ≤ next.count)
    (hadds : ∀ handle, event.addsFactorized handle = true → handle = state.count ∧ state.count < next.count)
    (hnew : ∀ handle < next.count, handle < state.count ∨ event.addsFactorized handle = true ∨
      event.AddsFailed handle)
    (hready : ∀ task ∈ produced, task.Ready (history ++ [event]))
    (hkeeps : KeepsModules state.moduleGraph next.moduleGraph)
    (htargets : ∀ connection ∈ next.moduleGraph.connections, connection ∈ state.moduleGraph.connections ∨
      (connection.originModule ≠ none → Targets (history ++ [event]) next.moduleGraph connection))
    (hresolved : ∀ identity handle, event.Resolves identity handle →
      ∃ module, next.moduleGraph.module handle = some module ∧ module.identity = identity) :
    Makes (history ++ [event]) next (produced + rest) := by
  have hcount : ∀ p : MakeEvent → Bool, (history ++ [event]).countP p =
      history.countP p + if p event = true then 1 else 0 := by
    intro p
    rw [List.countP_append, List.countP_singleton]
  refine
    { identified := hidentified
      once := honce
      builds := fun handle => ?_
      added_le_one := fun handle => ?_
      added := fun handle hlt => ?_
      not_added := fun handle hge => ?_
      ready := fun task htask => ?_
      targets := fun connection hconnection horigin => ?_
      resolved := fun past hpast identity handle hresolves => ?_ }
  · have hbuilds := h.builds handle
    have hbalance := hbalanced handle
    rw [buildsLeft_add] at hbuilds
    rw [hcount, hcount, buildsLeft_add]
    omega
  · rw [hcount]
    by_cases hadd : event.addsFactorized handle = true
    · have hnone := h.not_added handle (hadds handle hadd).1.ge
      rw [hnone, if_pos hadd]
    · rw [if_neg hadd]
      exact h.added_le_one handle
  · rw [hcount]
    rcases hnew handle hlt with hold | hadd | hfailed
    · by_cases hadd : event.addsFactorized handle = true
      · exact absurd (hadds handle hadd).1 hold.ne
      · rw [if_neg hadd]
        exact (h.added handle hold).imp id fun ⟨other, hother, hadds⟩ =>
          ⟨other, List.mem_append_left _ hother, hadds⟩
    · rw [h.not_added handle (hadds handle hadd).1.ge, if_pos hadd]
      exact .inl rfl
    · exact .inr ⟨event, List.mem_append_right _ (List.mem_singleton_self _), hfailed⟩
  · rw [hcount, h.not_added handle (hle.trans hge), if_neg]
    intro hadd
    obtain ⟨rfl, hlt⟩ := hadds handle hadd
    exact absurd hge hlt.not_ge
  · rcases Multiset.mem_add.mp htask with htask | htask
    · exact hready task htask
    · exact (h.ready task (Multiset.mem_add.mpr (.inr htask))).mono event
  · rcases htargets connection hconnection with hold | hnow
    · exact (h.targets connection hold horigin).mono hkeeps event
    · exact hnow horigin
  · rcases List.mem_append.mp hpast with hbefore | hnow
    · obtain ⟨module, hmodule, hidentity⟩ := h.resolved past hbefore identity handle hresolves
      obtain ⟨later, hlater, hkept⟩ := hkeeps handle module hmodule
      exact ⟨later, hlater, hkept.trans hidentity⟩
    · rw [List.mem_singleton.mp hnow] at hresolves
      exact hresolved identity handle hresolves

theorem buildsLeft_singleton (task : MakeTask) (handle : ModuleHandle) :
    buildsLeft ([task] : List MakeTask) handle = if task.builds handle = true then 1 else 0 := by
  rw [buildsLeft, Multiset.coe_countP, List.countP_singleton]
  simp

/-- What is owed by tasks of known modules is owed by known modules. -/
theorem owed_eq_zero {pending : Multiset MakeTask} {count : Nat} (h : ∀ task ∈ pending, task.Known count) :
    owed pending count = 0 := by
  refine Multiset.sum_eq_zero fun owes howes => ?_
  obtain ⟨task, htask, rfl⟩ := Multiset.mem_map.mp howes
  have hknown := h task htask
  cases task with
  | factorize task => exact if_neg fun horigin => absurd (hknown count horigin) (lt_irrefl _)
  | add task => exact if_neg fun horigin => absurd (hknown count horigin) (lt_irrefl _)
  | build task => rfl
  | processDependencies task => exact if_neg fun horigin => absurd (horigin ▸ hknown) (lt_irrefl _)

theorem needed_newContent {module : Module} {source : String}
    (h : module.builtContent = hashes.newContent {} source) : needed module = 0 := by
  rw [needed, Module.locatedDependencies, Module.dependencies, Module.blocks, h]
  rfl

/-- The module that is added is to be built when it is new. -/
theorem ConnectedOnce.added {state : MakeState} {owed : ModuleHandle → Multiset LocatedDependency}
    {unbuilt : ModuleHandle → Prop} (h : ConnectedOnce state.moduleGraph owed unbuilt)
    (howed : owed state.count = 0) (hashes : ContentHashes) (identity : ModuleIdentity) (sideEffectFree : Option Bool) :
    ConnectedOnce (state.addModule hashes identity sideEffectFree).1.moduleGraph owed fun handle =>
      unbuilt handle ∨ (state.addModule hashes identity sideEffectFree).2 = ⟨handle, true⟩ := by
  rcases state.addModule_cases hashes identity sideEffectFree with ⟨handle, -, heq⟩ | ⟨-, heq⟩
  · rw [heq]
    exact h.congr (fun _ => rfl) fun other hother => hother.resolve_right fun hnew => by cases hnew
  · rw [heq]
    change ConnectedOnce (state.moduleGraph.addModule fun handle =>
      { handle, identity, builtContent := hashes.newContent {} "", factorySideEffectFree := sideEffectFree }) owed
        fun handle => unbuilt handle ∨ (⟨state.count, true⟩ : AddModuleResult) = ⟨handle, true⟩
    refine h.addModule ?_ ?_ howed fun other hother => ?_
    · rfl
    · exact @needed_newContent hashes _ "" rfl
    · rcases hother with hold | hnew
      · exact .inr hold
      · exact .inl (AddModuleResult.mk.inj hnew).1.symm

theorem isNew_addModule {state : MakeState} {identity : ModuleIdentity} {sideEffectFree : Option Bool} :
    ((state.addModule hashes identity sideEffectFree).2.isNew = true ∧
        (state.addModule hashes identity sideEffectFree).2.moduleHandle = state.count ∧
          (state.addModule hashes identity sideEffectFree).1.count = state.count + 1) ∨
      ((state.addModule hashes identity sideEffectFree).2.isNew = false ∧
        (state.addModule hashes identity sideEffectFree).1.count = state.count) := by
  rcases state.addModule_cases hashes identity sideEffectFree with ⟨handle, -, heq⟩ | ⟨-, heq⟩
  · rw [heq]
    exact .inr ⟨rfl, rfl⟩
  · rw [heq]
    exact .inl ⟨rfl, rfl, List.length_append⟩

theorem connections_addModule {state : MakeState} {identity : ModuleIdentity} {sideEffectFree : Option Bool} :
    (state.addModule hashes identity sideEffectFree).1.moduleGraph.connections =
      state.moduleGraph.connections := by
  rcases state.addModule_cases hashes identity sideEffectFree with ⟨handle, -, heq⟩ | ⟨-, heq⟩
  · rw [heq]
  · rw [heq]
    rfl

/-- A group is connected to the module that it was factorized to, or to a failed module. -/
theorem AddTask.run_spec (hashes : ContentHashes) (task : AddTask) (state : MakeState) :
    ∃ sideEffectFree,
      (task.run hashes state).1 = (state.addModule hashes task.identity sideEffectFree).2 ∧
        ((task.result.isSuccess = true ∧
            (task.run hashes state).2.2 =
              (state.addOrConnect hashes task.originModule task.dependencies task.identity sideEffectFree).1 ∧
            ∃ resource loader, (task.run hashes state).2.1 =
              if (state.addModule hashes task.identity sideEffectFree).2.isNew = true then
                [.build ⟨(state.addModule hashes task.identity sideEffectFree).2.moduleHandle, task.identity,
                  resource, loader⟩]
              else []) ∨
          (task.result.isSuccess = false ∧ (task.run hashes state).2.1 = [] ∧
            ∃ error, (task.run hashes state).2.2 =
              (state.addOrConnect hashes task.originModule task.dependencies task.identity
                sideEffectFree).1.failModule hashes
                  (state.addModule hashes task.identity sideEffectFree).2.moduleHandle error "")) := by
  rw [run, identity]
  cases task.result with
  | success factorized =>
    exact ⟨factorized.sideEffectFree, rfl, .inl ⟨rfl, rfl, factorized.resource, factorized.loader, rfl⟩⟩
  | failed error => exact ⟨none, rfl, .inr ⟨rfl, rfl, error, rfl⟩⟩

/-- The build of a new module. -/
theorem buildsLeft_new (isNew : Bool) (build : BuildTask) (handle : ModuleHandle) :
    buildsLeft (((if isNew = true then [MakeTask.build build] else []) : List MakeTask) : Multiset MakeTask)
      handle = if isNew = true ∧ build.moduleHandle = handle then 1 else 0 := by
  by_cases hisNew : isNew = true
  · rw [if_pos hisNew, buildsLeft_singleton]
    simp [MakeTask.builds, hisNew]
  · rw [if_neg hisNew, if_neg (fun hboth => hisNew hboth.1)]
    rfl

/-- The build of a module that is new when its request has been factorized is left, and nothing else. -/
theorem Makes.extendNew {history : List MakeEvent} {event : MakeEvent} {state next : MakeState}
    {consumed : List MakeTask} {rest : Multiset MakeTask} (h : Makes history state (consumed + rest))
    {handle : ModuleHandle} {isNew : Bool} {build : BuildTask} (hbuild : build.moduleHandle = handle)
    (hidentified : next.Identified)
    (honce : ConnectedOnce next.moduleGraph (owed rest) fun other =>
      0 < buildsLeft (consumed + rest) other ∨ (⟨handle, isNew⟩ : AddModuleResult) = ⟨other, true⟩)
    (hconsumed : ∀ other, buildsLeft consumed other = 0) (hevent : ∀ other, event.builds other = false)
    (hadds : ∀ other, event.addsFactorized other = true ↔ isNew = true ∧ handle = other)
    (hnew : isNew = true ∧ handle = state.count ∧ next.count = state.count + 1 ∨
      isNew = false ∧ next.count = state.count)
    (hkeeps : KeepsModules state.moduleGraph next.moduleGraph)
    (htargets : ∀ connection ∈ next.moduleGraph.connections, connection ∈ state.moduleGraph.connections ∨
      (connection.originModule ≠ none → Targets (history ++ [event]) next.moduleGraph connection))
    (hresolved : ∀ identity other, event.Resolves identity other →
      ∃ module, next.moduleGraph.module other = some module ∧ module.identity = identity) :
    Makes (history ++ [event]) next ((if isNew = true then [.build build] else [] : List MakeTask) + rest) := by
  have howed : ∀ other, owed (((if isNew = true then [MakeTask.build build] else []) : List MakeTask) :
      Multiset MakeTask) other = 0 := by
    intro other
    split_ifs
    · rw [owed_singleton]
      rfl
    · rfl
  refine h.extend hidentified ?_ (fun other => ?_) ?_ (fun other hother => ?_) (fun other hother => ?_)
    (fun child hchild => ?_) hkeeps htargets hresolved
  · refine honce.congr (fun other => by rw [owed_add, howed, zero_add]) fun other hleft => ?_
    rw [buildsLeft_add, buildsLeft_new, hbuild] at hleft
    rw [buildsLeft_add]
    split_ifs at hleft with hboth
    · exact .inr (by rw [hboth.1, hboth.2])
    · exact .inl (by omega)
  · rw [buildsLeft_new, hbuild, hconsumed, hevent]
    by_cases hboth : isNew = true ∧ handle = other
    · rw [if_pos hboth, if_pos ((hadds other).mpr hboth)]
      rfl
    · rw [if_neg hboth, if_neg (fun hadd => hboth ((hadds other).mp hadd))]
      rfl
  · rcases hnew with ⟨-, -, hcount⟩ | ⟨-, hcount⟩
    · omega
    · exact hcount.ge
  · obtain ⟨hisNew, rfl⟩ := (hadds other).mp hother
    rcases hnew with ⟨-, hhandle, hcount⟩ | ⟨hold, -⟩
    · exact ⟨hhandle, by omega⟩
    · exact absurd (hold.symm.trans hisNew) Bool.false_ne_true
  · rcases hnew with ⟨hisNew, hhandle, hcount⟩ | ⟨-, hcount⟩
    · rw [hcount] at hother
      rcases Nat.lt_succ_iff_lt_or_eq.mp hother with hlt | heq
      · exact .inl hlt
      · exact .inr (.inl ((hadds other).mpr ⟨hisNew, hhandle.trans heq.symm⟩))
    · rw [hcount] at hother
      exact .inl hother
  · split_ifs at hchild
    · rw [List.mem_singleton.mp hchild]
      trivial
    · exact absurd hchild List.not_mem_nil

theorem Makes.add {history : List MakeEvent} {state : MakeState} {task : AddTask} {rest : Multiset MakeTask}
    (h : Makes history state (([.add task] : List MakeTask) + rest))
    (hknown : ∀ other ∈ (([.add task] : List MakeTask) : Multiset MakeTask) + rest, other.Known state.count) :
    Makes (history ++ [.added task (task.run hashes state).1]) (task.run hashes state).2.2
      ((task.run hashes state).2.1 + rest) := by
  have hself : MakeTask.add task ∈ (([.add task] : List MakeTask) : Multiset MakeTask) + rest :=
    Multiset.mem_add.mpr (.inl (List.mem_singleton_self _))
  obtain ⟨hgroup, factorize, hfactorized, horiginEq, hcontextEq, hdependenciesEq⟩ := h.ready _ hself
  obtain ⟨sideEffectFree, hresult, hrun⟩ := task.run_spec hashes state
  obtain ⟨hidentified, hkeeps, module, hmodule, hidentity⟩ :=
    h.identified.addModule hashes task.identity sideEffectFree
  have honce := h.once.added (owed_eq_zero hknown) hashes task.identity sideEffectFree
  have hnew := @isNew_addModule hashes state task.identity sideEffectFree
  have hconnections := @connections_addModule hashes state task.identity sideEffectFree
  have hconnect : state.addOrConnect hashes task.originModule task.dependencies task.identity sideEffectFree =
      (task.dependencies.foldl (MakeState.connectDependency task.originModule
        (state.addModule hashes task.identity sideEffectFree).2.moduleHandle)
          (state.addModule hashes task.identity sideEffectFree).1,
        (state.addModule hashes task.identity sideEffectFree).2) := rfl
  rw [hconnect] at hrun
  have hle := state.count_addModule_le hashes task.identity sideEffectFree
  generalize state.addModule hashes task.identity sideEffectFree = added at *
  obtain ⟨middle, handle, isNew⟩ := added
  dsimp only at *
  obtain ⟨hmodules, hidentities, -, -⟩ :=
    middle.foldl_connectDependency task.originModule handle task.dependencies
  have htarget : handle < middle.count := ModuleGraph.Indexed.module_lt hmodule
  have horigin : ∀ origin, task.originModule = some origin → origin < middle.count :=
    fun origin hsome => (hknown _ hself origin hsome).trans_le hle
  have hconnected := @ConnectedOnce.foldl task.originModule handle _ (owed rest) _ task.dependencies middle honce
    htarget horigin hgroup.modules fun other => by
      rw [owed_add, owed_singleton]
      rfl
  have htargets : ∀ {next : ModuleGraph} {event : MakeEvent}, KeepsModules middle.moduleGraph next →
      ∀ connection ∈ (task.dependencies.foldl (MakeState.connectDependency task.originModule handle)
        middle).moduleGraph.connections, connection ∈ state.moduleGraph.connections ∨
          (connection.originModule ≠ none → Targets (history ++ [event]) next connection) := by
    intro next event hkept connection hconnection
    rcases mem_connections_foldl hconnection with hold | ⟨hsame, htargetEq, queued, hqueued, hlocated⟩
    · rw [hconnections] at hold
      exact .inl hold
    · obtain ⟨later, hlater, hlaterIdentity⟩ := hkept handle module hmodule
      refine .inr fun _ => ⟨factorize, task.result, List.mem_append_left _ hfactorized,
        horiginEq.trans hsame.symm, ⟨queued, hdependenciesEq ▸ hqueued, hlocated⟩,
        hdependenciesEq ▸ hgroup.requests, later, htargetEq ▸ hlater, ?_⟩
      rw [hlaterIdentity, hidentity, horiginEq, hcontextEq, hdependenciesEq]
  have hresolved : ∀ {next : ModuleGraph}, KeepsModules middle.moduleGraph next → ∀ identity other,
      (MakeEvent.added task ⟨handle, isNew⟩).Resolves identity other →
        ∃ module, next.module other = some module ∧ module.identity = identity := by
    rintro next hkept identity other ⟨rfl, rfl⟩
    obtain ⟨later, hlater, hlaterIdentity⟩ := hkept handle module hmodule
    exact ⟨later, hlater, hlaterIdentity.trans hidentity⟩
  generalize task.dependencies.foldl (MakeState.connectDependency task.originModule handle) middle = connected
    at *
  generalize task.run hashes state = ran at *
  obtain ⟨result, children, next⟩ := ran
  dsimp only at *
  have hcount : connected.count = middle.count := congrArg List.length hmodules
  have hkeepsConnected : KeepsModules middle.moduleGraph connected.moduleGraph := .of_modules hmodules
  subst hresult
  rcases hrun with ⟨hsuccess, rfl, resource, loader, rfl⟩ | ⟨hfailed, rfl, error, rfl⟩
  · refine h.extendNew rfl (hidentified.of_modules hmodules hidentities) hconnected (fun other => ?_)
      (fun other => rfl) (fun other => ?_) ?_ (hkeeps.trans hkeepsConnected) (htargets hkeepsConnected)
      (hresolved hkeepsConnected)
    · rw [buildsLeft_singleton]
      rfl
    · simp [MakeEvent.addsFactorized, hsuccess]
    · rw [hcount]
      exact hnew
  · have hfinal : ∀ f : Module → Module, (connected.moduleGraph.modules.modify handle f).length = middle.count :=
      fun f => (List.length_modify ..).trans hcount
    have hadds : ∀ other, (MakeEvent.added task ⟨handle, isNew⟩).addsFactorized other = false := by
      intro other
      simp [MakeEvent.addsFactorized, hfailed]
    have hkeepsFailed := hkeepsConnected.trans
      (keepsModules_modify handle fun module => (rfl : (failBuild hashes error "" module).identity = _))
    refine h.extend ((hidentified.of_modules hmodules hidentities).of_modify
        (fun module => (rfl : (failBuild hashes error "" module).identity = _)) rfl rfl) ?_
      (fun other => ?_) (hle.trans_eq (hfinal _).symm) (fun other hother => ?_) (fun other hother => ?_)
      (fun child hchild => absurd hchild List.not_mem_nil) (hkeeps.trans hkeepsFailed) (htargets hkeepsFailed)
      (hresolved hkeepsFailed)
    · -- A new module that fails at once is not to be built.
      have hdropped := @ConnectedOnce.congr _ _ (owed rest) _ (fun other => 0 < buildsLeft rest other) hconnected
        (fun _ => rfl) fun other hleft => .inl (by rw [buildsLeft_add]; omega)
      refine hdropped.failModule handle (fun _ => rfl) (fun module => needed_newContent rfl)
        (fun module herror => by cases herror) (fun other hleft => ?_) fun other => ?_
      · rw [buildsLeft_add] at hleft
        exact (zero_add _).subst hleft
      · rw [owed_add]
        exact zero_add _
    · rw [hadds, buildsLeft_singleton]
      rfl
    · rw [hadds] at hother
      cases hother
    · have hlt : other < middle.count := hother.trans_eq (hfinal _)
      rcases hnew with ⟨hisNew, hhandle, hmiddle⟩ | ⟨-, hmiddle⟩
      · rw [hmiddle] at hlt
        rcases Nat.lt_succ_iff_lt_or_eq.mp hlt with hlt | heq
        · exact .inl hlt
        · exact .inr (.inr ⟨task, by rw [hisNew, heq, hhandle], hfailed⟩)
      · rw [hmiddle] at hlt
        exact .inl hlt

/-- A step that neither adds a module nor builds one. -/
theorem Makes.same {history : List MakeEvent} {event : MakeEvent} {state next : MakeState}
    {consumed produced : List MakeTask} {rest : Multiset MakeTask} (h : Makes history state (consumed + rest))
    (hsame : state.SameModules next) (howed : ∀ handle, owed produced handle = owed consumed handle)
    (hbuilds : ∀ handle, buildsLeft produced handle + (if event.builds handle = true then 1 else 0) =
      buildsLeft consumed handle)
    (hadds : ∀ handle, event.addsFactorized handle = false)
    (hresolves : ∀ identity handle, ¬event.Resolves identity handle)
    (hready : ∀ task ∈ produced, task.Ready (history ++ [event])) :
    Makes (history ++ [event]) next (produced + rest) := by
  have hcount := hsame.count
  have hmodules : next.moduleGraph.modules = state.moduleGraph.modules := by rw [hsame.moduleGraph]
  refine h.extend (h.identified.of_modules hmodules hsame.modulesByIdentity) ?_ (fun handle => ?_) hcount.ge
    (fun handle hadd => ?_) (fun handle hlt => .inl (hlt.trans_eq hcount)) hready (.of_modules hmodules)
    (fun connection hconnection => ?_) fun identity handle h => absurd h (hresolves identity handle)
  · rw [hsame.moduleGraph]
    refine h.once.congr (fun handle => by rw [owed_add, owed_add, howed]) fun handle hleft => ?_
    have hbuild := hbuilds handle
    rw [buildsLeft_add] at hleft ⊢
    omega
  · rw [hadds]
    exact hbuilds handle
  · rw [hadds] at hadd
    cases hadd
  · rw [hsame.moduleGraph] at hconnection
    exact .inl hconnection

/-- A build that is left is the only one of its module, and has not run. -/
theorem Makes.lt_of_build {history : List MakeEvent} {state : MakeState} {pending : Multiset MakeTask}
    (h : Makes history state pending) {task : BuildTask} {rest : Multiset MakeTask}
    (hpending : pending = ([.build task] : List MakeTask) + rest) :
    buildsLeft rest task.moduleHandle = 0 := by
  have hbuilds := h.builds task.moduleHandle
  have hle := h.added_le_one task.moduleHandle
  have hself : (MakeTask.build task).builds task.moduleHandle = true := by simp [MakeTask.builds]
  rw [hpending, buildsLeft_add, buildsLeft_singleton, if_pos hself] at hbuilds
  omega

theorem Makes.built {history : List MakeEvent} {state next : MakeState} {task : BuildTask}
    {children : List MakeTask} {rest : Multiset MakeTask}
    (h : Makes history state (([.build task] : List MakeTask) + rest)) {f : Module → Module}
    (hidentity : ∀ module, (f module).identity = module.identity)
    (hmodules : next.moduleGraph = { state.moduleGraph with
      modules := state.moduleGraph.modules.modify task.moduleHandle f })
    (hidentities : next.modulesByIdentity = state.modulesByIdentity)
    (hbuilds : ∀ handle, buildsLeft children handle = 0)
    (hready : ∀ child ∈ children, child.Ready (history ++ [.built task]))
    (honce : ConnectedOnce next.moduleGraph (owed (children + rest)) fun handle => 0 < buildsLeft rest handle) :
    Makes (history ++ [.built task]) next (children + rest) := by
  have hcount : next.count = state.count := by
    rw [MakeState.count, hmodules]
    exact List.length_modify ..
  refine h.extend (h.identified.of_modify hidentity (congrArg ModuleGraph.modules hmodules) hidentities) ?_
    (fun handle => ?_) hcount.ge (fun handle hadd => by cases hadd) (fun handle hlt => .inl (hlt.trans_eq hcount))
    hready ?_ (fun connection hconnection => ?_) fun identity handle hresolves => hresolves.elim
  · refine honce.congr (fun _ => rfl) fun handle hleft => ?_
    rw [buildsLeft_add, hbuilds, zero_add] at hleft
    exact hleft
  · rw [hbuilds, buildsLeft_singleton]
    exact Nat.add_comm ..
  · rw [hmodules]
    exact keepsModules_modify _ hidentity
  · rw [hmodules] at hconnection
    exact .inl hconnection

/-- The groups of a module have one request each. -/
theorem groupReady_of_run {task : ProcessDependenciesTask} {child : MakeTask} (h : child ∈ task.run) :
    ∃ factorize, child = .factorize factorize ∧ GroupReady factorize.dependencies := by
  rw [ProcessDependenciesTask.run] at h
  obtain ⟨⟨key, dependencies⟩, hgroup, rfl⟩ := List.mem_map.mp h
  obtain ⟨hok, -⟩ := groupDependenciesForFactorization_spec task.dependencies
  obtain ⟨-, hkeys⟩ := hok (key, dependencies) hgroup
  refine ⟨_, rfl, fun queued hqueued => ?_, fun queued hqueued other hother => ?_⟩
  · have hsome := hkeys queued hqueued
    by_contra hnot
    rw [forDependency_eq_none.mpr (Bool.not_eq_true _ ▸ hnot)] at hsome
    cases hsome
  · obtain ⟨module, hmodule, hrequest⟩ := request_of_forDependency (hkeys queued hqueued)
    obtain ⟨module', hmodule', hrequest'⟩ := request_of_forDependency (hkeys other hother)
    rw [hmodule, hmodule']
    exact congrArg some ((String.append_right_inj _).mp (hrequest.trans hrequest'.symm))

theorem buildsLeft_eq_zero {tasks : List MakeTask} {handle : ModuleHandle}
    (h : ∀ task ∈ tasks, task.builds handle = false) : buildsLeft tasks handle = 0 := by
  rw [buildsLeft, Multiset.countP_eq_zero]
  intro task htask
  rw [h task htask]
  exact Bool.false_ne_true

/-- A build that is left, when it ends with content. -/
theorem Makes.finishBuild {history : List MakeEvent} {state : MakeState} {task : BuildTask}
    {rest : Multiset MakeTask} (h : Makes history state (([.build task] : List MakeTask) + rest))
    (hknown : task.moduleHandle < state.count) (issuerContext : PathBuf) (builtContent : BuiltModuleContent) :
    Makes (history ++ [.built task]) (state.finishBuild task.moduleHandle builtContent)
      ((processDependenciesTask task.moduleHandle issuerContext builtContent.parsed).toList + rest) := by
  have hrest := h.lt_of_build rfl
  have hself : (MakeTask.build task).builds task.moduleHandle = true := by simp [MakeTask.builds]
  have hmodule : state.moduleGraph.module task.moduleHandle = some (state.moduleGraph.modules[task.moduleHandle]) :=
    List.getElem?_eq_getElem hknown
  have howed : ∀ other, owed (processDependenciesTask task.moduleHandle issuerContext
      builtContent.parsed).toList other =
        if task.moduleHandle = other then located (queuedDependencies builtContent.parsed) else 0 := by
    intro other
    rw [processDependenciesTask]
    split_ifs with hempty hsame hsame
    · rw [List.isEmpty_iff.mp hempty]
      rfl
    · rfl
    · exact (owed_singleton ..).trans (if_pos hsame)
    · exact (owed_singleton ..).trans (if_neg hsame)
  refine h.built (fun module => (rfl : (module.finishBuildContent builtContent).identity = _)) rfl rfl
    (fun handle => buildsLeft_eq_zero fun child hchild => ?_) (fun child hchild => ?_) ?_
  · rw [processDependenciesTask] at hchild
    split_ifs at hchild
    · exact absurd hchild List.not_mem_nil
    · rw [List.mem_singleton.mp hchild]
      rfl
  · rw [processDependenciesTask] at hchild
    split_ifs at hchild
    · exact absurd hchild List.not_mem_nil
    · rw [List.mem_singleton.mp hchild]
      trivial
  · refine h.once.finishModule (fun _ => rfl) hmodule ?_ (fun other hleft => ⟨?_, ?_⟩) fun other => ?_
    · rw [buildsLeft_add, buildsLeft_singleton, if_pos hself]
      exact Nat.lt_add_right _ Nat.one_pos
    · rw [buildsLeft_add]
      exact Nat.lt_add_left _ hleft
    · rintro rfl
      exact absurd hrest hleft.ne'
    · rw [owed_add, owed_add, howed, owed_singleton, ← located_queuedDependencies]
      by_cases hsame : task.moduleHandle = other
      · rw [if_pos hsame, if_pos hsame.symm]
        exact congrArg _ (zero_add _).symm
      · rw [if_neg hsame, if_neg (Ne.symm hsame)]
        exact congrArg _ (zero_add _).symm

theorem Makes.failModule {history : List MakeEvent} {state : MakeState} {task : BuildTask}
    {rest : Multiset MakeTask} (h : Makes history state (([.build task] : List MakeTask) + rest))
    (error : Error) (source : String) :
    Makes (history ++ [.built task]) (state.failModule hashes task.moduleHandle error source)
      (([] : List MakeTask) + rest) := by
  refine h.built (fun module => (rfl : (failBuild hashes error source module).identity = _)) rfl rfl
    (fun _ => rfl) (fun child hchild => absurd hchild List.not_mem_nil) ?_
  refine h.once.failModule task.moduleHandle (fun _ => rfl) (fun module => needed_newContent rfl)
    (fun module herror => by cases herror) (fun other hleft => ?_) fun other => ?_
  · rw [buildsLeft_add]
    exact Nat.lt_add_left _ hleft
  · rw [owed_add, owed_add, owed_singleton]
    rfl

/-- A loader asks for a module. -/
theorem Makes.requested {history : List MakeEvent} {state next : MakeState} {rest : Multiset MakeTask}
    (h : Makes history state rest) (hknown : ∀ task ∈ rest, task.Known state.count) (origin : ModuleHandle)
    (factorized : FactorizedModule)
    (hnext : (state.addModule hashes factorized.identity factorized.sideEffectFree).1.SameModules next) :
    Makes
      (history ++ [.requested origin factorized
        (state.addModule hashes factorized.identity factorized.sideEffectFree).2]) next
      ((if (state.addModule hashes factorized.identity factorized.sideEffectFree).2.isNew then
        [.build ⟨(state.addModule hashes factorized.identity factorized.sideEffectFree).2.moduleHandle,
          factorized.identity, factorized.resource, factorized.loader⟩]
      else [] : List MakeTask) + rest) := by
  obtain ⟨hidentified, hkeeps, module, hmodule, hidentity⟩ :=
    h.identified.addModule hashes factorized.identity factorized.sideEffectFree
  have honce := h.once.added (owed_eq_zero hknown) hashes factorized.identity factorized.sideEffectFree
  have hnew := @isNew_addModule hashes state factorized.identity factorized.sideEffectFree
  have hconnections := @connections_addModule hashes state factorized.identity factorized.sideEffectFree
  have hle := state.count_addModule_le hashes factorized.identity factorized.sideEffectFree
  have hcount := hnext.count
  generalize state.addModule hashes factorized.identity factorized.sideEffectFree = added at *
  obtain ⟨middle, handle, isNew⟩ := added
  dsimp only at *
  have hmodules : next.moduleGraph.modules = middle.moduleGraph.modules := by rw [hnext.moduleGraph]
  have hnone : (([] : List MakeTask) : Multiset MakeTask) + rest = rest := zero_add rest
  refine @Makes.extendNew history _ state next [] rest (hnone.symm ▸ h) handle isNew _ rfl
    (hidentified.of_modules hmodules hnext.modulesByIdentity) ?_ (fun _ => rfl) (fun _ => rfl) (fun other => ?_)
    ?_ (hkeeps.trans (.of_modules hmodules)) (fun connection hconnection => ?_) ?_
  · rw [hnext.moduleGraph, hnone]
    exact honce
  · simp [MakeEvent.addsFactorized]
  · rw [hcount]
    exact hnew
  · rw [hnext.moduleGraph, hconnections] at hconnection
    exact .inl hconnection
  · rintro identity other ⟨rfl, rfl⟩
    exact ⟨module, by rw [hnext.moduleGraph]; exact hmodule, hidentity⟩

theorem owed_of_connectsNothing {tasks : Multiset MakeTask} (h : ∀ task ∈ tasks, task.ConnectsNothing)
    (handle : ModuleHandle) : owed tasks handle = 0 := by
  refine Multiset.sum_eq_zero fun owes howes => ?_
  obtain ⟨task, htask, rfl⟩ := Multiset.mem_map.mp howes
  obtain ⟨process, rfl, hnone⟩ := h task htask
  have hlocated : located process.dependencies = 0 :=
    congrArg _ (List.filterMap_eq_nil_iff.mpr fun queued hqueued => by
      simp [QueuedDependency.located, hnone queued hqueued])
  rw [MakeTask.owes, hlocated, ite_self]

theorem buildsLeft_of_connectsNothing {tasks : Multiset MakeTask} (h : ∀ task ∈ tasks, task.ConnectsNothing)
    (handle : ModuleHandle) : buildsLeft tasks handle = 0 := by
  refine Multiset.countP_eq_zero.mpr fun task htask => ?_
  obtain ⟨process, rfl, -⟩ := h task htask
  exact Bool.false_ne_true

/-- **What every step keeps.** -/
theorem Makes.effect {history : List MakeEvent} {state next : MakeState} {consumed produced : List MakeTask}
    {event : MakeEvent} {rest : Multiset MakeTask} (h : Makes history state (consumed + rest))
    (hknown : ∀ task ∈ (consumed : Multiset MakeTask) + rest, task.Known state.count)
    (heffect : @Effect hashes state consumed event produced next) :
    Makes (history ++ [event]) next (produced + (event.lost + rest)) := by
  have hnothing : (([] : List MakeTask) : Multiset MakeTask) + rest = rest := zero_add rest
  have hself : ∀ {task : MakeTask}, task ∈ consumed → task ∈ (consumed : Multiset MakeTask) + rest :=
    fun htask => Multiset.mem_add.mpr (.inl htask)
  cases heffect with
  | ran hruns =>
    cases hruns with
    | factorize task result _ =>
      rw [show (MakeEvent.factorized task result).lost = [] from rfl, hnothing]
      refine h.same ⟨rfl, rfl⟩ (fun handle => ?_) (fun handle => rfl) (fun handle => rfl) (fun _ _ => id)
        fun child hchild => ?_
      · rw [owed_singleton, owed_singleton]
        rfl
      · rw [List.mem_singleton.mp hchild]
        exact ⟨h.ready _ (hself List.mem_cons_self), task,
          List.mem_append_right _ (List.mem_singleton_self _), rfl, rfl, rfl⟩
    | add task =>
      rw [show (MakeEvent.added task (task.run hashes state).1).lost = [] from rfl, hnothing]
      exact h.add hknown
    | @finishBuild task issuerContext hparent builtContent =>
      rw [show (MakeEvent.built task).lost = [] from rfl, hnothing]
      exact h.finishBuild (hknown _ (hself List.mem_cons_self)) issuerContext builtContent
    | failModule task hparent error source =>
      rw [show (MakeEvent.built task).lost = [] from rfl, hnothing]
      exact h.failModule error source
    | processDependencies task =>
      rw [show (MakeEvent.processed task).lost = [] from rfl, hnothing]
      refine h.same ⟨rfl, rfl⟩ (fun handle => ?_) (fun handle => ?_) (fun handle => rfl) (fun _ _ => id)
        fun child hchild => ?_
      · rw [owed_run, owed_singleton]
      · rw [buildsLeft_singleton]
        refine buildsLeft_eq_zero fun child hchild => ?_
        obtain ⟨factorize, rfl, -⟩ := groupReady_of_run hchild
        rfl
      · obtain ⟨factorize, rfl, hgroup⟩ := groupReady_of_run hchild
        exact hgroup
  | @failed inRequest task error dropped _ hfails =>
    -- What a failure loses stays owed, and a build that is dropped stays left; only a build that failed has ended.
    rw [show ∀ left right : Multiset MakeTask, (([] : List MakeTask) : Multiset MakeTask) + (left + right) =
      left + right from fun left right => zero_add _]
    have hready : ∀ child ∈ (MakeEvent.failed inRequest task dropped).lost,
        child.Ready (history ++ [.failed inRequest task dropped]) := by
      intro child hchild
      refine (h.ready child (hself ?_)).mono _
      cases hfails with
      | factorize => exact hchild
      | build => exact List.mem_cons_of_mem _ hchild
    refine h.same ⟨rfl, rfl⟩ (fun handle => ?_) (fun handle => ?_) (fun handle => rfl) (fun _ _ => id) hready
    · cases hfails with
      | factorize => rfl
      | build task =>
        have hcons : ((MakeTask.build task :: dropped : List MakeTask) : Multiset MakeTask) =
            ([.build task] : List MakeTask) + dropped := rfl
        rw [hcons, owed_add, owed_singleton]
        exact (zero_add _).symm
    · cases hfails with
      | factorize => rfl
      | build task =>
        have hcons : ((MakeTask.build task :: dropped : List MakeTask) : Multiset MakeTask) =
            ([.build task] : List MakeTask) + dropped := rfl
        rw [hcons, buildsLeft_add, buildsLeft_singleton]
        exact Nat.add_comm ..
  | @requested origin factorized _ _ hnext =>
    rw [hnothing] at h hknown
    rw [show (MakeEvent.requested origin factorized
      (state.addModule hashes factorized.identity factorized.sideEffectFree).2).lost = [] from rfl, hnothing]
    exact h.requested hknown origin factorized hnext
  | other hsame =>
    rw [show MakeEvent.other.lost = [] from rfl, hnothing]
    exact h.same hsame (fun _ => rfl) (fun _ => rfl) (fun _ => rfl) (fun _ _ => id)
      fun child hchild => absurd hchild List.not_mem_nil

/-- What is lost had been there. -/
theorem Effect.mem_of_lost {state next : MakeState} {consumed produced : List MakeTask} {event : MakeEvent}
    (h : @Effect hashes state consumed event produced next) {task : MakeTask} (htask : task ∈ event.lost) :
    task ∈ consumed := by
  cases h with
  | ran hruns => cases hruns <;> exact absurd htask List.not_mem_nil
  | failed _ _ _ hfails =>
    cases hfails with
    | factorize => exact htask
    | build => exact List.mem_cons_of_mem _ htask
  | requested => exact absurd htask List.not_mem_nil
  | other => exact absurd htask List.not_mem_nil

/-- The invariant at the start. -/
theorem makes_start (context : PathBuf) (requests : List String) :
    Makes [] (MakeProgress.start context requests).state (MakeProgress.start context requests).pending := by
  rw [MakeProgress.start, MakeProgress.state_scheduleAll, MakeProgress.pending_scheduleAll]
  have hentry : ∀ task ∈ ((requests.zipIdx.map fun place =>
      MakeTask.factorize ⟨.normal, none, context,
        [⟨some place.2, none, none, .entry ⟨{ request := place.1 }⟩⟩]⟩ : List MakeTask) : Multiset MakeTask) +
          ({} : MakeProgress).pending,
      ∃ entryIndex request, task = .factorize ⟨.normal, none, context,
        [⟨some entryIndex, none, none, .entry ⟨{ request }⟩⟩]⟩ := by
    intro task htask
    rcases Multiset.mem_add.mp htask with htask | htask
    · obtain ⟨place, -, rfl⟩ := List.mem_map.mp htask
      exact ⟨_, _, rfl⟩
    · exact absurd htask (Multiset.notMem_zero task)
  change Makes [] _ (((requests.zipIdx.map fun place => MakeTask.factorize ⟨.normal, none, context,
    [⟨some place.2, none, none, .entry ⟨{ request := place.1 }⟩⟩]⟩ : List MakeTask) : Multiset MakeTask) +
      ({} : MakeProgress).pending)
  generalize (((requests.zipIdx.map fun place => MakeTask.factorize ⟨.normal, none, context,
    [⟨some place.2, none, none, .entry ⟨{ request := place.1 }⟩⟩]⟩ : List MakeTask) : Multiset MakeTask) +
      ({} : MakeProgress).pending) = pending at *
  have howed : ∀ handle, owed pending handle = 0 := by
    intro handle
    refine Multiset.sum_eq_zero fun owes howes => ?_
    obtain ⟨task, htask, rfl⟩ := Multiset.mem_map.mp howes
    obtain ⟨entryIndex, request, rfl⟩ := hentry task htask
    rfl
  have hbuilds : ∀ handle, buildsLeft pending handle = 0 := by
    intro handle
    refine Multiset.countP_eq_zero.mpr fun task htask => ?_
    obtain ⟨entryIndex, request, rfl⟩ := hentry task htask
    exact Bool.false_ne_true
  refine
    { identified := ⟨fun handle module hmodule => absurd (ModuleGraph.Indexed.module_lt hmodule) (Nat.not_lt_zero _),
        fun identity handle hlookup => by cases hlookup⟩
      once := ?_
      builds := hbuilds
      added_le_one := fun handle => Nat.zero_le _
      added := fun handle hlt => absurd hlt (Nat.not_lt_zero _)
      not_added := fun handle _ => rfl
      ready := fun task htask => ?_
      targets := fun connection hconnection => absurd hconnection List.not_mem_nil
      resolved := fun event hevent => absurd hevent List.not_mem_nil }
  · refine
      { indexed := .empty
        account := fun handle module hmodule => absurd (ModuleGraph.Indexed.module_lt hmodule) (Nat.not_lt_zero _)
        unbuilt_needed := fun handle module hmodule =>
          absurd (ModuleGraph.Indexed.module_lt hmodule) (Nat.not_lt_zero _)
        locations := fun handle => ?_ }
    rw [howed]
    exact Multiset.nodup_zero
  · obtain ⟨entryIndex, request, rfl⟩ := hentry task htask
    refine ⟨fun queued hqueued => ?_, fun queued hqueued other hother => ?_⟩
    · rw [List.mem_singleton.mp hqueued]
      rfl
    · rw [List.mem_singleton.mp hqueued, List.mem_singleton.mp hother]

end Unpack.Make
