import Unpack.Make
import Mathlib.Algebra.BigOperators.Group.List.Basic
import Mathlib.Algebra.Order.Group.Multiset
import Mathlib.Tactic.Abel

/-! What a step of Make does to the tasks that are left and to the shared state, wherever in the queues and in
the requests it happens. -/

namespace Unpack.Make

variable {hashes : ContentHashes}

def BackgroundMakeTask.pending : BackgroundMakeTask → Multiset MakeTask
  | running task => {task}
  | ended (.ok children) => children
  | ended (.error _) => 0

def RequestPhase.pending : RequestPhase → Multiset MakeTask
  | running _ _ current queue => (current.toList : Multiset MakeTask) + queue
  | _ => 0

namespace MakeProgress

/-- Every task that has not ended, and every task that has been made by one that has. -/
def pending (progress : MakeProgress) : Multiset MakeTask :=
  (progress.mainQueue : Multiset MakeTask) + (progress.background.map (·.pending)).sum +
    (progress.requests.map (·.phase.pending)).sum

@[simp]
theorem state_schedule (progress : MakeProgress) (task : MakeTask) :
    (progress.schedule task).state = progress.state := by
  unfold schedule
  split <;> rfl

theorem pending_schedule (progress : MakeProgress) (task : MakeTask) :
    (progress.schedule task).pending = {task} + progress.pending := by
  unfold schedule
  split
  · simp only [pending, List.map_append, List.map_cons, List.map_nil, List.sum_append, List.sum_cons,
      List.sum_nil, BackgroundMakeTask.pending]
    abel
  · simp only [pending, ← Multiset.coe_add, Multiset.coe_singleton]
    abel

@[simp]
theorem state_scheduleAll (progress : MakeProgress) (tasks : List MakeTask) :
    (progress.scheduleAll tasks).state = progress.state := by
  induction tasks generalizing progress with
  | nil => rfl
  | cons task tasks ih => exact (ih _).trans (state_schedule ..)

@[simp]
theorem requests_scheduleAll (progress : MakeProgress) (tasks : List MakeTask) :
    (progress.scheduleAll tasks).requests = progress.requests := by
  induction tasks generalizing progress with
  | nil => rfl
  | cons task tasks ih =>
    refine (ih _).trans ?_
    unfold schedule
    split <;> rfl

theorem pending_scheduleAll (progress : MakeProgress) (tasks : List MakeTask) :
    (progress.scheduleAll tasks).pending = tasks + progress.pending := by
  induction tasks generalizing progress with
  | nil => exact (zero_add _).symm
  | cons task tasks ih =>
    calc (progress.scheduleAll (task :: tasks)).pending
        = tasks + (progress.schedule task).pending := ih _
      _ = tasks + ({task} + progress.pending) := by rw [pending_schedule]
      _ = (task :: tasks : List MakeTask) + progress.pending := by
          rw [← Multiset.cons_coe, ← Multiset.singleton_add]
          abel

end MakeProgress

/-- The same modules, known by the same identities. -/
structure MakeState.SameModules (state next : MakeState) : Prop where
  moduleGraph : next.moduleGraph = state.moduleGraph
  modulesByIdentity : next.modulesByIdentity = state.modulesByIdentity

/-- The tasks that a step ends, the tasks that it makes, and what it does to the state. -/
inductive Effect : MakeState → List MakeTask → MakeEvent → List MakeTask → MakeState → Prop
  | ran {task : MakeTask} {event : MakeEvent} {children : List MakeTask} {state next : MakeState}
      (h : Runs hashes task state event children next) : Effect state [task] event children next
  | failed (inRequest : Bool) {task : MakeTask} {error : Error} (dropped : List MakeTask) (state : MakeState)
      (h : Fails task error) : Effect state (task :: dropped) (.failed inRequest task dropped) [] state
  | requested (origin : ModuleHandle) (factorized : FactorizedModule) {state next : MakeState}
      (hnext : (state.addModule hashes factorized.identity factorized.sideEffectFree).1.SameModules next) :
      Effect state []
        (.requested origin factorized
          (state.addModule hashes factorized.identity factorized.sideEffectFree).2)
        (if (state.addModule hashes factorized.identity factorized.sideEffectFree).2.isNew then
          [.build ⟨(state.addModule hashes factorized.identity factorized.sideEffectFree).2.moduleHandle,
            factorized.identity, factorized.resource, factorized.loader⟩]
        else []) next
  | other {state next : MakeState} (h : state.SameModules next) : Effect state [] .other [] next

namespace MakeState

variable (hashes : ContentHashes) (state : MakeState) (identity : ModuleIdentity) (sideEffectFree : Option Bool)

/-- How many modules there are, which is the handle of the next one. -/
def count (state : MakeState) : Nat := state.moduleGraph.modules.length

/-- A module with this identity is there already, or one is added. -/
theorem addModule_cases :
    (∃ handle, state.modulesByIdentity.lookup identity = some handle ∧
      state.addModule hashes identity sideEffectFree = (state, ⟨handle, false⟩)) ∨
    state.modulesByIdentity.lookup identity = none ∧
      state.addModule hashes identity sideEffectFree =
        ({ state with
            moduleGraph := state.moduleGraph.addModule fun handle =>
              { handle, identity, builtContent := hashes.newContent {} ""
                factorySideEffectFree := sideEffectFree }
            modulesByIdentity := state.modulesByIdentity.insert identity state.count
            buildingModules := insert state.count state.buildingModules },
          ⟨state.count, true⟩) := by
  unfold addModule
  cases h : state.modulesByIdentity.lookup identity with
  | none => exact .inr ⟨rfl, rfl⟩
  | some handle => exact .inl ⟨handle, rfl, rfl⟩

theorem count_addModule_le :
    state.count ≤ (state.addModule hashes identity sideEffectFree).1.count := by
  rcases state.addModule_cases hashes identity sideEffectFree with ⟨_, -, h⟩ | ⟨-, h⟩
  · rw [h]
  · rw [h]
    simp [count, ModuleGraph.addModule]

variable (originModule : Option ModuleHandle) (moduleHandle : ModuleHandle) (dependencies : List QueuedDependency)

/-- Connecting leaves the modules as they are. -/
theorem foldl_connectDependency :
    let next := dependencies.foldl (connectDependency originModule moduleHandle) state
    next.moduleGraph.modules = state.moduleGraph.modules ∧
      next.modulesByIdentity = state.modulesByIdentity ∧ next.loaderWaits = state.loaderWaits ∧
        next.buildingModules = state.buildingModules := by
  induction dependencies generalizing state with
  | nil => exact ⟨rfl, rfl, rfl, rfl⟩
  | cons dependency dependencies ih => exact ih (connectDependency originModule moduleHandle state dependency)

end MakeState

def MakeTask.Known (count : Nat) : MakeTask → Prop
  | factorize task => ∀ origin, task.originModule = some origin → origin < count
  | add task => ∀ origin, task.originModule = some origin → origin < count
  | build task => task.moduleHandle < count
  | processDependencies task => task.originModule < count

theorem MakeTask.Known.mono {count count' : Nat} (hle : count ≤ count') {task : MakeTask}
    (h : task.Known count) : task.Known count' := by
  cases task with
  | factorize task => exact fun origin horigin => (h origin horigin).trans_le hle
  | add task => exact fun origin horigin => (h origin horigin).trans_le hle
  | build task => exact Nat.lt_of_lt_of_le h hle
  | processDependencies task => exact Nat.lt_of_lt_of_le h hle

/-- The state knows every module that it speaks of. -/
structure MakeState.Known (state : MakeState) : Prop where
  identities : ∀ identity handle, state.modulesByIdentity.lookup identity = some handle → handle < state.count
  waits : ∀ module next, state.loaderWaits.lookup module = some next → module < state.count

structure MakeProgress.Known (progress : MakeProgress) : Prop where
  state : progress.state.Known
  pending : ∀ task ∈ progress.pending, task.Known progress.state.count
  origins : ∀ request ∈ progress.requests, request.originModule < progress.state.count

theorem MakeState.Known.addModule {state : MakeState} (h : state.Known)
    (hashes : ContentHashes) (identity : ModuleIdentity)
    (sideEffectFree : Option Bool) :
    (state.addModule hashes identity sideEffectFree).1.Known ∧
      (state.addModule hashes identity sideEffectFree).2.moduleHandle <
        (state.addModule hashes identity sideEffectFree).1.count := by
  rcases state.addModule_cases hashes identity sideEffectFree with ⟨handle, hlookup, heq⟩ | ⟨-, heq⟩
  · rw [heq]
    exact ⟨h, h.identities identity handle hlookup⟩
  · have hcount : (state.addModule hashes identity sideEffectFree).1.count = state.count + 1 := by
      rw [heq]
      simp [count, ModuleGraph.addModule]
    refine ⟨⟨fun other handle hlookup => ?_, fun module next hlookup => ?_⟩, ?_⟩
    · rw [hcount]
      rw [heq] at hlookup
      by_cases hother : other = identity
      · subst hother
        rw [AList.lookup_insert] at hlookup
        cases hlookup
        exact Nat.lt_succ_self _
      · rw [AList.lookup_insert_ne hother] at hlookup
        exact Nat.lt_succ_of_lt (h.identities other handle hlookup)
    · rw [hcount]
      rw [heq] at hlookup
      exact Nat.lt_succ_of_lt (h.waits module next hlookup)
    · rw [hcount, heq]
      exact Nat.lt_succ_self _

/-- Neither the end of a build nor a connection changes which modules there are. -/
theorem MakeState.Known.of_count {state next : MakeState} (h : state.Known) (hcount : next.count = state.count)
    (hidentities : next.modulesByIdentity = state.modulesByIdentity)
    (hwaits : next.loaderWaits = state.loaderWaits) : next.Known where
  identities identity handle hlookup := by
    rw [hidentities] at hlookup
    rw [hcount]
    exact h.identities identity handle hlookup
  waits module other hlookup := by
    rw [hwaits] at hlookup
    rw [hcount]
    exact h.waits module other hlookup

theorem MakeState.Known.addOrConnect {state : MakeState} (h : state.Known) (hashes : ContentHashes)
    (originModule : Option ModuleHandle) (dependencies : List QueuedDependency) (identity : ModuleIdentity)
    (sideEffectFree : Option Bool) :
    (state.addOrConnect hashes originModule dependencies identity sideEffectFree).1.Known ∧
      state.count ≤ (state.addOrConnect hashes originModule dependencies identity sideEffectFree).1.count ∧
      (state.addOrConnect hashes originModule dependencies identity sideEffectFree).2.moduleHandle <
        (state.addOrConnect hashes originModule dependencies identity sideEffectFree).1.count := by
  obtain ⟨hadded, hhandle⟩ := h.addModule hashes identity sideEffectFree
  have hle := state.count_addModule_le hashes identity sideEffectFree
  obtain ⟨hmodules, hidentities, hwaits, -⟩ := MakeState.foldl_connectDependency
    (state.addModule hashes identity sideEffectFree).1 originModule
    (state.addModule hashes identity sideEffectFree).2.moduleHandle dependencies
  have hcount := congrArg List.length hmodules
  exact ⟨hadded.of_count hcount hidentities hwaits, hle.trans_eq hcount.symm, hhandle.trans_eq hcount.symm⟩

theorem known_processDependenciesTask {count : Nat} {moduleHandle : ModuleHandle} {issuerContext : PathBuf}
    {parsed : ParsedModule} (h : moduleHandle < count) :
    ∀ child ∈ (processDependenciesTask moduleHandle issuerContext parsed).toList, child.Known count := by
  intro child hchild
  rw [processDependenciesTask] at hchild
  split_ifs at hchild
  · exact absurd hchild List.not_mem_nil
  · rw [List.mem_singleton.mp hchild]
    exact h

theorem known_run {count : Nat} {task : ProcessDependenciesTask} (h : task.originModule < count) :
    ∀ child ∈ task.run, child.Known count := by
  intro child hchild
  rw [ProcessDependenciesTask.run] at hchild
  obtain ⟨⟨key, dependencies⟩, -, rfl⟩ := List.mem_map.mp hchild
  intro origin horigin
  exact Option.some.inj horigin ▸ h

theorem Runs.known {task : MakeTask} {state next : MakeState} {event : MakeEvent} {children : List MakeTask}
    (h : Runs hashes task state event children next) (hstate : state.Known) (htask : task.Known state.count) :
    next.Known ∧ state.count ≤ next.count ∧ ∀ child ∈ children, child.Known next.count := by
  cases h with
  | factorize task result _ =>
    refine ⟨hstate, le_rfl, fun child hchild => ?_⟩
    rw [List.mem_singleton.mp hchild]
    exact htask
  | add task =>
    rw [AddTask.run]
    cases task.result with
    | success factorized =>
      obtain ⟨hnext, hle, hhandle⟩ := hstate.addOrConnect hashes task.originModule task.dependencies
        factorized.identity factorized.sideEffectFree
      refine ⟨hnext, hle, fun child hchild => ?_⟩
      dsimp only at hchild
      split_ifs at hchild
      · rw [List.mem_singleton.mp hchild]
        exact hhandle
      · exact absurd hchild List.not_mem_nil
    | failed error =>
      obtain ⟨hnext, hle, -⟩ := hstate.addOrConnect hashes task.originModule task.dependencies
        task.failedIdentity none
      have hcount : ∀ state : MakeState, ∀ handle, (state.failModule hashes handle error "").count = state.count :=
        fun state handle => List.length_modify ..
      exact ⟨hnext.of_count (hcount ..) rfl rfl, hle.trans_eq (hcount ..).symm,
        fun child hchild => absurd hchild List.not_mem_nil⟩
  | finishBuild task hparent builtContent =>
    have hcount : (state.finishBuild task.moduleHandle builtContent).count = state.count :=
      List.length_modify ..
    refine ⟨hstate.of_count hcount rfl rfl, hcount.ge, ?_⟩
    rw [hcount]
    exact known_processDependenciesTask htask
  | failModule task hparent error source =>
    have hcount : (state.failModule hashes task.moduleHandle error source).count = state.count :=
      List.length_modify ..
    exact ⟨hstate.of_count hcount rfl rfl, hcount.ge, fun child hchild => absurd hchild List.not_mem_nil⟩
  | processDependencies task => exact ⟨hstate, le_rfl, known_run htask⟩

namespace MakeProgress

variable {progress : MakeProgress}

/-- The tasks that are left beside one of the background, or beside one request. -/
def besideBackground (progress : MakeProgress) (before after : List BackgroundMakeTask) : Multiset MakeTask :=
  (progress.mainQueue : Multiset MakeTask) +
    ((before.map (·.pending)).sum + (after.map (·.pending)).sum) + (progress.requests.map (·.phase.pending)).sum

def besideRequest (progress : MakeProgress) (before after : List LoaderRequest) : Multiset MakeTask :=
  (progress.mainQueue : Multiset MakeTask) + (progress.background.map (·.pending)).sum +
    ((before.map (·.phase.pending)).sum + (after.map (·.phase.pending)).sum)

theorem pending_of_background {before after : List BackgroundMakeTask} {task : BackgroundMakeTask}
    (h : progress.background = before ++ task :: after) :
    progress.pending = task.pending + progress.besideBackground before after := by
  simp only [pending, besideBackground, h, List.map_append, List.map_cons, List.sum_append, List.sum_cons]
  abel

theorem pending_of_requests {before after : List LoaderRequest} {request : LoaderRequest}
    (h : progress.requests = before ++ request :: after) :
    progress.pending = request.phase.pending + progress.besideRequest before after := by
  simp only [pending, besideRequest, h, List.map_append, List.map_cons, List.sum_append, List.sum_cons]
  abel

theorem pending_withBackground (progress : MakeProgress) (before after : List BackgroundMakeTask)
    (task : BackgroundMakeTask) (state : MakeState) :
    ({ progress with background := before ++ task :: after, state } : MakeProgress).pending =
      task.pending + progress.besideBackground before after :=
  pending_of_background rfl

theorem pending_withRequest (progress : MakeProgress) (before after : List LoaderRequest)
    (request : LoaderRequest) (state : MakeState) :
    ({ progress with requests := before ++ request :: after, state } : MakeProgress).pending =
      request.phase.pending + progress.besideRequest before after :=
  pending_of_requests rfl

theorem pending_withoutBackground (progress : MakeProgress) (before after : List BackgroundMakeTask)
    (state : MakeState) (result : Option (Except Error Unit)) :
    ({ progress with background := before ++ after, state, result } : MakeProgress).pending =
      progress.besideBackground before after := by
  simp only [pending, besideBackground, List.map_append, List.sum_append]

theorem pending_of_mainQueue {task : MakeTask} {rest : List MakeTask} (h : progress.mainQueue = task :: rest)
    (state : MakeState) :
    progress.pending = {task} + ({ progress with mainQueue := rest, state } : MakeProgress).pending := by
  simp only [pending, h, ← Multiset.cons_coe, ← Multiset.singleton_add]
  abel

theorem IsRunning.mem_pending {task : MakeTask} (h : progress.IsRunning task) : task ∈ progress.pending := by
  rcases h with hbackground | ⟨request, hrequest, target, resource, queue, hphase⟩
  · obtain ⟨before, after, h⟩ := List.append_of_mem hbackground
    rw [pending_of_background h]
    exact Multiset.mem_add.mpr (.inl (Multiset.mem_singleton_self _))
  · obtain ⟨before, after, h⟩ := List.append_of_mem hrequest
    rw [pending_of_requests h, hphase]
    simp [RequestPhase.pending]

end MakeProgress

/-- A new module is not waited for, and does not wait. -/
theorem register_spec {request : LoaderRequest} {state : MakeState} (hstate : state.Known)
    (horigin : request.originModule < state.count) (factorized : FactorizedModule) :
    (request.register hashes state factorized).1 =
        (state.addModule hashes factorized.identity factorized.sideEffectFree).2 ∧
      (state.addModule hashes factorized.identity factorized.sideEffectFree).1.SameModules
        (request.register hashes state factorized).2.2 ∧
      (request.register hashes state factorized).2.1.pending =
        ((if (state.addModule hashes factorized.identity factorized.sideEffectFree).2.isNew then
          [.build ⟨(state.addModule hashes factorized.identity factorized.sideEffectFree).2.moduleHandle,
            factorized.identity, factorized.resource, factorized.loader⟩]
        else [] : List MakeTask) : Multiset MakeTask) := by
  have hnew : (state.addModule hashes factorized.identity factorized.sideEffectFree).2.isNew = true →
      (state.addModule hashes factorized.identity factorized.sideEffectFree).1.loaderWaitCreatesCycle
        request.originModule
        (state.addModule hashes factorized.identity factorized.sideEffectFree).2.moduleHandle = false := by
    intro hisNew
    rcases state.addModule_cases hashes factorized.identity factorized.sideEffectFree with
      ⟨handle, -, heq⟩ | ⟨-, heq⟩
    · rw [heq] at hisNew
      cases hisNew
    · have hnone : state.loaderWaits.lookup state.count = none := by
        cases hlookup : state.loaderWaits.lookup state.count with
        | none => rfl
        | some next => exact absurd (hstate.waits _ _ hlookup) (lt_irrefl _)
      rw [heq, MakeState.loaderWaitCreatesCycle, MakeState.followsTo, if_neg List.not_mem_nil,
        if_neg horigin.ne', hnone]
  have hadded : state.addOrConnect hashes none [] factorized.identity factorized.sideEffectFree =
      state.addModule hashes factorized.identity factorized.sideEffectFree := rfl
  rw [LoaderRequest.register, hadded]
  dsimp only
  split_ifs with hcycle hisNew hisNew
  · exact absurd ((hnew hisNew).symm.trans hcycle) Bool.false_ne_true
  · exact ⟨rfl, ⟨rfl, rfl⟩, rfl⟩
  · exact ⟨rfl, ⟨rfl, rfl⟩, by simp [RequestPhase.pending]⟩
  · exact ⟨rfl, ⟨rfl, rfl⟩, rfl⟩

/-- **What a step does.** A step ends some of the tasks that are left and makes others. -/
theorem MakeStep.effect {progress next : MakeProgress} {event : MakeEvent}
    (h : MakeStep hashes progress event next) (hknown : progress.Known) :
    ∃ (consumed produced : List MakeTask) (rest : Multiset MakeTask), progress.pending = consumed + rest ∧
      next.pending = produced + rest ∧ @Effect hashes progress.state consumed event produced next.state := by
  cases h with
  | @main task rest children _ state hresult hqueue hruns =>
    refine ⟨[task], children, _, MakeProgress.pending_of_mainQueue hqueue state,
      MakeProgress.pending_scheduleAll .., ?_⟩
    rw [MakeProgress.state_scheduleAll]
    exact .ran hruns
  | @background before after task children _ state hbackground hruns =>
    exact ⟨[task], children, _, MakeProgress.pending_of_background hbackground,
      MakeProgress.pending_withBackground .., .ran hruns⟩
  | @backgroundFails before after task error hbackground hfails =>
    exact ⟨[task], [], _, MakeProgress.pending_of_background hbackground,
      MakeProgress.pending_withBackground .., .failed false [] _ hfails⟩
  | @next before after children hresult hqueue hbackground =>
    refine ⟨[], [], progress.pending, (zero_add _).symm, ?_, ?_⟩
    · rw [MakeProgress.pending_scheduleAll, MakeProgress.pending_withoutBackground,
        MakeProgress.pending_of_background hbackground]
      exact (zero_add _).symm
    · rw [MakeProgress.state_scheduleAll]
      exact .other ⟨rfl, rfl⟩
  | @nextFailed before after error hresult hqueue hbackground =>
    refine ⟨[], [], progress.pending, (zero_add _).symm, ?_, .other ⟨rfl, rfl⟩⟩
    rw [MakeProgress.pending_withoutBackground, MakeProgress.pending_of_background hbackground]
    exact ((zero_add _).trans (zero_add _)).symm
  | done hresult hqueue hbackground =>
    exact ⟨[], [], progress.pending, (zero_add _).symm, (zero_add _).symm, .other ⟨rfl, rfl⟩⟩
  | request hrunning hloader kind request context =>
    refine ⟨[], [], progress.pending, (zero_add _).symm, ?_, .other ⟨rfl, rfl⟩⟩
    simp [MakeProgress.pending, RequestPhase.pending]
  | @requestUnresolved before after request hrequests hphase error =>
    refine ⟨[], [], progress.pending, (zero_add _).symm, ?_, .other ⟨rfl, rfl⟩⟩
    rw [MakeProgress.pending_withRequest, MakeProgress.pending_of_requests hrequests, hphase]
    exact (zero_add _).symm
  | @requestRegistered before after request hrequests hphase factorized =>
    have horigin : request.originModule < progress.state.count :=
      hknown.origins request (by rw [hrequests]; simp)
    obtain ⟨hadded, hsame, hpending⟩ := @register_spec hashes request _ hknown.state horigin factorized
    rw [hadded]
    refine ⟨[], _, progress.besideRequest before after, ?_, ?_, .requested request.originModule factorized hsame⟩
    · rw [MakeProgress.pending_of_requests hrequests, hphase]
      rfl
    · rw [MakeProgress.pending_withRequest, hpending]
  | @requestWoken before after request target resource hrequests hphase hbuilt =>
    refine ⟨[], [], progress.pending, (zero_add _).symm, ?_, .other ⟨rfl, rfl⟩⟩
    rw [MakeProgress.pending_withRequest, MakeProgress.pending_of_requests hrequests, hphase]
    exact (zero_add _).symm
  | @requestStarts before after request target resource task queue hrequests hphase =>
    refine ⟨[], [], progress.pending, (zero_add _).symm, ?_, .other ⟨rfl, rfl⟩⟩
    rw [MakeProgress.pending_withRequest, MakeProgress.pending_of_requests hrequests, hphase]
    exact (zero_add _).symm
  | @requestRuns before after request target resource task queue children _ state hrequests hphase hruns =>
    refine ⟨[task], children, queue + progress.besideRequest before after, ?_, ?_, .ran hruns⟩
    · rw [MakeProgress.pending_of_requests hrequests, hphase, ← add_assoc]
      rfl
    · rw [MakeProgress.pending_withRequest, RequestPhase.pending, ← Multiset.coe_add, Option.toList,
        Multiset.coe_nil, zero_add]
      abel
  | @requestFails before after request target resource task queue error hrequests hphase hfails =>
    refine ⟨task :: queue, [], progress.besideRequest before after, ?_, ?_, .failed true queue _ hfails⟩
    · rw [MakeProgress.pending_of_requests hrequests, hphase]
      rfl
    · exact (MakeProgress.pending_withRequest ..).trans rfl
  | @requestEnds before after request target resource hrequests hphase =>
    refine ⟨[], [], progress.pending, (zero_add _).symm, ?_, .other ⟨rfl, rfl⟩⟩
    rw [MakeProgress.pending_withRequest, MakeProgress.pending_of_requests hrequests, hphase]
    exact (zero_add _).symm

theorem MakeState.SameModules.count {state next : MakeState} (h : state.SameModules next) :
    next.count = state.count := congrArg (fun graph => graph.modules.length) h.moduleGraph

theorem Effect.known {state next : MakeState} {consumed produced : List MakeTask} {event : MakeEvent}
    (h : @Effect hashes state consumed event produced next) (hstate : state.Known)
    (hconsumed : ∀ task ∈ consumed, task.Known state.count) :
    state.count ≤ next.count ∧ (∀ task ∈ produced, task.Known next.count) ∧
      ∀ identity handle, next.modulesByIdentity.lookup identity = some handle → handle < next.count := by
  cases h with
  | ran hruns =>
    obtain ⟨hnext, hle, hchildren⟩ := hruns.known hstate (hconsumed _ List.mem_cons_self)
    exact ⟨hle, hchildren, hnext.identities⟩
  | failed _ dropped _ hfails => exact ⟨le_rfl, fun task htask => absurd htask List.not_mem_nil, hstate.identities⟩
  | requested origin factorized hnext =>
    obtain ⟨hadded, hhandle⟩ := hstate.addModule hashes factorized.identity factorized.sideEffectFree
    have hcount := hnext.count
    refine ⟨(state.count_addModule_le hashes _ _).trans_eq hcount.symm, fun task htask => ?_,
      fun identity handle hlookup => ?_⟩
    · split_ifs at htask
      · rw [List.mem_singleton.mp htask, hcount]
        exact hhandle
      · exact absurd htask List.not_mem_nil
    · rw [hnext.modulesByIdentity] at hlookup
      rw [hcount]
      exact hadded.identities identity handle hlookup
  | other hsame =>
    refine ⟨hsame.count.ge, fun task htask => absurd htask List.not_mem_nil, fun identity handle hlookup => ?_⟩
    rw [hsame.modulesByIdentity] at hlookup
    rw [hsame.count]
    exact hstate.identities identity handle hlookup

theorem loaderWaits_addModule (hashes : ContentHashes) (state : MakeState) (identity : ModuleIdentity)
    (sideEffectFree : Option Bool) :
    (state.addModule hashes identity sideEffectFree).1.loaderWaits = state.loaderWaits := by
  rcases state.addModule_cases hashes identity sideEffectFree with ⟨_, -, h⟩ | ⟨-, h⟩ <;> rw [h]

theorem loaderWaits_addOrConnect (hashes : ContentHashes) (state : MakeState) (originModule : Option ModuleHandle)
    (dependencies : List QueuedDependency) (identity : ModuleIdentity) (sideEffectFree : Option Bool) :
    (state.addOrConnect hashes originModule dependencies identity sideEffectFree).1.loaderWaits =
      state.loaderWaits := by
  obtain ⟨-, -, hwaits, -⟩ := MakeState.foldl_connectDependency
    (state.addModule hashes identity sideEffectFree).1 originModule
    (state.addModule hashes identity sideEffectFree).2.moduleHandle dependencies
  exact hwaits.trans (loaderWaits_addModule ..)

/-- Tasks do not wait for loaders. -/
theorem Runs.loaderWaits {task : MakeTask} {state next : MakeState} {event : MakeEvent}
    {children : List MakeTask} (h : Runs hashes task state event children next) :
    next.loaderWaits = state.loaderWaits := by
  cases h with
  | add task =>
    rw [AddTask.run]
    cases task.result with
    | success factorized => exact loaderWaits_addOrConnect ..
    | failed error => exact loaderWaits_addOrConnect ..
  | _ => rfl

theorem register_loaderWaits (hashes : ContentHashes) (request : LoaderRequest) (state : MakeState)
    (factorized : FactorizedModule) :
    (request.register hashes state factorized).2.2.loaderWaits = state.loaderWaits ∨
      ∃ target, (request.register hashes state factorized).2.2.loaderWaits =
        state.loaderWaits.insert request.originModule target := by
  have hadded := loaderWaits_addOrConnect hashes state none [] factorized.identity factorized.sideEffectFree
  rw [LoaderRequest.register]
  dsimp only
  split_ifs
  · exact .inl hadded
  · exact .inr ⟨_, by rw [hadded]⟩
  · exact .inr ⟨_, by rw [hadded]⟩

/-- A request keeps its module, and a new one is of a module that is being built. Only requests change what is
waited for. -/
theorem MakeStep.origins {progress next : MakeProgress} {event : MakeEvent}
    (h : MakeStep hashes progress event next) (hknown : progress.Known) :
    (∀ request ∈ next.requests, request.originModule < progress.state.count) ∧
      ∀ module other, next.state.loaderWaits.lookup module = some other → module < progress.state.count := by
  have hreplace : ∀ {before after : List LoaderRequest} {request : LoaderRequest} (phase : RequestPhase),
      progress.requests = before ++ request :: after →
        ∀ other ∈ before ++ { request with phase } :: after, other.originModule < progress.state.count := by
    intro before after request phase hrequests other hother
    rcases List.mem_append.mp hother with hother | hother
    · exact hknown.origins other (by rw [hrequests]; exact List.mem_append_left _ hother)
    · rcases List.mem_cons.mp hother with rfl | hother
      · exact hknown.origins request (by rw [hrequests]; simp)
      · exact hknown.origins other (by rw [hrequests]; simp [hother])
  have herase : ∀ (request : LoaderRequest) (target : ModuleHandle) (resource : PathBuf) (module other : ModuleHandle),
      (request.finish progress.state target resource).2.loaderWaits.lookup module = some other →
        module < progress.state.count := by
    intro request target resource module other hlookup
    rw [LoaderRequest.finish] at hlookup
    by_cases hmodule : module = request.originModule
    · rw [hmodule, AList.lookup_erase] at hlookup
      cases hlookup
    · rw [AList.lookup_erase_ne hmodule] at hlookup
      exact hknown.state.waits module other hlookup
  cases h with
  | main hresult hqueue hruns =>
    rw [MakeProgress.requests_scheduleAll, MakeProgress.state_scheduleAll]
    refine ⟨hknown.origins, fun module other hlookup => ?_⟩
    rw [hruns.loaderWaits] at hlookup
    exact hknown.state.waits module other hlookup
  | background hbackground hruns =>
    refine ⟨hknown.origins, fun module other hlookup => ?_⟩
    rw [hruns.loaderWaits] at hlookup
    exact hknown.state.waits module other hlookup
  | backgroundFails hbackground hfails => exact ⟨hknown.origins, hknown.state.waits⟩
  | next hresult hqueue hbackground =>
    rw [MakeProgress.requests_scheduleAll, MakeProgress.state_scheduleAll]
    exact ⟨hknown.origins, hknown.state.waits⟩
  | nextFailed hresult hqueue hbackground => exact ⟨hknown.origins, hknown.state.waits⟩
  | done hresult hqueue hbackground => exact ⟨hknown.origins, hknown.state.waits⟩
  | request hrunning hloader kind request context =>
    refine ⟨fun other hother => ?_, hknown.state.waits⟩
    rcases List.mem_append.mp hother with hother | hother
    · exact hknown.origins other hother
    · rw [List.mem_singleton.mp hother]
      exact hknown.pending _ hrunning.mem_pending
  | requestUnresolved hrequests hphase error => exact ⟨hreplace _ hrequests, hknown.state.waits⟩
  | @requestRegistered before after request hrequests hphase factorized =>
    refine ⟨hreplace _ hrequests, fun module other hlookup => ?_⟩
    rcases register_loaderWaits hashes request progress.state factorized with h | ⟨target, h⟩
    · rw [h] at hlookup
      exact hknown.state.waits module other hlookup
    · rw [h] at hlookup
      by_cases hmodule : module = request.originModule
      · rw [hmodule]
        exact hknown.origins request (by rw [hrequests]; simp)
      · rw [AList.lookup_insert_ne hmodule] at hlookup
        exact hknown.state.waits module other hlookup
  | @requestWoken before after request target resource hrequests hphase hbuilt =>
    exact ⟨hreplace _ hrequests, herase request target resource⟩
  | requestStarts hrequests hphase => exact ⟨hreplace _ hrequests, hknown.state.waits⟩
  | requestRuns hrequests hphase hruns =>
    refine ⟨hreplace _ hrequests, fun module other hlookup => ?_⟩
    rw [hruns.loaderWaits] at hlookup
    exact hknown.state.waits module other hlookup
  | requestFails hrequests hphase hfails => exact ⟨hreplace _ hrequests, hknown.state.waits⟩
  | @requestEnds before after request target resource hrequests hphase =>
    exact ⟨hreplace _ hrequests, herase request target resource⟩

theorem MakeProgress.Known.step {progress next : MakeProgress} {event : MakeEvent} (hknown : progress.Known)
    (h : MakeStep hashes progress event next) : next.Known ∧ progress.state.count ≤ next.state.count := by
  obtain ⟨consumed, produced, rest, hpending, hnext, heffect⟩ := h.effect hknown
  obtain ⟨horigins, hwaits⟩ := h.origins hknown
  have hold : ∀ task ∈ (consumed : Multiset MakeTask) + rest, task.Known progress.state.count := by
    rw [← hpending]
    exact hknown.pending
  obtain ⟨hle, hproduced, hidentities⟩ := heffect.known hknown.state fun task htask =>
    hold task (Multiset.mem_add.mpr (.inl htask))
  refine ⟨⟨⟨hidentities, fun module other hlookup => (hwaits module other hlookup).trans_le hle⟩, ?_,
    fun request hrequest => (horigins request hrequest).trans_le hle⟩, hle⟩
  intro task htask
  rw [hnext] at htask
  rcases Multiset.mem_add.mp htask with htask | htask
  · exact hproduced task htask
  · exact (hold task (Multiset.mem_add.mpr (.inr htask))).mono hle

theorem known_start (context : PathBuf) (requests : List String) : (MakeProgress.start context requests).Known := by
  rw [MakeProgress.start]
  refine ⟨⟨fun identity handle hlookup => ?_, fun module other hlookup => ?_⟩, fun task htask => ?_,
    fun request hrequest => ?_⟩
  · rw [MakeProgress.state_scheduleAll] at hlookup
    cases hlookup
  · rw [MakeProgress.state_scheduleAll] at hlookup
    cases hlookup
  · rw [MakeProgress.pending_scheduleAll] at htask
    rcases Multiset.mem_add.mp htask with htask | htask
    · obtain ⟨_, -, rfl⟩ := List.mem_map.mp htask
      intro origin horigin
      cases horigin
    · exact absurd htask (Multiset.notMem_zero task)
  · rw [MakeProgress.requests_scheduleAll] at hrequest
    exact absurd hrequest List.not_mem_nil

theorem MakeRun.known {trace : List (MakeProgress × MakeEvent)} {progress : MakeProgress}
    (h : MakeRun hashes trace progress) : progress.Known :=
  h.invariant (by rintro _ ⟨context, requests, rfl⟩; exact known_start context requests)
    fun _ _ _ hknown hstep => (hknown.step hstep).1

end Unpack.Make
