import Unpack.MakeOnce
import Mathlib.Data.Set.Basic
import Mathlib.Logic.Relation

/-! Builds that wait for each other because loaders ask for modules. The waits that are recorded are at most one
for each module; they are compared with the waits that there are. -/

namespace Unpack.Make

variable {hashes : ContentHashes}

namespace MakeState

/-- The loader of the first module was the last to ask for the second. -/
def RecordsWait (state : MakeState) (module next : ModuleHandle) : Prop :=
  state.loaderWaits.lookup module = some next

section

variable {loaderWaits : FxHashMap ModuleHandle ModuleHandle} {origin : ModuleHandle}

theorem reaches_of_followsTo {fuel : Nat} {visited : List ModuleHandle} {current : ModuleHandle}
    (h : followsTo loaderWaits origin fuel visited current = true) :
    Relation.ReflTransGen (fun module next => loaderWaits.lookup module = some next) current origin := by
  induction fuel generalizing visited current with
  | zero => cases h
  | succ fuel ih =>
    rw [followsTo] at h
    split_ifs at h with hvisited horigin
    · rw [horigin]
    · cases hlookup : loaderWaits.lookup current with
      | none =>
        rw [hlookup] at h
        cases h
      | some next =>
        rw [hlookup] at h
        exact .head hlookup (ih h)

/-- The modules that have not been visited and wait. -/
def unvisited (loaderWaits : FxHashMap ModuleHandle ModuleHandle) (visited : List ModuleHandle) : Nat :=
  loaderWaits.keys.countP fun module => module ∉ visited

theorem unvisited_cons_lt {visited : List ModuleHandle} {current : ModuleHandle}
    (hkey : current ∈ loaderWaits.keys) (hnew : current ∉ visited) :
    unvisited loaderWaits (current :: visited) < unvisited loaderWaits visited := by
  have hle : ∀ modules : List ModuleHandle,
      (modules.countP fun module => module ∉ current :: visited) ≤ modules.countP fun module => module ∉ visited :=
    fun modules => List.countP_mono_left fun module _ hout => by
      simp only [decide_eq_true_eq, List.mem_cons, not_or] at hout ⊢
      exact hout.2
  obtain ⟨before, after, hkeys⟩ := List.append_of_mem hkey
  rw [unvisited, unvisited, hkeys, List.countP_append, List.countP_append, List.countP_cons, List.countP_cons,
    if_neg (by simp), if_pos (by simpa using hnew)]
  have hbefore := hle before
  have hafter := hle after
  omega

/-- The search visits every module on the way: what has been visited leads to the module it stands at. -/
theorem not_reaches_of_followsTo {fuel : Nat} {visited : List ModuleHandle} {current : ModuleHandle}
    (h : followsTo loaderWaits origin fuel visited current = false)
    (hfuel : unvisited loaderWaits visited < fuel) (hout : origin ∉ visited)
    (hvisited : ∀ module ∈ visited, ∀ next, loaderWaits.lookup module = some next →
      next ∈ visited ∨ next = current) :
    ¬Relation.ReflTransGen (fun module next => loaderWaits.lookup module = some next) current origin := by
  induction fuel generalizing visited current with
  | zero => exact absurd hfuel (Nat.not_lt_zero _)
  | succ fuel ih =>
    rw [followsTo] at h
    split_ifs at h with hin horigin
    · -- The way has come back to itself, and stays there.
      intro hreaches
      have hstays : ∀ last, Relation.ReflTransGen (fun module next => loaderWaits.lookup module = some next)
          current last → last ∈ visited := by
        intro last hlast
        induction hlast with
        | refl => exact hin
        | tail _ hstep hmem => exact (hvisited _ hmem _ hstep).elim id fun heq => heq ▸ hin
      exact hout (hstays origin hreaches)
    · intro hreaches
      rcases hreaches.cases_head with heq | ⟨next, hstep, hrest⟩
      · exact horigin heq
      · rw [hstep] at h
        have hkey : current ∈ loaderWaits.keys :=
          AList.mem_keys.mp (AList.lookup_isSome.mp (hstep ▸ rfl))
        have hlt := unvisited_cons_lt hkey hin
        refine ih h (by omega) (fun hmem => ?_) (fun module hmodule other hother => ?_) hrest
        · exact (List.mem_cons.mp hmem).elim (fun heq => horigin heq.symm) hout
        · rcases List.mem_cons.mp hmodule with rfl | hmodule
          · exact .inr (Option.some.inj (hother.symm.trans hstep))
          · rcases hvisited module hmodule other hother with hold | rfl
            · exact .inl (List.mem_cons_of_mem _ hold)
            · exact .inl List.mem_cons_self

end

/-- The check follows the recorded waits to their end. -/
theorem loaderWaitCreatesCycle_iff {state : MakeState} {origin target : ModuleHandle} :
    state.loaderWaitCreatesCycle origin target = true ↔
      Relation.ReflTransGen state.RecordsWait target origin := by
  refine ⟨reaches_of_followsTo, fun hreaches => ?_⟩
  by_contra hnot
  refine not_reaches_of_followsTo (Bool.not_eq_true _ ▸ hnot) ?_ List.not_mem_nil
    (fun module hmodule => absurd hmodule List.not_mem_nil) hreaches
  exact Nat.lt_succ_of_le (Nat.le_succ_of_le List.countP_le_length)

end MakeState

namespace MakeProgress

/-- The module has a build that has started and has not ended. -/
def IsBuilding (progress : MakeProgress) (handle : ModuleHandle) : Prop :=
  ∃ task, progress.IsRunning (.build task) ∧ task.moduleHandle = handle

/-- Where a request stands, the first build cannot go on before the second has ended: the request waits for it
or runs it, or the first is behind it in the queue of the request. -/
inductive Blocks (progress : MakeProgress) (request : LoaderRequest) : ModuleHandle → ModuleHandle → Prop
  | waiting {target : ModuleHandle} {resource : PathBuf} (hbuilding : progress.IsBuilding request.originModule)
      (hphase : request.phase = .waiting target resource) (htarget : target ∈ progress.state.buildingModules) :
      Blocks progress request request.originModule target
  | running {target : ModuleHandle} {resource : PathBuf} {task : BuildTask} {queue : List MakeTask}
      (hbuilding : progress.IsBuilding request.originModule)
      (hphase : request.phase = .running target resource (some (.build task)) queue) :
      Blocks progress request request.originModule task.moduleHandle
  | queued {target : ModuleHandle} {resource : PathBuf} {task behind : BuildTask} {queue : List MakeTask}
      (hphase : request.phase = .running target resource (some (.build task)) queue)
      (hbehind : .build behind ∈ queue) :
      Blocks progress request behind.moduleHandle task.moduleHandle

def Waits (progress : MakeProgress) (module next : ModuleHandle) : Prop :=
  ∃ request ∈ progress.requests, progress.Blocks request module next

/-- Each of these builds can only go on after another of them has ended. -/
def Deadlock (progress : MakeProgress) (builds : Set ModuleHandle) : Prop :=
  builds.Nonempty ∧ ∀ module ∈ builds, ∃ next ∈ builds, progress.Waits module next

def DeadlockFree (progress : MakeProgress) : Prop := ∀ builds, ¬progress.Deadlock builds

/-- Waits that lead to builds which do not wait make no deadlock. -/
theorem DeadlockFree.of_waits {progress next : MakeProgress} (h : progress.DeadlockFree)
    (hwaits : ∀ module other, next.Waits module other →
      progress.Waits module other ∨ ∀ last, ¬next.Waits other last) : next.DeadlockFree := by
  rintro builds ⟨hnonempty, hblocked⟩
  refine h builds ⟨hnonempty, fun module hmodule => ?_⟩
  obtain ⟨other, hother, hwait⟩ := hblocked module hmodule
  obtain ⟨last, -, hlast⟩ := hblocked other hother
  exact ⟨other, hother, (hwaits module other hwait).resolve_right fun hnone => hnone last hlast⟩

/-- A wait that closes no circle makes no deadlock. -/
theorem DeadlockFree.of_wait {progress next : MakeProgress} (h : progress.DeadlockFree)
    {origin target : ModuleHandle} (hopen : ¬Relation.ReflTransGen progress.Waits target origin)
    (hwaits : ∀ module other, next.Waits module other →
      progress.Waits module other ∨ module = origin ∧ other = target) : next.DeadlockFree := by
  rintro builds ⟨⟨first, hfirst⟩, hblocked⟩
  by_cases hin : target ∈ builds
  · -- From the target the other waits go on within the builds for ever.
    refine h { module | module ∈ builds ∧ Relation.ReflTransGen progress.Waits target module }
      ⟨⟨target, hin, .refl⟩, fun module ⟨hmodule, hreached⟩ => ?_⟩
    obtain ⟨other, hother, hwait⟩ := hblocked module hmodule
    have hold : progress.Waits module other :=
      (hwaits module other hwait).resolve_right fun ⟨heq, _⟩ => hopen (heq ▸ hreached)
    exact ⟨other, ⟨hother, hreached.tail hold⟩, hold⟩
  · refine h builds ⟨⟨first, hfirst⟩, fun module hmodule => ?_⟩
    obtain ⟨other, hother, hwait⟩ := hblocked module hmodule
    exact ⟨other, hother, (hwaits module other hwait).resolve_right fun ⟨_, heq⟩ => hin (heq ▸ hother)⟩

/-- A wait that closes a circle makes one. -/
theorem deadlock_of_wait {progress next : MakeProgress} {origin target : ModuleHandle}
    (hcircle : Relation.ReflTransGen progress.Waits target origin)
    (hkept : ∀ module other, progress.Waits module other → next.Waits module other)
    (hwait : next.Waits origin target) : ¬next.DeadlockFree := by
  intro h
  refine h { module | Relation.ReflTransGen progress.Waits target module ∧
    Relation.ReflTransGen progress.Waits module origin } ⟨⟨target, .refl, hcircle⟩, ?_⟩
  rintro module ⟨hfrom, hto⟩
  rcases hto.cases_head with rfl | ⟨other, hstep, hrest⟩
  · exact ⟨target, ⟨.refl, hcircle⟩, hwait⟩
  · exact ⟨other, ⟨hfrom.tail hstep, hrest⟩, hkept _ _ hstep⟩

end MakeProgress

def BackgroundMakeTask.queued : BackgroundMakeTask → Multiset MakeTask
  | running _ => 0
  | ended (.ok children) => children
  | ended (.error _) => 0

def RequestPhase.queued : RequestPhase → Multiset MakeTask
  | running _ _ _ queue => queue
  | _ => 0

namespace MakeProgress

def queued (progress : MakeProgress) : Multiset MakeTask :=
  (progress.mainQueue : Multiset MakeTask) + (progress.background.map (·.queued)).sum +
    (progress.requests.map (·.phase.queued)).sum

/-- A module has one build at most, which started before any request was made from it, and what a request
waits for is a module. -/
structure Ordered (progress : MakeProgress) : Prop where
  builds : ∀ handle, buildsLeft progress.pending handle ≤ 1
  started : ∀ request ∈ progress.requests, buildsLeft progress.queued request.originModule = 0
  targets : ∀ request ∈ progress.requests, ∀ target resource, request.phase = .waiting target resource →
    target < progress.state.count

section

variable {progress : MakeProgress}

def queuedBesideBackground (progress : MakeProgress) (before after : List BackgroundMakeTask) : Multiset MakeTask :=
  (progress.mainQueue : Multiset MakeTask) +
    ((before.map (·.queued)).sum + (after.map (·.queued)).sum) + (progress.requests.map (·.phase.queued)).sum

def queuedBesideRequest (progress : MakeProgress) (before after : List LoaderRequest) : Multiset MakeTask :=
  (progress.mainQueue : Multiset MakeTask) + (progress.background.map (·.queued)).sum +
    ((before.map (·.phase.queued)).sum + (after.map (·.phase.queued)).sum)

theorem queued_of_background {before after : List BackgroundMakeTask} {task : BackgroundMakeTask}
    (h : progress.background = before ++ task :: after) :
    progress.queued = task.queued + progress.queuedBesideBackground before after := by
  simp only [queued, queuedBesideBackground, h, List.map_append, List.map_cons, List.sum_append, List.sum_cons]
  abel

theorem queued_of_requests {before after : List LoaderRequest} {request : LoaderRequest}
    (h : progress.requests = before ++ request :: after) :
    progress.queued = request.phase.queued + progress.queuedBesideRequest before after := by
  simp only [queued, queuedBesideRequest, h, List.map_append, List.map_cons, List.sum_append, List.sum_cons]
  abel

theorem queued_withBackground (progress : MakeProgress) (before after : List BackgroundMakeTask)
    (task : BackgroundMakeTask) (state : MakeState) :
    ({ progress with background := before ++ task :: after, state } : MakeProgress).queued =
      task.queued + progress.queuedBesideBackground before after :=
  queued_of_background rfl

theorem queued_withoutBackground (progress : MakeProgress) (before after : List BackgroundMakeTask)
    (state : MakeState) (result : Option (Except Error Unit)) :
    ({ progress with background := before ++ after, state, result } : MakeProgress).queued =
      progress.queuedBesideBackground before after := by
  simp only [queued, queuedBesideBackground, List.map_append, List.sum_append]

theorem queued_withRequest (progress : MakeProgress) (before after : List LoaderRequest)
    (request : LoaderRequest) (state : MakeState) :
    ({ progress with requests := before ++ request :: after, state } : MakeProgress).queued =
      request.phase.queued + progress.queuedBesideRequest before after :=
  queued_of_requests rfl

/-- Builds are started when they are scheduled. -/
theorem buildsLeft_queued_scheduleAll (progress : MakeProgress) (tasks : List MakeTask) (handle : ModuleHandle) :
    buildsLeft (progress.scheduleAll tasks).queued handle = buildsLeft progress.queued handle := by
  induction tasks generalizing progress with
  | nil => rfl
  | cons task tasks ih =>
    refine (ih _).trans ?_
    cases task with
    | factorize task =>
      change buildsLeft ({ progress with background := progress.background ++ [.running _] } : MakeProgress).queued
        handle = _
      simp [queued, BackgroundMakeTask.queued]
    | build task =>
      change buildsLeft ({ progress with background := progress.background ++ [.running _] } : MakeProgress).queued
        handle = _
      simp [queued, BackgroundMakeTask.queued]
    | add task =>
      change buildsLeft ({ progress with mainQueue := progress.mainQueue ++ [_] } : MakeProgress).queued handle = _
      simp only [queued, ← Multiset.coe_add, buildsLeft_add, buildsLeft_singleton, MakeTask.builds,
        Bool.false_eq_true, if_false, add_zero]
    | processDependencies task =>
      change buildsLeft ({ progress with mainQueue := progress.mainQueue ++ [_] } : MakeProgress).queued handle = _
      simp only [queued, ← Multiset.coe_add, buildsLeft_add, buildsLeft_singleton, MakeTask.builds,
        Bool.false_eq_true, if_false, add_zero]

theorem queued_background_le (background : List BackgroundMakeTask) :
    (background.map (·.queued)).sum ≤ (background.map (·.pending)).sum := by
  refine List.sum_le_sum fun task _ => ?_
  cases task with
  | running task => exact Multiset.zero_le _
  | ended outcome => cases outcome <;> exact le_rfl

theorem queued_requests_le (requests : List LoaderRequest) :
    (requests.map (·.phase.queued)).sum ≤ (requests.map (·.phase.pending)).sum := by
  refine List.sum_le_sum fun request _ => ?_
  cases request.phase with
  | running target resource current queue => exact Multiset.le_add_left _ _
  | _ => exact le_rfl

/-- A build that runs is not among those that have not started. -/
theorem buildsLeft_queued_lt {task : MakeTask} (h : progress.IsRunning task) {handle : ModuleHandle}
    (hbuilds : task.builds handle = true) :
    buildsLeft progress.queued handle < buildsLeft progress.pending handle := by
  have hlt : ∀ {queued beside : Multiset MakeTask}, queued ≤ beside →
      buildsLeft queued handle < buildsLeft ({task} + beside) handle := by
    intro queued beside hle
    rw [buildsLeft_add, ← Multiset.coe_singleton, buildsLeft_singleton, if_pos hbuilds]
    have := Multiset.countP_le_of_le (fun task : MakeTask => task.builds handle = true) hle
    exact Nat.lt_one_add_iff.mpr this
  rcases h with hbackground | ⟨request, hrequest, target, resource, queue, hphase⟩
  · obtain ⟨before, after, hsplit⟩ := List.append_of_mem hbackground
    rw [queued_of_background hsplit, pending_of_background hsplit]
    refine hlt ((zero_add _).trans_le ?_)
    exact add_le_add (add_le_add le_rfl (add_le_add (queued_background_le _) (queued_background_le _)))
      (queued_requests_le _)
  · obtain ⟨before, after, hsplit⟩ := List.append_of_mem hrequest
    have hpending : request.phase.pending = {task} + (queue : Multiset MakeTask) := by
      rw [hphase]
      rfl
    have hqueued : request.phase.queued = (queue : Multiset MakeTask) := by rw [hphase]; rfl
    rw [queued_of_requests hsplit, pending_of_requests hsplit, hpending, hqueued, add_assoc]
    refine hlt (add_le_add le_rfl ?_)
    exact add_le_add (add_le_add le_rfl (queued_background_le _))
      (add_le_add (queued_requests_le _) (queued_requests_le _))

end

end MakeProgress

/-- The builds that a step makes are of the module that it adds. -/
def MakesNewBuilds (state : MakeState) (produced : List MakeTask) : Prop :=
  ∀ handle, buildsLeft produced handle ≤ if handle = state.count then 1 else 0

theorem makesNewBuilds_of_forall {state : MakeState} {produced : List MakeTask}
    (h : ∀ task ∈ produced, ∀ handle, task.builds handle = false) : MakesNewBuilds state produced := by
  intro handle
  rw [buildsLeft_eq_zero fun task htask => h task htask handle]
  exact Nat.zero_le _

theorem makesNewBuilds_addModule {state : MakeState} {identity : ModuleIdentity} {sideEffectFree : Option Bool}
    {build : BuildTask}
    (hbuild : build.moduleHandle = (state.addModule hashes identity sideEffectFree).2.moduleHandle) :
    MakesNewBuilds state
      (if (state.addModule hashes identity sideEffectFree).2.isNew = true then [.build build] else []) := by
  intro handle
  rw [buildsLeft_new]
  rcases @isNew_addModule hashes state identity sideEffectFree with ⟨hisNew, hhandle, -⟩ | ⟨hold, -⟩
  · rw [hbuild, hhandle]
    by_cases heq : handle = state.count
    · rw [if_pos heq]
      split_ifs <;> omega
    · rw [if_neg heq, if_neg fun hboth => heq hboth.2.symm]
  · rw [hold, if_neg fun hboth => Bool.false_ne_true hboth.1]
    exact Nat.zero_le _

theorem Runs.makesNewBuilds {task : MakeTask} {state next : MakeState} {event : MakeEvent}
    {children : List MakeTask} (h : Runs hashes task state event children next) :
    MakesNewBuilds state children := by
  cases h with
  | factorize task result _ =>
    refine makesNewBuilds_of_forall fun child hchild handle => ?_
    rw [List.mem_singleton.mp hchild]
    rfl
  | add task =>
    obtain ⟨sideEffectFree, -, ⟨-, -, resource, loader, hchildren⟩ | ⟨-, hchildren, -⟩⟩ :=
      task.run_spec hashes state
    · rw [hchildren]
      exact makesNewBuilds_addModule rfl
    · rw [hchildren]
      exact makesNewBuilds_of_forall fun child hchild => absurd hchild List.not_mem_nil
  | finishBuild task hparent builtContent =>
    refine makesNewBuilds_of_forall fun child hchild handle => ?_
    rw [processDependenciesTask] at hchild
    split_ifs at hchild
    · exact absurd hchild List.not_mem_nil
    · rw [List.mem_singleton.mp hchild]
      rfl
  | failModule task hparent error source =>
    exact makesNewBuilds_of_forall fun child hchild => absurd hchild List.not_mem_nil
  | processDependencies task =>
    refine makesNewBuilds_of_forall fun child hchild handle => ?_
    obtain ⟨factorize, rfl, -⟩ := groupReady_of_run hchild
    rfl

theorem Effect.makesNewBuilds {state next : MakeState} {consumed produced : List MakeTask} {event : MakeEvent}
    (h : @Effect hashes state consumed event produced next) : MakesNewBuilds state produced := by
  cases h with
  | ran hruns => exact hruns.makesNewBuilds
  | failed inRequest dropped _ hfails =>
    exact makesNewBuilds_of_forall fun child hchild => absurd hchild List.not_mem_nil
  | requested origin factorized hnext => exact makesNewBuilds_addModule rfl
  | other hsame => exact makesNewBuilds_of_forall fun child hchild => absurd hchild List.not_mem_nil

theorem MakesNewBuilds.eq_zero {state : MakeState} {produced : List MakeTask} (h : MakesNewBuilds state produced)
    {handle : ModuleHandle} (hlt : handle < state.count) : buildsLeft produced handle = 0 := by
  have hle := h handle
  rw [if_neg hlt.ne] at hle
  exact Nat.le_zero.mp hle

theorem buildsLeft_pos {tasks : Multiset MakeTask} {build : BuildTask} (h : .build build ∈ tasks) :
    0 < buildsLeft tasks build.moduleHandle :=
  Multiset.countP_pos.mpr ⟨_, h, by simp [MakeTask.builds]⟩

theorem MakesNewBuilds.not_lt {state : MakeState} {produced : List MakeTask} (h : MakesNewBuilds state produced)
    {build : BuildTask} (hbuild : .build build ∈ produced) : ¬build.moduleHandle < state.count := by
  intro hlt
  have hpos := @buildsLeft_pos (produced : Multiset MakeTask) _ hbuild
  rw [h.eq_zero hlt] at hpos
  exact absurd hpos (lt_irrefl _)

/-- A build of a module that is there is not put in a queue again. -/
theorem MakeStep.queued_le {progress next : MakeProgress} {event : MakeEvent}
    (h : MakeStep hashes progress event next) (hknown : progress.Known) {handle : ModuleHandle}
    (hlt : handle < progress.state.count) :
    buildsLeft next.queued handle ≤ buildsLeft progress.queued handle := by
  cases h with
  | @main task rest children _ state hresult hqueue hruns =>
    have hqueued : progress.queued =
        {task} + ({ progress with mainQueue := rest, state } : MakeProgress).queued := by
      simp only [MakeProgress.queued, hqueue, ← Multiset.cons_coe, ← Multiset.singleton_add]
      abel
    rw [MakeProgress.buildsLeft_queued_scheduleAll, hqueued, buildsLeft_add]
    exact Nat.le_add_left _ _
  | @background before after task children _ state hbackground hruns =>
    rw [MakeProgress.queued_withBackground, MakeProgress.queued_of_background hbackground, buildsLeft_add,
      buildsLeft_add]
    have hnone := hruns.makesNewBuilds.eq_zero hlt
    exact Nat.add_le_add_right (hnone.le.trans (Nat.zero_le _)) _
  | @backgroundFails before after task error hbackground hfails =>
    rw [MakeProgress.queued_withBackground, MakeProgress.queued_of_background hbackground]
    exact le_rfl
  | @next before after children hresult hqueue hbackground =>
    rw [MakeProgress.buildsLeft_queued_scheduleAll, MakeProgress.queued_withoutBackground,
      MakeProgress.queued_of_background hbackground, buildsLeft_add]
    exact Nat.le_add_left _ _
  | @nextFailed before after error hresult hqueue hbackground =>
    rw [MakeProgress.queued_withoutBackground, MakeProgress.queued_of_background hbackground, buildsLeft_add]
    exact Nat.le_add_left _ _
  | done hresult hqueue hbackground => exact le_rfl
  | request hrunning hloader kind request context =>
    simp [MakeProgress.queued, RequestPhase.queued]
  | @requestUnresolved before after request hrequests hphase error =>
    rw [MakeProgress.queued_withRequest, MakeProgress.queued_of_requests hrequests, hphase]
    exact le_rfl
  | @requestRegistered before after request hrequests hphase factorized =>
    have horigin : request.originModule < progress.state.count :=
      hknown.origins request (by rw [hrequests]; simp)
    obtain ⟨-, -, hpending⟩ := @register_spec hashes request _ hknown.state horigin factorized
    have hle : ∀ phase : RequestPhase, buildsLeft phase.queued handle ≤ buildsLeft phase.pending handle := by
      intro phase
      cases phase with
      | running target resource current queue =>
        exact Multiset.countP_le_of_le _ (Multiset.le_add_left _ _)
      | _ => exact le_rfl
    have hnew := hle (request.register hashes progress.state factorized).2.1
    rw [hpending, (@makesNewBuilds_addModule hashes progress.state _ _ _ rfl).eq_zero hlt] at hnew
    rw [MakeProgress.queued_withRequest, MakeProgress.queued_of_requests hrequests, buildsLeft_add, buildsLeft_add]
    exact Nat.add_le_add_right (hnew.trans (Nat.zero_le _)) _
  | @requestWoken before after request target resource hrequests hphase hbuilt =>
    rw [MakeProgress.queued_withRequest, MakeProgress.queued_of_requests hrequests, hphase]
    exact le_rfl
  | @requestStarts before after request target resource task queue hrequests hphase =>
    rw [MakeProgress.queued_withRequest, MakeProgress.queued_of_requests hrequests, hphase, buildsLeft_add,
      buildsLeft_add]
    refine Nat.add_le_add_right (Multiset.countP_le_of_le _ ?_) _
    exact Multiset.coe_le.mpr (List.sublist_cons_self task queue).subperm
  | @requestRuns before after request target resource task queue children _ state hrequests hphase hruns =>
    rw [MakeProgress.queued_withRequest, MakeProgress.queued_of_requests hrequests, hphase, buildsLeft_add,
      buildsLeft_add]
    refine Nat.add_le_add_right ?_ _
    have hnone := hruns.makesNewBuilds.eq_zero hlt
    rw [RequestPhase.queued, RequestPhase.queued, ← Multiset.coe_add, buildsLeft_add, hnone]
    exact le_rfl
  | @requestFails before after request target resource task queue error hrequests hphase hfails =>
    rw [MakeProgress.queued_withRequest, MakeProgress.queued_of_requests hrequests, hphase, buildsLeft_add,
      buildsLeft_add]
    exact Nat.add_le_add_right (Nat.zero_le _) _
  | @requestEnds before after request target resource hrequests hphase =>
    rw [MakeProgress.queued_withRequest, MakeProgress.queued_of_requests hrequests, hphase]
    exact le_rfl

theorem MakeProgress.background_scheduleAll {progress : MakeProgress} {tasks : List MakeTask} {task : MakeTask}
    (h : .running task ∈ (progress.scheduleAll tasks).background) :
    .running task ∈ progress.background ∨ task ∈ tasks := by
  induction tasks generalizing progress with
  | nil => exact .inl h
  | cons child tasks ih =>
    rcases ih h with hbefore | hmem
    · unfold schedule at hbefore
      split at hbefore
      · rcases List.mem_append.mp hbefore with hold | hnew
        · exact .inl hold
        · cases List.mem_singleton.mp hnew
          exact .inr List.mem_cons_self
      · exact .inl hbefore
    · exact .inr (List.mem_cons_of_mem _ hmem)

theorem mem_replaced {α : Type} {before after : List α} {old new item : α} (h : item ∈ before ++ new :: after) :
    item ∈ before ++ old :: after ∨ item = new := by
  rcases List.mem_cons.mp (List.perm_middle.mem_iff.mp h) with heq | hmem
  · exact .inr heq
  · exact .inl (List.perm_middle.mem_iff.mpr (List.mem_cons_of_mem _ hmem))

/-- Every request was there, or has just been made by a build that is running. -/
theorem MakeStep.requests {progress next : MakeProgress} {event : MakeEvent}
    (h : MakeStep hashes progress event next) {request : LoaderRequest} (hrequest : request ∈ next.requests) :
    (∃ before ∈ progress.requests, before.originModule = request.originModule) ∨
      progress.IsBuilding request.originModule := by
  have hreplace : ∀ {before after : List LoaderRequest} {old : LoaderRequest} {phase : RequestPhase},
      progress.requests = before ++ old :: after → request ∈ before ++ { old with phase } :: after →
        ∃ before ∈ progress.requests, before.originModule = request.originModule := by
    intro before after old phase hrequests hmem
    rw [hrequests]
    rcases @mem_replaced _ _ _ old _ _ hmem with hold | rfl
    · exact ⟨request, hold, rfl⟩
    · exact ⟨old, List.mem_append_right _ List.mem_cons_self, rfl⟩
  cases h with
  | request hrunning hloader kind request context =>
    rcases List.mem_append.mp hrequest with hold | hnew
    · exact .inl ⟨_, hold, rfl⟩
    · rw [List.mem_singleton.mp hnew]
      exact .inr ⟨_, hrunning, rfl⟩
  | requestUnresolved hrequests hphase error => exact .inl (hreplace hrequests hrequest)
  | requestRegistered hrequests hphase factorized => exact .inl (hreplace hrequests hrequest)
  | requestWoken hrequests hphase hbuilt => exact .inl (hreplace hrequests hrequest)
  | requestStarts hrequests hphase => exact .inl (hreplace hrequests hrequest)
  | requestRuns hrequests hphase hruns => exact .inl (hreplace hrequests hrequest)
  | requestFails hrequests hphase hfails => exact .inl (hreplace hrequests hrequest)
  | requestEnds hrequests hphase => exact .inl (hreplace hrequests hrequest)
  | main hresult hqueue hruns =>
    rw [MakeProgress.requests_scheduleAll] at hrequest
    exact .inl ⟨request, hrequest, rfl⟩
  | next hresult hqueue hbackground =>
    rw [MakeProgress.requests_scheduleAll] at hrequest
    exact .inl ⟨request, hrequest, rfl⟩
  | _ => exact .inl ⟨request, hrequest, rfl⟩

/-- In this phase a request holds up no build. -/
def RequestPhase.Idle : RequestPhase → Prop
  | waiting _ _ | running _ _ (some _) _ => False
  | factorizing | running _ _ none _ | ended _ => True

/-- The module that a request asks for is there, and the request is refused or waits; or the request builds it. -/
theorem register_cases (request : LoaderRequest) (state : MakeState) (factorized : FactorizedModule) :
    (∃ target, state.modulesByIdentity.lookup factorized.identity = some target ∧
      ((state.loaderWaitCreatesCycle request.originModule target = true ∧
          (request.register hashes state factorized).2.1.Idle ∧
          (request.register hashes state factorized).2.2 = state) ∨
        (state.loaderWaitCreatesCycle request.originModule target = false ∧
          (request.register hashes state factorized).2.1 = .waiting target factorized.resource ∧
          (request.register hashes state factorized).2.2 =
            { state with loaderWaits := state.loaderWaits.insert request.originModule target }))) ∨
      state.modulesByIdentity.lookup factorized.identity = none ∧
        (request.register hashes state factorized).2.1.Idle ∧
        (request.register hashes state factorized).2.2.buildingModules =
          insert state.count state.buildingModules := by
  have hadded : state.addOrConnect hashes none [] factorized.identity factorized.sideEffectFree =
      state.addModule hashes factorized.identity factorized.sideEffectFree := rfl
  rw [LoaderRequest.register, hadded]
  rcases state.addModule_cases hashes factorized.identity factorized.sideEffectFree with
    ⟨target, hlookup, heq⟩ | ⟨hnone, heq⟩
  · rw [heq]
    refine .inl ⟨target, hlookup, ?_⟩
    by_cases hcycle : state.loaderWaitCreatesCycle request.originModule target = true
    · refine .inl ⟨hcycle, ?_, ?_⟩
      · dsimp only
        rw [if_pos hcycle]
        trivial
      · dsimp only
        rw [if_pos hcycle]
    · refine .inr ⟨Bool.not_eq_true _ ▸ hcycle, ?_, ?_⟩
      · dsimp only
        rw [if_neg hcycle]
        rfl
      · dsimp only
        rw [if_neg hcycle]
  · rw [heq]
    refine .inr ⟨hnone, ?_, ?_⟩
    · dsimp only
      split_ifs <;> trivial
    · dsimp only
      split_ifs <;> rfl

theorem MakeProgress.Ordered.step {progress next : MakeProgress} {event : MakeEvent} (h : progress.Ordered)
    (hknown : progress.Known) (hstep : MakeStep hashes progress event next) : next.Ordered := by
  obtain ⟨consumed, produced, rest, hpending, hnext, heffect⟩ := hstep.effect hknown
  have hle := (hknown.step hstep).2
  refine ⟨fun handle => ?_, fun request hrequest => ?_, fun request hrequest target resource hphase => ?_⟩
  · have hnew := heffect.makesNewBuilds handle
    have hold := h.builds handle
    rw [hpending, buildsLeft_add] at hold
    rw [hnext, buildsLeft_add]
    by_cases heq : handle = progress.state.count
    · have hnone : buildsLeft rest handle = 0 := by
        refine Multiset.countP_eq_zero.mpr fun task htask hbuilds => ?_
        have hlt := hknown.pending task (hpending ▸ Multiset.mem_add.mpr (.inr htask))
        cases task with
        | build task => exact absurd (of_decide_eq_true hbuilds) (heq ▸ hlt.ne)
        | _ => cases hbuilds
      rw [if_pos heq] at hnew
      omega
    · rw [if_neg heq] at hnew
      omega
  · have hstarted : buildsLeft progress.queued request.originModule = 0 ∧
        request.originModule < progress.state.count := by
      rcases hstep.requests hrequest with ⟨before, hbefore, heq⟩ | ⟨task, hrunning, heq⟩
      · rw [← heq]
        exact ⟨h.started before hbefore, hknown.origins before hbefore⟩
      · have hlt := @MakeProgress.buildsLeft_queued_lt _ _ hrunning request.originModule (decide_eq_true heq)
        have hone := h.builds request.originModule
        exact ⟨by omega, heq ▸ hknown.pending _ hrunning.mem_pending⟩
    exact Nat.le_zero.mp ((hstep.queued_le hknown hstarted.2).trans_eq hstarted.1)
  · refine lt_of_lt_of_le ?_ hle
    have hreplace : ∀ {before after : List LoaderRequest} {old : LoaderRequest} {phase : RequestPhase},
        progress.requests = before ++ old :: after → request ∈ before ++ { old with phase } :: after →
          (phase = .waiting target resource → target < progress.state.count) → target < progress.state.count := by
      intro before after old phase hrequests hmem hwaiting
      rcases @mem_replaced _ _ _ old _ _ hmem with hold | rfl
      · exact h.targets request (hrequests ▸ hold) target resource hphase
      · exact hwaiting hphase
    cases hstep with
    | request hrunning hloader kind request context =>
      rcases List.mem_append.mp hrequest with hold | hnew
      · exact h.targets _ hold target resource hphase
      · rw [List.mem_singleton.mp hnew] at hphase
        cases hphase
    | requestUnresolved hrequests _ error => exact hreplace hrequests hrequest fun hwaiting => by cases hwaiting
    | @requestRegistered before after old hrequests _ factorized =>
      refine hreplace hrequests hrequest fun hwaiting => ?_
      rcases @register_cases hashes old progress.state factorized with
        ⟨other, hlookup, ⟨-, hidle, -⟩ | ⟨-, hsame, -⟩⟩ | ⟨-, hidle, -⟩
      · rw [hwaiting] at hidle
        exact hidle.elim
      · rw [hsame] at hwaiting
        cases hwaiting
        exact hknown.state.identities _ _ hlookup
      · rw [hwaiting] at hidle
        exact hidle.elim
    | requestWoken hrequests _ hbuilt => exact hreplace hrequests hrequest fun hwaiting => by cases hwaiting
    | requestStarts hrequests _ => exact hreplace hrequests hrequest fun hwaiting => by cases hwaiting
    | requestRuns hrequests _ hruns => exact hreplace hrequests hrequest fun hwaiting => by cases hwaiting
    | requestFails hrequests _ hfails => exact hreplace hrequests hrequest fun hwaiting => by cases hwaiting
    | requestEnds hrequests _ => exact hreplace hrequests hrequest fun hwaiting => by cases hwaiting
    | main hresult hqueue hruns =>
      rw [MakeProgress.requests_scheduleAll] at hrequest
      exact h.targets request hrequest target resource hphase
    | next hresult hqueue hbackground =>
      rw [MakeProgress.requests_scheduleAll] at hrequest
      exact h.targets request hrequest target resource hphase
    | _ => exact h.targets request hrequest target resource hphase

theorem ordered_start (context : PathBuf) (requests : List String) : (MakeProgress.start context requests).Ordered := by
  refine ⟨fun handle => ?_, fun request hrequest => ?_, fun request hrequest => ?_⟩
  · have hbuilds := (makes_start context requests).builds handle
    have hnone : buildsLeft (MakeProgress.start context requests).pending handle = 0 := by simpa using hbuilds
    rw [hnone]
    exact Nat.zero_le _
  · rw [MakeProgress.start, MakeProgress.requests_scheduleAll] at hrequest
    exact absurd hrequest List.not_mem_nil
  · rw [MakeProgress.start, MakeProgress.requests_scheduleAll] at hrequest
    exact absurd hrequest List.not_mem_nil

theorem MakeRun.ordered {trace : List (MakeProgress × MakeEvent)} {progress : MakeProgress}
    (h : MakeRun hashes trace progress) : progress.Known ∧ progress.Ordered :=
  @Interleaving.Run.invariant _ _ _ _ (fun progress : MakeProgress => progress.Known ∧ progress.Ordered)
    (by rintro _ ⟨context, requests, rfl⟩; exact ⟨known_start context requests, ordered_start context requests⟩)
    (fun _ _ _ ⟨hknown, hordered⟩ hstep => ⟨(hknown.step hstep).1, hordered.step hknown hstep⟩) _ _ h

theorem Runs.buildingModules {task : MakeTask} {state next : MakeState} {event : MakeEvent}
    {children : List MakeTask} (h : Runs hashes task state event children next) {handle : ModuleHandle}
    (hmem : handle ∈ next.buildingModules) : handle ∈ state.buildingModules ∨ handle = state.count := by
  have hadded : ∀ (originModule : Option ModuleHandle) (dependencies : List QueuedDependency)
      (identity : ModuleIdentity) (sideEffectFree : Option Bool),
      handle ∈ (state.addOrConnect hashes originModule dependencies identity sideEffectFree).1.buildingModules →
        handle ∈ state.buildingModules ∨ handle = state.count := by
    intro originModule dependencies identity sideEffectFree hin
    obtain ⟨-, -, -, hbuilding⟩ := MakeState.foldl_connectDependency
      (state.addModule hashes identity sideEffectFree).1 originModule
      (state.addModule hashes identity sideEffectFree).2.moduleHandle dependencies
    have hin' : handle ∈ (state.addModule hashes identity sideEffectFree).1.buildingModules := hbuilding ▸ hin
    rcases state.addModule_cases hashes identity sideEffectFree with ⟨_, -, heq⟩ | ⟨-, heq⟩
    · rw [heq] at hin'
      exact .inl hin'
    · rw [heq] at hin'
      exact (Finset.mem_insert.mp hin').symm
  cases h with
  | add task =>
    obtain ⟨sideEffectFree, -, ⟨-, hnext, -⟩ | ⟨-, -, error, hnext⟩⟩ := task.run_spec hashes state
    · rw [hnext] at hmem
      exact hadded _ _ _ _ hmem
    · rw [hnext] at hmem
      exact hadded _ _ _ _ (Finset.mem_of_mem_erase hmem)
  | finishBuild task hparent builtContent => exact .inl (Finset.mem_of_mem_erase hmem)
  | failModule task hparent error source => exact .inl (Finset.mem_of_mem_erase hmem)
  | _ => exact .inl hmem

namespace MakeProgress

section

variable {progress next : MakeProgress}

/-- A build that a step starts has made no request. -/
def StartsFresh (progress next : MakeProgress) : Prop :=
  ∀ task, next.IsRunning (.build task) → progress.IsRunning (.build task) ∨
    ∀ request ∈ progress.requests, request.originModule ≠ task.moduleHandle

theorem Blocks.before {request : LoaderRequest} {module other : ModuleHandle} (h : next.Blocks request module other)
    (hrequest : request ∈ progress.requests) (hordered : progress.Ordered) (hfresh : progress.StartsFresh next)
    (hbuilding : ∀ handle ∈ next.state.buildingModules,
      handle ∈ progress.state.buildingModules ∨ handle = progress.state.count) :
    progress.Blocks request module other := by
  have hkept : next.IsBuilding request.originModule → progress.IsBuilding request.originModule := by
    rintro ⟨task, hrunning, heq⟩
    exact ⟨task, (hfresh task hrunning).resolve_right fun hnone => hnone request hrequest heq.symm, heq⟩
  cases h with
  | waiting hrunning hphase htarget =>
    refine .waiting (hkept hrunning) hphase ((hbuilding _ htarget).resolve_right fun heq => ?_)
    exact absurd (hordered.targets request hrequest _ _ hphase) heq.not_lt
  | running hrunning hphase => exact .running (hkept hrunning) hphase
  | queued hphase hbehind => exact .queued hphase hbehind

theorem not_blocks_of_idle {request : LoaderRequest} (h : request.phase.Idle) {module other : ModuleHandle} :
    ¬next.Blocks request module other := by
  intro hblocks
  cases hblocks with
  | waiting _ hphase _ | running _ hphase | queued hphase _ =>
    rw [hphase] at h
    exact h.elim

/-- A step after which the requests stand where they stood, or hold up nothing, makes no build wait. -/
theorem DeadlockFree.of_idle (h : progress.DeadlockFree) (hordered : progress.Ordered)
    (hrequests : ∀ request ∈ next.requests, request ∈ progress.requests ∨ request.phase.Idle)
    (hfresh : progress.StartsFresh next)
    (hbuilding : ∀ handle ∈ next.state.buildingModules,
      handle ∈ progress.state.buildingModules ∨ handle = progress.state.count) : next.DeadlockFree := by
  refine h.of_waits fun module other ⟨request, hrequest, hblocks⟩ => ?_
  rcases hrequests request hrequest with hold | hidle
  · exact .inl ⟨request, hold, hblocks.before hold hordered hfresh hbuilding⟩
  · exact absurd hblocks (not_blocks_of_idle hidle)

theorem mem_replace {before after : List LoaderRequest} {old request : LoaderRequest} {phase : RequestPhase}
    (hrequests : progress.requests = before ++ old :: after) (hidle : phase.Idle)
    (h : request ∈ before ++ { old with phase } :: after) : request ∈ progress.requests ∨ request.phase.Idle := by
  rw [hrequests]
  refine (mem_replaced h).imp id ?_
  rintro rfl
  exact hidle

/-- The request runs no build afterwards. -/
theorem isRunning_replace {before after : List LoaderRequest} {old : LoaderRequest} {phase : RequestPhase}
    {state : MakeState} {task : MakeTask} (hrequests : progress.requests = before ++ old :: after)
    (hphase : ∀ target resource queue, phase ≠ .running target resource (some task) queue)
    (h : ({ progress with requests := before ++ { old with phase } :: after, state } : MakeProgress).IsRunning
      task) : progress.IsRunning task := by
  refine h.imp id fun ⟨request, hrequest, target, resource, queue, hrunning⟩ => ?_
  rcases @mem_replaced _ _ _ old _ _ hrequest with hold | rfl
  · exact ⟨request, hrequests ▸ hold, target, resource, queue, hrunning⟩
  · exact absurd hrunning (hphase _ _ _)

/-- A build in a queue has made no request. -/
theorem Ordered.origin_ne (h : progress.Ordered) {build : BuildTask} (hbuild : .build build ∈ progress.queued)
    {request : LoaderRequest} (hrequest : request ∈ progress.requests) :
    request.originModule ≠ build.moduleHandle := by
  intro hsame
  have hpos := buildsLeft_pos hbuild
  rw [← hsame, h.started request hrequest] at hpos
  exact absurd hpos (lt_irrefl _)

end

end MakeProgress

theorem register_ne_running {request : LoaderRequest} {state : MakeState} {factorized : FactorizedModule}
    {target : ModuleHandle} {resource : PathBuf} {task : MakeTask} {queue : List MakeTask} :
    (request.register hashes state factorized).2.1 ≠ .running target resource (some task) queue := by
  intro hrunning
  rcases @register_cases hashes request state factorized with
    ⟨_, -, ⟨-, hidle, -⟩ | ⟨-, hwaiting, -⟩⟩ | ⟨-, hidle, -⟩
  · rw [hrunning] at hidle
    exact hidle
  · rw [hrunning] at hwaiting
    cases hwaiting
  · rw [hrunning] at hidle
    exact hidle

/-- No step starts a build that has made a request. -/
theorem MakeStep.startsFresh {progress next : MakeProgress} {event : MakeEvent}
    (hstep : MakeStep hashes progress event next) (hknown : progress.Known) (hordered : progress.Ordered) :
    progress.StartsFresh next := by
  intro build hrunning
  cases hstep with
  | @main task rest children _ state hresult hqueue hran =>
    rcases hrunning with hbackground | ⟨request, hrequest, hrun⟩
    · rcases MakeProgress.background_scheduleAll hbackground with hold | hchild
      · exact .inl (.inl hold)
      · refine .inr fun request hrequest horigin => hran.makesNewBuilds.not_lt hchild ?_
        rw [← horigin]
        exact hknown.origins request hrequest
    · rw [MakeProgress.requests_scheduleAll] at hrequest
      exact .inl (.inr ⟨request, hrequest, hrun⟩)
  | background hbackground hran =>
    refine .inl (hrunning.imp (fun hmem => ?_) id)
    rw [hbackground]
    exact (mem_replaced hmem).resolve_right BackgroundMakeTask.noConfusion
  | backgroundFails hbackground hfails =>
    refine .inl (hrunning.imp (fun hmem => ?_) id)
    rw [hbackground]
    exact (mem_replaced hmem).resolve_right BackgroundMakeTask.noConfusion
  | @next before after children hresult hqueue hbackground =>
    rcases hrunning with hmem | ⟨request, hrequest, hrun⟩
    · rcases MakeProgress.background_scheduleAll hmem with hold | hchild
      · refine .inl (.inl ?_)
        rw [hbackground]
        exact ((List.sublist_cons_self _ after).append_left before).subset hold
      · refine .inr fun request hrequest => hordered.origin_ne ?_ hrequest
        rw [MakeProgress.queued_of_background hbackground]
        exact Multiset.mem_add.mpr (.inl hchild)
    · rw [MakeProgress.requests_scheduleAll] at hrequest
      exact .inl (.inr ⟨request, hrequest, hrun⟩)
  | @nextFailed before after error hresult hqueue hbackground =>
    refine .inl (hrunning.imp (fun hmem => ?_) id)
    rw [hbackground]
    exact ((List.sublist_cons_self _ after).append_left before).subset hmem
  | done hresult hqueue hbackground => exact .inl hrunning
  | request hasked hloader kind request context =>
    refine .inl (hrunning.imp id fun ⟨other, hmem, target, resource, queue, hphase⟩ => ?_)
    rcases List.mem_append.mp hmem with hold | hnew
    · exact ⟨other, hold, target, resource, queue, hphase⟩
    · rw [List.mem_singleton.mp hnew] at hphase
      cases hphase
  | @requestStarts before after request target resource task queue hrequests hphase =>
    by_cases hbuild : task = .build build
    · refine .inr fun other hother => hordered.origin_ne ?_ hother
      rw [MakeProgress.queued_of_requests hrequests, hphase, hbuild]
      exact Multiset.mem_add.mpr (.inl List.mem_cons_self)
    · refine .inl (MakeProgress.isRunning_replace hrequests (fun _ _ _ hrun => ?_) hrunning)
      cases hrun
      exact hbuild rfl
  | requestRegistered hrequests hphase factorized =>
    exact .inl (MakeProgress.isRunning_replace hrequests (fun _ _ _ => register_ne_running) hrunning)
  | requestUnresolved hrequests _ _ | requestWoken hrequests _ _ | requestRuns hrequests _ _
  | requestFails hrequests _ _ | requestEnds hrequests _ =>
    refine .inl (MakeProgress.isRunning_replace hrequests (fun _ _ _ hrun => ?_) hrunning)
    cases hrun

/-- A module that is being built after a step was so before, or is the one that the step adds. -/
theorem MakeStep.buildingModules {progress next : MakeProgress} {event : MakeEvent}
    (hstep : MakeStep hashes progress event next) {handle : ModuleHandle}
    (hin : handle ∈ next.state.buildingModules) :
    handle ∈ progress.state.buildingModules ∨ handle = progress.state.count := by
  cases hstep with
  | main hresult hqueue hran =>
    rw [MakeProgress.state_scheduleAll] at hin
    exact hran.buildingModules hin
  | background hbackground hran => exact hran.buildingModules hin
  | requestRuns hrequests hphase hran => exact hran.buildingModules hin
  | next hresult hqueue hbackground =>
    rw [MakeProgress.state_scheduleAll] at hin
    exact .inl hin
  | @requestRegistered before after request hrequests hphase factorized =>
    rcases @register_cases hashes request progress.state factorized with
      ⟨_, -, ⟨-, -, hstate⟩ | ⟨-, -, hstate⟩⟩ | ⟨-, -, hbuilding⟩
    · exact .inl (by rw [← hstate]; exact hin)
    · rw [hstate] at hin
      exact .inl hin
    · rw [hbuilding] at hin
      exact (Finset.mem_insert.mp hin).symm
  | _ => exact .inl hin

/-- A loader asks for a module that is still being built, and whose build waits for that of the loader. -/
def ClosesCircle (passed : MakeProgress × MakeEvent) (origin target : ModuleHandle) : Prop :=
  (∃ factorized result, passed.2 = .requested origin factorized result ∧
    passed.1.state.modulesByIdentity.lookup factorized.identity = some target) ∧
    target ∈ passed.1.state.buildingModules ∧ passed.1.IsBuilding origin ∧
      Relation.ReflTransGen passed.1.Waits target origin

/-- Then the recorded waits lead to the loader as well. -/
def RecordsCircles (passed : MakeProgress × MakeEvent) : Prop :=
  ∀ origin target, ClosesCircle passed origin target →
    Relation.ReflTransGen passed.1.state.RecordsWait target origin

/-- Starting a task of a request makes builds wait for a build that has made no request yet. -/
theorem deadlockFree_starts {progress : MakeProgress} {before after : List LoaderRequest} {request : LoaderRequest}
    {target : ModuleHandle} {resource : PathBuf} {task : MakeTask} {queue : List MakeTask} {next : MakeProgress}
    (h : progress.DeadlockFree) (hordered : progress.Ordered) (hnext : next.Ordered)
    (hfresh : progress.StartsFresh next) (hrequests : progress.requests = before ++ request :: after)
    (hphase : request.phase = .running target resource none (task :: queue))
    (heq : next = { progress with
      requests := before ++ { request with phase := .running target resource (some task) queue } :: after }) :
    next.DeadlockFree := by
  have hself : { request with phase := .running target resource (some task) queue } ∈ next.requests := by
    rw [heq]
    exact List.mem_append_right _ List.mem_cons_self
  have hmem : ∀ other ∈ next.requests, other ∈ progress.requests ∨
      other = { request with phase := .running target resource (some task) queue } := by
    intro other hother
    rw [heq] at hother
    rw [hrequests]
    exact mem_replaced hother
  -- A build that is started now was in the queue.
  have hunasked : ∀ build, task = .build build → ∀ other ∈ next.requests,
      other.originModule ≠ build.moduleHandle := by
    intro build hbuild other hother
    have hqueued : .build build ∈ progress.queued := by
      rw [MakeProgress.queued_of_requests hrequests, hphase, hbuild]
      exact Multiset.mem_add.mpr (.inl List.mem_cons_self)
    have hasked : request.originModule ≠ build.moduleHandle := by
      refine hordered.origin_ne hqueued ?_
      rw [hrequests]
      exact List.mem_append_right _ List.mem_cons_self
    rcases hmem other hother with hold | rfl
    · exact hordered.origin_ne hqueued hold
    · exact hasked
  have hstuck : ∀ build, task = .build build → ∀ last, ¬next.Waits build.moduleHandle last := by
    rintro build hbuild last ⟨other, hother, hblocks⟩
    have hrunning : next.IsRunning (.build build) := .inr ⟨_, hself, target, resource, queue, by rw [hbuild]⟩
    generalize hhandle : build.moduleHandle = handle at hblocks
    cases hblocks with
    | waiting _ _ _ => exact hunasked build hbuild other hother hhandle.symm
    | running _ _ => exact hunasked build hbuild other hother hhandle.symm
    | @queued otherTarget otherResource current behind rest hrest hbehind =>
      obtain ⟨left, right, hsplit⟩ := List.append_of_mem hother
      have hlt := MakeProgress.buildsLeft_queued_lt hrunning (decide_eq_true hhandle)
      have hone := hnext.builds behind.moduleHandle
      have hpos : 0 < buildsLeft next.queued behind.moduleHandle := by
        rw [MakeProgress.queued_of_requests hsplit, hrest, buildsLeft_add]
        exact Nat.add_pos_left (buildsLeft_pos hbehind) _
      omega
  refine h.of_waits fun module other ⟨blocking, hblocking, hblocks⟩ => ?_
  rcases hmem blocking hblocking with hold | rfl
  · refine .inl ⟨blocking, hold, hblocks.before hold hordered hfresh fun handle hin => .inl ?_⟩
    rw [heq] at hin
    exact hin
  · cases hblocks with
    | waiting _ hwaiting _ => cases hwaiting
    | running _ hrun =>
      cases hrun
      exact .inr (hstuck _ rfl)
    | queued hrun _ =>
      cases hrun
      exact .inr (hstuck _ rfl)

/-- A request for a module that is there waits for it. -/
theorem deadlockFree_waits_iff {progress : MakeProgress} {before after : List LoaderRequest}
    {request : LoaderRequest} {target : ModuleHandle} {resource : PathBuf} {next : MakeProgress}
    (h : progress.DeadlockFree) (hordered : progress.Ordered)
    (hrequests : progress.requests = before ++ request :: after) (hphase : request.phase = .factorizing)
    (hbackground : next.background = progress.background)
    (hnext : next.requests = before ++ { request with phase := .waiting target resource } :: after)
    (hbuilding : next.state.buildingModules = progress.state.buildingModules) :
    next.DeadlockFree ↔ (target ∈ progress.state.buildingModules → progress.IsBuilding request.originModule →
      ¬Relation.ReflTransGen progress.Waits target request.originModule) := by
  have hin : request ∈ progress.requests := by
    rw [hrequests]
    exact List.mem_append_right _ List.mem_cons_self
  have hself : { request with phase := .waiting target resource } ∈ next.requests := by
    rw [hnext]
    exact List.mem_append_right _ List.mem_cons_self
  have hmem : ∀ other ∈ next.requests, other ∈ progress.requests ∨
      other = { request with phase := .waiting target resource } := by
    intro other hother
    rw [hnext] at hother
    rw [hrequests]
    exact mem_replaced hother
  have hstays : ∀ other ∈ progress.requests, ¬other.phase.Idle → other ∈ next.requests := by
    intro other hother hbusy
    rw [hrequests] at hother
    rw [hnext]
    refine (mem_replaced hother).resolve_right ?_
    rintro rfl
    exact hbusy (hphase ▸ trivial)
  have hrunning : ∀ task, next.IsRunning task ↔ progress.IsRunning task := by
    intro task
    refine or_congr (by rw [hbackground]) ⟨?_, ?_⟩
    · rintro ⟨other, hother, otherTarget, otherResource, queue, hrun⟩
      rcases hmem other hother with hold | rfl
      · exact ⟨other, hold, otherTarget, otherResource, queue, hrun⟩
      · cases hrun
    · rintro ⟨other, hother, otherTarget, otherResource, queue, hrun⟩
      exact ⟨other, hstays other hother (hrun ▸ id), otherTarget, otherResource, queue, hrun⟩
  have hisBuilding : ∀ handle, next.IsBuilding handle ↔ progress.IsBuilding handle :=
    fun handle => exists_congr fun task => and_congr_left fun _ => hrunning _
  have hkept : ∀ module other, progress.Waits module other → next.Waits module other := by
    rintro module other ⟨blocking, hblocking, hblocks⟩
    refine ⟨blocking, hstays blocking hblocking fun hidle => MakeProgress.not_blocks_of_idle hidle hblocks, ?_⟩
    cases hblocks with
    | waiting hrun hwaiting htarget =>
      exact .waiting ((hisBuilding _).mpr hrun) hwaiting (by rw [hbuilding]; exact htarget)
    | running hrun hphase => exact .running ((hisBuilding _).mpr hrun) hphase
    | queued hphase hbehind => exact .queued hphase hbehind
  have hnew : ∀ module other, next.Waits module other → progress.Waits module other ∨
      (module = request.originModule ∧ other = target) ∧ target ∈ progress.state.buildingModules ∧
        progress.IsBuilding request.originModule := by
    rintro module other ⟨blocking, hblocking, hblocks⟩
    rcases hmem blocking hblocking with hold | rfl
    · refine .inl ⟨blocking, hold, hblocks.before hold hordered
        (fun task hrun => .inl ((hrunning _).mp hrun)) fun handle hin => .inl ?_⟩
      rw [← hbuilding]
      exact hin
    · cases hblocks with
      | waiting hrun hwaiting htarget =>
        cases hwaiting
        exact .inr ⟨⟨rfl, rfl⟩, hbuilding ▸ htarget, (hisBuilding _).mp hrun⟩
      | running _ hrun => cases hrun
      | queued hrun _ => cases hrun
  constructor
  · intro hfree htarget hrun hcircle
    refine MakeProgress.deadlock_of_wait hcircle hkept ⟨_, hself, ?_⟩ hfree
    exact .waiting ((hisBuilding _).mpr hrun) rfl (by rw [hbuilding]; exact htarget)
  · intro hopen
    by_cases hwhen : target ∈ progress.state.buildingModules ∧ progress.IsBuilding request.originModule
    · exact h.of_wait (hopen hwhen.1 hwhen.2) fun module other hwait => (hnew module other hwait).imp id And.left
    · exact h.of_waits fun module other hwait => .inl ((hnew module other hwait).resolve_right fun hboth =>
        hwhen hboth.2)

/-- **What every step keeps.** A step makes no deadlock unless it registers a request that closes a circle which
is not recorded. -/
theorem MakeStep.deadlockFree_iff {progress next : MakeProgress} {event : MakeEvent}
    (hstep : MakeStep hashes progress event next) (hknown : progress.Known) (hordered : progress.Ordered)
    (h : progress.DeadlockFree) : next.DeadlockFree ↔ RecordsCircles (progress, event) := by
  have hnext := hordered.step hknown hstep
  have hother : (∀ origin factorized result, event ≠ .requested origin factorized result) →
      RecordsCircles (progress, event) := by
    rintro hevent origin target ⟨⟨factorized, result, hrequested, -⟩, -⟩
    exact absurd hrequested (hevent origin factorized result)
  have hruns : ∀ {task : MakeTask} {state : MakeState} {children : List MakeTask},
      Runs hashes task progress.state event children state → RecordsCircles (progress, event) := by
    intro task state children hruns
    refine hother ?_
    rintro origin factorized result rfl
    cases hruns
  have hfresh := hstep.startsFresh hknown hordered
  have hidle : (∀ request ∈ next.requests, request ∈ progress.requests ∨ request.phase.Idle) → next.DeadlockFree :=
    fun hrequests => h.of_idle hordered hrequests hfresh fun _ => hstep.buildingModules
  have hreplaced : ∀ {before after : List LoaderRequest} {old : LoaderRequest} {phase : RequestPhase},
      progress.requests = before ++ old :: after → next.requests = before ++ { old with phase } :: after →
        phase.Idle → next.DeadlockFree := by
    intro before after old phase hrequests heq hphase
    refine hidle fun request hrequest => ?_
    rw [heq] at hrequest
    exact MakeProgress.mem_replace hrequests hphase hrequest
  cases hstep with
  | main hresult hqueue hran =>
    refine iff_of_true (hidle fun request hrequest => ?_) (hruns hran)
    rw [MakeProgress.requests_scheduleAll] at hrequest
    exact .inl hrequest
  | background hbackground hran => exact iff_of_true (hidle fun _ hrequest => .inl hrequest) (hruns hran)
  | next hresult hqueue hbackground =>
    refine iff_of_true (hidle fun request hrequest => ?_) (hother fun _ _ _ heq => by cases heq)
    rw [MakeProgress.requests_scheduleAll] at hrequest
    exact .inl hrequest
  | backgroundFails _ _ | nextFailed _ _ _ | done _ _ _ =>
    exact iff_of_true (hidle fun _ hrequest => .inl hrequest) (hother fun _ _ _ heq => by cases heq)
  | request hrunning hloader kind request context =>
    refine iff_of_true (hidle fun other hmem => ?_) (hother fun _ _ _ heq => by cases heq)
    rcases List.mem_append.mp hmem with hold | hnew
    · exact .inl hold
    · rw [List.mem_singleton.mp hnew]
      exact .inr trivial
  | @requestRegistered before after request hrequests hphase factorized =>
    have hiff : ∀ target, progress.state.modulesByIdentity.lookup factorized.identity = some target →
        ∀ other last, ClosesCircle
          (progress, .requested request.originModule factorized
            (request.register hashes progress.state factorized).1) other last →
          other = request.originModule ∧ last = target := by
      rintro target hlookup other last ⟨⟨found, result, heq, hfound⟩, -⟩
      cases heq
      exact ⟨rfl, Option.some.inj (hfound.symm.trans hlookup)⟩
    rcases @register_cases hashes request progress.state factorized with
      ⟨target, hlookup, ⟨hcycle, hphase', -⟩ | ⟨hcycle, hwaiting, hstate⟩⟩ | ⟨hnone, hphase', -⟩
    · refine iff_of_true (hreplaced hrequests rfl hphase') fun other last hcloses => ?_
      obtain ⟨rfl, rfl⟩ := hiff target hlookup other last hcloses
      exact MakeState.loaderWaitCreatesCycle_iff.mp hcycle
    · refine (deadlockFree_waits_iff h hordered hrequests hphase ?_ (congrArg (fun phase =>
        before ++ { request with phase } :: after) hwaiting) ?_).trans ⟨?_, ?_⟩
      · rfl
      · rw [hstate]
      · intro hopen other last hcloses
        obtain ⟨rfl, rfl⟩ := hiff target hlookup other last hcloses
        exact absurd hcloses.2.2.2 (hopen hcloses.2.1 hcloses.2.2.1)
      · intro hrecords htarget hrunning hcircle
        have hrecorded := hrecords request.originModule target
          ⟨⟨factorized, _, rfl, hlookup⟩, htarget, hrunning, hcircle⟩
        rw [MakeState.loaderWaitCreatesCycle_iff.mpr hrecorded] at hcycle
        cases hcycle
    · refine iff_of_true (hreplaced hrequests rfl hphase') ?_
      rintro other last ⟨⟨found, result, heq, hfound⟩, -⟩
      cases heq
      rw [hnone] at hfound
      cases hfound
  | requestStarts hrequests hphase =>
    exact iff_of_true (deadlockFree_starts h hordered hnext hfresh hrequests hphase rfl)
      (hother fun _ _ _ heq => by cases heq)
  | requestRuns hrequests hphase hran => exact iff_of_true (hreplaced hrequests rfl trivial) (hruns hran)
  | requestUnresolved hrequests _ _ | requestWoken hrequests _ _ | requestFails hrequests _ _
  | requestEnds hrequests _ =>
    exact iff_of_true (hreplaced hrequests rfl trivial) (hother fun _ _ _ heq => by cases heq)

theorem deadlockFree_start (context : PathBuf) (requests : List String) :
    (MakeProgress.start context requests).DeadlockFree := by
  rintro builds ⟨⟨module, hmodule⟩, hblocked⟩
  obtain ⟨other, -, request, hrequest, -⟩ := hblocked module hmodule
  rw [MakeProgress.start, MakeProgress.requests_scheduleAll] at hrequest
  exact absurd hrequest List.not_mem_nil

theorem recordsCircles_iff {passed : MakeProgress × MakeEvent} : RecordsCircles passed ↔
    ∀ origin target, ClosesCircle passed origin target →
      passed.1.state.loaderWaitCreatesCycle origin target = true :=
  forall₂_congr fun _ _ => imp_congr_right fun _ => MakeState.loaderWaitCreatesCycle_iff.symm

/-- No builds wait for each other at any time exactly when every circle is recorded. -/
theorem MakeRun.deadlockFree_iff {trace : List (MakeProgress × MakeEvent)} {progress : MakeProgress}
    (h : MakeRun hashes trace progress) :
    ((∀ passed ∈ trace, passed.1.DeadlockFree) ∧ progress.DeadlockFree) ↔
      ∀ passed ∈ trace, RecordsCircles passed := by
  induction h with
  | start hstart =>
    obtain ⟨context, requests, rfl⟩ := hstart
    exact iff_of_true ⟨fun _ hpassed => absurd hpassed List.not_mem_nil, deadlockFree_start context requests⟩
      fun _ hpassed => absurd hpassed List.not_mem_nil
  | @step trace state next event hrun hstep ih =>
    obtain ⟨hknown, hordered⟩ := MakeRun.ordered hrun
    simp only [List.forall_mem_append, List.forall_mem_singleton]
    rw [← ih]
    constructor
    · rintro ⟨hall, hnext⟩
      exact ⟨hall, (hstep.deadlockFree_iff hknown hordered hall.2).mp hnext⟩
    · rintro ⟨hall, hrecords⟩
      exact ⟨hall, (hstep.deadlockFree_iff hknown hordered hall.2).mpr hrecords⟩

/-- **No builds wait for each other** at any time of a run, and every request that would make them do so is
answered with an error, if and only if the recorded waits show each such request. -/
theorem makeRun_deadlockFree_iff {trace : List (MakeProgress × MakeEvent)} {progress : MakeProgress}
    (h : MakeRun hashes trace progress) :
    ((∀ passed ∈ trace, passed.1.DeadlockFree) ∧ progress.DeadlockFree ∧
      ∀ passed ∈ trace, ∀ origin target, ClosesCircle passed origin target →
        passed.1.state.loaderWaitCreatesCycle origin target = true) ↔
      ∀ passed ∈ trace, RecordsCircles passed := by
  constructor
  · rintro ⟨hbefore, hlast, -⟩
    exact (MakeRun.deadlockFree_iff h).mp ⟨hbefore, hlast⟩
  · intro hrecords
    obtain ⟨hbefore, hlast⟩ := (MakeRun.deadlockFree_iff h).mpr hrecords
    exact ⟨hbefore, hlast, fun passed hpassed => recordsCircles_iff.mp (hrecords passed hpassed)⟩

namespace RequestedModules

def ask (origin : ModuleHandle) (request : String) (phase : RequestPhase) : LoaderRequest :=
  ⟨origin, .load, request, [""], phase⟩

/-- The modules are built by loaders. -/
def loaded (name : String) : FactorizedModule := fileAt name (some someLoader)

def buildOf (handle : ModuleHandle) (name : String) : BuildTask := fileBuild handle name (some someLoader)

def register (state : MakeState) (origin : ModuleHandle) (request name : String) : MakeState :=
  ((ask origin request .factorizing).register noHashes state (loaded name)).2.2

/-- The entry has asked for `b.js`. -/
def first : MakeState := register (entryAdded (some someLoader)) 0 "./b.js" "b.js"

/-- While the loader of the entry runs. -/
def waiting (state : MakeState) (requests : List LoaderRequest) : MakeProgress :=
  { state, background := [.running (.build (buildOf 0 "a.js"))], requests }

def running : LoaderRequest := ask 0 "./b.js" (.running 1 ["", "b.js"] (some (.build (buildOf 1 "b.js"))) [])

/-- The steps that lead to the build of `b.js` for the loader of the entry. -/
def firstSteps : List (MakeProgress × MakeEvent) :=
  [(waiting (entryAdded (some someLoader)) [], .other),
    (waiting (entryAdded (some someLoader)) [ask 0 "./b.js" .factorizing], .requested 0 (loaded "b.js") ⟨1, true⟩),
    (waiting first [ask 0 "./b.js" (.running 1 ["", "b.js"] none [.build (buildOf 1 "b.js")])], .other)]

theorem run_running : ∃ trace, MakeRun noHashes (trace ++ firstSteps) (waiting first [running]) ∧
    trace.map Prod.snd = entryEvents (some someLoader) := by
  obtain ⟨trace, hrun, hevents⟩ := reaches_entry (some someLoader)
  refine ⟨trace, ?_, hevents⟩
  have hasked := Interleaving.Run.step hrun
    (@MakeStep.request noHashes _ (buildOf 0 "a.js") (.inl List.mem_cons_self) rfl .load "./b.js" [""])
  have hfirst := hasked.step
    (@MakeStep.requestRegistered noHashes _ [] [] (ask 0 "./b.js" .factorizing) rfl rfl (loaded "b.js"))
  have hrunning := hfirst.step (@MakeStep.requestStarts noHashes _ [] []
    (ask 0 "./b.js" (.running 1 ["", "b.js"] none [.build (buildOf 1 "b.js")])) _ _ _ _ rfl rfl)
  rw [List.append_assoc, List.append_assoc] at hrunning
  exact hrunning

/-- The loader of `b.js` asks for the entry, and is told that the builds wait for each other. -/
def askingBack : MakeProgress := waiting first [running, ask 1 "./a.js" .factorizing]

def answeredBack : MakeProgress :=
  waiting (register first 1 "./a.js" "a.js") [running,
    ask 1 "./a.js" ((ask 1 "./a.js" .factorizing).register noHashes first (loaded "a.js")).2.1]

def lastSteps : List (MakeProgress × MakeEvent) :=
  [(waiting first [running], .other), (askingBack, .requested 1 (loaded "a.js") ⟨0, false⟩)]

theorem run_answered : ∃ trace, MakeRun noHashes (trace ++ (firstSteps ++ lastSteps)) answeredBack ∧
    trace.map Prod.snd = entryEvents (some someLoader) := by
  obtain ⟨trace, hrun, hevents⟩ := run_running
  refine ⟨trace, ?_, hevents⟩
  have hasked := Interleaving.Run.step hrun
    (@MakeStep.request noHashes _ (buildOf 1 "b.js") (.inr ⟨running, List.mem_cons_self, 1, ["", "b.js"], [], rfl⟩)
      rfl .load "./a.js" [""])
  have hanswered := hasked.step
    (@MakeStep.requestRegistered noHashes _ [running] [] (ask 1 "./a.js" .factorizing) rfl rfl (loaded "a.js"))
  rw [List.append_assoc, List.append_assoc] at hanswered
  exact hanswered

theorem closesCircle_asking : ClosesCircle (askingBack, .requested 1 (loaded "a.js") ⟨0, false⟩) 1 0 := by
  have hbuilds : askingBack.IsBuilding 0 := ⟨buildOf 0 "a.js", .inl List.mem_cons_self, rfl⟩
  refine ⟨⟨_, _, rfl, by decide⟩, by decide,
    ⟨buildOf 1 "b.js", .inr ⟨running, List.mem_cons_self, 1, ["", "b.js"], [], rfl⟩, rfl⟩, .single ?_⟩
  exact ⟨running, List.mem_cons_self, @MakeProgress.Blocks.running _ running 1 ["", "b.js"] (buildOf 1 "b.js") []
    hbuilds rfl⟩

/-- A request back closes a circle, which is recorded: it is answered with an error, and no builds wait for each
other. -/
theorem answeredBack_deadlockFree :
    ClosesCircle (askingBack, .requested 1 (loaded "a.js") ⟨0, false⟩) 1 0 ∧
      askingBack.state.loaderWaitCreatesCycle 1 0 = true ∧ answeredBack.DeadlockFree := by
  obtain ⟨trace, hrun, hevents⟩ := run_answered
  have hrecords : ∀ passed ∈ trace ++ (firstSteps ++ lastSteps), RecordsCircles passed := by
    intro passed hpassed origin target hcloses
    obtain ⟨⟨factorized, result, hrequested, hfound⟩, -⟩ := id hcloses
    rcases List.mem_append.mp hpassed with hentry | hlater
    · have hmem : passed.2 ∈ entryEvents (some someLoader) := hevents ▸ List.mem_map_of_mem hentry
      rw [hrequested] at hmem
      simp [entryEvents] at hmem
    · simp only [firstSteps, lastSteps, List.mem_append, List.mem_cons, List.not_mem_nil, or_false] at hlater
      rcases hlater with (rfl | rfl | rfl) | rfl | rfl
      · cases hrequested
      · cases hrequested
        have hnew : (entryAdded (some someLoader)).modulesByIdentity.lookup (loaded "b.js").identity = none := by decide
        cases hnew.symm.trans hfound
      · cases hrequested
      · cases hrequested
      · cases hrequested
        have hentry : first.modulesByIdentity.lookup (loaded "a.js").identity = some 0 := by decide
        cases hentry.symm.trans hfound
        exact .single (show first.loaderWaits.lookup 0 = some 1 by decide)
  obtain ⟨-, hfree, hreported⟩ := (makeRun_deadlockFree_iff hrun).mpr hrecords
  refine ⟨closesCircle_asking, hreported _ ?_ 1 0 closesCircle_asking, hfree⟩
  exact List.mem_append_right _ (List.mem_append_right _ (List.mem_cons_of_mem _ List.mem_cons_self))

end RequestedModules

namespace ConcurrentRequests

open RequestedModules

def second : MakeState := register first 0 "./c.js" "c.js"

def third : MakeState := register second 1 "./a.js" "a.js"

def ready : LoaderRequest := ask 0 "./c.js" (.running 2 ["", "c.js"] none [.build (buildOf 2 "c.js")])

/-- The entry has asked for two modules, and the first of them for the entry. -/
def final : MakeProgress := waiting third [running, ready, ask 1 "./a.js" (.waiting 0 ["", "a.js"])]

theorem run_final : ∃ trace, MakeRun noHashes trace final := by
  obtain ⟨trace, hrun, -⟩ := run_running
  have hagain := Interleaving.Run.step hrun
    (@MakeStep.request noHashes _ (buildOf 0 "a.js") (.inl List.mem_cons_self) rfl .load "./c.js" [""])
  have hsecond := hagain.step (@MakeStep.requestRegistered noHashes _ [running] [] (ask 0 "./c.js" .factorizing)
    rfl rfl (loaded "c.js"))
  have hback := hsecond.step (@MakeStep.request noHashes _ (buildOf 1 "b.js")
    (.inr ⟨running, List.mem_cons_self, 1, ["", "b.js"], [], rfl⟩) rfl .load "./a.js" [""])
  exact ⟨_, hback.step (@MakeStep.requestRegistered noHashes _ [running, ready] [] (ask 1 "./a.js" .factorizing)
    rfl rfl (loaded "a.js"))⟩

end ConcurrentRequests

/-- Only the last of two requests of a loader is recorded, and the module of the first asks for the loader's. -/
theorem concurrentRequests_deadlock : ∃ trace progress, MakeRun noHashes trace progress ∧
    progress.Deadlock {0, 1} ∧ progress.state.loaderWaitCreatesCycle 1 0 = false := by
  obtain ⟨trace, hrun⟩ := ConcurrentRequests.run_final
  refine ⟨trace, ConcurrentRequests.final, hrun, ⟨⟨0, .inl rfl⟩, ?_⟩, by decide⟩
  rintro module (rfl | rfl)
  · refine ⟨1, .inr rfl, RequestedModules.running, List.mem_cons_self, ?_⟩
    exact @MakeProgress.Blocks.running _ RequestedModules.running 1 ["", "b.js"]
      (RequestedModules.buildOf 1 "b.js") []
      ⟨RequestedModules.buildOf 0 "a.js", .inl List.mem_cons_self, rfl⟩ rfl
  · refine ⟨0, .inl rfl, RequestedModules.ask 1 "./a.js" (.waiting 0 ["", "a.js"]),
      List.mem_cons_of_mem _ (List.mem_cons_of_mem _ List.mem_cons_self), ?_⟩
    exact @MakeProgress.Blocks.waiting ConcurrentRequests.final
      (RequestedModules.ask 1 "./a.js" (.waiting 0 ["", "a.js"])) 0 ["", "a.js"]
      ⟨RequestedModules.buildOf 1 "b.js",
        .inr ⟨RequestedModules.running, List.mem_cons_self, 1, ["", "b.js"], [], rfl⟩, rfl⟩ rfl (by decide)

end Unpack.Make
