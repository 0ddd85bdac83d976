import Unpack.MakeInvariant
import Mathlib.Data.Multiset.Bind

/-! Make builds every module once and connects every dependency once. -/

namespace Unpack.Make

variable {hashes : ContentHashes}

/-- Every identity has one module, a module to which a request was factorized is built once, any other is the
failed module of a request and is not built, and every module dependency of a module without an error has one
connection. -/
structure MakesOnce (history : List MakeEvent) (graph : ModuleGraph) : Prop where
  identities : (graph.modules.map (·.identity)).Nodup
  builds : ∀ handle module, graph.module handle = some module →
    (∃ event ∈ history, event.FactorizesTo module.identity) ∧ history.countP (·.builds handle) = 1 ∨
      (∀ event ∈ history, ¬event.FactorizesTo module.identity) ∧ history.countP (·.builds handle) = 0 ∧
        ∃ event ∈ history, event.AddsFailed handle
  connections : ∀ handle module, graph.module handle = some module → module.buildError = none →
    ∀ location dependency, (location, dependency) ∈ module.locatedDependencies →
      dependency.isModuleDependency = true →
        ∃ connection, graph.connections.filter (·.At handle location) = [connection] ∧
          connection.dependency = dependency ∧ Targets history graph connection ∧
            graph.moduleForDependency handle location.block location.dependencyIndex = some connection.module

/-- In every run the tasks that are left and those that are lost account for what has not been done. -/
theorem MakeRun.makes {trace : List (MakeProgress × MakeEvent)} {progress : MakeProgress}
    (h : MakeRun hashes trace progress) :
    Makes (trace.map Prod.snd) progress.state (progress.pending + lostTasks (trace.map Prod.snd)) ∧
      ∀ task ∈ lostTasks (trace.map Prod.snd), task.Known progress.state.count := by
  induction h with
  | start hstart =>
    obtain ⟨context, requests, rfl⟩ := hstart
    refine ⟨?_, fun task htask => absurd htask (Multiset.notMem_zero task)⟩
    exact (add_zero (MakeProgress.start context requests).pending).symm ▸ makes_start context requests
  | @step trace state next event hrun hstep ih =>
    obtain ⟨hmakes, hlost⟩ := ih
    have hknown := MakeRun.known hrun
    obtain ⟨consumed, produced, rest, hpending, hnext, heffect⟩ := hstep.effect hknown
    have hconsumed : ∀ task ∈ consumed, task.Known state.state.count := fun task htask =>
      hknown.pending task (hpending ▸ Multiset.mem_add.mpr (.inl htask))
    have hall : ∀ task ∈ (consumed : Multiset MakeTask) + (rest + lostTasks (trace.map Prod.snd)),
        task.Known state.state.count := by
      intro task htask
      rw [← add_assoc, ← hpending] at htask
      exact (Multiset.mem_add.mp htask).elim (hknown.pending task) (hlost task)
    obtain ⟨hle, -, -⟩ := heffect.known hknown.state hconsumed
    rw [hpending, add_assoc] at hmakes
    rw [List.map_append, List.map_singleton, lostTasks_append, hnext]
    constructor
    · have hnow := hmakes.effect hall heffect
      rwa [add_left_comm (event.lost : Multiset MakeTask), ← add_assoc (produced : Multiset MakeTask)] at hnow
    · intro task htask
      rcases Multiset.mem_add.mp htask with hnow | hbefore
      · exact MakeTask.Known.mono hle (hconsumed task (heffect.mem_of_lost hnow))
      · exact MakeTask.Known.mono hle (hlost task hbefore)

/-- When `run` has returned `Ok` nothing is left in its queues, and it does not after a task of them failed. -/
structure MakeProgress.Ends (progress : MakeProgress) (failed : Prop) : Prop where
  ok : progress.result = some (.ok ()) → progress.mainQueue = [] ∧ progress.background = []
  failed : failed → (∃ error, progress.result = some (.error error)) ∨
    ∃ error, .ended (.error error) ∈ progress.background

@[simp]
theorem MakeProgress.result_scheduleAll (progress : MakeProgress) (tasks : List MakeTask) :
    (progress.scheduleAll tasks).result = progress.result := by
  induction tasks generalizing progress with
  | nil => rfl
  | cons task tasks ih =>
    refine (ih _).trans ?_
    unfold schedule
    split <;> rfl

theorem MakeProgress.mem_background_scheduleAll {progress : MakeProgress} {task : BackgroundMakeTask}
    (h : task ∈ progress.background) (tasks : List MakeTask) :
    task ∈ (progress.scheduleAll tasks).background := by
  induction tasks generalizing progress with
  | nil => exact h
  | cons child tasks ih =>
    refine ih ?_
    unfold schedule
    split
    · exact List.mem_append_left _ h
    · exact h

theorem Runs.not_isOuterFailure {task : MakeTask} {state next : MakeState} {event : MakeEvent}
    {children : List MakeTask} (h : Runs hashes task state event children next) : ¬event.IsOuterFailure := by
  cases h <;> exact id

/-- A task of the background is taken away or replaced. -/
theorem MakeProgress.mem_of_background {before after : List BackgroundMakeTask} {task : BackgroundMakeTask}
    {error : Error} (h : .ended (.error error) ∈ before ++ task :: after) (hne : task ≠ .ended (.error error)) :
    .ended (.error error) ∈ before ++ after := by
  rcases List.mem_append.mp h with h | h
  · exact List.mem_append_left _ h
  · exact List.mem_append_right _ ((List.mem_cons.mp h).resolve_left (Ne.symm hne))

theorem MakeProgress.Ends.step {progress next : MakeProgress} {failed : Prop} {event : MakeEvent}
    (hends : progress.Ends failed) (h : MakeStep hashes progress event next) :
    next.Ends (failed ∨ event.IsOuterFailure) := by
  have hsame : ∀ {next : MakeProgress} {event : MakeEvent}, ¬event.IsOuterFailure →
      next.mainQueue = progress.mainQueue → next.background = progress.background →
        next.result = progress.result → next.Ends (failed ∨ event.IsOuterFailure) := by
    intro next event houter hqueue hbackground hresult
    refine ⟨fun hok => ?_, fun hfailed => ?_⟩
    · rw [hqueue, hbackground]
      exact hends.ok (hresult.symm.trans hok)
    · rw [hbackground, hresult]
      exact hends.failed (hfailed.resolve_right houter)
  cases h with
  | main hresult hqueue hruns =>
    refine ⟨fun hok => ?_, fun hfailed => ?_⟩
    · rw [MakeProgress.result_scheduleAll, hresult] at hok
      cases hok
    · rcases hends.failed (hfailed.resolve_right hruns.not_isOuterFailure) with ⟨error, herror⟩ | ⟨error, herror⟩
      · rw [hresult] at herror
        cases herror
      · exact .inr ⟨error, MakeProgress.mem_background_scheduleAll (by exact herror) _⟩
  | @background before after task children _ state hbackground hruns =>
    refine ⟨fun hok => ?_, fun hfailed => ?_⟩
    · obtain ⟨-, hnone⟩ := hends.ok hok
      rw [hbackground] at hnone
      simp at hnone
    · refine (hends.failed (hfailed.resolve_right hruns.not_isOuterFailure)).imp id fun ⟨error, herror⟩ => ?_
      rw [hbackground] at herror
      have hother := MakeProgress.mem_of_background herror fun hsame => by cases hsame
      exact ⟨error, ((List.sublist_cons_self _ after).append_left before).subset hother⟩
  | @backgroundFails before after task error hbackground hfails =>
    refine ⟨fun hok => ?_, fun _ => .inr ⟨error, by simp⟩⟩
    obtain ⟨-, hnone⟩ := hends.ok hok
    rw [hbackground] at hnone
    simp at hnone
  | @next before after children hresult hqueue hbackground =>
    refine ⟨fun hok => ?_, fun hfailed => ?_⟩
    · rw [MakeProgress.result_scheduleAll, hresult] at hok
      cases hok
    · rcases hends.failed (hfailed.resolve_right id) with ⟨error, herror⟩ | ⟨error, herror⟩
      · rw [hresult] at herror
        cases herror
      · rw [hbackground] at herror
        have hother := MakeProgress.mem_of_background herror fun hsame => by cases hsame
        exact .inr ⟨error, MakeProgress.mem_background_scheduleAll hother _⟩
  | @nextFailed before after error hresult hqueue hbackground =>
    exact ⟨fun hok => (by cases hok), fun _ => .inl ⟨error, rfl⟩⟩
  | done hresult hqueue hbackground =>
    refine ⟨fun _ => ⟨hqueue, hbackground⟩, fun hfailed => ?_⟩
    rcases hends.failed (hfailed.resolve_right id) with ⟨error, herror⟩ | ⟨error, herror⟩
    · rw [hresult] at herror
      cases herror
    · rw [hbackground] at herror
      exact absurd herror List.not_mem_nil
  | requestRuns hrequests hphase hruns => exact hsame hruns.not_isOuterFailure rfl rfl rfl
  | _ => exact hsame id rfl rfl rfl

theorem MakeRun.ends {trace : List (MakeProgress × MakeEvent)} {progress : MakeProgress}
    (h : MakeRun hashes trace progress) : progress.Ends (∃ passed ∈ trace, passed.2.IsOuterFailure) := by
  induction h with
  | start hstart =>
    obtain ⟨context, requests, rfl⟩ := hstart
    refine ⟨fun hok => ?_, fun ⟨_, hpassed, _⟩ => absurd hpassed List.not_mem_nil⟩
    rw [MakeProgress.start, MakeProgress.result_scheduleAll] at hok
    cases hok
  | @step trace state next event hrun hstep ih =>
    obtain ⟨hok, hfailed⟩ := ih.step hstep
    refine ⟨hok, ?_⟩
    rintro ⟨passed, hpassed, houter⟩
    refine hfailed ?_
    rcases List.mem_append.mp hpassed with hpassed | hpassed
    · exact .inl ⟨passed, hpassed, houter⟩
    · rw [List.mem_singleton.mp hpassed] at houter
      exact .inr houter

theorem MakeState.Identified.nodup {state : MakeState} (h : state.Identified) :
    (state.moduleGraph.modules.map (·.identity)).Nodup := by
  refine List.nodup_iff_getElem?_ne_getElem?.mpr fun first second hlt hsecond heq => ?_
  rw [List.length_map] at hsecond
  have hfirst := hlt.trans hsecond
  have hmodule : ∀ {handle} (hhandle : handle < state.moduleGraph.modules.length),
      state.modulesByIdentity.lookup (state.moduleGraph.modules[handle]).identity = some handle :=
    fun hhandle => h.lookup _ _ (List.getElem?_eq_getElem hhandle)
  rw [List.getElem?_map, List.getElem?_map, List.getElem?_eq_getElem hfirst, List.getElem?_eq_getElem hsecond]
    at heq
  have hidentity : (state.moduleGraph.modules[first]).identity = (state.moduleGraph.modules[second]).identity :=
    Option.some.inj heq
  have hsame := hmodule hfirst
  rw [hidentity, hmodule hsecond] at hsame
  exact hlt.ne' (Option.some.inj hsame)

/-- One location is connected once. -/
theorem ConnectedOnce.filter_eq {graph : ModuleGraph} {owed : ModuleHandle → Multiset LocatedDependency}
    {unbuilt : ModuleHandle → Prop} (h : ConnectedOnce graph owed unbuilt) {handle : ModuleHandle}
    {location : DependencyLocation} {connection : ModuleGraphConnection}
    (hconnection : connection ∈ graph.connections) (hat : connection.At handle location) :
    graph.connections.filter (·.At handle location) = [connection] := by
  have hnodup := h.locations handle
  rw [Multiset.map_add] at hnodup
  have hconnected : (graph.connections.filterMap fun other =>
      (connectionAt handle other).map Prod.fst).Nodup := by
    rw [← List.map_filterMap]
    exact Multiset.coe_nodup.mp (Multiset.nodup_add.mp hnodup).2.1
  generalize hfound : graph.connections.filter (·.At handle location) = found
  have hmem : ∀ other ∈ found, other.At handle location := by
    intro other hother
    rw [← hfound] at hother
    exact of_decide_eq_true (List.mem_filter.mp hother).2
  have hlocations : (found.filterMap fun other => (connectionAt handle other).map Prod.fst) =
      List.replicate found.length location := by
    have hmap : (found.filterMap fun other => (connectionAt handle other).map Prod.fst) =
        found.filterMap fun _ => some location := by
      refine List.filterMap_congr fun other hother => ?_
      obtain ⟨horigin, hblock, hindex⟩ := hmem other hother
      rw [connectionAt, if_pos horigin, hindex, hblock]
      rfl
    rw [hmap]
    exact (congrFun List.filterMap_eq_map found).trans List.map_const'
  have hone : found.length ≤ 1 := by
    refine List.nodup_replicate.mp (hlocations ▸ hconnected.sublist (List.Sublist.filterMap _ ?_))
    rw [← hfound]
    exact List.filter_sublist
  have hin : connection ∈ found := by
    rw [← hfound]
    exact List.mem_filter.mpr ⟨hconnection, decide_eq_true hat⟩
  obtain ⟨only, rfl⟩ := List.length_eq_one_iff.mp (hone.antisymm (List.length_pos_of_mem hin))
  rw [List.mem_singleton.mp hin]

theorem exists_connection {graph : ModuleGraph} {handle : ModuleHandle} {location : DependencyLocation}
    {dependency : Dependency} (h : (location, dependency) ∈ connected graph handle) :
    ∃ connection ∈ graph.connections, connection.At handle location ∧ connection.dependency = dependency := by
  obtain ⟨connection, hconnection, hplace⟩ := List.mem_filterMap.mp h
  rw [connectionAt] at hplace
  split_ifs at hplace with horigin
  obtain ⟨index, hindex, hsame⟩ := Option.map_eq_some_iff.mp hplace
  cases hsame
  exact ⟨connection, hconnection, ⟨horigin, rfl, hindex⟩, rfl⟩

/-- The invariant when nothing is left to do. -/
theorem Makes.makesOnce {history : List MakeEvent} {state : MakeState} {pending : Multiset MakeTask}
    (h : Makes history state pending) (hleft : ∀ task ∈ pending, task.ConnectsNothing)
    (hapart : FailuresApart history) : MakesOnce history state.moduleGraph where
  identities := h.identified.nodup
  builds handle module hmodule := by
    have hbuilds := h.builds handle
    have hle := h.added_le_one handle
    rw [buildsLeft_of_connectsNothing hleft, zero_add] at hbuilds
    have hidentity : ∀ event ∈ history, ∀ identity, event.Resolves identity handle →
        module.identity = identity := by
      intro event hevent identity hresolves
      obtain ⟨found, hfound, hsame⟩ := h.resolved event hevent identity handle hresolves
      rw [Option.some.inj (hmodule.symm.trans hfound), hsame]
    by_cases hone : history.countP (·.addsFactorized handle) = 1
    · obtain ⟨event, hevent, hadds⟩ := List.countP_pos_iff.mp (hone.symm ▸ Nat.one_pos)
      obtain ⟨identity, hresolves, hfactorizes⟩ := MakeEvent.exists_of_addsFactorized hadds
      exact .inl ⟨⟨event, hevent, hidentity event hevent identity hresolves ▸ hfactorizes⟩, hbuilds.trans hone⟩
    · obtain ⟨event, hevent, hfailed⟩ :=
        (h.added handle (ModuleGraph.Indexed.module_lt hmodule)).resolve_left hone
      refine .inr ⟨?_, by omega, event, hevent, hfailed⟩
      obtain ⟨task, rfl, hresult⟩ := hfailed
      rw [hidentity _ hevent task.identity ⟨rfl, rfl⟩]
      exact hapart task handle hevent hresult
  connections handle module hmodule hbuilt location dependency hdependency hneeds := by
    have haccount := h.once.account handle module hmodule (.inl hbuilt)
    rw [owed_of_connectsNothing hleft, zero_add] at haccount
    have hneeded : (location, dependency) ∈ needed module := List.mem_filter.mpr ⟨hdependency, hneeds⟩
    obtain ⟨connection, hconnection, hat, rfl⟩ := exists_connection (haccount ▸ hneeded)
    refine ⟨connection, h.once.filter_eq hconnection hat, rfl, h.targets connection hconnection ?_,
      h.once.indexed.moduleForDependency_eq_some_iff.mpr ⟨connection, hconnection, hat, rfl⟩⟩
    rw [hat.1]
    exact Option.some_ne_none handle

/-- When nothing fails but builds of requests with nothing behind them, nothing is lost that would connect. -/
theorem connectsNothing_of_lossless {history : List MakeEvent} (houter : ∀ event ∈ history, ¬event.IsOuterFailure)
    (hlossless : ∀ event ∈ history, event.Lossless) : ∀ task ∈ lostTasks history, task.ConnectsNothing := by
  intro task htask
  obtain ⟨event, hevent, hlost⟩ := List.mem_flatMap.mp htask
  have houter := houter event hevent
  have hlossless := hlossless event hevent
  cases event with
  | failed inRequest failing dropped =>
    cases inRequest with
    | false => exact absurd trivial houter
    | true =>
      obtain ⟨⟨build, rfl⟩, hdropped⟩ := hlossless
      exact hdropped task hlost
  | _ => exact absurd hlost List.not_mem_nil

/-- **Every module is built once and every dependency is connected once** in a run that returns `Ok`, if in the
requests of loaders nothing fails but builds with nothing behind them, if the requests have ended, and if no
request is factorized to the module that another one left when it failed. -/
theorem makesOnce_of_ok {trace : List (MakeProgress × MakeEvent)} {progress : MakeProgress}
    (h : MakeRun hashes trace progress) (hok : progress.result = some (.ok ()))
    (hlossless : ∀ passed ∈ trace, passed.2.Lossless)
    (hended : ∀ request ∈ progress.requests, ∀ task ∈ request.phase.pending, task.ConnectsNothing)
    (hapart : FailuresApart (trace.map Prod.snd)) :
    MakesOnce (trace.map Prod.snd) progress.state.moduleGraph := by
  obtain ⟨hqueues, hfailed⟩ := MakeRun.ends h
  obtain ⟨hqueue, hbackground⟩ := hqueues hok
  have houter : ∀ event ∈ trace.map Prod.snd, ¬event.IsOuterFailure := by
    intro event hevent houter
    obtain ⟨passed, hpassed, rfl⟩ := List.mem_map.mp hevent
    rcases hfailed ⟨passed, hpassed, houter⟩ with ⟨error, herror⟩ | ⟨error, herror⟩
    · rw [hok] at herror
      cases herror
    · rw [hbackground] at herror
      exact absurd herror List.not_mem_nil
  refine (MakeRun.makes h).1.makesOnce (fun task htask => ?_) hapart
  rcases Multiset.mem_add.mp htask with htask | htask
  · rw [MakeProgress.pending, hqueue, hbackground] at htask
    simp only [Multiset.coe_nil, List.map_nil, List.sum_nil, zero_add] at htask
    rw [← Multiset.sum_coe] at htask
    obtain ⟨pending, hpending, htask⟩ := Multiset.mem_join.mp htask
    obtain ⟨request, hrequest, rfl⟩ := List.mem_map.mp hpending
    exact hended request hrequest task htask
  · exact connectsNothing_of_lossless houter
      (fun event hevent => List.forall_mem_map.mpr hlossless event hevent) task htask

/-- A run with these events. -/
def Reaches (hashes : ContentHashes) (events : List MakeEvent) (progress : MakeProgress) : Prop :=
  ∃ trace, MakeRun hashes trace progress ∧ trace.map Prod.snd = events

theorem Reaches.step {hashes : ContentHashes} {events : List MakeEvent} {progress next : MakeProgress}
    {event : MakeEvent}
    (h : Reaches hashes events progress) (hstep : MakeStep hashes progress event next) :
    Reaches hashes (events ++ [event]) next := by
  obtain ⟨trace, hrun, rfl⟩ := h
  exact ⟨trace ++ [(progress, event)], .step hrun hstep, List.map_append⟩

def noHashes : ContentHashes := ⟨fun _ => 0, fun _ => 0⟩

def fileIdentity (name : String) (loader : Option MatchedLoader) : ModuleIdentity :=
  { resource := ["", name], loaders := (loader.map (·.identifier)).toList }

def fileAt (name : String) (loader : Option MatchedLoader) : FactorizedModule :=
  ⟨fileIdentity name loader, ["", name], loader, none⟩

def fileContent (requests : List String) : BuiltModuleContent :=
  noHashes.newContent
    { dependencies := requests.map fun request => .harmonyImportSideEffect ⟨{ request }⟩ } ""

def fileBuild (handle : ModuleHandle) (name : String) (loader : Option MatchedLoader) : BuildTask :=
  ⟨handle, fileIdentity name loader, ["", name], loader⟩

def entryTask : FactorizeTask :=
  ⟨.normal, none, [""], [⟨some 0, none, none, .entry ⟨{ request := "./a.js" }⟩⟩]⟩

def FactorizeTask.found (task : FactorizeTask) (factorized : FactorizedModule) : AddTask :=
  ⟨task.originModule, task.context, task.dependencies, .success factorized⟩

def entryAdded (loader : Option MatchedLoader) : MakeState :=
  ((entryTask.found (fileAt "a.js" loader)).run noHashes {}).2.2

def entryEvents (loader : Option MatchedLoader) : List MakeEvent :=
  [.factorized entryTask (.success (fileAt "a.js" loader)), .other,
    .added (entryTask.found (fileAt "a.js" loader)) ⟨0, true⟩]

theorem reaches_entry (loader : Option MatchedLoader) :
    Reaches noHashes (entryEvents loader)
      { state := entryAdded loader, background := [.running (.build (fileBuild 0 "a.js" loader))] } := by
  have hstart : Reaches noHashes [] { background := [.running (.factorize entryTask)] } :=
    ⟨[], .start ⟨[""], ["./a.js"], rfl⟩, rfl⟩
  have hfactorized : Reaches noHashes _
      { background := [.ended (.ok [.add (entryTask.found (fileAt "a.js" loader))])] } :=
    hstart.step (@MakeStep.background noHashes _ [] [] _ _ _ _ rfl
      (.factorize entryTask (.success (fileAt "a.js" loader)) (fun error herror => by cases herror) _))
  have hscheduled : Reaches noHashes _ { mainQueue := [.add (entryTask.found (fileAt "a.js" loader))] } :=
    hfactorized.step (@MakeStep.next noHashes _ [] [] [.add (entryTask.found (fileAt "a.js" loader))] rfl rfl rfl)
  exact hscheduled.step (.main rfl rfl (.add _ _))

def entryBuilt : MakeProgress :=
  { state := (entryAdded none).finishBuild 0 (fileContent []), result := some (.ok ()) }

def entryBuiltEvents : List MakeEvent :=
  entryEvents none ++ [.built (fileBuild 0 "a.js" none), .other, .other]

theorem reaches_entryBuilt : Reaches noHashes entryBuiltEvents entryBuilt := by
  have hbuilt : Reaches noHashes _
      { state := (entryAdded none).finishBuild 0 (fileContent []), background := [.ended (.ok [])] } :=
    (reaches_entry none).step (@MakeStep.background noHashes _ [] [] _ _ _ _ rfl
      (.finishBuild (fileBuild 0 "a.js" none) rfl (fileContent []) _))
  have hqueues : Reaches noHashes _ { state := (entryAdded none).finishBuild 0 (fileContent []) } :=
    hbuilt.step (@MakeStep.next noHashes _ [] [] [] rfl rfl rfl)
  exact hqueues.step (.done rfl rfl rfl)

theorem makesOnce_entryBuilt : MakesOnce entryBuiltEvents entryBuilt.state.moduleGraph := by
  obtain ⟨trace, hrun, hevents⟩ := reaches_entryBuilt
  rw [← hevents]
  refine makesOnce_of_ok hrun rfl (fun passed hpassed => ?_) (fun request hrequest => ?_)
    fun task handle hadded hfailed => ?_
  · have hmem : passed.2 ∈ entryBuiltEvents := hevents ▸ List.mem_map_of_mem hpassed
    generalize passed.2 = event at hmem
    simp only [entryBuiltEvents, entryEvents, List.mem_append, List.mem_cons, List.not_mem_nil, or_false] at hmem
    rcases hmem with (rfl | rfl | rfl) | rfl | rfl | rfl <;> trivial
  · exact absurd hrequest List.not_mem_nil
  · rw [hevents] at hadded
    simp only [entryBuiltEvents, entryEvents, List.mem_append, List.mem_cons, List.not_mem_nil, or_false,
      reduceCtorEq, false_or, MakeEvent.added.injEq] at hadded
    obtain ⟨rfl, -⟩ := hadded
    cases hfailed

def someLoader : MatchedLoader := ⟨"loader", ["", "loader.js"], ""⟩

/-- The loader of the entry asks for another module. -/
def asking (state : MakeState) (phase : RequestPhase) : MakeProgress :=
  { state, background := [.running (.build (fileBuild 0 "a.js" (some someLoader)))]
    requests := [⟨0, .load, "./b.js", [""], phase⟩] }

/-- These tasks of the request are left. -/
def loading (state : MakeState) (queue : List MakeTask) : MakeProgress :=
  asking state (.running 1 ["", "b.js"] none queue)

section

variable {events : List MakeEvent} {state next : MakeState} {task : MakeTask} {queue children : List MakeTask}
  {event : MakeEvent}

theorem Reaches.starts (h : Reaches noHashes events (loading state (task :: queue))) :
    Reaches noHashes (events ++ [.other]) (asking state (.running 1 ["", "b.js"] (some task) queue)) :=
  h.step (@MakeStep.requestStarts noHashes (loading state (task :: queue)) [] []
    ⟨0, .load, "./b.js", [""], .running 1 ["", "b.js"] none (task :: queue)⟩ _ _ _ _ rfl rfl)

theorem Reaches.loads (h : Reaches noHashes events (loading state (task :: queue)))
    (hruns : Runs noHashes task state event children next) :
    Reaches noHashes (events ++ [.other] ++ [event]) (loading next (queue ++ children)) :=
  h.starts.step (@MakeStep.requestRuns noHashes (asking state (.running 1 ["", "b.js"] (some task) queue)) [] []
    ⟨0, .load, "./b.js", [""], .running 1 ["", "b.js"] (some task) queue⟩ _ _ _ _ _ _ _ rfl rfl hruns)

/-- The loader hears of the failure, and the queue is dropped. -/
theorem Reaches.fails (h : Reaches noHashes events (loading state (task :: queue))) {error : Error}
    (hfails : Fails task error) :
    Reaches noHashes (events ++ [.other] ++ [.failed true task queue])
      (asking state (.ended (.error error.text))) :=
  h.starts.step (@MakeStep.requestFails noHashes (asking state (.running 1 ["", "b.js"] (some task) queue)) [] []
    ⟨0, .load, "./b.js", [""], .running 1 ["", "b.js"] (some task) queue⟩ _ _ _ _ _ rfl rfl hfails)

end

def importedAt (origin : ModuleHandle) (index : Nat) (request : String) : FactorizeTask :=
  ⟨.normal, some origin, [""], [⟨none, none, some index, .harmonyImportSideEffect ⟨{ request }⟩⟩]⟩

def processOf (origin : ModuleHandle) (requests : List String) : ProcessDependenciesTask :=
  ⟨origin, [""], queuedDependencies (fileContent requests).parsed⟩

namespace IgnoredFailure

def requested : MakeState :=
  ((entryAdded (some someLoader)).addModule noHashes (fileIdentity "b.js" none) none).1

/-- The state after the request. -/
def loaded : MakeState :=
  { requested with loaderWaits := requested.loaderWaits.insert 0 1 }

def loadedBuilt : MakeState := loaded.finishBuild 1 (fileContent ["./c.js", "./d.js"])

def addC : AddTask := (importedAt 1 0 "./c.js").found (fileAt "c.js" none)

def addD : AddTask := (importedAt 1 1 "./d.js").found (fileAt "d.js" (some someLoader))

def added : MakeState := (addD.run noHashes (addC.run noHashes loadedBuilt).2.2).2.2

def firstBuilt : MakeState := added.finishBuild 2 (fileContent ["./e.js"])

def final : MakeProgress :=
  { state := firstBuilt.finishBuild 0 (fileContent [])
    requests := [⟨0, .load, "./b.js", [""],
      .ended (.error (Error.read ["", "missing"] "No such file or directory (os error 2)").text)⟩]
    result := some (.ok ()) }

theorem reaches_loading : ∃ events, Reaches noHashes events
    (loading loaded [.build (fileBuild 1 "b.js" none)]) := by
  have hasked : Reaches noHashes _
      (asking (entryAdded (some someLoader)) .factorizing) :=
    (reaches_entry (some someLoader)).step (@MakeStep.request noHashes _ (fileBuild 0 "a.js" (some someLoader))
      (.inl List.mem_cons_self) rfl .load "./b.js" [""])
  exact ⟨_, hasked.step (@MakeStep.requestRegistered noHashes (asking (entryAdded (some someLoader)) .factorizing)
    [] [] ⟨0, .load, "./b.js", [""], .factorizing⟩ rfl rfl (fileAt "b.js" none))⟩

theorem reaches_dropped : ∃ events, Reaches noHashes events
    (loading firstBuilt
      [.build (fileBuild 3 "d.js" (some someLoader)), .processDependencies (processOf 2 ["./e.js"])]) := by
  obtain ⟨events, hloading⟩ := reaches_loading
  have hbuilt : Reaches noHashes _
      (loading loadedBuilt [.processDependencies (processOf 1 ["./c.js", "./d.js"])]) :=
    hloading.loads (.finishBuild (fileBuild 1 "b.js" none) rfl (fileContent ["./c.js", "./d.js"]) _)
  have hprocessed : Reaches noHashes _ (loading loadedBuilt
      [.factorize (importedAt 1 0 "./c.js"), .factorize (importedAt 1 1 "./d.js")]) :=
    hbuilt.loads (.processDependencies (processOf 1 ["./c.js", "./d.js"]) _)
  have hfirst : Reaches noHashes _ (loading loadedBuilt [.factorize (importedAt 1 1 "./d.js"), .add addC]) :=
    hprocessed.loads (.factorize _ (.success (fileAt "c.js" none)) (fun error herror => by cases herror) _)
  have hsecond : Reaches noHashes _ (loading loadedBuilt [.add addC, .add addD]) :=
    hfirst.loads (.factorize _ (.success (fileAt "d.js" (some someLoader))) (fun error herror => by cases herror) _)
  have hadded : Reaches noHashes _ (loading (addC.run noHashes loadedBuilt).2.2
      [.add addD, .build (fileBuild 2 "c.js" none)]) :=
    hsecond.loads (.add addC _)
  have hboth : Reaches noHashes _
      (loading added [.build (fileBuild 2 "c.js" none), .build (fileBuild 3 "d.js" (some someLoader))]) :=
    hadded.loads (.add addD _)
  exact ⟨_, hboth.loads (.finishBuild (fileBuild 2 "c.js" none) rfl (fileContent ["./e.js"]) _)⟩

theorem reaches_final : ∃ events, Reaches noHashes events final := by
  obtain ⟨events, hdropped⟩ := reaches_dropped
  have hfailed : Reaches noHashes _ (asking firstBuilt
      (.ended (.error (Error.read ["", "missing"] "No such file or directory (os error 2)").text))) :=
    hdropped.fails (.build _ _)
  have hbuilt : Reaches noHashes _
      { state := final.state, background := [.ended (.ok [])], requests := final.requests } :=
    hfailed.step (@MakeStep.background noHashes _ [] [] _ _ _ _ rfl
      (.finishBuild (fileBuild 0 "a.js" (some someLoader)) rfl (fileContent []) _))
  have hqueues : Reaches noHashes _ { state := final.state, requests := final.requests } :=
    hbuilt.step (@MakeStep.next noHashes _ [] [] [] rfl rfl rfl)
  exact ⟨_, hqueues.step (.done rfl rfl rfl)⟩

end IgnoredFailure

/-- A task of a request fails, and with it the dependencies of a module that has been built are dropped. The
loader goes on, and `run` returns `Ok`. -/
theorem ignoredFailure_unconnected : ∃ trace progress, MakeRun noHashes trace progress ∧
    progress.result = some (.ok ()) ∧
      (∀ request ∈ progress.requests, ∃ loaded, request.phase = .ended loaded) ∧
        (∃ module, progress.state.moduleGraph.module 2 = some module ∧ module.buildError = none ∧
          module.dependencies = [.harmonyImportSideEffect ⟨{ request := "./e.js" }⟩]) ∧
          progress.state.moduleGraph.moduleForDependency 2 none 0 = none ∧
            ¬MakesOnce (trace.map Prod.snd) progress.state.moduleGraph := by
  obtain ⟨events, trace, hrun, -⟩ := IgnoredFailure.reaches_final
  have hnone : IgnoredFailure.final.state.moduleGraph.moduleForDependency 2 none 0 = none := by decide
  refine ⟨trace, IgnoredFailure.final, hrun, rfl, fun request hrequest => ?_, ⟨_, rfl, rfl, rfl⟩, hnone, fun h => ?_⟩
  · rw [List.mem_singleton.mp hrequest]
    exact ⟨_, rfl⟩
  · obtain ⟨connection, -, -, -, hmodule⟩ := h.connections 2 _ rfl rfl ⟨none, 0⟩ _ List.mem_cons_self rfl
    rw [hnone] at hmodule
    cases hmodule

end Unpack.Make
