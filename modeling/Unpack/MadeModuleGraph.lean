import Unpack.MakeOnce
import Unpack.OptimizeDependencies
import Unpack.SourceReplacements
import Unpack.UsedExports

/-! What the module graph of a run of Make is, when every content comes from the parser: a module without an
error has the connections of its own dependencies only, a failed one has no dependencies left, blocks hold
dynamic imports, and every connection is active. The later phases start from such a graph. -/

namespace Unpack

/-- What the parser leaves of a module: one dynamic import in each block, and no name on a star re-export. -/
structure ParsedModule.Regular (parsed : ParsedModule) : Prop where
  block_imports : ∀ block ∈ parsed.blocks,
    block.dependencies.length = 1 ∧ block.dependencies.all Dependency.isImportDependency
  stars_unnamed : ∀ dependency ∈ parsed.dependencies, dependency.isNamedStar = false

/-- Neither a failed module nor one of another type has dependencies. -/
theorem ParsedModule.regular_of_empty {parsed : ParsedModule} (hdependencies : parsed.dependencies = [])
    (hblocks : parsed.blocks = []) : parsed.Regular where
  block_imports _ hblock := absurd (hblocks ▸ hblock) List.not_mem_nil
  stars_unnamed _ hdependency := absurd (hdependencies ▸ hdependency) List.not_mem_nil

theorem regular_parseModuleDependencies {path : PathBuf} {sideEffectFree : Option Bool}
    {body : List Ecma.ModuleSyntax} {parsed : ParsedModule}
    (h : parseModuleDependencies path sideEffectFree body = .ok parsed) : parsed.Regular := by
  obtain ⟨declared, used, hdependencies, -, -, hdeclared, -, hused, -, himports⟩ := exists_parse h
  refine ⟨fun block hblock => ?_, fun dependency hdependency => ?_⟩
  · obtain ⟨dependency, himport, -⟩ := himports block hblock
    rw [himport]
    exact ⟨rfl, rfl⟩
  · rw [hdependencies] at hdependency
    rcases List.mem_append.mp hdependency with hmem | hmem
    · exact Dependency.isNamedStar_of_isDeclared (hdeclared dependency hmem)
    · have hspecifier := hused dependency hmem
      cases dependency with
      | harmonyImportSpecifier dep => rfl
      | _ => cases hspecifier

namespace Make

variable {hashes : ContentHashes}

/-- A dependency with the place that it has in regular content, or has as an entry. -/
structure PlacedRegularly (originModule : Option ModuleHandle) (originBlock : Option AsyncDependenciesBlockIndex)
    (originDependencyIndex : Option DependencyIndex) (dependency : Dependency) : Prop where
  indexed : originModule ≠ none → originDependencyIndex ≠ none
  block_import : originBlock ≠ none → dependency.isImportDependency = true
  stars_unnamed : dependency.isNamedStar = false

/-- The dependencies that a task carries are of this module. -/
def MakeTask.originModule : MakeTask → Option ModuleHandle
  | factorize task => task.originModule
  | add task => task.originModule
  | build _ => none
  | processDependencies task => some task.originModule

def MakeTask.carried : MakeTask → List QueuedDependency
  | factorize task => task.dependencies
  | add task => task.dependencies
  | build _ => []
  | processDependencies task => task.dependencies

def MakeTask.Regular (task : MakeTask) : Prop :=
  ∀ queued ∈ task.carried,
    PlacedRegularly task.originModule queued.originBlock queued.originDependencyIndex queued.dependency

/-- Every content comes from the parser. -/
def MakeState.Parsed (state : MakeState) : Prop :=
  ∀ handle module, state.moduleGraph.module handle = some module → module.builtContent.parsed.Regular

/-- The tasks and the connections come from regular content, and what failed keeps no dependencies. -/
structure Regular (state : MakeState) (pending : Multiset MakeTask) : Prop where
  pending : ∀ task ∈ pending, task.Regular
  connections : ∀ connection ∈ state.moduleGraph.connections,
    PlacedRegularly connection.originModule connection.originBlock connection.originDependencyIndex
      connection.dependency ∧ connection.state = .active
  failed : ∀ handle module, state.moduleGraph.module handle = some module → module.buildError ≠ none →
    module.locatedDependencies = []

theorem placedRegularly_queuedDependencies {parsed : ParsedModule} (h : parsed.Regular) (origin : Option ModuleHandle) :
    ∀ queued ∈ queuedDependencies parsed,
      PlacedRegularly origin queued.originBlock queued.originDependencyIndex queued.dependency := by
  intro queued hqueued
  rw [queuedDependencies] at hqueued
  rcases List.mem_append.mp hqueued with hqueued | hqueued
  · obtain ⟨⟨dependency, index⟩, hplace, rfl⟩ := List.mem_map.mp hqueued
    exact ⟨fun _ => Option.some_ne_none index, fun hblock => absurd rfl hblock,
      h.stars_unnamed dependency (List.fst_mem_of_mem_zipIdx hplace)⟩
  · obtain ⟨⟨block, blockIndex⟩, hblock, hqueued⟩ := List.mem_flatMap.mp hqueued
    obtain ⟨⟨dependency, index⟩, hplace, rfl⟩ := List.mem_map.mp hqueued
    have himport : dependency.isImportDependency = true :=
      List.all_eq_true.mp (h.block_imports block (List.fst_mem_of_mem_zipIdx hblock)).2 dependency
        (List.fst_mem_of_mem_zipIdx hplace)
    refine ⟨fun _ => Option.some_ne_none index, fun _ => himport, ?_⟩
    cases dependency with
    | «import» dep => rfl
    | _ => cases himport

/-- A group holds dependencies that were there. -/
theorem mem_of_pushToGroup {key : FactorizeGroupKey} {queued other : QueuedDependency}
    {groups : List (FactorizeGroupKey × List QueuedDependency)} {group : FactorizeGroupKey × List QueuedDependency}
    (hgroup : group ∈ pushToGroup key queued groups) (hother : other ∈ group.2) :
    other = queued ∨ ∃ before ∈ groups, other ∈ before.2 := by
  induction groups with
  | nil =>
    rw [List.mem_singleton.mp hgroup] at hother
    exact .inl (List.mem_singleton.mp hother)
  | cons first groups ih =>
    obtain ⟨groupKey, dependencies⟩ := first
    rw [pushToGroup] at hgroup
    split_ifs at hgroup
    · rcases List.mem_cons.mp hgroup with rfl | hgroup
      · rcases List.mem_append.mp hother with hother | hother
        · exact .inr ⟨_, List.mem_cons_self, hother⟩
        · exact .inl (List.mem_singleton.mp hother)
      · exact .inr ⟨group, List.mem_cons_of_mem _ hgroup, hother⟩
    · rcases List.mem_cons.mp hgroup with rfl | hgroup
      · exact .inr ⟨_, List.mem_cons_self, hother⟩
      · obtain hsame | ⟨before, hbefore, hmem⟩ := ih hgroup
        · exact .inl hsame
        · exact .inr ⟨before, List.mem_cons_of_mem _ hbefore, hmem⟩

theorem mem_of_group {dependencies : List QueuedDependency} {group : FactorizeGroupKey × List QueuedDependency}
    (hgroup : group ∈ groupDependenciesForFactorization dependencies) {queued : QueuedDependency}
    (hqueued : queued ∈ group.2) : queued ∈ dependencies := by
  induction dependencies using List.reverseRecOn generalizing group with
  | nil => exact absurd hgroup List.not_mem_nil
  | append_singleton dependencies last ih =>
    rw [groupDependenciesForFactorization, List.foldl_append, List.foldl_cons, List.foldl_nil,
      ← groupDependenciesForFactorization] at hgroup
    split at hgroup
    · exact List.mem_append_left _ (ih hgroup hqueued)
    · rcases mem_of_pushToGroup hgroup hqueued with rfl | ⟨before, hbefore, hmem⟩
      · exact List.mem_append_right _ (List.mem_singleton_self queued)
      · exact List.mem_append_left _ (ih hbefore hmem)

theorem regular_of_run {task : ProcessDependenciesTask} (h : (MakeTask.processDependencies task).Regular)
    {child : MakeTask} (hchild : child ∈ task.run) : child.Regular := by
  rw [ProcessDependenciesTask.run] at hchild
  obtain ⟨⟨key, dependencies⟩, hgroup, rfl⟩ := List.mem_map.mp hchild
  exact fun queued hqueued => h queued (mem_of_group hgroup hqueued)

/-- Connections are made active, and those that there were stay as they are. -/
theorem state_of_mem_foldl {originModule : Option ModuleHandle} {target : ModuleHandle}
    {dependencies : List QueuedDependency} {state : MakeState}
    (h : ∀ connection ∈ state.moduleGraph.connections, connection.state = .active) :
    ∀ connection ∈ (dependencies.foldl (MakeState.connectDependency originModule target)
      state).moduleGraph.connections, connection.state = .active := by
  induction dependencies generalizing state with
  | nil => exact h
  | cons queued dependencies ih =>
    refine ih fun connection hconnection => ?_
    rcases ModuleGraph.Indexed.mem_connections_connect.mp hconnection with hold | rfl
    · exact h connection hold
    · rfl

namespace Regular

variable {state next : MakeState} {pending rest : Multiset MakeTask}

theorem of_pending (h : Regular state pending) (hrest : ∀ task ∈ rest, task ∈ pending ∨ task.Regular) :
    Regular state rest :=
  ⟨fun task htask => (hrest task htask).elim (h.pending task) id, h.connections, h.failed⟩

/-- A module that is new has not failed. -/
theorem addModule (h : Regular state pending) (hashes : ContentHashes) (identity : ModuleIdentity)
    (sideEffectFree : Option Bool) :
    Regular (state.addModule hashes identity sideEffectFree).1 pending := by
  rcases state.addModule_cases hashes identity sideEffectFree with ⟨_, -, heq⟩ | ⟨-, heq⟩
  · rw [heq]
    exact h
  · rw [heq]
    refine ⟨h.pending, h.connections, fun handle module hmodule hfailed => ?_⟩
    rcases ModuleGraph.module_addModule.mp hmodule with hold | ⟨-, rfl⟩
    · exact h.failed handle module hold hfailed
    · exact absurd rfl hfailed

theorem connect (h : Regular state pending) {originModule : Option ModuleHandle} {target : ModuleHandle}
    {dependencies : List QueuedDependency} (hdependencies : ∀ queued ∈ dependencies,
      PlacedRegularly originModule queued.originBlock queued.originDependencyIndex queued.dependency) :
    Regular (dependencies.foldl (MakeState.connectDependency originModule target) state) pending := by
  obtain ⟨hmodules, -⟩ := state.foldl_connectDependency originModule target dependencies
  refine ⟨h.pending, fun connection hconnection => ⟨?_, ?_⟩, fun handle module hmodule hfailed => ?_⟩
  · rcases mem_connections_foldl hconnection with hold | ⟨horigin, -, queued, hqueued, hblock, hindex, hdependency⟩
    · exact (h.connections connection hold).1
    · rw [horigin, ← hblock, ← hindex, ← hdependency]
      exact hdependencies queued hqueued
  · exact state_of_mem_foldl (fun other hother => (h.connections other hother).2) connection hconnection
  · rw [ModuleGraph.module, hmodules] at hmodule
    exact h.failed handle module hmodule hfailed

/-- A module gets other content; if that is of a failure, it is empty. -/
theorem modify (h : Regular state pending) {handle : ModuleHandle} {f : Module → Module}
    (hfailed : ∀ module, (f module).buildError ≠ none → (f module).locatedDependencies = [])
    (hgraph : next.moduleGraph =
      { state.moduleGraph with modules := state.moduleGraph.modules.modify handle f }) :
    Regular next pending := by
  refine ⟨h.pending, fun connection hconnection => h.connections connection ?_,
    fun other module hmodule herror => ?_⟩
  · rw [hgraph] at hconnection
    exact hconnection
  · rw [hgraph] at hmodule
    obtain ⟨old, hold, hresult⟩ := ConnectedOnce.module_modify hmodule
    rw [hresult] at herror ⊢
    split_ifs at herror ⊢
    · exact hfailed old herror
    · exact h.failed other old hold herror

theorem failModule (h : Regular state pending) (hashes : ContentHashes) (handle : ModuleHandle) (error : Error)
    (source : String) : Regular (state.failModule hashes handle error source) pending :=
  h.modify (f := failBuild hashes error source) (fun _ _ => rfl) rfl

/-- A task runs: what it adds and what it makes is regular, if the content that it leaves is. -/
theorem runs {task : MakeTask} {event : MakeEvent} {children : List MakeTask}
    (h : Regular state (([task] : List MakeTask) + rest)) (hknown : task.Known state.count)
    (hruns : Runs hashes task state event children next) (hparsed : next.Parsed) :
    Regular next (children + rest) := by
  have htask : task.Regular := h.pending task (Multiset.mem_add.mpr (.inl (List.mem_singleton_self task)))
  have hchildren : ∀ {state : MakeState}, Regular state (([task] : List MakeTask) + rest) →
      (∀ child ∈ children, child.Regular) → Regular state (children + rest) := by
    intro state hstate hall
    refine hstate.of_pending fun other hother => ?_
    rcases Multiset.mem_add.mp hother with hother | hother
    · exact .inr (hall other hother)
    · exact .inl (Multiset.mem_add.mpr (.inr hother))
  cases hruns with
  | factorize task result _ =>
    refine hchildren h fun child hchild => ?_
    rw [List.mem_singleton.mp hchild]
    exact htask
  | add task =>
    obtain ⟨sideEffectFree, -, hcases⟩ := AddTask.run_spec hashes task state
    have hadded : Regular (state.addOrConnect hashes task.originModule task.dependencies task.identity
        sideEffectFree).1 (([.add task] : List MakeTask) + rest) :=
      (h.addModule hashes task.identity sideEffectFree).connect htask
    rcases hcases with ⟨-, hstate, resource, loader, htasks⟩ | ⟨-, htasks, error, hstate⟩
    · rw [hstate] at hparsed ⊢
      refine hchildren hadded fun child hchild => ?_
      rw [htasks] at hchild
      split_ifs at hchild
      · rw [List.mem_singleton.mp hchild]
        exact fun queued hqueued => absurd hqueued List.not_mem_nil
      · exact absurd hchild List.not_mem_nil
    · rw [hstate]
      refine hchildren (hadded.failModule hashes _ error "") fun child hchild => ?_
      rw [htasks] at hchild
      exact absurd hchild List.not_mem_nil
  | finishBuild task hparent builtContent =>
    have hfinished : Regular (state.finishBuild task.moduleHandle builtContent)
        (([.build task] : List MakeTask) + rest) :=
      h.modify (f := (·.finishBuildContent builtContent)) (fun _ herror => absurd rfl herror) rfl
    obtain ⟨module, hmodule⟩ : ∃ module, state.moduleGraph.modules[task.moduleHandle]? = some module :=
      ⟨_, List.getElem?_eq_getElem hknown⟩
    have hbuilt : (state.finishBuild task.moduleHandle builtContent).moduleGraph.module task.moduleHandle =
        some (module.finishBuildContent builtContent) := by
      change (state.moduleGraph.modules.modify task.moduleHandle _)[task.moduleHandle]? = _
      rw [List.getElem?_modify_eq, hmodule]
      rfl
    have hcontent : builtContent.parsed.Regular := hparsed _ _ hbuilt
    refine hchildren hfinished fun child hchild => ?_
    rw [processDependenciesTask] at hchild
    split_ifs at hchild
    · exact absurd hchild List.not_mem_nil
    · rw [List.mem_singleton.mp hchild]
      exact placedRegularly_queuedDependencies hcontent _
  | failModule task hparent error source =>
    exact hchildren (h.failModule hashes task.moduleHandle error source)
      fun child hchild => absurd hchild List.not_mem_nil
  | processDependencies task => exact hchildren h fun child hchild => regular_of_run htask hchild

theorem effect {consumed produced : List MakeTask} {event : MakeEvent}
    (h : Regular state (consumed + rest)) (hknown : ∀ task ∈ consumed, task.Known state.count)
    (heffect : @Effect hashes state consumed event produced next) (hparsed : next.Parsed) :
    Regular next (produced + rest) := by
  cases heffect with
  | @ran task _ _ _ _ hruns => exact h.runs (hknown task List.mem_cons_self) hruns hparsed
  | failed inRequest dropped _ hfails =>
    exact h.of_pending fun task htask => .inl (Multiset.mem_add.mpr (.inr (by simpa using htask)))
  | requested origin factorized hnext =>
    have hadded := h.addModule hashes factorized.identity factorized.sideEffectFree
    have hstate : Regular next (([] : List MakeTask) + rest) :=
      ⟨h.pending, by rw [hnext.moduleGraph]; exact hadded.connections,
        by rw [hnext.moduleGraph]; exact hadded.failed⟩
    refine hstate.of_pending fun task htask => ?_
    rcases Multiset.mem_add.mp htask with htask | htask
    · rw [Multiset.mem_coe] at htask
      split_ifs at htask
      · rw [List.mem_singleton.mp htask]
        exact .inr fun queued hqueued => absurd hqueued List.not_mem_nil
      · exact absurd htask List.not_mem_nil
    · exact .inl (Multiset.mem_add.mpr (.inr htask))
  | other hsame =>
    exact ⟨h.pending, by rw [hsame.moduleGraph]; exact h.connections, by rw [hsame.moduleGraph]; exact h.failed⟩

end Regular

theorem regular_start (context : PathBuf) (requests : List String) :
    Regular (MakeProgress.start context requests).state (MakeProgress.start context requests).pending := by
  rw [MakeProgress.start, MakeProgress.state_scheduleAll, MakeProgress.pending_scheduleAll]
  refine ⟨fun task htask => ?_, fun connection hconnection => absurd hconnection List.not_mem_nil,
    fun handle module hmodule => absurd (ModuleGraph.Indexed.module_lt hmodule) (Nat.not_lt_zero _)⟩
  rcases Multiset.mem_add.mp htask with htask | htask
  · obtain ⟨place, -, rfl⟩ := List.mem_map.mp htask
    intro queued hqueued
    rw [List.mem_singleton.mp hqueued]
    exact ⟨fun hsome => absurd rfl hsome, fun hsome => absurd rfl hsome, rfl⟩
  · exact absurd htask (Multiset.notMem_zero task)

variable {trace : List (MakeProgress × MakeEvent)} {progress : MakeProgress}

/-- Every content that a module has on the way comes from the parser. -/
def RunParsed (trace : List (MakeProgress × MakeEvent)) (progress : MakeProgress) : Prop :=
  (∀ passed ∈ trace, passed.1.state.Parsed) ∧ progress.state.Parsed

theorem MakeRun.regular (h : MakeRun hashes trace progress) (hparsed : RunParsed trace progress) :
    Regular progress.state progress.pending := by
  induction h with
  | start hstart =>
    obtain ⟨context, requests, rfl⟩ := hstart
    exact regular_start context requests
  | @step trace state next event hrun hstep ih =>
    have hbefore := ih ⟨fun passed hpassed => hparsed.1 passed (List.mem_append_left _ hpassed),
      hparsed.1 (state, event) (List.mem_append_right _ (List.mem_singleton_self _))⟩
    have hknown := MakeRun.known hrun
    obtain ⟨consumed, produced, rest, hpending, hafter, heffect⟩ := hstep.effect hknown
    rw [hpending] at hbefore
    rw [hafter]
    refine hbefore.effect (fun task htask => hknown.pending task ?_) heffect hparsed.2
    rw [hpending]
    exact Multiset.mem_add.mpr (.inl htask)

/-- **What the graph of a run is**, when every content comes from the parser. -/
theorem MakeRun.made (h : MakeRun hashes trace progress) (hparsed : RunParsed trace progress) :
    progress.state.moduleGraph.Made := by
  have hmakes := (MakeRun.makes h).1
  have hregular := MakeRun.regular h hparsed
  have hindexed := hmakes.once.indexed
  have hmodule : ∀ {module : Module}, module ∈ progress.state.moduleGraph.modules →
      progress.state.moduleGraph.module module.handle = some module := by
    intro module hmem
    obtain ⟨handle, hhandle⟩ := List.mem_iff_getElem?.mp hmem
    rw [hindexed.handle_eq hhandle]
    exact hhandle
  refine
    { toIndexed := hindexed
      identities := hmakes.identified.nodup
      located := fun connection hconnection module hmem hbuilt horigin => ?_
      failed_empty := fun module hmem hfailed => hregular.failed _ module (hmodule hmem) hfailed
      block_imports := fun module hmem => (hparsed.2 _ module (hmodule hmem)).block_imports
      static_unblocked := fun connection hconnection hstatic => ?_
      active := fun connection hconnection => (hregular.connections connection hconnection).2 }
  · have hplaced := (hregular.connections connection hconnection).1
    obtain ⟨index, hindex⟩ := Option.ne_none_iff_exists'.mp
      (hplaced.indexed (by rw [horigin]; exact Option.some_ne_none _))
    have hat : connection.At module.handle ⟨connection.originBlock, index⟩ := ⟨horigin, rfl, hindex⟩
    have hneeded : (⟨connection.originBlock, index⟩, connection.dependency) ∈ needed module := by
      rw [← hmakes.once.account module.handle module (hmodule hmem) (.inl hbuilt)]
      exact Multiset.mem_add.mpr (.inr (ConnectedOnce.mem_connected hconnection hat))
    exact ⟨_, List.mem_of_mem_filter hneeded, hat, rfl⟩
  · by_contra hblock
    have himport := (hregular.connections connection hconnection).1.block_import hblock
    rw [(Dependency.static_canConcatenate_of_isImportDependency himport).1] at hstatic
    exact Bool.false_ne_true hstatic

/-- The star re-exports of such a graph have no names. -/
theorem MakeRun.starsUnnamed (h : MakeRun hashes trace progress) (hparsed : RunParsed trace progress) :
    progress.state.moduleGraph.StarsUnnamed :=
  fun connection hconnection => ((MakeRun.regular h hparsed).connections connection hconnection).1.stars_unnamed

/-- When every dependency has been connected once, every dependency has its connection. -/
theorem MakesOnce.connected {history : List MakeEvent} {graph : ModuleGraph} (h : MakesOnce history graph)
    (hmade : graph.Made) : graph.Connected := by
  intro module hmem located hlocated hneeds
  obtain ⟨handle, hmodule⟩ := List.mem_iff_getElem?.mp hmem
  have hbuilt : module.buildError = none := by
    by_contra hfailed
    rw [hmade.failed_empty module hmem hfailed] at hlocated
    exact List.not_mem_nil hlocated
  obtain ⟨connection, hfilter, -⟩ := h.connections handle module hmodule hbuilt located.1 located.2 hlocated hneeds
  have hconnection : connection ∈ graph.connections.filter (·.At handle located.1) := by
    rw [hfilter]
    exact List.mem_singleton_self connection
  rw [List.mem_filter, decide_eq_true_eq] at hconnection
  rw [hmade.toIndexed.handle_eq hmodule]
  exact ⟨connection, hconnection⟩

end Make

end Unpack
