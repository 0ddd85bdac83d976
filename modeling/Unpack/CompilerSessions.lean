import Unpack.CompilerPhases

/-! Where each session of a compiler stands: what its flags say about the tasks of its compilation and of its
end, and when the compiler still holds it. -/

namespace Unpack.Compiler

namespace WatchingImpl

/-- Only the changes, the watchers and the timer differ. -/
structure SameFlags (watching next : WatchingImpl) : Prop where
  closed : next.closed = watching.closed
  running : next.running = watching.running
  closeCallbacks : next.closeCallbacks = watching.closeCallbacks

variable {watching next last : WatchingImpl}

theorem SameFlags.refl (watching : WatchingImpl) : SameFlags watching watching := ⟨rfl, rfl, rfl⟩

theorem SameFlags.trans (h : SameFlags watching next) (h' : SameFlags next last) : SameFlags watching last :=
  ⟨h'.closed.trans h.closed, h'.running.trans h.running, h'.closeCallbacks.trans h.closeCallbacks⟩

theorem sameFlags_takeWatchChangeSet (watching : WatchingImpl) : SameFlags watching watching.takeWatchChangeSet.2 := by
  rw [takeWatchChangeSet]
  split_ifs <;> exact ⟨rfl, rfl, rfl⟩

theorem sameFlags_beginRun (watching : WatchingImpl) :
    SameFlags { watching with running := true } watching.beginRun.2 := by
  refine SameFlags.trans ?_ (sameFlags_takeWatchChangeSet _)
  exact ⟨rfl, rfl, rfl⟩

theorem sameFlags_recordChange (watching : WatchingImpl) (path : String) (kind : ChangeKind) :
    SameFlags watching (watching.recordChange path kind) := by
  cases kind <;> exact ⟨rfl, rfl, rfl⟩

theorem sameFlags_queueRecordedRebuild (watching : WatchingImpl) :
    SameFlags watching watching.queueRecordedRebuild := by
  rw [queueRecordedRebuild]
  split_ifs <;> exact ⟨rfl, rfl, rfl⟩

theorem sameFlags_queueRebuild (watching : WatchingImpl) (path : String) (kind : ChangeKind) :
    SameFlags watching (watching.queueRebuild path kind) :=
  (watching.sameFlags_recordChange path kind).trans (sameFlags_queueRecordedRebuild _)

section

variable (files : String → PollSnapshot)

theorem sameFlags_replaceWatchers (watching : WatchingImpl) (watchable : String → Bool)
    (dependencies : WatchDependencySets) (outputPath : String) :
    SameFlags watching (watching.replaceWatchers files watchable dependencies outputPath) := by
  rw [replaceWatchers]
  cases watching.watchOptions.pollInterval with
  | none => exact ⟨rfl, rfl, rfl⟩
  | some interval =>
    dsimp only
    split_ifs <;> exact ⟨rfl, rfl, rfl⟩

theorem sameFlags_watchEvent (watching : WatchingImpl) (target : WatchTarget) (filename : Option String) :
    SameFlags watching (watching.watchEvent files target filename) := by
  rw [watchEvent]
  dsimp only
  split_ifs
  all_goals first
    | exact ⟨rfl, rfl, rfl⟩
    | exact sameFlags_queueRebuild ..
    | (refine SameFlags.trans ?_ (sameFlags_queueRebuild ..); exact ⟨rfl, rfl, rfl⟩)

theorem sameFlags_pollTarget (watching : WatchingImpl) (target : WatchTarget) :
    SameFlags watching (watching.pollTarget files target).2 := by
  rw [pollTarget]
  dsimp only
  split_ifs <;> dsimp only
  · exact .refl _
  · exact ⟨rfl, rfl, rfl⟩
  iterate 3
    refine SameFlags.trans ?_ (sameFlags_recordChange ..)
    exact ⟨rfl, rfl, rfl⟩

theorem sameFlags_pollTargets (watching : WatchingImpl) (targets : List WatchTarget) :
    SameFlags watching (pollTargets files watching targets).2 := by
  induction targets generalizing watching with
  | nil => exact .refl watching
  | cons target targets ih => exact (watching.sameFlags_pollTarget files target).trans (ih _)

theorem sameFlags_poll (watching : WatchingImpl) (targets : List WatchTarget) :
    SameFlags watching (watching.poll files targets) := by
  have hpoll := watching.sameFlags_pollTargets files targets
  rw [poll]
  dsimp only
  split_ifs
  · exact hpoll.trans (sameFlags_queueRecordedRebuild _)
  · exact hpoll

theorem sameFlags_endRun (watching : WatchingImpl) (latestStats : LatestStats) (watchable : String → Bool) :
    SameFlags { watching with running := false } (watching.endRun latestStats files watchable) := by
  cases latestStats with
  | none => exact .refl _
  | some stats =>
    dsimp only [endRun]
    split_ifs
    · exact ⟨rfl, rfl, rfl⟩
    · refine SameFlags.trans ?_ (sameFlags_replaceWatchers files _ watchable _ _)
      exact ⟨rfl, rfl, rfl⟩

end

end WatchingImpl

/-- The session that the task belongs to. -/
def Task.session : Task → Option Nat
  | watchNative session _ | watchHooks session _ | watchHandler session _ _ | watchEnded session _
  | handlerDeferred session | finishFlush session _ _ | finishDeliver session _ | finishCallback session _ =>
      some session
  | _ => none

/-- Tasks of the kind belong to the session. -/
def OfKind (session : Nat) (kind : Task → Bool) : Prop := ∀ task, kind task = true → task.session = some session

section

variable {session other : Nat} {kind : Task → Bool}

theorem OfKind.runs (session : Nat) : OfKind session (Task.runs session) := by
  intro task htask
  cases task <;> simp_all [Task.runs, Task.session]

theorem OfKind.finishes (session : Nat) : OfKind session (Task.finishes session) := by
  intro task htask
  cases task <;> simp_all [Task.finishes, Task.session]

theorem OfKind.delivers (session : Nat) : OfKind session (Task.delivers session) := by
  intro task htask
  cases task <;> simp_all [Task.delivers, Task.session]

theorem OfKind.runsNative (session : Nat) : OfKind session (Task.runsNative session) := by
  intro task htask
  cases task <;> simp_all [Task.runsNative, Task.session]

theorem OfKind.eq_false (h : OfKind session kind) {task : Task} (hother : task.session ≠ some session) :
    kind task = false := by
  by_contra htrue
  exact hother (h task (Bool.not_eq_false _ ▸ htrue))

theorem OfKind.count_eq_zero (h : OfKind session kind) {tasks : Multiset Task}
    (hother : ∀ task ∈ tasks, task.session ≠ some session) : count kind tasks = 0 :=
  Compiler.count_eq_zero.mpr fun task htask => h.eq_false (hother task htask)

end

/-- A session that has been closed and does not run. -/
def WatchingImpl.Closed (watching : WatchingImpl) : Prop := watching.closed = true ∧ watching.running = false

/-- A compilation of the session is a task as long as it runs. The compiler holds the session until it has been
closed and its cache has been flushed. -/
structure Fits (compiler : CompilerImpl) (tasks : Multiset Task) (session : Nat) (found : Session) : Prop where
  runs : count (Task.runs session) tasks ≤ if found.watching.running = true then 1 else 0
  accepted : found.accepted = false → count (Task.runsNative session) tasks = 0
  owned : compiler.watching = some session → found.accepted = true
  detached : found.accepted = true → compiler.watching ≠ some session → found.watching.Closed
  finishes : count (Task.finishes session) tasks ≠ 0 → found.watching.Closed
  delivers : count (Task.delivers session) tasks ≠ 0 → compiler.watching ≠ some session
  closeCallbacks : found.watching.closeCallbacks ≠ [] → found.watching.closed = true ∧ found.watching.running = true

section

variable {compiler last : CompilerImpl} {tasks rest : Multiset Task} {session : Nat} {found : Session}
  {watching next : WatchingImpl} {accepted : Bool} {produced : List Task}

/-- Nothing happens to the session. -/
theorem Fits.frame (h : Fits compiler tasks session found)
    (hwatching : last.watching = some session ↔ compiler.watching = some session)
    (hcount : ∀ kind, OfKind session kind → count kind rest = count kind tasks) : Fits last rest session found where
  runs := (hcount _ (.runs session)).trans_le h.runs
  accepted := fun haccepted => (hcount _ (.runsNative session)).trans (h.accepted haccepted)
  owned := fun howned => h.owned (hwatching.mp howned)
  detached := fun haccepted hdetached => h.detached haccepted fun howned => hdetached (hwatching.mpr howned)
  finishes := fun hfinishes => h.finishes (hcount _ (.finishes session) ▸ hfinishes)
  delivers := fun hdelivers howned =>
    h.delivers (hcount _ (.delivers session) ▸ hdelivers) (hwatching.mp howned)
  closeCallbacks := h.closeCallbacks

/-- What `#run` says about the tasks that it leaves. -/
inductive RanSession (session : Nat) (accepted : Bool) (watching : WatchingImpl) (produced : List Task)
    (next : WatchingImpl) : Prop
  | skipped (hproduced : produced = []) (hnext : next = watching)
  | ran (hopen : watching.closed = false) (hidle : watching.running = false)
      (hnext : next.closed = false ∧ next.running = true ∧ next.closeCallbacks = watching.closeCallbacks)
      (hruns : count (Task.runs session) produced = 1)
      (haccepted : accepted = false → count (Task.runsNative session) produced = 0)
      (hfinishes : count (Task.finishes session) produced = 0)
      (hdelivers : count (Task.delivers session) produced = 0)

theorem RunsSession.ran {run : SessionRun} (h : RunsSession session accepted watching run produced next) :
    RanSession session accepted watching produced next := by
  have hflags := watching.sameFlags_beginRun
  cases h with
  | skipped hguard => exact .skipped rfl rfl
  | started hopen hidle haccepted =>
    refine .ran hopen hidle ⟨hflags.closed.trans hopen, hflags.running, hflags.closeCallbacks⟩ ?_ ?_ rfl rfl
    · simp [Task.runs]
    · exact fun hrefused => absurd (haccepted.symm.trans hrefused) (Bool.false_ne_true ·.symm)
  | threw hopen hidle haccepted =>
    refine .ran hopen hidle ⟨hflags.closed.trans hopen, hflags.running, hflags.closeCallbacks⟩ ?_ ?_ rfl rfl
    · simp [Task.runs]
    · exact fun _ => rfl
  | refused hopen hidle haccepted =>
    refine .ran hopen hidle ⟨hflags.closed.trans hopen, hflags.running, hflags.closeCallbacks⟩ ?_ ?_ rfl rfl
    · simp [Task.runs]
    · exact fun _ => rfl

theorem RunsSession.ofSession {run : SessionRun} (h : RunsSession session accepted watching run produced next)
    {task : Task} (htask : task ∈ produced) : task.session = some session := by
  cases h <;> simp_all [Task.session]
  rcases htask with rfl | rfl <;> rfl

theorem Fits.idle (h : Fits compiler tasks session found) (hidle : found.watching.running = false) :
    count (Task.runs session) tasks = 0 := by
  have hruns := h.runs
  rw [hidle, if_neg Bool.false_ne_true] at hruns
  exact Nat.le_zero.mp hruns

theorem Fits.not_finishes (h : Fits compiler tasks session found) (hopen : found.watching.closed = false) :
    count (Task.finishes session) tasks = 0 := by
  by_contra hfinishes
  exact Bool.false_ne_true (hopen.symm.trans (h.finishes hfinishes).1)

/-- The flags of the session stay. -/
theorem Fits.sameFlags (h : Fits compiler tasks session ⟨accepted, watching⟩)
    (hsame : watching.SameFlags next) : Fits compiler tasks session ⟨accepted, next⟩ where
  runs := hsame.running ▸ h.runs
  accepted := h.accepted
  owned := h.owned
  detached := fun haccepted hdetached => by
    obtain ⟨hclosed, hidle⟩ := h.detached haccepted hdetached
    exact ⟨hsame.closed.trans hclosed, hsame.running.trans hidle⟩
  finishes := fun hfinishes => by
    obtain ⟨hclosed, hidle⟩ := h.finishes hfinishes
    exact ⟨hsame.closed.trans hclosed, hsame.running.trans hidle⟩
  delivers := h.delivers
  closeCallbacks := fun hcallbacks => by
    rw [hsame.closed, hsame.running]
    rw [hsame.closeCallbacks] at hcallbacks
    exact h.closeCallbacks hcallbacks

theorem Fits.ran (h : Fits compiler tasks session ⟨accepted, watching⟩)
    (hran : RanSession session accepted watching produced next) :
    Fits compiler (produced + tasks) session ⟨accepted, next⟩ := by
  cases hran with
  | skipped hproduced hnext =>
    subst hproduced hnext
    simpa using h
  | ran hopen hidle hnext hruns haccepted hfinishes hdelivers =>
    obtain ⟨hclosed, hrunning, hcallbacks⟩ := hnext
    have hnone : next.closeCallbacks = [] := by
      rw [hcallbacks]
      by_contra hsome
      exact Bool.false_ne_true (hidle.symm.trans (h.closeCallbacks hsome).2)
    refine ⟨?_, fun hrefused => ?_, h.owned, fun htrue hdetached => ?_, fun hend => ?_, fun hend => ?_, ?_⟩
    · dsimp only
      rw [count_add, hruns, h.idle hidle, hrunning, if_pos rfl]
    · rw [count_add, haccepted hrefused, h.accepted hrefused]
    · exact absurd (hopen.symm.trans (h.detached htrue hdetached).1) Bool.false_ne_true
    · rw [count_add, hfinishes, h.not_finishes hopen] at hend
      exact absurd rfl hend
    · rw [count_add, hdelivers, zero_add] at hend
      exact h.delivers hend
    · exact fun hsome => absurd hnone hsome

/-- A session that the compiler has just taken or refused. -/
theorem Fits.new (hknown : ∀ task ∈ tasks, task.session ≠ some session)
    (howned : compiler.watching = some session ↔ accepted = true) {watchOptions : NormalizedWatchOptions} :
    Fits compiler tasks session ⟨accepted, { watchOptions }⟩ where
  runs := by
    rw [(OfKind.runs session).count_eq_zero hknown]
    exact Nat.zero_le _
  accepted := fun _ => (OfKind.runsNative session).count_eq_zero hknown
  owned := howned.mp
  detached := fun haccepted hdetached => absurd (howned.mpr haccepted) hdetached
  finishes := fun hfinishes => absurd ((OfKind.finishes session).count_eq_zero hknown) hfinishes
  delivers := fun hdelivers => absurd ((OfKind.delivers session).count_eq_zero hknown) hdelivers
  closeCallbacks := fun hcallbacks => absurd rfl hcallbacks

/-- `#finishClose` of a session that has been closed and does not run. -/
theorem Fits.finishClose (h : Fits compiler tasks session ⟨accepted, watching⟩)
    (hrest : ∀ kind, count kind rest ≤ count kind tasks) (hruns : count (Task.runs session) rest = 0)
    {closed : WatchingImpl} (hclosed : closed.Closed) {task : Task}
    (hfinish : finishClose compiler session accepted closed = (task, next, last)) :
    Fits last (task ::ₘ rest) session ⟨accepted, next⟩ := by
  obtain ⟨⟨flush, rfl⟩, rfl, hsame⟩ := finishClose_eq hfinish
  refine ⟨?_, fun hrefused => ?_, fun howned => h.owned (hsame.watching ▸ howned), fun _ _ => hclosed,
    fun _ => hclosed, fun hdelivers => ?_, fun hcallbacks => absurd rfl hcallbacks⟩
  · rw [count_cons, hruns]
    exact Nat.zero_le _
  · have hle := hrest (Task.runsNative session)
    rw [h.accepted hrefused, Nat.le_zero] at hle
    rw [count_cons, hle]
    rfl
  · rw [count_cons] at hdelivers
    rw [hsame.watching]
    exact h.delivers (Nat.ne_zero_of_lt (lt_of_lt_of_le (Nat.pos_of_ne_zero hdelivers) (hrest _)))

theorem Fits.acts {progress : CompilerProgress} {event : Event}
    (h : Fits progress.compiler progress.tasks session ⟨accepted, watching⟩)
    (hacts : SessionActs progress session accepted watching event produced next last) :
    Fits last (produced + progress.tasks) session ⟨accepted, next⟩ := by
  have hleft : Fits progress.compiler (([] : List Task) + progress.tasks) session ⟨accepted, watching⟩ := by
    simpa using h
  cases hacts with
  | invalidateClosed hclosed => exact hleft
  | invalidateRunning hopen hrunning => exact hleft.sameFlags ⟨rfl, rfl, rfl⟩
  | invalidate hopen hidle hrun =>
    have hinvalidate : Fits progress.compiler progress.tasks session ⟨accepted, watching.invalidate⟩ :=
      h.sameFlags ⟨rfl, rfl, rfl⟩
    exact hinvalidate.ran hrun.ran
  | closeClosed hclosed hidle =>
    refine h.frame Iff.rfl fun kind hkind => ?_
    have hother : (Task.deferred (.watchClose session progress.calls)).session ≠ some session := nofun
    simp [hkind.eq_false hother]
  | closeRunning hrunning =>
    refine ⟨hleft.runs, hleft.accepted, hleft.owned, fun haccepted hdetached => ?_, fun hfinishes => ?_,
      hleft.delivers, fun _ => ⟨rfl, hrunning⟩⟩
    · exact ⟨rfl, (hleft.detached haccepted hdetached).2⟩
    · exact ⟨rfl, (hleft.finishes hfinishes).2⟩
  | @close hopen hidle task _ _ hfinish =>
    have hclosed : (watching.close progress.calls).Closed := ⟨rfl, hidle⟩
    exact h.finishClose (fun _ => le_rfl) (h.idle hidle) hclosed hfinish
  | rebuildRunning htimer hrunning => exact hleft.sameFlags ⟨rfl, rfl, rfl⟩
  | rebuild htimer hidle hrun =>
    have htimer : Fits progress.compiler progress.tasks session ⟨accepted, { watching with rebuildTimer := false }⟩ :=
      h.sameFlags ⟨rfl, rfl, rfl⟩
    exact htimer.ran hrun.ran
  | watchEvent hwatched filename => exact hleft.sameFlags (watching.sameFlags_watchEvent ..)
  | poll hwatched => exact hleft.sameFlags (watching.sameFlags_poll ..)

theorem Fits.ends {progress : CompilerProgress} {latestStats : LatestStats} {run : SessionRun}
    (h : Fits progress.compiler progress.tasks session ⟨accepted, watching⟩)
    (htask : progress.tasks = .watchEnded session latestStats ::ₘ rest)
    (hends : SessionEnds progress session accepted watching latestStats run produced next last) :
    Fits last (produced + rest) session ⟨accepted, next⟩ := by
  have hrest : ∀ kind, count kind rest ≤ count kind progress.tasks := by
    intro kind
    rw [htask, count_cons]
    exact Nat.le_add_right ..
  have hruns : count (Task.runs session) rest = 0 := by
    have hall := h.runs
    rw [htask, count_cons] at hall
    simp only [Task.runs, decide_true] at hall
    split_ifs at hall <;> omega
  have hended : ∀ watchable, watching.closed = false → Fits progress.compiler rest session
      ⟨accepted, watching.endRun latestStats progress.files watchable⟩ := by
    intro watchable hopen
    have hflags := watching.sameFlags_endRun progress.files latestStats watchable
    refine ⟨?_, fun hrefused => ?_, h.owned, fun haccepted hdetached => ?_, fun hfinishes => ?_, fun hdelivers => ?_,
      fun hcallbacks => ?_⟩
    · rw [hruns]
      exact Nat.zero_le _
    · exact Nat.le_zero.mp (h.accepted hrefused ▸ hrest _)
    · exact absurd (hopen.symm.trans (h.detached haccepted hdetached).1) Bool.false_ne_true
    · exact absurd (Nat.le_zero.mp (h.not_finishes hopen ▸ hrest _)) hfinishes
    · exact h.delivers (Nat.ne_zero_of_lt (lt_of_lt_of_le (Nat.pos_of_ne_zero hdelivers) (hrest _)))
    · rw [hflags.closeCallbacks] at hcallbacks
      exact absurd (hopen.symm.trans (h.closeCallbacks hcallbacks).1) Bool.false_ne_true
  cases hends with
  | closed hclosed watchable hfinish =>
    have hflags := watching.sameFlags_endRun progress.files latestStats watchable
    exact h.finishClose hrest hruns ⟨hflags.closed.trans hclosed, hflags.running⟩ hfinish
  | valid hopen hvalid watchable => simpa using hended watchable hopen
  | invalidated hopen hinvalid watchable hrun =>
    have hcleared : Fits progress.compiler rest session
        ⟨accepted, { watching.endRun latestStats progress.files watchable with invalidated := false }⟩ :=
      (hended watchable hopen).sameFlags ⟨rfl, rfl, rfl⟩
    exact hcleared.ran hrun.ran

/-- The compiler holds what it held, and no more tasks of the session are left. -/
theorem Fits.mono (h : Fits compiler tasks session found) (hwatching : last.watching = compiler.watching)
    (hruns : count (Task.runs session) rest ≤ count (Task.runs session) tasks)
    (hnative : count (Task.runsNative session) rest ≤ count (Task.runsNative session) tasks)
    (hfinishes : count (Task.finishes session) rest ≤ count (Task.finishes session) tasks)
    (hdelivers : count (Task.delivers session) rest ≤ count (Task.delivers session) tasks) :
    Fits last rest session found where
  runs := hruns.trans h.runs
  accepted := fun hrefused => Nat.le_zero.mp (h.accepted hrefused ▸ hnative)
  owned := fun howned => h.owned (hwatching ▸ howned)
  detached := fun haccepted hdetached => h.detached haccepted (hwatching ▸ hdetached)
  finishes := fun hsome => h.finishes (Nat.ne_zero_of_lt (lt_of_lt_of_le (Nat.pos_of_ne_zero hsome) hfinishes))
  delivers := fun hsome => by
    rw [hwatching]
    exact h.delivers (Nat.ne_zero_of_lt (lt_of_lt_of_le (Nat.pos_of_ne_zero hsome) hdelivers))
  closeCallbacks := h.closeCallbacks

/-- Behind the flush the compiler lets the session go. -/
theorem Fits.detach (h : Fits compiler tasks session found) {callbacks : List Call} {flush : Option Nat}
    (htask : tasks = .finishFlush session callbacks flush ::ₘ rest) (hwatching : last.watching = compiler.watching) :
    Fits (last.detach session found.accepted) (.finishDeliver session callbacks ::ₘ rest) session found := by
  have hclosed : found.watching.Closed := h.finishes (by simp [htask, Task.finishes])
  have hdetached : (last.detach session found.accepted).watching ≠ some session := by
    rw [CompilerImpl.watching_detach, hwatching]
    intro hsome
    split_ifs at hsome with howned
    exact howned ⟨h.owned hsome, hsome⟩
  have hruns := h.runs
  have hnative := h.accepted
  rw [htask, count_cons] at hruns hnative
  refine ⟨?_, fun hrefused => ?_, fun howned => absurd howned hdetached, fun _ _ => hclosed, fun _ => hclosed,
    fun _ => hdetached, h.closeCallbacks⟩
  · rw [count_cons]
    exact hruns
  · rw [count_cons]
    exact hnative hrefused

/-- A task of the session goes on. -/
theorem Fits.resumes {progress : CompilerProgress} {event : Event} {task : Task}
    (h : Fits progress.compiler progress.tasks session found) (hfound : progress.sessions[session]? = some found)
    (htask : progress.tasks = task ::ₘ rest) (hsession : task.session = some session)
    (hresumes : Resumes progress task event produced last) : Fits last (produced + rest) session found := by
  cases hresumes with
  | @finishFlush session' callbacks flush found' hsession' hsettled =>
    cases hsession
    cases hfound.symm.trans hsession'
    have hsame := progress.compiler.sameFlags_flushed flush
    simpa using h.detach htask hsame.watching
  | watchCompletes session' stats hreads =>
    cases hsession
    refine h.mono progress.compiler.sameFlags_scheduleIdleCacheFlush.watching ?_ ?_ ?_ ?_ <;>
      simp [htask, Task.runs, Task.runsNative, Task.finishes, Task.delivers]
  | watchFails | watchRejects | watchHooks | watchHooksFail | handlerReturns | handlerThrows | handlerRejects
  | handlerDeferred | finishDeliver | finished | closeCallbackReturns | closeCallbackThrows =>
    cases hsession
    refine h.mono rfl ?_ ?_ ?_ ?_ <;>
      simp [htask, Task.runs, Task.runsNative, Task.finishes, Task.delivers]
  | _ => cases hsession

end

/-- Every task belongs to the session or to none. -/
def OnlyOf (session : Nat) (produced : List Task) : Prop :=
  ∀ task ∈ produced, ∀ other, task.session = some other → other = session

section

variable {progress : CompilerProgress} {session : Nat} {accepted : Bool} {watching next : WatchingImpl}
  {produced : List Task} {last : CompilerImpl}

theorem RunsSession.onlyOf {run : SessionRun} (h : RunsSession session accepted watching run produced next) :
    OnlyOf session produced :=
  fun _ htask _ hother => Option.some.inj (hother.symm.trans (h.ofSession htask))

theorem finishClose_onlyOf {compiler : CompilerImpl} {task : Task}
    (h : finishClose compiler session accepted watching = (task, next, last)) : OnlyOf session [task] := by
  obtain ⟨⟨flush, rfl⟩, -, -⟩ := finishClose_eq h
  intro task htask other hother
  rw [List.mem_singleton.mp htask] at hother
  exact (Option.some.inj hother).symm

theorem SessionActs.onlyOf {event : Event}
    (h : SessionActs progress session accepted watching event produced next last) : OnlyOf session produced := by
  cases h with
  | invalidate hopen h hrun | rebuild htimer hidle hrun => exact hrun.onlyOf
  | close hopen hidle hfinish => exact finishClose_onlyOf hfinish
  | closeClosed => simp [OnlyOf, Task.session]
  | _ => exact fun _ htask => absurd htask (List.not_mem_nil)

theorem SessionEnds.onlyOf {latestStats : LatestStats} {run : SessionRun}
    (h : SessionEnds progress session accepted watching latestStats run produced next last) :
    OnlyOf session produced := by
  cases h with
  | closed h watchable hfinish => exact finishClose_onlyOf hfinish
  | valid => exact fun _ htask => absurd htask (List.not_mem_nil)
  | invalidated hopen h watchable hrun => exact hrun.onlyOf

theorem Asks.ofNone {event : Event} (h : Asks progress event produced last) {task : Task} (htask : task ∈ produced) :
    task.session = none := by
  cases h <;> simp_all [Task.session]
  rcases htask with rfl | rfl <;> rfl

/-- A task leaves tasks of its own session, if it has one. -/
theorem Resumes.session_eq {task : Task} {event : Event} (h : Resumes progress task event produced last) {other : Task}
    (hother : other ∈ produced) : other.session = task.session := by
  cases h <;> simp_all [Task.session]

/-- A task lets go its own session only. -/
theorem Resumes.watching_iff {task : Task} {event : Event} (h : Resumes progress task event produced last)
    (hsession : task.session ≠ some session) :
    last.watching = some session ↔ progress.compiler.watching = some session := by
  cases h with
  | closeFlush | idleFlush => rw [(progress.compiler.sameFlags_flushed _).watching]
  | runCompletes | watchCompletes => rw [progress.compiler.sameFlags_scheduleIdleCacheFlush.watching]
  | @finishFlush session' callbacks flush found hfound hsettled =>
    rw [CompilerImpl.watching_detach, (progress.compiler.sameFlags_flushed flush).watching]
    have hne : session' ≠ session := fun heq => hsession (congrArg some heq)
    split_ifs with hdetached
    · simp [hdetached.2, hne]
    · rfl
  | _ => rfl

end

/-- The sessions of a state. -/
structure SessionsFit (progress : CompilerProgress) : Prop where
  fits : ∀ session found, progress.sessions[session]? = some found →
    Fits progress.compiler progress.tasks session found
  known : ∀ task ∈ progress.tasks, ∀ session, task.session = some session → session < progress.sessions.length
  watched : ∀ session, progress.compiler.watching = some session → session < progress.sessions.length

namespace SessionsFit

variable {progress next : CompilerProgress} {event : Event}

theorem start (writableFilesystemCache : Bool) (files : String → PollSnapshot) :
    SessionsFit (.start writableFilesystemCache files) where
  fits := nofun
  known := fun task htask => absurd htask (Multiset.notMem_zero task)
  watched := nofun

/-- One session acts, and the others are left alone. -/
theorem modify (h : SessionsFit progress) {session : Nat} {found : Session} {watching : WatchingImpl}
    {compiler : CompilerImpl} {tasks : Multiset Task} (hfound : progress.sessions[session]? = some found)
    (hfits : Fits compiler tasks session ⟨found.accepted, watching⟩)
    (hwatching : compiler.watching = progress.compiler.watching)
    (hcount : ∀ other kind, other ≠ session → OfKind other kind → count kind tasks = count kind progress.tasks)
    (hknown : ∀ task ∈ tasks, task ∈ progress.tasks ∨ ∀ other, task.session = some other → other = session)
    {calls : Nat} {settled : Finset Nat} {files : String → PollSnapshot} :
    SessionsFit ⟨compiler, progress.sessions.modify session ({ · with watching }), tasks, calls, settled, files⟩ where
  fits := fun other last hlast => by
    by_cases hother : session = other
    · subst hother
      rw [List.getElem?_modify_eq, hfound] at hlast
      cases hlast
      exact hfits
    · rw [List.getElem?_modify_ne _ _ hother] at hlast
      refine (h.fits other last hlast).frame (by rw [hwatching]) fun kind hkind => ?_
      exact hcount other kind (Ne.symm hother) hkind
  known := fun task htask other hother => by
    rw [List.length_modify]
    rcases hknown task htask with hold | hsession
    · exact h.known task hold other hother
    · rw [hsession other hother]
      exact (List.getElem?_eq_some_iff.mp hfound).1
  watched := fun other hother => by
    rw [List.length_modify]
    exact h.watched other (hwatching ▸ hother)

/-- No session acts. -/
theorem keep (h : SessionsFit progress) {compiler : CompilerImpl} {tasks : Multiset Task}
    (hwatching : compiler.watching = progress.compiler.watching)
    (hcount : ∀ session kind, OfKind session kind → count kind tasks = count kind progress.tasks)
    (hknown : ∀ task ∈ tasks, ∀ session, task.session = some session → session < progress.sessions.length)
    {calls : Nat} {settled : Finset Nat} {files : String → PollSnapshot} :
    SessionsFit ⟨compiler, progress.sessions, tasks, calls, settled, files⟩ where
  fits := fun session found hfound =>
    (h.fits session found hfound).frame (by rw [hwatching]) fun kind hkind => hcount session kind hkind
  known := hknown
  watched := fun session hsession => h.watched session (hwatching ▸ hsession)

theorem asks (h : SessionsFit progress) {produced : List Task} {compiler : CompilerImpl}
    (hasks : Asks progress event produced compiler) {calls : Nat} :
    SessionsFit ⟨compiler, progress.sessions, produced + progress.tasks, calls, progress.settled, progress.files⟩ := by
  have hwatching : compiler.watching = progress.compiler.watching := by
    cases hasks with
    | @close haccepts flush compiler hflush =>
      have hsame := (progress.compiler.sameFlags_clearIdleFlushTimer).trans
        (CompilerImpl.sameFlags_flushCacheNow progress.compiler.clearIdleFlushTimer)
      rw [hflush] at hsame
      exact hsame.watching
    | _ => rfl
  refine h.keep hwatching (fun session kind hkind => ?_) fun task htask session hsession => ?_
  · have hproduced : count kind (produced : Multiset Task) = 0 :=
      hkind.count_eq_zero fun task htask => by
        rw [hasks.ofNone htask]
        exact nofun
    rw [count_add, hproduced, zero_add]
  · rcases Multiset.mem_add.mp htask with hnew | hold
    · rw [hasks.ofNone hnew] at hsession
      cases hsession
    · exact h.known task hold session hsession

/-- A session is added. -/
theorem append (h : SessionsFit progress) {accepted : Bool} {watchOptions : NormalizedWatchOptions}
    {watching : WatchingImpl} {run : SessionRun} {produced : List Task} {compiler : CompilerImpl}
    (hrun : RunsSession progress.sessions.length accepted { watchOptions } run produced watching)
    (howned : compiler.watching = some progress.sessions.length ↔ accepted = true)
    (hothers : ∀ session, session < progress.sessions.length →
      (compiler.watching = some session ↔ progress.compiler.watching = some session))
    (hlast : ∀ session, compiler.watching = some session → session ≤ progress.sessions.length)
    {calls : Nat} {settled : Finset Nat} {files : String → PollSnapshot} :
    SessionsFit ⟨compiler, progress.sessions ++ [⟨accepted, watching⟩], produced + progress.tasks, calls, settled,
      files⟩ where
  fits := fun session found hfound => by
    rcases Nat.lt_trichotomy session progress.sessions.length with hold | rfl | hbeyond
    · rw [List.getElem?_append_left hold] at hfound
      refine (h.fits session found hfound).frame (hothers session hold) fun kind hkind => ?_
      have hproduced : count kind (produced : Multiset Task) = 0 :=
        hkind.count_eq_zero fun task htask hsession =>
          Nat.ne_of_lt hold (hrun.onlyOf task htask session hsession)
      rw [count_add, hproduced, zero_add]
    · rw [List.getElem?_concat_length] at hfound
      cases hfound
      have hnew : Fits compiler progress.tasks progress.sessions.length ⟨accepted, { watchOptions }⟩ :=
        Fits.new (fun task htask hsession => Nat.lt_irrefl _ (h.known task htask _ hsession)) howned
      exact hnew.ran hrun.ran
    · rw [List.getElem?_eq_none (List.length_append ▸ hbeyond)] at hfound
      cases hfound
  known := fun task htask session hsession => by
    rw [List.length_append, List.length_singleton]
    rcases Multiset.mem_add.mp htask with hnew | hold
    · rw [hrun.onlyOf task hnew session hsession]
      exact Nat.lt_succ_self _
    · exact Nat.lt_succ_of_lt (h.known task hold session hsession)
  watched := fun session hsession => by
    rw [List.length_append, List.length_singleton]
    exact Nat.lt_succ_of_le (hlast session hsession)

theorem resumes (h : SessionsFit progress) {task : Task} {rest : Multiset Task} {produced : List Task}
    {compiler : CompilerImpl} (htask : progress.tasks = task ::ₘ rest)
    (hresumes : Resumes progress task event produced compiler) :
    SessionsFit { progress with compiler, tasks := produced + rest } where
  fits := fun session found hfound => by
    by_cases hsession : task.session = some session
    · exact (h.fits session found hfound).resumes hfound htask hsession hresumes
    · refine (h.fits session found hfound).frame (hresumes.watching_iff hsession) fun kind hkind => ?_
      have hproduced : count kind (produced : Multiset Task) = 0 :=
        hkind.count_eq_zero fun other hother heq => hsession ((hresumes.session_eq hother).symm.trans heq)
      rw [count_add, hproduced, htask, count_cons, hkind.eq_false hsession, zero_add]
      rfl
  known := fun other hother session hsession => by
    rcases Multiset.mem_add.mp hother with hnew | hold
    · refine h.known task (htask ▸ Multiset.mem_cons_self task rest) session ?_
      exact (hresumes.session_eq hnew).symm.trans hsession
    · exact h.known other (htask ▸ Multiset.mem_cons_of_mem hold) session hsession
  watched := fun session hsession => by
    by_cases htaken : task.session = some session
    · exact h.known task (htask ▸ Multiset.mem_cons_self task rest) session htaken
    · exact h.watched session ((hresumes.watching_iff htaken).mp hsession)

theorem step (h : SessionsFit progress) (hstep : CompilerStep progress event next) : SessionsFit next := by
  cases hstep with
  | asks hasks => exact h.asks hasks
  | watch haccepts watchOptions hrun =>
    refine h.append hrun (iff_of_true rfl rfl) (fun session hsession => ?_) fun session hsession => ?_
    · rw [haccepts.2.2]
      refine iff_of_false (fun heq => ?_) nofun
      exact Nat.ne_of_lt hsession (Option.some.inj heq).symm
    · exact (Option.some.inj hsession).symm.le
  | watchRejected hrejects hrun =>
    refine h.append hrun (iff_of_false (fun heq => ?_) Bool.false_ne_true) (fun _ _ => Iff.rfl)
      fun session hsession => ?_
    · exact Nat.lt_irrefl _ (h.watched _ heq)
    · exact (h.watched session hsession).le
  | @session session found hfound _ produced watching compiler hacts =>
    refine h.modify hfound ((h.fits session found hfound).acts hacts) hacts.ofSessions.2.watching
      (fun other kind hother hkind => ?_) fun task htask => ?_
    · have hproduced : count kind (produced : Multiset Task) = 0 :=
        hkind.count_eq_zero fun task htask heq => hother (hacts.onlyOf task htask other heq)
      rw [count_add, hproduced, zero_add]
    · exact (Multiset.mem_add.mp htask).symm.imp_right (hacts.onlyOf task)
  | continues hcontinues =>
    cases hcontinues with
    | resumes htask hresumes => exact h.resumes htask hresumes
    | @ends session latestStats rest htask found hfound run produced watching compiler hends =>
      refine h.modify hfound ((h.fits session found hfound).ends htask hends) hends.ofSessions.2.watching
        (fun other kind hother hkind => ?_) fun task hmem => ?_
      · have hproduced : count kind (produced : Multiset Task) = 0 :=
          hkind.count_eq_zero fun task hmem heq => hother (hends.onlyOf task hmem other heq)
        have hended : kind (.watchEnded session latestStats) = false :=
          hkind.eq_false fun heq => hother (Option.some.inj heq).symm
        rw [count_add, hproduced, htask, count_cons, hended, zero_add]
        rfl
      · rcases Multiset.mem_add.mp hmem with hnew | hold
        · exact .inr (hends.onlyOf task hnew)
        · exact .inl (htask ▸ Multiset.mem_cons_of_mem hold)
    | settles hcalled hpending => exact ⟨h.fits, h.known, h.watched⟩
  | @idleTimer htimer flush compiler hflush =>
    have hsame := (progress.compiler.sameFlags_clearIdleFlushTimer).trans
      (CompilerImpl.sameFlags_flushCacheNow progress.compiler.clearIdleFlushTimer)
    rw [hflush] at hsame
    have hnone : (Task.idleFlush flush).session = none := rfl
    refine h.keep hsame.watching (fun session kind hkind => ?_) fun task htask session hsession => ?_
    · rw [count_cons, hkind.eq_false (hnone.trans_ne nofun)]
      rfl
    · rcases Multiset.mem_cons.mp htask with rfl | hold
      · cases hsession
      · exact h.known task hold session hsession
  | fileChanges path snapshot => exact ⟨h.fits, h.known, h.watched⟩
  | @reads session reads rest htask path =>
    refine ⟨fun other found hfound => ?_, fun task hmem other hother => ?_, h.watched⟩
    · refine (h.fits other found hfound).mono rfl ?_ ?_ ?_ ?_ <;>
        simp [htask, Task.runs, Task.runsNative, Task.finishes, Task.delivers]
    · have hold : ∀ task ∈ Task.watchNative session reads ::ₘ rest, ∀ other, task.session = some other →
          other < progress.sessions.length := htask ▸ h.known
      rcases Multiset.mem_cons.mp hmem with rfl | hmem
      · exact hold _ (Multiset.mem_cons_self _ rest) other hother
      · exact hold task (Multiset.mem_cons_of_mem hmem) other hother

end SessionsFit

end Unpack.Compiler
