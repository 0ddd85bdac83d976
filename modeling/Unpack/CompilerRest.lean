import Unpack.CompilerCallbacks
import Mathlib.Data.Finset.Card
import Mathlib.Data.Finset.Range
import Mathlib.Data.Finset.Basic
import Mathlib.Logic.Relation

/-! Nothing that is waited for stays undone: a compiler that is left alone comes to rest, and then no task is
left. -/

namespace Unpack.Compiler

/-- The flush that the task waits for. -/
def Task.flush : Task → Option Nat
  | closeFlush flush | finishFlush _ _ flush | idleFlush flush => flush
  | _ => none

/-- A flush that is pending has been asked for. -/
def CompilerImpl.PendingKnown (compiler : CompilerImpl) : Prop :=
  ∀ flush, compiler.pendingCacheFlush = some flush → flush < compiler.settleCalls

/-- What a step does with flushes. -/
structure KeepsFlushes (compiler last : CompilerImpl) (produced : List Task) : Prop where
  settleCalls : compiler.settleCalls ≤ last.settleCalls
  pending : last.PendingKnown
  produced : ∀ task ∈ produced, ∀ flush, task.flush = some flush → flush < last.settleCalls

section

variable {compiler last : CompilerImpl} {flush : Option Nat}

theorem KeepsFlushes.refl (h : compiler.PendingKnown) {produced : List Task}
    (hproduced : ∀ task ∈ produced, task.flush = none) : KeepsFlushes compiler compiler produced :=
  ⟨le_rfl, h, fun task htask flush hflush => by
    rw [hproduced task htask] at hflush
    cases hflush⟩

theorem CompilerImpl.PendingKnown.flushCacheNow (h : compiler.PendingKnown)
    (hflush : compiler.flushCacheNow = (flush, last)) :
    compiler.settleCalls ≤ last.settleCalls ∧ last.PendingKnown ∧
      ∀ settleCall, flush = some settleCall → settleCall < last.settleCalls := by
  rw [CompilerImpl.flushCacheNow] at hflush
  split_ifs at hflush
  · cases hflush
    refine ⟨le_rfl, h, fun settleCall hcall => ?_⟩
    cases hcall
  · cases hpending : compiler.pendingCacheFlush with
    | some pending =>
      rw [hpending] at hflush
      cases hflush
      refine ⟨le_rfl, h, fun settleCall hcall => ?_⟩
      cases hcall
      exact h _ hpending
    | none =>
      rw [hpending] at hflush
      cases hflush
      refine ⟨Nat.le_succ _, fun settleCall hcall => ?_, fun settleCall hcall => ?_⟩ <;>
      · cases hcall
        exact Nat.lt_succ_self _

theorem CompilerImpl.PendingKnown.flushed (h : compiler.PendingKnown) (flush : Option Nat) :
    (compiler.flushed flush).PendingKnown ∧ (compiler.flushed flush).settleCalls = compiler.settleCalls := by
  rw [CompilerImpl.flushed]
  split_ifs
  · refine ⟨fun settleCall hcall => ?_, rfl⟩
    cases hcall
  · exact ⟨h, rfl⟩

theorem CompilerImpl.PendingKnown.detach (h : compiler.PendingKnown) (session : Nat) (accepted : Bool) :
    (compiler.detach session accepted).PendingKnown ∧
      (compiler.detach session accepted).settleCalls = compiler.settleCalls := by
  rw [CompilerImpl.detach]
  split_ifs <;> exact ⟨h, rfl⟩

theorem CompilerImpl.PendingKnown.scheduleIdleCacheFlush (h : compiler.PendingKnown) :
    compiler.scheduleIdleCacheFlush.PendingKnown ∧
      compiler.scheduleIdleCacheFlush.settleCalls = compiler.settleCalls := by
  rw [CompilerImpl.scheduleIdleCacheFlush]
  split_ifs <;> exact ⟨h, rfl⟩

end

section

variable {progress : CompilerProgress} {session : Nat} {accepted : Bool} {watching next : WatchingImpl}
  {produced : List Task} {compiler last : CompilerImpl} {event : Event}

theorem RunsSession.keepsFlushes {run : SessionRun} (h : RunsSession session accepted watching run produced next)
    (hpending : compiler.PendingKnown) : KeepsFlushes compiler compiler produced := by
  refine .refl hpending ?_
  cases h <;> simp [Task.flush]

theorem finishClose_keepsFlushes {task : Task} (hpending : compiler.PendingKnown)
    (h : finishClose compiler session accepted watching = (task, next, last)) :
    KeepsFlushes compiler last [task] := by
  cases accepted with
  | false =>
    cases h
    exact .refl hpending (by simp [Task.flush])
  | true =>
    cases hflush : compiler.flushCacheNow with
    | mk flush flushing =>
      simp only [finishClose, if_true, hflush] at h
      cases h
      obtain ⟨hcalls, hknown, hsettled⟩ := hpending.flushCacheNow hflush
      exact ⟨hcalls, hknown, by simpa [Task.flush] using hsettled⟩

theorem SessionActs.keepsFlushes (h : SessionActs progress session accepted watching event produced next last)
    (hpending : progress.compiler.PendingKnown) : KeepsFlushes progress.compiler last produced := by
  cases h with
  | invalidate hopen h hrun | rebuild htimer hidle hrun => exact hrun.keepsFlushes hpending
  | close hopen hidle hfinish => exact finishClose_keepsFlushes hpending hfinish
  | _ => exact .refl hpending (by simp [Task.flush])

theorem SessionEnds.keepsFlushes {latestStats : LatestStats} {run : SessionRun}
    (h : SessionEnds progress session accepted watching latestStats run produced next last)
    (hpending : progress.compiler.PendingKnown) : KeepsFlushes progress.compiler last produced := by
  cases h with
  | closed h watchable hfinish => exact finishClose_keepsFlushes hpending hfinish
  | valid hopen h watchable => exact .refl hpending (by simp)
  | invalidated hopen h watchable hrun => exact hrun.keepsFlushes hpending

theorem Asks.keepsFlushes (h : Asks progress event produced last) (hpending : progress.compiler.PendingKnown) :
    KeepsFlushes progress.compiler last produced := by
  cases h with
  | @close haccepts flush compiler hflush =>
    have hcleared : progress.compiler.clearIdleFlushTimer.PendingKnown := hpending
    obtain ⟨hcalls, hknown, hsettled⟩ := hcleared.flushCacheNow hflush
    exact ⟨hcalls, hknown, by simpa [Task.flush] using hsettled⟩
  | _ => exact ⟨le_rfl, hpending, by simp [Task.flush]⟩

theorem Resumes.keepsFlushes {task : Task} (h : Resumes progress task event produced last)
    (hpending : progress.compiler.PendingKnown) : KeepsFlushes progress.compiler last produced := by
  cases h with
  | @closeFlush flush hsettled =>
    obtain ⟨hknown, hcalls⟩ := hpending.flushed flush
    exact ⟨hcalls.ge, hknown, by simp [Task.flush]⟩
  | @idleFlush flush hsettled =>
    obtain ⟨hknown, hcalls⟩ := hpending.flushed flush
    exact ⟨hcalls.ge, hknown, by simp⟩
  | @finishFlush session callbacks flush found hsession hsettled =>
    obtain ⟨hknown, hcalls⟩ := hpending.flushed flush
    obtain ⟨hdetached, hsame⟩ := hknown.detach session found.accepted
    exact ⟨(hsame.trans hcalls).ge, hdetached, by simp [Task.flush]⟩
  | runCompletes | watchCompletes =>
    obtain ⟨hknown, hcalls⟩ := hpending.scheduleIdleCacheFlush
    exact ⟨hcalls.ge, hknown, by simp [Task.flush]⟩
  | _ => exact ⟨le_rfl, hpending, by simp [Task.flush]⟩

end

/-- Every flush that is waited for has been asked for. -/
structure FlushesKnown (progress : CompilerProgress) : Prop where
  pending : progress.compiler.PendingKnown
  tasks : ∀ task ∈ progress.tasks, ∀ flush, task.flush = some flush → flush < progress.compiler.settleCalls

namespace FlushesKnown

variable {progress next : CompilerProgress} {event : Event}

theorem add (h : FlushesKnown progress) {produced : List Task} {compiler : CompilerImpl} {rest : Multiset Task}
    (hkeeps : KeepsFlushes progress.compiler compiler produced) (hrest : ∀ task ∈ rest, task ∈ progress.tasks)
    {sessions : List Session} {calls : Nat} {settled : Finset Nat} {files : String → PollSnapshot} :
    FlushesKnown ⟨compiler, sessions, produced + rest, calls, settled, files⟩ where
  pending := hkeeps.pending
  tasks := fun task htask flush hflush => by
    rcases Multiset.mem_add.mp htask with hnew | hold
    · exact hkeeps.produced task hnew flush hflush
    · exact (h.tasks task (hrest task hold) flush hflush).trans_le hkeeps.settleCalls

theorem step (h : FlushesKnown progress) (hstep : CompilerStep progress event next) : FlushesKnown next := by
  cases hstep with
  | asks hasks => exact h.add (hasks.keepsFlushes h.pending) fun _ hold => hold
  | watch haccepts watchOptions hrun | watchRejected hrejects hrun =>
    have hkept : FlushesKnown { progress with tasks := _ + progress.tasks } :=
      h.add (hrun.keepsFlushes h.pending) fun _ hold => hold
    exact ⟨hkept.pending, hkept.tasks⟩
  | session hfound hacts => exact h.add (hacts.keepsFlushes h.pending) fun _ hold => hold
  | continues hcontinues =>
    cases hcontinues with
    | resumes htask hresumes =>
      exact h.add (hresumes.keepsFlushes h.pending) fun _ hold => htask ▸ Multiset.mem_cons_of_mem hold
    | ends htask hfound hends =>
      exact h.add (hends.keepsFlushes h.pending) fun _ hold => htask ▸ Multiset.mem_cons_of_mem hold
    | settles hcalled hpending => exact ⟨h.pending, h.tasks⟩
  | @idleTimer htimer flush compiler hflush =>
    have hcleared : progress.compiler.clearIdleFlushTimer.PendingKnown := h.pending
    obtain ⟨hcalls, hknown, hsettled⟩ := hcleared.flushCacheNow hflush
    have hkeeps : KeepsFlushes progress.compiler compiler [.idleFlush flush] :=
      ⟨hcalls, hknown, by simpa [Task.flush] using hsettled⟩
    exact h.add hkeeps fun _ hold => hold
  | fileChanges path snapshot => exact ⟨h.pending, h.tasks⟩
  | @reads session reads rest htask path =>
    have hkeeps : KeepsFlushes progress.compiler progress.compiler
        [.watchNative session (reads ++ [(path, progress.files path)])] := .refl h.pending (by simp [Task.flush])
    exact h.add hkeeps fun _ hold => htask ▸ Multiset.mem_cons_of_mem hold

end FlushesKnown

/-- `close` is answered by a compiler that closes or has been closed. -/
def ClosesDelivered (progress : CompilerProgress) : Prop :=
  ∀ call, Task.closeDeliver call ∈ progress.tasks → progress.compiler.lifecycle ≠ .open

theorem CompilerStep.lifecycle {progress next : CompilerProgress} {event : Event}
    (h : CompilerStep progress event next) (hclosing : progress.compiler.lifecycle ≠ .open) :
    next.compiler.lifecycle ≠ .open := by
  cases h with
  | asks hasks =>
    cases hasks with
    | close haccepts => exact absurd haccepts.1 hclosing
    | _ => exact hclosing
  | session hfound hacts => exact hacts.ofSessions.2.lifecycle ▸ hclosing
  | continues hcontinues =>
    cases hcontinues with
    | resumes htask hresumes =>
      cases hresumes with
      | closeFlush => exact (progress.compiler.sameFlags_flushed _).lifecycle ▸ hclosing
      | idleFlush => exact (progress.compiler.sameFlags_flushed _).lifecycle ▸ hclosing
      | runCompletes | watchCompletes =>
        exact progress.compiler.sameFlags_scheduleIdleCacheFlush.lifecycle ▸ hclosing
      | closeShutdown => exact nofun
      | finishFlush session callbacks hfound hsettled =>
        rw [((progress.compiler.flushed _).lifecycle_detach session _).1]
        exact (progress.compiler.sameFlags_flushed _).lifecycle ▸ hclosing
      | _ => exact hclosing
    | ends htask hfound hends => exact hends.ofSessions.2.lifecycle ▸ hclosing
    | settles => exact hclosing
  | idleTimer htimer hflush =>
    have hsame := CompilerImpl.sameFlags_flushCacheNow progress.compiler.clearIdleFlushTimer
    rw [hflush] at hsame
    exact hsame.lifecycle ▸ hclosing
  | _ => exact hclosing

theorem finishClose_ne_closeDeliver {compiler last : CompilerImpl} {session : Nat} {accepted : Bool}
    {watching next : WatchingImpl} {task : Task}
    (h : finishClose compiler session accepted watching = (task, next, last)) (call : Call) :
    task ≠ .closeDeliver call := by
  obtain ⟨⟨flush, rfl⟩, -, -⟩ := finishClose_eq h
  exact nofun

theorem RunsSession.ne_closeDeliver {session : Nat} {accepted : Bool} {watching next : WatchingImpl}
    {run : SessionRun} {produced : List Task} (h : RunsSession session accepted watching run produced next)
    (call : Call) : Task.closeDeliver call ∉ produced :=
  fun htask => nomatch h.ofSession htask

/-- Only `close` of a compiler that closes leaves its answer to be delivered. -/
theorem CompilerStep.closeDeliver {progress next : CompilerProgress} {event : Event}
    (h : CompilerStep progress event next) {call : Call} (hcall : Task.closeDeliver call ∈ next.tasks) :
    Task.closeDeliver call ∈ progress.tasks ∨ next.compiler.lifecycle ≠ .open := by
  cases h with
  | asks hasks =>
    refine (Multiset.mem_add.mp hcall).symm.imp_right fun hnew => ?_
    cases hasks with
    | closeClosing hclosing => exact hclosing ▸ nofun
    | close => exact nofun
    | _ => simp at hnew
  | watch haccepts watchOptions hrun | watchRejected hrejects hrun =>
    exact .inl ((Multiset.mem_add.mp hcall).resolve_left (hrun.ne_closeDeliver call))
  | session hfound hacts =>
    refine .inl ((Multiset.mem_add.mp hcall).resolve_left fun hnew => ?_)
    cases hacts with
    | invalidate hopen h hrun | rebuild htimer hidle hrun => exact hrun.ne_closeDeliver call hnew
    | close hopen hidle hfinish =>
      exact finishClose_ne_closeDeliver hfinish call (List.mem_singleton.mp hnew).symm
    | _ => simp at hnew
  | continues hcontinues =>
    cases hcontinues with
    | resumes htask hresumes =>
      rcases Multiset.mem_add.mp hcall with hnew | hold
      · cases hresumes <;> simp at hnew
      · exact .inl (htask ▸ Multiset.mem_cons_of_mem hold)
    | ends htask hfound hends =>
      rcases Multiset.mem_add.mp hcall with hnew | hold
      · cases hends with
        | closed hclosed watchable hfinish =>
          exact absurd (List.mem_singleton.mp hnew).symm (finishClose_ne_closeDeliver hfinish call)
        | valid => cases List.not_mem_nil hnew
        | invalidated hopen hinvalid watchable hrun => exact absurd hnew (hrun.ne_closeDeliver call)
      · exact .inl (htask ▸ Multiset.mem_cons_of_mem hold)
    | settles => exact .inl hcall
  | idleTimer => exact .inl ((Multiset.mem_cons.mp hcall).resolve_left nofun)
  | fileChanges => exact .inl hcall
  | reads htask path =>
    exact .inl (htask ▸ Multiset.mem_cons_of_mem ((Multiset.mem_cons.mp hcall).resolve_left nofun))

theorem ClosesDelivered.step {progress next : CompilerProgress} {event : Event} (h : ClosesDelivered progress)
    (hstep : CompilerStep progress event next) : ClosesDelivered next := by
  intro call hcall
  rcases hstep.closeDeliver hcall with hold | hclosing
  · exact hstep.lifecycle (h call hold)
  · exact hclosing

/-- What a state needs so that every task can go on. -/
structure Sound (progress : CompilerProgress) : Prop where
  arbitrates : Arbitrates progress.compiler progress.tasks
  sessions : SessionsFit progress
  flushes : FlushesKnown progress
  closes : ClosesDelivered progress

theorem CompilerRun.sound {trace : List (CompilerProgress × Event)} {progress : CompilerProgress}
    (h : CompilerRun trace progress) : Sound progress := by
  refine h.invariant ?_ fun _ _ _ hsound hstep => ?_
  · rintro _ ⟨writable, files, rfl⟩
    refine ⟨⟨rfl, rfl, nofun, fun hwatching => absurd rfl hwatching⟩, .start writable files, ⟨nofun, ?_⟩, ?_⟩
    · exact fun task htask => absurd htask (Multiset.notMem_zero task)
    · exact fun call hcall => absurd hcall (Multiset.notMem_zero _)
  · exact ⟨hsound.arbitrates.step hstep, hsound.sessions.step hstep, hsound.flushes.step hstep,
      hsound.closes.step hstep⟩

namespace Sound

variable {progress : CompilerProgress}

/-- A flush that a task waits for has been settled, or can be. -/
theorem flushSettled (h : Sound progress) (hrest : progress.AtRest) {task : Task} (htask : task ∈ progress.tasks) :
    progress.FlushSettled task.flush := by
  intro settleCall hflush
  by_contra hpending
  exact hrest _ _ (.settles (h.flushes.tasks task htask settleCall hflush) hpending)

theorem exists_session (h : Sound progress) {task : Task} (htask : task ∈ progress.tasks) {session : Nat}
    (hsession : task.session = some session) : ∃ found, progress.sessions[session]? = some found :=
  ⟨_, List.getElem?_eq_getElem (h.sessions.known task htask session hsession)⟩

/-- `#run` goes on behind its compilation. -/
theorem exists_ends (progress : CompilerProgress) (session : Nat) (found : Session) (latestStats : LatestStats) :
    ∃ run produced watching compiler,
      SessionEnds progress session found.accepted found.watching latestStats run produced watching compiler := by
  cases hclosed : found.watching.closed with
  | true => exact ⟨_, _, _, _, .closed hclosed (fun _ => true) rfl⟩
  | false =>
    cases hinvalid : found.watching.invalidated with
    | false => exact ⟨_, _, _, _, .valid hclosed hinvalid fun _ => true⟩
    | true =>
      have hflags := found.watching.sameFlags_endRun progress.files latestStats fun _ => true
      cases haccepted : found.accepted with
      | true => exact ⟨_, _, _, _, .invalidated hclosed hinvalid (fun _ => true)
          (.started (hflags.closed.trans hclosed) hflags.running rfl)⟩
      | false => exact ⟨_, _, _, _, .invalidated hclosed hinvalid (fun _ => true)
          (.refused (hflags.closed.trans hclosed) hflags.running rfl)⟩

/-- Every task can go on, unless it waits for the end of the compiler. -/
theorem eq_closeDeliver (h : Sound progress) (hrest : progress.AtRest) {task : Task} (htask : task ∈ progress.tasks) :
    ∃ call, task = .closeDeliver call ∧ progress.compiler.lifecycle ≠ .closed := by
  obtain ⟨rest, hcons⟩ := Multiset.exists_cons_of_mem htask
  have hnone : ∀ event produced compiler, ¬Resumes progress task event produced compiler :=
    fun event produced compiler hresumes => hrest _ _ (.resumes hcons hresumes)
  have hsettled := h.flushSettled hrest htask
  -- the end of a session that waits for no flush is never what is left
  have hqueued : ∀ session callbacks, .finishFlush session callbacks none ∉ progress.tasks := by
    intro session callbacks hfinish
    obtain ⟨others, hothers⟩ := Multiset.exists_cons_of_mem hfinish
    obtain ⟨found, hfound⟩ := h.exists_session hfinish rfl
    exact hrest _ _ (.resumes hothers (.finishFlush session callbacks hfound nofun))
  cases task with
  | runNative call => exact absurd (.runFails call) (hnone _ _ _)
  | runHooks call => exact absurd (.runHooks call) (hnone _ _ _)
  | runFailed call => exact absurd (.runFailed call) (hnone _ _ _)
  | deferred callback => exact absurd (.deferred callback fun session _ _ => hqueued session) (hnone _ _ _)
  | closeFlush flush => exact absurd (.closeFlush hsettled) (hnone _ _ _)
  | closeShutdown => exact absurd .closeShutdown (hnone _ _ _)
  | closeDeliver call => exact ⟨call, rfl, fun hclosed => hnone _ _ _ (.closeDeliver call hclosed)⟩
  | watchNative session reads => exact absurd (.watchFails session reads) (hnone _ _ _)
  | watchHooks session stats => exact absurd (.watchHooks session stats) (hnone _ _ _)
  | watchHandler session latestStats guarded =>
    exact absurd (.handlerReturns session latestStats guarded) (hnone _ _ _)
  | watchEnded session latestStats =>
    obtain ⟨found, hfound⟩ := h.exists_session htask rfl
    obtain ⟨run, produced, watching, compiler, hends⟩ := exists_ends progress session found latestStats
    exact absurd (.ends hcons hfound hends) (hrest _ _)
  | handlerDeferred session => exact absurd (.handlerDeferred session) (hnone _ _ _)
  | finishFlush session callbacks flush =>
    obtain ⟨found, hfound⟩ := h.exists_session htask rfl
    exact absurd (.finishFlush session callbacks hfound hsettled) (hnone _ _ _)
  | finishDeliver session callbacks =>
    cases callbacks with
    | nil => exact absurd (.finished session) (hnone _ _ _)
    | cons call callbacks => exact absurd (.finishDeliver session call callbacks) (hnone _ _ _)
  | finishCallback session callbacks =>
    exact absurd (.closeCallbackReturns session callbacks) (hnone _ _ _)
  | idleFlush flush => exact absurd (.idleFlush hsettled) (hnone _ _ _)

/-- A compiler at rest has no task left. -/
theorem atRest (h : Sound progress) (hrest : progress.AtRest) :
    progress.tasks = 0 ∧ progress.compiler.lifecycle ≠ .closing := by
  have hclosing : progress.compiler.lifecycle ≠ .closing := by
    intro hclosing
    have hcloses := h.arbitrates.closes
    rw [if_pos hclosing] at hcloses
    obtain ⟨task, htask, hkind⟩ := Multiset.countP_pos.mp (hcloses.symm ▸ Nat.one_pos)
    obtain ⟨call, rfl, -⟩ := h.eq_closeDeliver hrest htask
    cases hkind
  refine ⟨Multiset.eq_zero_of_forall_notMem fun task htask => ?_, hclosing⟩
  obtain ⟨call, rfl, hopen⟩ := h.eq_closeDeliver hrest htask
  have hclosed := h.closes call htask
  cases hlifecycle : progress.compiler.lifecycle with
  | «open» => exact hclosed hlifecycle
  | closing => exact hclosing hlifecycle
  | closed => exact hopen hlifecycle

end Sound

/-- More than what a task can still lead to, as long as its session is not invalidated. -/
def Task.weight : Task → Nat
  | runNative _ | closeFlush _ => 2
  | runHooks _ | runFailed _ | deferred _ | closeShutdown | closeDeliver _ | handlerDeferred _ | idleFlush _ => 1
  | watchNative _ _ => 9
  | watchHooks _ _ => 8
  | watchHandler _ _ guarded => if guarded then 7 else 6
  | watchEnded _ _ => 5
  | finishFlush _ callbacks _ | finishCallback _ callbacks => 2 * callbacks.length + 3
  | finishDeliver _ callbacks => 2 * callbacks.length + 2

def weightOf (tasks : Multiset Task) : Nat := (tasks.map Task.weight).sum

section

@[simp]
theorem weightOf_cons (task : Task) (tasks : Multiset Task) :
    weightOf (task ::ₘ tasks) = task.weight + weightOf tasks := by
  rw [weightOf, Multiset.map_cons, Multiset.sum_cons]
  rfl

@[simp]
theorem weightOf_add (left right : Multiset Task) : weightOf (left + right) = weightOf left + weightOf right := by
  rw [weightOf, Multiset.map_add, Multiset.sum_add]
  rfl

@[simp]
theorem weightOf_zero : weightOf 0 = 0 := rfl

@[simp]
theorem weightOf_coe_cons (task : Task) (tasks : List Task) :
    weightOf (task :: tasks : List Task) = task.weight + weightOf tasks :=
  weightOf_cons task tasks

@[simp]
theorem weightOf_singleton (task : Task) : weightOf {task} = task.weight := weightOf_cons task 0

end

/-- A session that is invalidated compiles once more. -/
def WatchingImpl.weight (watching : WatchingImpl) : Nat :=
  2 * watching.closeCallbacks.length + if watching.invalidated = true then 5 else 0

/-- The flushes that have not been settled. -/
def unsettled (settleCalls : Nat) (settled : Finset Nat) : Nat := (Finset.range settleCalls \ settled).card

theorem unsettled_succ (settleCalls : Nat) (settled : Finset Nat) :
    unsettled (settleCalls + 1) settled ≤ unsettled settleCalls settled + 1 := by
  rw [unsettled, unsettled, Finset.range_add_one]
  by_cases hsettled : settleCalls ∈ settled
  · rw [Finset.insert_sdiff_of_mem _ hsettled]
    exact Nat.le_succ _
  · rw [Finset.insert_sdiff_of_notMem _ hsettled]
    exact Finset.card_insert_le _ _

theorem unsettled_insert {settleCalls settleCall : Nat} {settled : Finset Nat} (hcalled : settleCall < settleCalls)
    (hpending : settleCall ∉ settled) :
    unsettled settleCalls (insert settleCall settled) < unsettled settleCalls settled := by
  rw [unsettled, unsettled, Finset.sdiff_insert]
  exact Finset.card_erase_lt_of_mem (Finset.mem_sdiff.mpr ⟨Finset.mem_range.mpr hcalled, hpending⟩)

def CompilerProgress.weight (progress : CompilerProgress) : Nat :=
  weightOf progress.tasks + (progress.sessions.map fun found => found.watching.weight).sum +
    unsettled progress.compiler.settleCalls progress.settled

theorem weight_modify {sessions : List Session} {session : Nat} {found : Session}
    (hfound : sessions[session]? = some found) (watching : WatchingImpl) :
    ((sessions.modify session ({ · with watching })).map fun found => found.watching.weight).sum +
        found.watching.weight =
      (sessions.map fun found => found.watching.weight).sum + watching.weight := by
  induction sessions generalizing session with
  | nil => cases hfound
  | cons first sessions ih =>
    cases session with
    | zero =>
      cases hfound
      simp only [List.modify_zero_cons, List.map_cons, List.sum_cons]
      omega
    | succ session =>
      have hrest := ih hfound
      simp only [List.modify_succ_cons, List.map_cons, List.sum_cons]
      omega

section

variable {progress next : CompilerProgress} {session : Nat} {accepted : Bool} {watching : WatchingImpl}
  {produced : List Task} {last : CompilerImpl} {event : Event}

theorem invalidated_beginRun (watching : WatchingImpl) : watching.beginRun.2.invalidated = watching.invalidated := by
  rw [WatchingImpl.beginRun, WatchingImpl.takeWatchChangeSet]
  split_ifs <;> rfl

theorem invalidated_endRun (watching : WatchingImpl) (latestStats : LatestStats) (files : String → PollSnapshot)
    (watchable : String → Bool) : (watching.endRun latestStats files watchable).invalidated = watching.invalidated := by
  cases latestStats with
  | none => rfl
  | some stats =>
    dsimp only [WatchingImpl.endRun, WatchingImpl.replaceWatchers]
    cases watching.watchOptions.pollInterval <;> split_ifs <;> rfl

theorem Resumes.settleCalls {task : Task} (h : Resumes progress task event produced last) :
    last.settleCalls = progress.compiler.settleCalls := by
  cases h with
  | closeFlush | idleFlush =>
    rw [CompilerImpl.flushed]
    split_ifs <;> rfl
  | finishFlush =>
    rw [CompilerImpl.detach, CompilerImpl.flushed]
    split_ifs <;> rfl
  | runCompletes | watchCompletes =>
    rw [CompilerImpl.scheduleIdleCacheFlush]
    split_ifs <;> rfl
  | _ => rfl

theorem Resumes.weight_lt {task : Task} (h : Resumes progress task event produced last) :
    weightOf produced < task.weight := by
  cases h with
  | finishDeliver session call callbacks =>
    simp only [weightOf_coe_cons, Multiset.coe_nil, weightOf_zero, Task.weight, List.length_cons]
    omega
  | handlerReturns session latestStats guarded => cases guarded <;> simp [Task.weight]
  | _ => simp [Task.weight]

theorem RunsSession.weight_le {run : SessionRun} {next : WatchingImpl}
    (h : RunsSession session accepted watching run produced next) :
    weightOf produced + next.weight ≤ 9 + watching.weight := by
  have hflags := watching.sameFlags_beginRun
  have hinvalidated := invalidated_beginRun watching
  cases h <;> simp [Task.weight, WatchingImpl.weight, hflags.closeCallbacks, hinvalidated]

theorem finishClose_weight {compiler : CompilerImpl} {next : WatchingImpl} {task : Task} (settled : Finset Nat)
    (h : finishClose compiler session accepted watching = (task, next, last)) :
    task.weight + next.weight + unsettled last.settleCalls settled ≤
      4 + watching.weight + unsettled compiler.settleCalls settled := by
  have hflush : unsettled compiler.flushCacheNow.2.settleCalls settled ≤
      unsettled compiler.settleCalls settled + 1 := by
    rw [CompilerImpl.flushCacheNow]
    split_ifs
    · exact Nat.le_succ _
    · cases compiler.pendingCacheFlush with
      | some flush => exact Nat.le_succ _
      | none => exact unsettled_succ ..
  have hlast : unsettled last.settleCalls settled ≤ unsettled compiler.settleCalls settled + 1 := by
    cases accepted with
    | true =>
      cases h
      exact hflush
    | false =>
      cases h
      exact Nat.le_succ _
  obtain ⟨⟨flush, rfl⟩, rfl, -⟩ := finishClose_eq h
  simp only [Task.weight, WatchingImpl.weight, List.length_nil]
  omega

theorem SessionEnds.weight_lt {latestStats : LatestStats} {run : SessionRun} {next : WatchingImpl}
    (h : SessionEnds progress session accepted watching latestStats run produced next last) :
    weightOf produced + next.weight + unsettled last.settleCalls progress.settled <
      5 + watching.weight + unsettled progress.compiler.settleCalls progress.settled := by
  have hweight : ∀ watchable, (watching.endRun latestStats progress.files watchable).weight = watching.weight := by
    intro watchable
    rw [WatchingImpl.weight, invalidated_endRun,
      (watching.sameFlags_endRun progress.files latestStats watchable).closeCallbacks]
    rfl
  cases h with
  | closed hclosed watchable hfinish =>
    have hle := finishClose_weight progress.settled hfinish
    rw [hweight] at hle
    simp only [weightOf_coe_cons, Multiset.coe_nil, weightOf_zero]
    omega
  | valid hopen hvalid watchable =>
    rw [hweight, Multiset.coe_nil, weightOf_zero]
    omega
  | invalidated hopen hinvalid watchable hrun =>
    have hle := hrun.weight_le
    have hcleared : ({ watching.endRun latestStats progress.files watchable with invalidated := false } :
        WatchingImpl).weight + 5 = watching.weight := by
      rw [← hweight watchable, WatchingImpl.weight, WatchingImpl.weight, invalidated_endRun, hinvalid]
      rfl
    omega

/-- What happens by itself comes to an end. -/
theorem Continues.weight_lt (h : Continues progress event next) : next.weight < progress.weight := by
  cases h with
  | resumes htask hresumes =>
    have hlt := hresumes.weight_lt
    simp only [CompilerProgress.weight, htask, hresumes.settleCalls, weightOf_add, weightOf_cons]
    omega
  | @ends session latestStats rest htask found hfound run produced watching compiler hends =>
    have hlt := hends.weight_lt
    have hmodify := weight_modify hfound watching
    have hended : (Task.watchEnded session latestStats).weight = 5 := rfl
    simp only [CompilerProgress.weight, htask, weightOf_add, weightOf_cons, hended]
    omega
  | settles hcalled hpending => exact Nat.add_lt_add_left (unsettled_insert hcalled hpending) _

end

end Unpack.Compiler
