import Unpack.CompilerRest

/-! The operations of a compiler exclude each other: native runs do not overlap, every callback of a run and of
`close` is called once, and the native compiler is shut down once. -/

namespace Unpack.Compiler

def events (trace : List (CompilerProgress × Event)) : List Event := trace.map Prod.snd

theorem events_concat (trace : List (CompilerProgress × Event)) (progress : CompilerProgress) (event : Event) :
    events (trace ++ [(progress, event)]) = events trace ++ [event] :=
  List.map_append

namespace Event

/-- The native compiler is asked to run, and may throw. -/
def StartsNative : Event → Prop
  | run _ outcome => outcome ≠ .rejected
  | watch _ _ went | invalidate _ went | rebuild _ went | ended _ _ went => went = .started ∨ went = .threw
  | _ => False

/-- The call is refused because of what the compiler does. -/
def Rejects : Event → Prop
  | run _ outcome => outcome = .rejected
  | watch _ accepted _ => accepted = false
  | close _ outcome => outcome = .rejected
  | _ => False

def acceptsClose : Event → Bool
  | close _ .accepted => true
  | _ => false

def isShutdown : Event → Bool
  | shutdown => true
  | _ => false

def isNativeClosed : Event → Bool
  | nativeClosed => true
  | _ => false

end Event

/-- Whether the task runs the native compiler. -/
def Task.native : Task → Bool
  | runNative _ | watchNative _ _ => true
  | _ => false

/-- Whether the task flushes the cache and then shuts down the native compiler. -/
def Task.shutsDown : Task → Bool
  | closeFlush _ => true
  | _ => false

section

variable {progress next : CompilerProgress} {event : Event}

/-- A compilation of a session is one of the session that the compiler holds. -/
theorem Sound.watchNative (h : Sound progress) {session : Nat} {reads : Reads}
    (htask : Task.watchNative session reads ∈ progress.tasks) : progress.compiler.watching = some session := by
  have hsession := h.sessions.known _ htask session rfl
  have hfits := h.sessions.fits session _ (List.getElem?_eq_getElem hsession)
  have hruns : count (Task.runs session) progress.tasks ≠ 0 := fun hnone => by
    simpa [Task.runs] using count_eq_zero.mp hnone _ htask
  have hnative : count (Task.runsNative session) progress.tasks ≠ 0 := fun hnone => by
    simpa [Task.runsNative] using count_eq_zero.mp hnone _ htask
  have haccepted : progress.sessions[session].accepted = true := by
    by_contra hrefused
    exact hnative (hfits.accepted (Bool.not_eq_true _ ▸ hrefused))
  by_contra hdetached
  exact hruns (hfits.idle (hfits.detached haccepted hdetached).2)

theorem Sound.native_le_one (h : Sound progress) : count Task.native progress.tasks ≤ 1 := by
  cases hrunning : progress.compiler.running with
  | true =>
    have hruns := h.arbitrates.runs
    rw [if_pos hrunning] at hruns
    refine (count_mono fun task htask hnative => ?_).trans hruns.le
    cases task with
    | runNative call => rfl
    | watchNative session reads =>
      have hwatching := h.watchNative htask
      rw [(h.arbitrates.running_open hrunning).2] at hwatching
      cases hwatching
    | _ => cases hnative
  | false =>
    have hruns := h.arbitrates.runs
    rw [if_neg (hrunning ▸ Bool.false_ne_true)] at hruns
    cases hwatching : progress.compiler.watching with
    | none =>
      refine (Nat.le_of_eq (count_eq_zero.mpr fun task htask => ?_)).trans (Nat.zero_le 1)
      cases task with
      | runNative call => cases count_eq_zero.mp hruns _ htask
      | watchNative session reads => cases hwatching.symm.trans (h.watchNative htask)
      | _ => rfl
    | some session =>
      have hsession := h.sessions.watched session hwatching
      have hfits := h.sessions.fits session _ (List.getElem?_eq_getElem hsession)
      have hmono : count Task.native progress.tasks ≤ count (Task.runs session) progress.tasks := by
        refine count_mono fun task htask hnative => ?_
        cases task with
        | runNative call => cases count_eq_zero.mp hruns _ htask
        | watchNative other reads =>
          cases hwatching.symm.trans (h.watchNative htask)
          exact decide_eq_true rfl
        | _ => cases hnative
      refine hmono.trans (hfits.runs.trans ?_)
      split_ifs <;> omega

/-- A session starts a native run only if it is open and the compiler has taken it. -/
theorem RunsSession.startsNative {session : Nat} {accepted : Bool} {watching last : WatchingImpl}
    {run : SessionRun} {produced : List Task} (h : RunsSession session accepted watching run produced last)
    (hrun : run = .started ∨ run = .threw) : watching.closed = false ∧ accepted = true := by
  cases h with
  | started hopen hidle haccepted | threw hopen hidle haccepted => exact ⟨hopen, haccepted⟩
  | _ => rcases hrun with hrun | hrun <;> cases hrun

theorem Sound.held (h : Sound progress) {session : Nat} {found : Session}
    (hfound : progress.sessions[session]? = some found) (hopen : found.watching.closed = false)
    (haccepted : found.accepted = true) : progress.compiler.watching = some session := by
  by_contra hdetached
  have hclosed := (h.sessions.fits session found hfound).detached haccepted hdetached
  exact Bool.false_ne_true (hopen.symm.trans hclosed.1)

/-- A compiler that closes or has been closed starts no native run. -/
theorem Sound.startsNative (h : Sound progress) (hstep : CompilerStep progress event next)
    (hstarts : event.StartsNative) : progress.compiler.lifecycle = .open := by
  have hsession : ∀ (session : Nat) (found : Session),
      progress.sessions[session]? = some found → found.watching.closed = false →
      found.accepted = true → progress.compiler.lifecycle = .open := by
    intro session found hfound hopen haccepted
    refine h.arbitrates.watching_open ?_
    rw [h.held hfound hopen haccepted]
    exact nofun
  cases hstep with
  | asks hasks =>
    cases hasks with
    | runThrew haccepts | runStarted haccepts => exact haccepts.1
    | runRejected => exact absurd rfl hstarts
    | _ => cases hstarts
  | watch haccepts watchOptions hrun => exact haccepts.1
  | watchRejected hrejects hrun => cases (hrun.startsNative hstarts).2
  | @session session found hfound _ produced watching compiler hacts =>
    cases hacts with
    | invalidate hopen hidle hrun =>
      obtain ⟨-, haccepted⟩ := hrun.startsNative hstarts
      exact hsession session found hfound hopen haccepted
    | rebuild htimer hidle hrun =>
      obtain ⟨hopen, haccepted⟩ := hrun.startsNative hstarts
      exact hsession session found hfound hopen haccepted
    | invalidateClosed | invalidateRunning | rebuildRunning => rcases hstarts with hstarts | hstarts <;> cases hstarts
    | _ => cases hstarts
  | continues hcontinues =>
    cases hcontinues with
    | resumes htask hresumes => cases hresumes <;> cases hstarts
    | @ends session latestStats rest htask found hfound run produced watching compiler hends =>
      cases hends with
      | invalidated hopen hinvalid watchable hrun =>
        obtain ⟨-, haccepted⟩ := hrun.startsNative hstarts
        exact hsession session found hfound hopen haccepted
      | _ => rcases hstarts with hstarts | hstarts <;> cases hstarts
    | settles => cases hstarts
  | _ => cases hstarts

end

/-- How often something has happened. -/
def times (kind : Event → Bool) (trace : List (CompilerProgress × Event)) : Nat := (events trace).countP kind

theorem times_concat (kind : Event → Bool) (trace : List (CompilerProgress × Event)) (progress : CompilerProgress)
    (event : Event) :
    times kind (trace ++ [(progress, event)]) = times kind trace + if kind event = true then 1 else 0 := by
  rw [times, events_concat, List.countP_append, List.countP_singleton]
  rfl

section

variable {progress next : CompilerProgress} {event : Event}

/-- What a step has to do with the end of the compiler. -/
inductive ClosingStep (progress : CompilerProgress) (event : Event) (next : CompilerProgress) : Prop
  | other (hevent : event.acceptsClose = false ∧ event.isShutdown = false ∧ event.isNativeClosed = false)
      (hlifecycle : next.compiler.lifecycle = progress.compiler.lifecycle)
      (htasks : count Task.shutsDown next.tasks = count Task.shutsDown progress.tasks)
  | accepted (hevent : event.acceptsClose = true ∧ event.isShutdown = false ∧ event.isNativeClosed = false)
      (hopen : progress.compiler.lifecycle = .open) (hclosing : next.compiler.lifecycle = .closing)
      (htasks : count Task.shutsDown next.tasks = count Task.shutsDown progress.tasks + 1)
  | shutdown (hevent : event.acceptsClose = false ∧ event.isShutdown = true ∧ event.isNativeClosed = false)
      (hlifecycle : next.compiler.lifecycle = progress.compiler.lifecycle)
      (htasks : count Task.shutsDown next.tasks + 1 = count Task.shutsDown progress.tasks)
  | closed (hevent : event.acceptsClose = false ∧ event.isShutdown = false ∧ event.isNativeClosed = true)
      (hclosing : progress.compiler.lifecycle = .closing) (hclosed : next.compiler.lifecycle = .closed)
      (htasks : count Task.shutsDown next.tasks = count Task.shutsDown progress.tasks)

theorem OfSessions.shutsDown {produced : List Task} (h : OfSessions produced) :
    count Task.shutsDown (produced : Multiset Task) = 0 := by
  refine Nat.le_zero.mp ((count_mono fun task _ hkind => ?_).trans h.2.le)
  cases task <;> first | rfl | cases hkind

theorem Asks.closingStep {produced : List Task} {compiler : CompilerImpl} (h : Asks progress event produced compiler) :
    ClosingStep progress event
      { progress with compiler, tasks := produced + progress.tasks, calls := progress.calls + 1 } := by
  cases h with
  | close haccepts hflush =>
    refine .accepted ⟨rfl, rfl, rfl⟩ haccepts.1 rfl ?_
    simp [Task.shutsDown, add_comm]
  | _ => exact .other ⟨rfl, rfl, rfl⟩ rfl (by simp [Task.shutsDown])

theorem Resumes.closingStep (h : Sound progress) {task : Task} {rest : Multiset Task}
    (htask : progress.tasks = task ::ₘ rest) {produced : List Task} {compiler : CompilerImpl}
    (hresumes : Resumes progress task event produced compiler) :
    ClosingStep progress event { progress with compiler, tasks := produced + rest } := by
  cases hresumes with
  | closeFlush hsettled =>
    refine .shutdown ⟨rfl, rfl, rfl⟩ (progress.compiler.sameFlags_flushed _).lifecycle ?_
    simp [htask, Task.shutsDown]
  | closeShutdown =>
    refine .closed ⟨rfl, rfl, rfl⟩ ?_ rfl ?_
    · have hcloses := h.arbitrates.closes
      by_contra hnot
      rw [if_neg hnot, htask, count_cons] at hcloses
      simp [Task.closesCompiler] at hcloses
    · simp [htask, Task.shutsDown]
  | idleFlush hsettled =>
    refine .other ⟨rfl, rfl, rfl⟩ (progress.compiler.sameFlags_flushed _).lifecycle ?_
    simp [htask, Task.shutsDown]
  | runCompletes | watchCompletes =>
    refine .other ⟨rfl, rfl, rfl⟩ progress.compiler.sameFlags_scheduleIdleCacheFlush.lifecycle ?_
    simp [htask, Task.shutsDown]
  | @finishFlush session callbacks flush found hfound hsettled =>
    refine .other ⟨rfl, rfl, rfl⟩ ?_ (by simp [htask, Task.shutsDown])
    exact ((progress.compiler.flushed _).lifecycle_detach session _).1.trans
      (progress.compiler.sameFlags_flushed _).lifecycle
  | _ => exact .other ⟨rfl, rfl, rfl⟩ rfl (by simp [htask, Task.shutsDown])

theorem CompilerStep.closingStep (h : Sound progress) (hstep : CompilerStep progress event next) :
    ClosingStep progress event next := by
  cases hstep with
  | asks hasks => exact hasks.closingStep
  | watch haccepts watchOptions hrun | watchRejected hrejects hrun =>
    refine .other ⟨rfl, rfl, rfl⟩ rfl ?_
    rw [count_add, hrun.ofSessions.shutsDown, zero_add]
  | session hfound hacts =>
    obtain ⟨hproduced, hsame⟩ := hacts.ofSessions
    refine .other ?_ hsame.lifecycle ?_
    · cases hacts <;> exact ⟨rfl, rfl, rfl⟩
    · rw [count_add, hproduced.shutsDown, zero_add]
  | continues hcontinues =>
    cases hcontinues with
    | resumes htask hresumes => exact hresumes.closingStep h htask
    | ends htask hfound hends =>
      obtain ⟨hproduced, hsame⟩ := hends.ofSessions
      refine .other ⟨rfl, rfl, rfl⟩ hsame.lifecycle ?_
      rw [htask, count_add, hproduced.shutsDown, zero_add, count_cons]
      rfl
    | settles => exact .other ⟨rfl, rfl, rfl⟩ rfl rfl
  | idleTimer htimer hflush =>
    have hsame := CompilerImpl.sameFlags_flushCacheNow progress.compiler.clearIdleFlushTimer
    rw [hflush] at hsame
    exact .other ⟨rfl, rfl, rfl⟩ hsame.lifecycle (by simp [Task.shutsDown])
  | fileChanges => exact .other ⟨rfl, rfl, rfl⟩ rfl rfl
  | reads htask path => exact .other ⟨rfl, rfl, rfl⟩ rfl (by simp [htask, Task.shutsDown])

end

/-- `close` is accepted once, and the native compiler is shut down and closed once behind it. -/
structure Closings (trace : List (CompilerProgress × Event)) (progress : CompilerProgress) : Prop where
  accepted : times Event.acceptsClose trace = if progress.compiler.lifecycle = .open then 0 else 1
  shutdowns : times Event.isShutdown trace + count Task.shutsDown progress.tasks = times Event.acceptsClose trace
  closed : times Event.isNativeClosed trace = if progress.compiler.lifecycle = .closed then 1 else 0

theorem CompilerRun.closings {trace : List (CompilerProgress × Event)} {progress : CompilerProgress}
    (h : CompilerRun trace progress) : Closings trace progress := by
  induction h with
  | start h =>
    obtain ⟨writable, files, rfl⟩ := h
    exact ⟨rfl, rfl, rfl⟩
  | @step trace progress next event hrun hstep ih =>
    obtain ⟨haccepted, hshutdowns, hclosed⟩ := ih
    cases hstep.closingStep (CompilerRun.sound hrun) with
    | other hevent hlifecycle htasks =>
      obtain ⟨haccepts, hshutdown, hnative⟩ := hevent
      refine ⟨?_, ?_, ?_⟩ <;> simp only [times_concat, haccepts, hshutdown, hnative, hlifecycle, htasks]
      · simpa using haccepted
      · simpa using hshutdowns
      · simpa using hclosed
    | accepted hevent hopen hclosing htasks =>
      obtain ⟨haccepts, hshutdown, hnative⟩ := hevent
      rw [hopen] at haccepted hclosed
      refine ⟨?_, ?_, ?_⟩ <;> simp only [times_concat, haccepts, hshutdown, hnative, hclosing, htasks]
      · simpa using haccepted
      · simpa [← Nat.add_assoc] using hshutdowns
      · simpa using hclosed
    | shutdown hevent hlifecycle htasks =>
      obtain ⟨haccepts, hshutdown, hnative⟩ := hevent
      refine ⟨?_, ?_, ?_⟩ <;> simp only [times_concat, haccepts, hshutdown, hnative, hlifecycle]
      · simpa using haccepted
      · simp only [if_true, Bool.false_eq_true, if_false]
        omega
      · simpa using hclosed
    | closed hevent hclosing hended htasks =>
      obtain ⟨haccepts, hshutdown, hnative⟩ := hevent
      rw [hclosing] at haccepted hclosed
      refine ⟨?_, ?_, ?_⟩ <;> simp only [times_concat, haccepts, hshutdown, hnative, hended, htasks]
      · simpa using haccepted
      · simpa using hshutdowns
      · simpa using hclosed

/-- The callback of the call is called at the next turn, whatever the compiler does. -/
def Event.Defers : Event → Prop
  | run _ outcome => outcome = .rejected
  | close _ outcome => outcome = .rejected ∨ outcome = .closed
  | sessionClose _ _ => True
  | _ => False

section

variable {progress next : CompilerProgress} {event : Event}

theorem RunsSession.ne_deferred {session : Nat} {accepted : Bool} {watching last : WatchingImpl}
    {run : SessionRun} {produced : List Task} (h : RunsSession session accepted watching run produced last)
    (callback : Callback) : Task.deferred callback ∉ produced :=
  fun htask => nomatch h.ofSession htask

theorem finishClose_ne_deferred {compiler last : CompilerImpl} {session : Nat} {accepted : Bool}
    {watching ended : WatchingImpl} {task : Task}
    (h : finishClose compiler session accepted watching = (task, ended, last)) (callback : Callback) :
    task ≠ .deferred callback := by
  obtain ⟨⟨flush, rfl⟩, -, -⟩ := finishClose_eq h
  exact nofun

theorem CompilerStep.deferred (h : CompilerStep progress event next) {callback : Callback}
    (hcallback : Task.deferred callback ∈ next.tasks) :
    Task.deferred callback ∈ progress.tasks ∨ event.issued = {callback} ∧ event.Defers := by
  cases h with
  | asks hasks =>
    refine (Multiset.mem_add.mp hcallback).symm.imp_right fun hnew => ?_
    cases hasks with
    | runRejected =>
      cases List.mem_singleton.mp hnew
      exact ⟨rfl, rfl⟩
    | closeRejected =>
      cases List.mem_singleton.mp hnew
      exact ⟨rfl, .inl rfl⟩
    | closeClosed =>
      cases List.mem_singleton.mp hnew
      exact ⟨rfl, .inr rfl⟩
    | _ => simp at hnew
  | watch haccepts watchOptions hrun | watchRejected hrejects hrun =>
    exact .inl ((Multiset.mem_add.mp hcallback).resolve_left (hrun.ne_deferred callback))
  | session hfound hacts =>
    refine (Multiset.mem_add.mp hcallback).symm.imp_right fun hnew => ?_
    cases hacts with
    | invalidate hopen h hrun | rebuild htimer hidle hrun => exact absurd hnew (hrun.ne_deferred callback)
    | close hopen hidle hfinish =>
      exact absurd (List.mem_singleton.mp hnew).symm (finishClose_ne_deferred hfinish callback)
    | closeClosed =>
      cases List.mem_singleton.mp hnew
      exact ⟨rfl, trivial⟩
    | _ => simp at hnew
  | continues hcontinues =>
    cases hcontinues with
    | resumes htask hresumes =>
      rcases Multiset.mem_add.mp hcallback with hnew | hold
      · cases hresumes <;> simp at hnew
      · exact .inl (htask ▸ Multiset.mem_cons_of_mem hold)
    | ends htask hfound hends =>
      rcases Multiset.mem_add.mp hcallback with hnew | hold
      · cases hends with
        | closed hclosed watchable hfinish =>
          exact absurd (List.mem_singleton.mp hnew).symm (finishClose_ne_deferred hfinish callback)
        | valid => cases List.not_mem_nil hnew
        | invalidated hopen hinvalid watchable hrun => exact absurd hnew (hrun.ne_deferred callback)
      · exact .inl (htask ▸ Multiset.mem_cons_of_mem hold)
    | settles => exact .inl hcallback
  | idleTimer => exact .inl ((Multiset.mem_cons.mp hcallback).resolve_left nofun)
  | fileChanges => exact .inl hcallback
  | reads htask path =>
    exact .inl (htask ▸ Multiset.mem_cons_of_mem ((Multiset.mem_cons.mp hcallback).resolve_left nofun))

theorem mem_owed {callback : Callback} (htask : Task.deferred callback ∈ progress.tasks) :
    callback ∈ progress.owed := by
  refine Multiset.mem_add.mpr (.inl (Multiset.mem_bind.mpr ⟨_, htask, ?_⟩))
  exact Multiset.mem_singleton_self callback

theorem mem_issued {trace : List (CompilerProgress × Event)} {callback : Callback} (hevent : event ∈ events trace)
    (hissued : event.issued = {callback}) : callback ∈ callbacksIn Event.issued trace := by
  induction trace using List.reverseRecOn with
  | nil => cases hevent
  | append_singleton trace last ih =>
    obtain ⟨progress, passed⟩ := last
    rw [events_concat] at hevent
    rw [callbacksIn_concat]
    rcases List.mem_append.mp hevent with hearlier | hlast
    · exact Multiset.mem_add.mpr (.inl (ih hearlier))
    · rw [← List.mem_singleton.mp hlast, hissued]
      exact Multiset.mem_add.mpr (.inr (Multiset.mem_singleton_self callback))

end

/-- A call that does not defer its callback does not leave it to be called by itself. -/
theorem CompilerRun.not_deferred {trace : List (CompilerProgress × Event)} {progress : CompilerProgress}
    (h : CompilerRun trace progress) {event : Event} (hevent : event ∈ events trace) (hkeeps : ¬event.Defers)
    {callback : Callback} (hissued : event.issued = {callback}) : Task.deferred callback ∉ progress.tasks := by
  induction h with
  | start h => cases hevent
  | @step trace progress next last hrun hstep ih =>
    intro hdeferred
    obtain ⟨-, hfresh⟩ := CompilerRun.issued hrun
    obtain ⟨-, hcalls⟩ := hstep.calls
    have hlast : last.issued = {callback} → callback.call = progress.calls := by
      intro heq
      rcases hcalls with hnone | ⟨other, hother, hcall, -⟩
      · cases Multiset.singleton_ne_zero callback (heq.symm.trans hnone)
      · rw [Multiset.singleton_inj.mp (heq.symm.trans hother), hcall]
    rw [events_concat] at hevent
    rcases List.mem_append.mp hevent with hearlier | hnow
    · rcases hstep.deferred hdeferred with hold | ⟨hnew, -⟩
      · exact ih hearlier hold
      · exact Nat.ne_of_lt (hfresh callback (mem_issued hearlier hissued)) (hlast hnew)
    · cases List.mem_singleton.mp hnow
      rcases hstep.deferred hdeferred with hold | ⟨-, hdefers⟩
      · refine Nat.ne_of_lt (hfresh callback ?_) (hlast hissued)
        rw [CompilerRun.callbacks hrun]
        exact Multiset.mem_add.mpr (.inr (mem_owed hold))
      · exact hkeeps hdefers

/-- `close` of a compiler that has been closed. -/
theorem CompilerRun.closed {trace : List (CompilerProgress × Event)} {progress : CompilerProgress}
    (h : CompilerRun trace progress) {call : Call} (hevent : .close call .closed ∈ events trace) :
    progress.compiler.lifecycle = .closed := by
  induction h with
  | start h => cases hevent
  | @step trace progress next last hrun hstep ih =>
    have hbefore : progress.compiler.lifecycle = .closed := by
      rw [events_concat] at hevent
      rcases List.mem_append.mp hevent with hearlier | hnow
      · exact ih hearlier
      · cases List.mem_singleton.mp hnow
        cases hstep with
        | asks hasks =>
          cases hasks with
          | closeClosed hclosed => exact hclosed
        | session hfound hacts => cases hacts
        | continues hcontinues =>
          cases hcontinues with
          | resumes htask hresumes => cases hresumes
    cases hstep.closingStep (CompilerRun.sound hrun) with
    | other hlast hlifecycle htasks | shutdown hlast hlifecycle htasks => exact hlifecycle.trans hbefore
    | accepted hlast hopen => cases hopen.symm.trans hbefore
    | closed hlast hclosing hended => exact hended

/-- A session that the compiler has refused does not wait for its cache. -/
def RefusedFlushes (progress : CompilerProgress) : Prop :=
  ∀ session found callbacks flush, progress.sessions[session]? = some found → found.accepted = false →
    Task.finishFlush session callbacks flush ∈ progress.tasks → flush = none

section

variable {progress next : CompilerProgress} {event : Event}

theorem finishClose_refused {compiler last : CompilerImpl} {session : Nat} {watching ended : WatchingImpl}
    {task : Task} (h : finishClose compiler session false watching = (task, ended, last)) :
    task = .finishFlush session watching.closeCallbacks none ∧ last = compiler := by
  cases h
  exact ⟨rfl, rfl⟩

theorem RunsSession.ne_finishFlush {session : Nat} {accepted : Bool} {watching last : WatchingImpl}
    {run : SessionRun} {produced : List Task} (h : RunsSession session accepted watching run produced last)
    (other : Nat) (callbacks : List Call) (flush : Option Nat) : Task.finishFlush other callbacks flush ∉ produced := by
  cases h <;> simp

theorem getElem?_modify_accepted {sessions : List Session} {session other : Nat} {watching : WatchingImpl}
    {found : Session} (h : (sessions.modify session ({ · with watching }))[other]? = some found) :
    ∃ earlier, sessions[other]? = some earlier ∧ earlier.accepted = found.accepted := by
  rw [List.getElem?_modify] at h
  cases hother : sessions[other]? with
  | none =>
    rw [hother] at h
    cases h
  | some earlier =>
    rw [hother] at h
    refine ⟨earlier, rfl, ?_⟩
    cases h
    dsimp only
    split_ifs <;> rfl

theorem RefusedFlushes.step (h : RefusedFlushes progress) (hknown : SessionsFit progress)
    (hstep : CompilerStep progress event next) : RefusedFlushes next := by
  intro session found callbacks flush hfound hrefused htask
  have hold : (∃ earlier, progress.sessions[session]? = some earlier ∧ earlier.accepted = found.accepted) →
      Task.finishFlush session callbacks flush ∈ progress.tasks → flush = none := by
    rintro ⟨earlier, hearlier, haccepted⟩ hmem
    exact h session earlier callbacks flush hearlier (haccepted.trans hrefused) hmem
  cases hstep with
  | asks hasks =>
    refine hold ⟨found, hfound, rfl⟩ ((Multiset.mem_add.mp htask).resolve_left fun hnew => ?_)
    cases hasks.ofNone hnew
  | watch haccepts watchOptions hrun | watchRejected hrejects hrun =>
    have hmem := (Multiset.mem_add.mp htask).resolve_left (hrun.ne_finishFlush session callbacks flush)
    refine hold ⟨found, ?_, rfl⟩ hmem
    rw [← hfound]
    exact (List.getElem?_append_left (hknown.known _ hmem session rfl)).symm
  | @session acted before hbefore _ produced watching compiler hacts =>
    rcases Multiset.mem_add.mp htask with hnew | hmem
    · obtain ⟨earlier, hearlier, haccepted⟩ := getElem?_modify_accepted hfound
      cases hacts.onlyOf _ hnew session rfl
      cases hbefore.symm.trans hearlier
      cases hacts with
      | invalidate hopen h hrun | rebuild htimer hidle hrun =>
        exact absurd hnew (hrun.ne_finishFlush session callbacks flush)
      | close hopen hidle hfinish =>
        rw [haccepted, hrefused] at hfinish
        rw [(finishClose_refused hfinish).1] at hnew
        cases List.mem_singleton.mp hnew
        rfl
      | _ => simp at hnew
    · exact hold (getElem?_modify_accepted hfound) hmem
  | continues hcontinues =>
    cases hcontinues with
    | resumes hcons hresumes =>
      rcases Multiset.mem_add.mp htask with hnew | hmem
      · cases hresumes <;> simp at hnew
      · exact hold ⟨found, hfound, rfl⟩ (hcons ▸ Multiset.mem_cons_of_mem hmem)
    | ends hcons hbefore hends =>
      rcases Multiset.mem_add.mp htask with hnew | hmem
      · obtain ⟨earlier, hearlier, haccepted⟩ := getElem?_modify_accepted hfound
        cases hends.onlyOf _ hnew session rfl
        cases hbefore.symm.trans hearlier
        cases hends with
        | closed hclosed watchable hfinish =>
          rw [haccepted, hrefused] at hfinish
          rw [(finishClose_refused hfinish).1] at hnew
          cases List.mem_singleton.mp hnew
          rfl
        | valid => cases List.not_mem_nil hnew
        | invalidated hopen hinvalid watchable hrun =>
          exact absurd hnew (hrun.ne_finishFlush session callbacks flush)
      · exact hold (getElem?_modify_accepted hfound) (hcons ▸ Multiset.mem_cons_of_mem hmem)
    | settles => exact hold ⟨found, hfound, rfl⟩ htask
  | idleTimer => exact hold ⟨found, hfound, rfl⟩ ((Multiset.mem_cons.mp htask).resolve_left nofun)
  | fileChanges => exact hold ⟨found, hfound, rfl⟩ htask
  | reads hcons path =>
    refine hold ⟨found, hfound, rfl⟩ (hcons ▸ Multiset.mem_cons_of_mem ?_)
    exact (Multiset.mem_cons.mp htask).resolve_left nofun

theorem CompilerRun.refusedFlushes {trace : List (CompilerProgress × Event)} {progress : CompilerProgress}
    (h : CompilerRun trace progress) : RefusedFlushes progress := by
  induction h with
  | start h =>
    obtain ⟨writable, files, rfl⟩ := h
    exact fun _ _ _ _ _ _ htask => absurd htask (Multiset.notMem_zero _)
  | step hrun hstep ih => exact ih.step (CompilerRun.sound hrun).sessions hstep

/-- A session that the compiler has refused never touches the compiler. -/
structure Harmless (progress : CompilerProgress) (session : Nat) (found : Session) : Prop where
  acts : ∀ event produced watching compiler,
    SessionActs progress session found.accepted found.watching event produced watching compiler →
      compiler = progress.compiler
  ends : ∀ latestStats run produced watching compiler,
    SessionEnds progress session found.accepted found.watching latestStats run produced watching compiler →
      compiler = progress.compiler
  resumes : ∀ task ∈ progress.tasks, task.session = some session → ∀ event produced compiler,
    Resumes progress task event produced compiler → compiler = progress.compiler

theorem CompilerRun.harmless {trace : List (CompilerProgress × Event)} (h : CompilerRun trace progress)
    {session : Nat} {found : Session} (hfound : progress.sessions[session]? = some found)
    (hrefused : found.accepted = false) : Harmless progress session found where
  acts := fun event produced watching compiler hacts => by
    cases hacts with
    | close hopen hidle hfinish =>
      rw [hrefused] at hfinish
      exact (finishClose_refused hfinish).2
    | _ => rfl
  ends := fun latestStats run produced watching compiler hends => by
    cases hends with
    | closed hclosed watchable hfinish =>
      rw [hrefused] at hfinish
      exact (finishClose_refused hfinish).2
    | _ => rfl
  resumes := fun task htask hsession event produced compiler hresumes => by
    cases hresumes with
    | @finishFlush other callbacks flush found' hfound' hsettled =>
      cases hsession
      cases hfound.symm.trans hfound'
      cases CompilerRun.refusedFlushes h session found callbacks flush hfound hrefused htask
      rw [hrefused]
      rfl
    | watchCompletes other stats hreads =>
      cases hsession
      have hnative := (h.sound.sessions.fits session found hfound).accepted hrefused
      simpa [Task.runsNative] using count_eq_zero.mp hnative _ htask
    | closeFlush | idleFlush | runCompletes => cases hsession
    | _ => first | rfl | cases hsession

end

/-- The compiler, the sessions and the tasks that there were are left alone. What is added is a deferred callback
or belongs to a session that is new and refused. -/
structure Unaffected (progress next : CompilerProgress) : Prop where
  compiler : next.compiler = progress.compiler
  sessions : ∃ added, next.sessions = progress.sessions ++ added ∧ ∀ found ∈ added, found.accepted = false
  tasks : ∃ produced : List Task, next.tasks = produced + progress.tasks ∧
    ∀ task ∈ produced, (∃ callback, task = .deferred callback) ∨ task.session = some progress.sessions.length

/-- What is called of a callback. -/
def timesCalled (trace : List (CompilerProgress × Event)) (callback : Callback) : Nat :=
  (callbacksIn Event.calledBack trace).count callback

/-- The operations of a compiler exclude each other. -/
structure Arbitrated (trace : List (CompilerProgress × Event)) (progress : CompilerProgress) : Prop where
  nativeRuns : count Task.native progress.tasks ≤ 1
  runCallbacks : ∀ call outcome, .run call outcome ∈ events trace →
    timesCalled trace (.run call) ≤ 1 ∧ (progress.AtRest → timesCalled trace (.run call) = 1)
  runAccepted : ∀ before state call outcome, trace = before ++ [(state, .called (.run call))] →
    outcome ≠ .rejected → .run call outcome ∈ events before → progress.compiler.Accepts
  closing : ∀ before state call after, trace = before ++ (state, .close call .accepted) :: after →
    ∀ event ∈ events after, ¬event.StartsNative
  shutdown : ∀ kind, kind = Event.isShutdown ∨ kind = Event.isNativeClosed → times kind trace ≤ 1 ∧
    (progress.AtRest → ∀ call, .close call .accepted ∈ events trace → times kind trace = 1)
  closeCallbacks : ∀ call outcome, .close call outcome ∈ events trace →
    timesCalled trace (.close call) ≤ 1 ∧ (progress.AtRest → timesCalled trace (.close call) = 1)
  closeAnswered : ∀ before state call outcome, trace = before ++ [(state, .called (.close call))] →
    outcome ≠ .rejected → .close call outcome ∈ events before →
      times Event.isShutdown before = 1 ∧ times Event.isNativeClosed before = 1
  rejected : ∀ before state event, trace = before ++ [(state, event)] → event.Rejects → Unaffected state progress
  refused : ∀ session found, progress.sessions[session]? = some found → found.accepted = false →
    Harmless progress session found
  comesToRest : Acc (fun next state => ∃ event, Continues state event next) progress

theorem mem_leftBehind {trace : List (CompilerProgress × Event)} {callback : Callback}
    (h : callback ∈ callbacksIn Event.leftBehind trace) : ∃ session call, callback = .watchClose session call := by
  induction trace using List.reverseRecOn with
  | nil => cases Multiset.notMem_zero _ h
  | append_singleton trace last ih =>
    obtain ⟨progress, event⟩ := last
    rw [callbacksIn_concat] at h
    rcases Multiset.mem_add.mp h with hearlier | hlast
    · exact ih hearlier
    · cases event with
      | closeCallbackThrew session calls =>
        obtain ⟨call, -, rfl⟩ := List.mem_map.mp (Multiset.mem_coe.mp hlast)
        exact ⟨session, call, rfl⟩
      | _ => cases Multiset.notMem_zero _ hlast

theorem timesCalled_of_issued {trace : List (CompilerProgress × Event)} {progress : CompilerProgress}
    (h : CompilerRun trace progress) {event : Event} (hevent : event ∈ events trace) {callback : Callback}
    (hissued : event.issued = {callback}) (hkept : ∀ session call, callback ≠ .watchClose session call) :
    timesCalled trace callback ≤ 1 ∧ (progress.AtRest → timesCalled trace callback = 1) := by
  have hmem := mem_issued hevent hissued
  have hone := Multiset.count_eq_one_of_mem (CompilerRun.issued h).1 hmem
  have hleft : (callbacksIn Event.leftBehind trace).count callback = 0 := by
    refine Multiset.count_eq_zero_of_notMem fun hmem => ?_
    obtain ⟨session, call, heq⟩ := mem_leftBehind hmem
    exact hkept _ _ heq
  have hheld : (heldFrom 0 progress.sessions).count callback = 0 := by
    refine Multiset.count_eq_zero_of_notMem fun hmem => ?_
    obtain ⟨session, found, call, -, heq, -⟩ := mem_heldFrom hmem
    exact hkept _ _ heq
  rw [CompilerRun.callbacks h, Multiset.count_add, Multiset.count_add, hleft, CompilerProgress.owed,
    Multiset.count_add, hheld] at hone
  refine ⟨by rw [timesCalled]; omega, fun hrest => ?_⟩
  obtain ⟨hnone, -⟩ := h.sound.atRest hrest
  rw [hnone, callbacksOf_zero, Multiset.count_zero] at hone
  rw [timesCalled]
  omega

section

variable {progress next : CompilerProgress} {event : Event} {trace : List (CompilerProgress × Event)}

/-- The callback of a run is called by the run itself, or has been deferred. -/
theorem CompilerStep.runCalled (h : Sound progress) {call : Call}
    (hstep : CompilerStep progress (.called (.run call)) next) :
    Task.deferred (.run call) ∈ progress.tasks ∨ next.compiler.Accepts := by
  cases hstep with
  | asks hasks => cases hasks
  | session hfound hacts => cases hacts
  | continues hcontinues =>
    cases hcontinues with
    | @resumes task rest htask _ produced compiler hresumes =>
      have hrunning : task.runsCompiler = true → progress.compiler.running = true := by
        intro htrue
        have hruns := h.arbitrates.runs
        rw [htask, count_cons, if_pos htrue] at hruns
        by_contra hidle
        rw [if_neg hidle] at hruns
        cases hruns
      cases hresumes with
      | runFails | runHooks | runFailed =>
        obtain ⟨hopen, hfree⟩ := h.arbitrates.running_open (hrunning rfl)
        exact .inr ⟨hopen, rfl, hfree⟩
      | deferred => exact .inl (htask ▸ Multiset.mem_cons_self _ rest)

/-- The callback of `close` is called when the compiler has been closed, or has been deferred. -/
theorem CompilerStep.closeCalled {call : Call} (hstep : CompilerStep progress (.called (.close call)) next) :
    Task.deferred (.close call) ∈ progress.tasks ∨ progress.compiler.lifecycle = .closed := by
  cases hstep with
  | asks hasks => cases hasks
  | session hfound hacts => cases hacts
  | continues hcontinues =>
    cases hcontinues with
    | resumes htask hresumes =>
      cases hresumes with
      | closeDeliver call hclosed => exact .inr hclosed
      | deferred => exact .inl (htask ▸ Multiset.mem_cons_self _ _)

theorem CompilerRun.shutdown_eq_one (h : CompilerRun trace progress) (hclosed : progress.compiler.lifecycle = .closed) :
    times Event.isShutdown trace = 1 ∧ times Event.isNativeClosed trace = 1 := by
  obtain ⟨haccepted, hshutdowns, hnative⟩ := CompilerRun.closings h
  have hcloses := h.sound.arbitrates.closes
  rw [hclosed] at haccepted hnative hcloses
  have hnone : count Task.shutsDown progress.tasks = 0 := by
    refine Nat.le_zero.mp ((count_mono fun task _ hkind => ?_).trans hcloses.le)
    cases task <;> first | rfl | cases hkind
  rw [hnone, haccepted] at hshutdowns
  exact ⟨hshutdowns, hnative⟩

theorem CompilerRun.shutdown (h : CompilerRun trace progress) {kind : Event → Bool}
    (hkind : kind = Event.isShutdown ∨ kind = Event.isNativeClosed) :
    times kind trace ≤ 1 ∧
      (progress.AtRest → ∀ call, .close call .accepted ∈ events trace → times kind trace = 1) := by
  obtain ⟨haccepted, hshutdowns, hnative⟩ := CompilerRun.closings h
  refine ⟨?_, fun hrest call hcall => ?_⟩
  · have hone : times Event.acceptsClose trace ≤ 1 := by
      rw [haccepted]
      split_ifs <;> omega
    rcases hkind with rfl | rfl
    · exact (Nat.le_add_right _ _).trans (hshutdowns.trans_le hone)
    · rw [hnative]
      split_ifs <;> omega
  · have hpos : 0 < times Event.acceptsClose trace := List.countP_pos_iff.mpr ⟨_, hcall, rfl⟩
    have hclosed : progress.compiler.lifecycle = .closed := by
      have hnot := (h.sound.atRest hrest).2
      cases hlifecycle : progress.compiler.lifecycle with
      | «open» =>
        rw [haccepted, if_pos hlifecycle] at hpos
        exact absurd hpos (Nat.lt_irrefl 0)
      | closing => exact absurd hlifecycle hnot
      | closed => rfl
    obtain ⟨hshutdown, hended⟩ := CompilerRun.shutdown_eq_one h hclosed
    rcases hkind with rfl | rfl
    · exact hshutdown
    · exact hended

/-- A run or a session that is refused, and `close` that is refused, change nothing. -/
theorem CompilerStep.unaffected (hstep : CompilerStep progress event next) (hrejects : event.Rejects) :
    Unaffected progress next := by
  have hdeferred : ∀ callback, Unaffected progress
      { progress with tasks := [Task.deferred callback] + progress.tasks, calls := progress.calls + 1 } := by
    intro callback
    refine ⟨rfl, ⟨[], (List.append_nil _).symm, nofun⟩, [.deferred callback], rfl, fun task htask => ?_⟩
    exact .inl ⟨callback, List.mem_singleton.mp htask⟩
  cases hstep with
  | asks hasks =>
    cases hasks with
    | runRejected | closeRejected => exact hdeferred _
    | _ => cases hrejects
  | watch haccepts watchOptions hrun => cases hrejects
  | @watchRejected hrefused run produced watching hrun =>
    refine ⟨rfl, ⟨[⟨false, watching⟩], rfl, fun found hfound => ?_⟩, produced, rfl, fun task htask => ?_⟩
    · rw [List.mem_singleton.mp hfound]
    · exact .inr (hrun.ofSession htask)
  | session hfound hacts => cases hacts <;> cases hrejects
  | continues hcontinues =>
    cases hcontinues with
    | resumes htask hresumes => cases hresumes <;> cases hrejects
    | ends => cases hrejects
    | settles => cases hrejects
  | _ => cases hrejects

theorem closing_of_accepted (h : CompilerRun trace progress) {call : Call}
    (hcall : .close call .accepted ∈ events trace) : progress.compiler.lifecycle ≠ .open := by
  intro hopen
  have haccepted := (CompilerRun.closings h).accepted
  rw [if_pos hopen] at haccepted
  exact absurd (List.countP_pos_iff.mpr ⟨_, hcall, rfl⟩) (Nat.not_lt.mpr haccepted.le)

/-- No native run starts once `close` has been accepted. -/
theorem not_startsNative_of_closing (h : CompilerRun trace progress) {before after : List (CompilerProgress × Event)}
    {state : CompilerProgress} {call : Call} (htrace : trace = before ++ (state, .close call .accepted) :: after)
    (hevent : event ∈ events after) : ¬event.StartsNative := by
  intro hstarts
  obtain ⟨⟨passed, event⟩, hpassed, rfl⟩ := List.mem_map.mp hevent
  obtain ⟨first, second, rfl⟩ := List.append_of_mem hpassed
  have hsplit : trace = (before ++ (state, .close call .accepted) :: first ++ [(passed, event)]) ++ second := by
    simp [htrace]
  rw [hsplit] at h
  obtain ⟨next, hnext⟩ := h.of_append
  obtain ⟨hrun, hstep⟩ := hnext.last_step
  have hcall : .close call .accepted ∈ events (before ++ (state, .close call .accepted) :: first) :=
    List.mem_map.mpr ⟨_, List.mem_append_right _ (List.mem_cons_self ..), rfl⟩
  exact closing_of_accepted hrun hcall ((CompilerRun.sound hrun).startsNative hstep hstarts)

theorem comesToRest (progress : CompilerProgress) :
    Acc (fun next state => ∃ event, Continues state event next) progress := by
  refine Subrelation.accessible ?_ (InvImage.accessible CompilerProgress.weight (Nat.lt_wfRel.wf.apply _))
  rintro next state ⟨event, hnext⟩
  exact hnext.weight_lt

end

/-- In every run of a compiler its operations exclude each other. -/
theorem compilerRun_arbitrated {trace : List (CompilerProgress × Event)} {progress : CompilerProgress}
    (h : CompilerRun trace progress) : Arbitrated trace progress where
  nativeRuns := h.sound.native_le_one
  runCallbacks := fun call outcome hevent => timesCalled_of_issued h hevent rfl nofun
  runAccepted := fun before state call outcome htrace haccepted hevent => by
    subst htrace
    obtain ⟨hrun, hstep⟩ := h.last_step
    refine (hstep.runCalled (CompilerRun.sound hrun)).resolve_left ?_
    exact CompilerRun.not_deferred hrun hevent haccepted rfl
  closing := fun before state call after htrace event hevent => not_startsNative_of_closing h htrace hevent
  shutdown := fun kind hkind => CompilerRun.shutdown h hkind
  closeCallbacks := fun call outcome hevent => timesCalled_of_issued h hevent rfl nofun
  closeAnswered := fun before state call outcome htrace haccepted hevent => by
    subst htrace
    obtain ⟨hrun, hstep⟩ := h.last_step
    refine CompilerRun.shutdown_eq_one hrun ?_
    rcases hstep.closeCalled with hdeferred | hclosed
    · by_cases hended : outcome = .closed
      · exact CompilerRun.closed hrun (hended ▸ hevent)
      · refine absurd hdeferred (CompilerRun.not_deferred hrun hevent (fun hdefers => ?_) rfl)
        exact hdefers.elim haccepted hended
    · exact hclosed
  rejected := fun before state event htrace hrejects => by
    subst htrace
    exact h.last_step.2.unaffected hrejects
  refused := fun session found hfound hrefused => CompilerRun.harmless h hfound hrefused
  comesToRest := comesToRest progress

namespace RunAndClose

/-- A compiler that is run and closed at once: the run is accepted, and `close` is refused. -/
def started : CompilerProgress := .start false fun _ => none

def running : CompilerProgress :=
  { started with compiler := { started.compiler with running := true }, tasks := {.runNative 0}, calls := 1 }

def refused : CompilerProgress := { running with tasks := .deferred (.close 1) ::ₘ {.runNative 0}, calls := 2 }

theorem run : CompilerRun [(started, .run 0 .started), (running, .close 1 .rejected)] refused := by
  have hstart : CompilerRun [] started := .start ⟨false, _, rfl⟩
  have hrun : CompilerStep started (.run 0 .started) running := .asks (.runStarted ⟨rfl, rfl, rfl⟩)
  have hclose : CompilerStep running (.close 1 .rejected) refused := .asks (.closeRejected rfl (.inl rfl))
  exact (hstart.step hrun).step hclose

end RunAndClose

theorem compilerRun_arbitrated_runAndClose :
    Arbitrated [(RunAndClose.started, .run 0 .started), (RunAndClose.running, .close 1 .rejected)]
      RunAndClose.refused :=
  compilerRun_arbitrated RunAndClose.run

end Unpack.Compiler
