import Unpack.CompilerSessions
import Mathlib.Data.Multiset.Bind
import Mathlib.Data.Multiset.Count
import Mathlib.Tactic.Abel

/-! No callback is lost and none is called twice: what has been asked for has been called, is held by a task or by
a session, or was left behind by a callback that threw. -/

namespace Unpack.Compiler

def Callback.call : Callback → Call
  | run call | close call | watchClose _ call => call

def heldCallbacks (session : Nat) (calls : List Call) : Multiset Callback :=
  Multiset.ofList (calls.map (Callback.watchClose session))

@[simp]
theorem heldCallbacks_nil (session : Nat) : heldCallbacks session [] = 0 := rfl

@[simp]
theorem heldCallbacks_cons (session : Nat) (call : Call) (calls : List Call) :
    heldCallbacks session (call :: calls) = .watchClose session call ::ₘ heldCallbacks session calls := rfl

theorem heldCallbacks_append (session : Nat) (calls calls' : List Call) :
    heldCallbacks session (calls ++ calls') = heldCallbacks session calls + heldCallbacks session calls' := by
  rw [heldCallbacks, List.map_append, ← Multiset.coe_add]
  rfl

/-- The callbacks that the task is going to call. -/
def Task.callbacks : Task → Multiset Callback
  | runNative call | runHooks call | runFailed call => {.run call}
  | deferred callback => {callback}
  | closeDeliver call => {.close call}
  | finishFlush session calls _ | finishDeliver session calls | finishCallback session calls =>
      heldCallbacks session calls
  | _ => 0

def callbacksOf (tasks : Multiset Task) : Multiset Callback := tasks.bind Task.callbacks

section

@[simp]
theorem callbacksOf_cons (task : Task) (tasks : Multiset Task) :
    callbacksOf (task ::ₘ tasks) = task.callbacks + callbacksOf tasks :=
  Multiset.cons_bind ..

@[simp]
theorem callbacksOf_add (left right : Multiset Task) :
    callbacksOf (left + right) = callbacksOf left + callbacksOf right :=
  Multiset.add_bind ..

@[simp]
theorem callbacksOf_zero : callbacksOf 0 = 0 := Multiset.zero_bind _

@[simp]
theorem callbacksOf_coe_cons (task : Task) (tasks : List Task) :
    callbacksOf (task :: tasks : List Task) = task.callbacks + callbacksOf tasks :=
  callbacksOf_cons task tasks

@[simp]
theorem callbacksOf_singleton (task : Task) : callbacksOf {task} = task.callbacks := Multiset.singleton_bind ..

end

/-- The callbacks that the sessions keep until their compilations end. -/
def heldFrom : Nat → List Session → Multiset Callback
  | _, [] => 0
  | session, found :: sessions =>
      heldCallbacks session found.watching.closeCallbacks + heldFrom (session + 1) sessions

theorem heldFrom_append (session : Nat) (sessions sessions' : List Session) :
    heldFrom session (sessions ++ sessions') =
      heldFrom session sessions + heldFrom (session + sessions.length) sessions' := by
  induction sessions generalizing session with
  | nil => simp [heldFrom]
  | cons found sessions ih =>
    have hlength : session + (found :: sessions).length = session + 1 + sessions.length := by
      rw [List.length_cons]
      omega
    rw [List.cons_append, heldFrom, ih, heldFrom, hlength]
    exact (add_assoc _ _ _).symm

/-- One session of several changes. -/
theorem heldFrom_modify {sessions : List Session} {index : Nat} {found : Session}
    (hfound : sessions[index]? = some found) (watching : WatchingImpl) (session : Nat) :
    heldFrom session (sessions.modify index ({ · with watching })) +
        heldCallbacks (session + index) found.watching.closeCallbacks =
      heldFrom session sessions + heldCallbacks (session + index) watching.closeCallbacks := by
  induction sessions generalizing session index with
  | nil => cases hfound
  | cons first sessions ih =>
    cases index with
    | zero =>
      cases hfound
      simp only [List.modify_zero_cons, heldFrom, Nat.add_zero]
      rw [add_right_comm, add_comm (heldCallbacks session watching.closeCallbacks), add_right_comm]
    | succ index =>
      have hrest := ih hfound (session + 1)
      rw [Nat.add_right_comm, Nat.add_assoc] at hrest
      rw [List.modify_succ_cons, heldFrom, heldFrom, add_assoc, hrest, add_assoc]

theorem mem_heldFrom {session : Nat} {sessions : List Session} {callback : Callback}
    (h : callback ∈ heldFrom session sessions) : ∃ index found call, sessions[index]? = some found ∧
      callback = .watchClose (session + index) call ∧ call ∈ found.watching.closeCallbacks := by
  induction sessions generalizing session with
  | nil => cases Multiset.notMem_zero _ h
  | cons first sessions ih =>
    rcases Multiset.mem_add.mp h with hfirst | hrest
    · obtain ⟨call, hcall, rfl⟩ := List.mem_map.mp (Multiset.mem_coe.mp hfirst)
      exact ⟨0, first, call, rfl, rfl, hcall⟩
    · obtain ⟨index, found, call, hfound, rfl, hcall⟩ := ih hrest
      refine ⟨index + 1, found, call, hfound, ?_, hcall⟩
      rw [Nat.add_assoc, Nat.add_comm 1]

/-- The callbacks that are still to be called. -/
def CompilerProgress.owed (progress : CompilerProgress) : Multiset Callback :=
  callbacksOf progress.tasks + heldFrom 0 progress.sessions

namespace Event

/-- The callback that is given by a call. -/
def issued : Event → Multiset Callback
  | run call _ => {.run call}
  | close call _ => {.close call}
  | sessionClose session call => {.watchClose session call}
  | _ => 0

/-- The callback that is called. -/
def calledBack : Event → Multiset Callback
  | called callback => {callback}
  | _ => 0

/-- The callbacks behind one that threw. -/
def leftBehind : Event → Multiset Callback
  | closeCallbackThrew session calls => heldCallbacks session calls
  | _ => 0

end Event

section

variable {progress : CompilerProgress} {session : Nat} {accepted : Bool} {watching next : WatchingImpl}
  {produced : List Task} {last : CompilerImpl} {event : Event}

theorem RunsSession.callbacks {run : SessionRun} (h : RunsSession session accepted watching run produced next) :
    callbacksOf produced = 0 ∧ next.closeCallbacks = watching.closeCallbacks := by
  have hflags := watching.sameFlags_beginRun
  cases h <;> simp [Task.callbacks, hflags.closeCallbacks]

theorem finishClose_callbacks {compiler : CompilerImpl} {task : Task}
    (h : finishClose compiler session accepted watching = (task, next, last)) :
    task.callbacks = heldCallbacks session watching.closeCallbacks ∧ next.closeCallbacks = [] := by
  obtain ⟨⟨flush, rfl⟩, rfl, -⟩ := finishClose_eq h
  exact ⟨rfl, rfl⟩

/-- The session keeps its callbacks, hands them on or takes one more. -/
theorem SessionActs.callbacks (h : SessionActs progress session accepted watching event produced next last) :
    event.calledBack = 0 ∧ event.leftBehind = 0 ∧
      callbacksOf produced + heldCallbacks session next.closeCallbacks =
        heldCallbacks session watching.closeCallbacks + event.issued := by
  cases h with
  | invalidateClosed | invalidateRunning | rebuildRunning =>
    refine ⟨rfl, rfl, ?_⟩
    simp [Event.issued, WatchingImpl.invalidate, WatchingImpl.clearPendingChanges, WatchingImpl.clearRebuildTimer]
  | invalidate hopen h hrun | rebuild htimer hidle hrun =>
    obtain ⟨hproduced, hheld⟩ := hrun.callbacks
    refine ⟨rfl, rfl, ?_⟩
    rw [hproduced, hheld, zero_add]
    exact (add_zero _).symm
  | closeClosed hclosed hidle =>
    refine ⟨rfl, rfl, ?_⟩
    simp [Task.callbacks, Event.issued, add_comm]
  | closeRunning hrunning =>
    refine ⟨rfl, rfl, ?_⟩
    simp [WatchingImpl.close, heldCallbacks_append, Event.issued]
  | close hopen hidle hfinish =>
    obtain ⟨htask, hheld⟩ := finishClose_callbacks hfinish
    refine ⟨rfl, rfl, ?_⟩
    simp [htask, hheld, WatchingImpl.close, heldCallbacks_append, Event.issued]
  | watchEvent hwatched filename =>
    refine ⟨rfl, rfl, ?_⟩
    rw [(watching.sameFlags_watchEvent _ _ _).closeCallbacks]
    simp [Event.issued]
  | poll hwatched =>
    refine ⟨rfl, rfl, ?_⟩
    rw [(watching.sameFlags_poll _ _).closeCallbacks]
    simp [Event.issued]

theorem SessionEnds.callbacks {latestStats : LatestStats} {run : SessionRun}
    (h : SessionEnds progress session accepted watching latestStats run produced next last) :
    callbacksOf produced + heldCallbacks session next.closeCallbacks =
      heldCallbacks session watching.closeCallbacks := by
  have hflags := fun watchable => watching.sameFlags_endRun progress.files latestStats watchable
  cases h with
  | closed hclosed watchable hfinish =>
    obtain ⟨htask, hheld⟩ := finishClose_callbacks hfinish
    simp [htask, hheld, (hflags watchable).closeCallbacks]
  | valid hopen hvalid watchable => simp [(hflags watchable).closeCallbacks]
  | invalidated hopen hinvalid watchable hrun =>
    obtain ⟨hproduced, hheld⟩ := hrun.callbacks
    rw [hproduced, hheld, zero_add]
    exact congrArg _ (hflags watchable).closeCallbacks

theorem Asks.callbacks (h : Asks progress event produced last) :
    event.calledBack = 0 ∧ event.leftBehind = 0 ∧ callbacksOf produced = event.issued := by
  cases h <;> exact ⟨rfl, rfl, by simp [Task.callbacks, Event.issued]⟩

theorem Resumes.callbacks {task : Task} (h : Resumes progress task event produced last) :
    event.issued = 0 ∧ callbacksOf produced + event.calledBack + event.leftBehind = task.callbacks := by
  cases h with
  | finishDeliver session call callbacks =>
    refine ⟨rfl, ?_⟩
    simp only [callbacksOf_coe_cons, Multiset.coe_nil, callbacksOf_zero, add_zero, Task.callbacks,
      Event.calledBack, Event.leftBehind, heldCallbacks_cons]
    rw [add_comm, Multiset.singleton_add]
  | _ => exact ⟨rfl, by simp [Task.callbacks, Event.calledBack, Event.leftBehind]⟩

end

/-- A session acts, and keeps or hands on its callbacks. -/
theorem owed_modify {sessions : List Session} {session : Nat} {found : Session} {watching : WatchingImpl}
    (hfound : sessions[session]? = some found) {produced rest issued : Multiset Callback}
    (h : produced + heldCallbacks session watching.closeCallbacks =
      heldCallbacks session found.watching.closeCallbacks + issued) :
    produced + rest + heldFrom 0 (sessions.modify session ({ · with watching })) =
      rest + heldFrom 0 sessions + issued := by
  have hmodify := heldFrom_modify hfound watching 0
  rw [Nat.zero_add] at hmodify
  refine add_right_cancel (b := heldCallbacks session found.watching.closeCallbacks) ?_
  calc
    _ = produced + rest + (heldFrom 0 sessions + heldCallbacks session watching.closeCallbacks) := by
      rw [add_assoc, hmodify]
    _ = produced + heldCallbacks session watching.closeCallbacks + (rest + heldFrom 0 sessions) := by abel
    _ = heldCallbacks session found.watching.closeCallbacks + issued + (rest + heldFrom 0 sessions) := by rw [h]
    _ = _ := by abel

/-- What is owed before a step and what is asked for in it is called, left behind or owed behind it. -/
theorem CompilerStep.callbacks {progress next : CompilerProgress} {event : Event}
    (h : CompilerStep progress event next) :
    next.owed + event.calledBack + event.leftBehind = progress.owed + event.issued := by
  cases h with
  | asks hasks =>
    obtain ⟨hcalled, hleft, hproduced⟩ := hasks.callbacks
    rw [hcalled, hleft, CompilerProgress.owed, CompilerProgress.owed, callbacksOf_add, hproduced]
    abel
  | watch haccepts watchOptions hrun | watchRejected hrejects hrun =>
    obtain ⟨hproduced, hheld⟩ := hrun.callbacks
    simp [CompilerProgress.owed, Event.calledBack, Event.leftBehind, Event.issued, hproduced, heldFrom_append,
      heldFrom, hheld]
  | session hfound hacts =>
    obtain ⟨hcalled, hleft, hkept⟩ := hacts.callbacks
    rw [hcalled, hleft, CompilerProgress.owed, CompilerProgress.owed, callbacksOf_add, add_zero, add_zero]
    exact owed_modify hfound hkept
  | continues hcontinues =>
    cases hcontinues with
    | resumes htask hresumes =>
      obtain ⟨hissued, hkept⟩ := hresumes.callbacks
      rw [hissued, CompilerProgress.owed, CompilerProgress.owed, htask, callbacksOf_cons, callbacksOf_add, ← hkept]
      abel
    | @ends session latestStats rest htask found hfound run produced watching compiler hends =>
      have hkept := hends.callbacks
      have howed := @owed_modify _ _ _ _ hfound _ (callbacksOf rest) 0 (hkept.trans (add_zero _).symm)
      simpa [CompilerProgress.owed, htask, Task.callbacks, Event.calledBack, Event.leftBehind, Event.issued] using howed
    | settles hcalled hpending => simp [CompilerProgress.owed, Event.calledBack, Event.leftBehind, Event.issued]
  | idleTimer htimer hflush =>
    simp [CompilerProgress.owed, Event.calledBack, Event.leftBehind, Event.issued, Task.callbacks]
  | fileChanges path snapshot => simp [CompilerProgress.owed, Event.calledBack, Event.leftBehind, Event.issued]
  | reads htask path =>
    simp [CompilerProgress.owed, Event.calledBack, Event.leftBehind, Event.issued, Task.callbacks, htask]

/-- The callbacks that the events of a run speak of. -/
def callbacksIn (which : Event → Multiset Callback) (trace : List (CompilerProgress × Event)) : Multiset Callback :=
  (trace.map fun passed => which passed.2).sum

theorem callbacksIn_concat (which : Event → Multiset Callback) (trace : List (CompilerProgress × Event))
    (progress : CompilerProgress) (event : Event) :
    callbacksIn which (trace ++ [(progress, event)]) = callbacksIn which trace + which event := by
  rw [callbacksIn, List.map_append, List.sum_append]
  exact congrArg _ List.sum_singleton

/-- Every callback that has been asked for has been called, has been left behind or is owed. -/
theorem CompilerRun.callbacks {trace : List (CompilerProgress × Event)} {progress : CompilerProgress}
    (h : CompilerRun trace progress) :
    callbacksIn Event.issued trace =
      callbacksIn Event.calledBack trace + callbacksIn Event.leftBehind trace + progress.owed := by
  induction h with
  | start h =>
    obtain ⟨writable, files, rfl⟩ := h
    rfl
  | @step trace progress next event hrun hstep ih =>
    rw [callbacksIn_concat, callbacksIn_concat, callbacksIn_concat, ih]
    calc
      _ = callbacksIn Event.calledBack trace + callbacksIn Event.leftBehind trace +
          (progress.owed + event.issued) := by abel
      _ = callbacksIn Event.calledBack trace + callbacksIn Event.leftBehind trace +
          (next.owed + event.calledBack + event.leftBehind) := by rw [hstep.callbacks]
      _ = _ := by abel

/-- The numbers of calls are given in their order. -/
theorem CompilerStep.calls {progress next : CompilerProgress} {event : Event} (h : CompilerStep progress event next) :
    progress.calls ≤ next.calls ∧
      (event.issued = 0 ∨ ∃ callback : Callback,
        event.issued = {callback} ∧ callback.call = progress.calls ∧ next.calls = progress.calls + 1) := by
  cases h with
  | asks hasks =>
    refine ⟨Nat.le_succ _, .inr ?_⟩
    cases hasks <;> exact ⟨_, rfl, rfl, rfl⟩
  | session hfound hacts =>
    refine ⟨Nat.le_succ _, ?_⟩
    cases hacts with
    | closeClosed | closeRunning | close => exact .inr ⟨_, rfl, rfl, rfl⟩
    | _ => exact .inl rfl
  | continues hcontinues =>
    cases hcontinues with
    | resumes htask hresumes => exact ⟨le_rfl, .inl hresumes.callbacks.1⟩
    | ends | settles => exact ⟨le_rfl, .inl rfl⟩
  | _ => exact ⟨le_rfl, .inl rfl⟩

/-- No callback is given twice. -/
theorem CompilerRun.issued {trace : List (CompilerProgress × Event)} {progress : CompilerProgress}
    (h : CompilerRun trace progress) :
    (callbacksIn Event.issued trace).Nodup ∧
      ∀ callback ∈ callbacksIn Event.issued trace, callback.call < progress.calls := by
  induction h with
  | start h => exact ⟨Multiset.nodup_zero, fun callback hcallback => absurd hcallback (Multiset.notMem_zero callback)⟩
  | @step trace progress next event hrun hstep ih =>
    obtain ⟨hnodup, hearlier⟩ := ih
    obtain ⟨hcalls, hissued⟩ := hstep.calls
    rw [callbacksIn_concat]
    rcases hissued with hnone | ⟨callback, hsome, hcall, hnext⟩
    · rw [hnone, add_zero]
      exact ⟨hnodup, fun callback hcallback => (hearlier callback hcallback).trans_le hcalls⟩
    · rw [hsome, add_comm, Multiset.singleton_add]
      refine ⟨Multiset.nodup_cons.mpr ⟨fun hcallback => ?_, hnodup⟩, fun other hother => ?_⟩
      · exact Nat.lt_irrefl _ (hcall ▸ hearlier callback hcallback)
      · rcases Multiset.mem_cons.mp hother with rfl | hold
        · exact hcall ▸ hnext ▸ Nat.lt_succ_self _
        · exact (hearlier other hold).trans_le hcalls

end Unpack.Compiler
