import Unpack.Compiler
import Mathlib.Algebra.Order.Group.Multiset

/-! Where the operations of a compiler stand: what its flags and those of its sessions say about the tasks. -/

namespace Unpack.Compiler

namespace Task

/-- The task of a run that has been accepted. -/
def runsCompiler : Task → Bool
  | runNative _ | runHooks _ | runFailed _ => true
  | _ => false

/-- The task that closes the compiler. -/
def closesCompiler : Task → Bool
  | closeFlush _ | closeShutdown => true
  | _ => false

/-- The task of `#run` of the session. -/
def runs (session : Nat) : Task → Bool
  | watchNative other _ | watchHooks other _ | watchHandler other _ _ | watchEnded other _ => other = session
  | _ => false

/-- The task of `#finishClose` of the session. -/
def finishes (session : Nat) : Task → Bool
  | finishFlush other _ _ | finishDeliver other _ | finishCallback other _ => other = session
  | _ => false

/-- The session has been detached, and its callbacks are called. -/
def delivers (session : Nat) : Task → Bool
  | finishDeliver other _ | finishCallback other _ => other = session
  | _ => false

/-- A native run of the session. -/
def runsNative (session : Nat) : Task → Bool
  | watchNative other _ => other = session
  | _ => false

end Task

def count (kind : Task → Bool) (tasks : Multiset Task) : Nat := tasks.countP fun task => kind task = true

section

variable (kind : Task → Bool)

@[simp]
theorem count_cons (task : Task) (tasks : Multiset Task) :
    count kind (task ::ₘ tasks) = count kind tasks + if kind task = true then 1 else 0 :=
  Multiset.countP_cons ..

@[simp]
theorem count_add (left right : Multiset Task) : count kind (left + right) = count kind left + count kind right :=
  Multiset.countP_add ..

@[simp]
theorem count_zero : count kind 0 = 0 := rfl

@[simp]
theorem count_coe_cons (task : Task) (tasks : List Task) :
    count kind (task :: tasks : List Task) = count kind tasks + if kind task = true then 1 else 0 :=
  count_cons kind task tasks

@[simp]
theorem count_singleton (task : Task) : count kind {task} = if kind task = true then 1 else 0 := by
  rw [← Multiset.cons_zero, count_cons]
  exact zero_add _

end

theorem count_eq_zero {kind : Task → Bool} {tasks : Multiset Task} :
    count kind tasks = 0 ↔ ∀ task ∈ tasks, kind task = false := by
  rw [count, Multiset.countP_eq_zero]
  exact forall₂_congr fun task _ => Bool.not_eq_true _ ▸ Iff.rfl

theorem count_mono {kind kind' : Task → Bool} {tasks : Multiset Task}
    (h : ∀ task ∈ tasks, kind task = true → kind' task = true) : count kind tasks ≤ count kind' tasks := by
  induction tasks using Multiset.induction with
  | empty => exact le_rfl
  | cons task tasks ih =>
    have hrest := ih fun other hother => h other (Multiset.mem_cons_of_mem hother)
    have hfirst := h task (Multiset.mem_cons_self task tasks)
    rw [count_cons, count_cons]
    split_ifs with hkind hkind' hkind'
    · exact Nat.succ_le_succ hrest
    · exact absurd (hfirst hkind) hkind'
    · exact Nat.le_succ_of_le hrest
    · exact hrest

namespace CompilerImpl

/-- Only the flush and its timer differ. -/
structure SameFlags (compiler next : CompilerImpl) : Prop where
  lifecycle : next.lifecycle = compiler.lifecycle
  running : next.running = compiler.running
  watching : next.watching = compiler.watching

variable {compiler next last : CompilerImpl}

theorem SameFlags.refl (compiler : CompilerImpl) : SameFlags compiler compiler := ⟨rfl, rfl, rfl⟩

theorem SameFlags.trans (h : SameFlags compiler next) (h' : SameFlags next last) : SameFlags compiler last :=
  ⟨h'.lifecycle.trans h.lifecycle, h'.running.trans h.running, h'.watching.trans h.watching⟩

theorem sameFlags_flushCacheNow (compiler : CompilerImpl) : SameFlags compiler compiler.flushCacheNow.2 := by
  rw [flushCacheNow]
  split_ifs
  · exact .refl compiler
  · cases compiler.pendingCacheFlush <;> exact ⟨rfl, rfl, rfl⟩

theorem sameFlags_flushed (compiler : CompilerImpl) (flush : Option Nat) :
    SameFlags compiler (compiler.flushed flush) := by
  rw [flushed]
  split_ifs <;> exact ⟨rfl, rfl, rfl⟩

theorem sameFlags_clearIdleFlushTimer (compiler : CompilerImpl) : SameFlags compiler compiler.clearIdleFlushTimer :=
  ⟨rfl, rfl, rfl⟩

theorem sameFlags_scheduleIdleCacheFlush (compiler : CompilerImpl) :
    SameFlags compiler compiler.scheduleIdleCacheFlush := by
  rw [scheduleIdleCacheFlush]
  split_ifs <;> exact ⟨rfl, rfl, rfl⟩

theorem lifecycle_detach (compiler : CompilerImpl) (session : Nat) (accepted : Bool) :
    (compiler.detach session accepted).lifecycle = compiler.lifecycle ∧
      (compiler.detach session accepted).running = compiler.running := by
  rw [detach]
  split_ifs <;> exact ⟨rfl, rfl⟩

theorem watching_detach (compiler : CompilerImpl) (session : Nat) (accepted : Bool) :
    (compiler.detach session accepted).watching =
      if accepted = true ∧ compiler.watching = some session then none else compiler.watching := by
  rw [detach]
  simp only [Bool.and_eq_true, decide_eq_true_eq]
  split_ifs <;> rfl

end CompilerImpl

/-- At most one operation is active, and none when the compiler closes or has been closed. -/
structure Arbitrates (compiler : CompilerImpl) (tasks : Multiset Task) : Prop where
  runs : count Task.runsCompiler tasks = if compiler.running = true then 1 else 0
  closes : count Task.closesCompiler tasks = if compiler.lifecycle = .closing then 1 else 0
  running_open : compiler.running = true → compiler.lifecycle = .open ∧ compiler.watching = none
  watching_open : compiler.watching ≠ none → compiler.lifecycle = .open

/-- What sessions do is neither a run of the compiler nor its end. -/
def OfSessions (produced : List Task) : Prop :=
  count Task.runsCompiler produced = 0 ∧ count Task.closesCompiler produced = 0

section

variable {progress : CompilerProgress} {session : Nat} {accepted : Bool} {watching next : WatchingImpl}
  {produced : List Task}

theorem RunsSession.ofSessions {run : SessionRun} (h : RunsSession session accepted watching run produced next) :
    OfSessions produced := by
  cases h <;> exact ⟨rfl, rfl⟩

theorem finishClose_spec (compiler : CompilerImpl) (session : Nat) (accepted : Bool) (watching : WatchingImpl) :
    (∃ flush, (finishClose compiler session accepted watching).1 =
        .finishFlush session watching.closeCallbacks flush) ∧
      (finishClose compiler session accepted watching).2.1 = { watching with closeCallbacks := [] } ∧
        compiler.SameFlags (finishClose compiler session accepted watching).2.2 := by
  cases accepted with
  | true => exact ⟨⟨_, rfl⟩, rfl, compiler.sameFlags_flushCacheNow⟩
  | false => exact ⟨⟨_, rfl⟩, rfl, .refl compiler⟩

theorem finishClose_eq {compiler last : CompilerImpl} {task : Task}
    (h : finishClose compiler session accepted watching = (task, next, last)) :
    (∃ flush, task = .finishFlush session watching.closeCallbacks flush) ∧
      next = { watching with closeCallbacks := [] } ∧ compiler.SameFlags last := by
  have hspec := finishClose_spec compiler session accepted watching
  rw [h] at hspec
  exact hspec

theorem SessionActs.ofSessions {event : Event} {compiler : CompilerImpl}
    (h : SessionActs progress session accepted watching event produced next compiler) :
    OfSessions produced ∧ progress.compiler.SameFlags compiler := by
  cases h with
  | invalidate hopen h hrun | rebuild htimer hidle hrun => exact ⟨hrun.ofSessions, .refl _⟩
  | close hopen hidle hfinish =>
    obtain ⟨⟨flush, rfl⟩, -, hsame⟩ := finishClose_eq hfinish
    exact ⟨⟨rfl, rfl⟩, hsame⟩
  | _ => exact ⟨⟨rfl, rfl⟩, .refl _⟩

theorem SessionEnds.ofSessions {latestStats : LatestStats} {run : SessionRun} {compiler : CompilerImpl}
    (h : SessionEnds progress session accepted watching latestStats run produced next compiler) :
    OfSessions produced ∧ progress.compiler.SameFlags compiler := by
  cases h with
  | closed h watchable hfinish =>
    obtain ⟨⟨flush, rfl⟩, -, hsame⟩ := finishClose_eq hfinish
    exact ⟨⟨rfl, rfl⟩, hsame⟩
  | valid hopen h watchable => exact ⟨⟨rfl, rfl⟩, .refl _⟩
  | invalidated hopen h watchable hrun => exact ⟨hrun.ofSessions, .refl _⟩

end

namespace Arbitrates

variable {progress : CompilerProgress} {compiler : CompilerImpl} {tasks : Multiset Task} {produced : List Task}

theorem sameFlags (h : Arbitrates progress.compiler progress.tasks) (hsame : progress.compiler.SameFlags compiler)
    (hruns : count Task.runsCompiler tasks = count Task.runsCompiler progress.tasks)
    (hcloses : count Task.closesCompiler tasks = count Task.closesCompiler progress.tasks) :
    Arbitrates compiler tasks where
  runs := by rw [hruns, hsame.running, h.runs]
  closes := by rw [hcloses, hsame.lifecycle, h.closes]
  running_open := by
    rw [hsame.running, hsame.lifecycle, hsame.watching]
    exact h.running_open
  watching_open := by
    rw [hsame.watching, hsame.lifecycle]
    exact h.watching_open

theorem asks {event : Event} (h : Arbitrates progress.compiler progress.tasks)
    (hasks : Asks progress event produced compiler) : Arbitrates compiler (produced + progress.tasks) := by
  have hruns := h.runs
  have hcloses := h.closes
  cases hasks with
  | runThrew haccepts =>
    obtain ⟨hopen, hidle, hfree⟩ := haccepts
    refine ⟨?_, ?_, fun _ => ⟨hopen, hfree⟩, h.watching_open⟩
    · simp [Task.runsCompiler, hruns, hidle]
    · simp [Task.closesCompiler, hcloses]
  | runStarted haccepts =>
    obtain ⟨hopen, hidle, hfree⟩ := haccepts
    refine ⟨?_, ?_, fun _ => ⟨hopen, hfree⟩, h.watching_open⟩
    · simp [Task.runsCompiler, hruns, hidle]
    · simp [Task.closesCompiler, hcloses]
  | @close haccepts flush compiler hflush =>
    obtain ⟨hopen, hidle, hfree⟩ := haccepts
    have hsame := (progress.compiler.sameFlags_clearIdleFlushTimer).trans
      (CompilerImpl.sameFlags_flushCacheNow progress.compiler.clearIdleFlushTimer)
    rw [hflush] at hsame
    have hrunning : compiler.running = false := hsame.running.trans hidle
    refine ⟨?_, ?_, fun hrun => ?_, fun hwatching => ?_⟩
    · simp [Task.runsCompiler, hruns, hidle, hrunning]
    · simp [Task.closesCompiler, hcloses, hopen]
    · exact absurd (hrunning.symm.trans hrun) Bool.false_ne_true
    · exact absurd (hsame.watching.trans hfree) hwatching
  | _ => exact h.sameFlags (.refl _) (by simp [Task.runsCompiler]) (by simp [Task.closesCompiler])

theorem resumes {event : Event} {task : Task} {rest : Multiset Task}
    (h : Arbitrates progress.compiler progress.tasks) (htask : progress.tasks = task ::ₘ rest)
    (hresumes : Resumes progress task event produced compiler) : Arbitrates compiler (produced + rest) := by
  have hruns := h.runs
  have hcloses := h.closes
  rw [htask, count_cons] at hruns hcloses
  have hrun : task.runsCompiler = true → task.closesCompiler = false → produced = [] →
      compiler = { progress.compiler with running := false } → Arbitrates compiler (produced + rest) := by
    rintro htrue hfalse rfl rfl
    rw [if_pos htrue] at hruns
    rw [hfalse, if_neg Bool.false_ne_true] at hcloses
    refine ⟨?_, ?_, fun hrunning => (by cases hrunning), h.watching_open⟩
    · split_ifs at hruns
      simpa using hruns
    · simpa using hcloses
  cases hresumes with
  | runFails call | runHooks call | runFailed call => exact hrun rfl rfl rfl rfl
  | runCompletes call =>
    refine h.sameFlags progress.compiler.sameFlags_scheduleIdleCacheFlush ?_ ?_
    · simp [htask, Task.runsCompiler]
    · simp [htask, Task.closesCompiler]
  | watchCompletes session stats hreads =>
    refine h.sameFlags progress.compiler.sameFlags_scheduleIdleCacheFlush ?_ ?_
    · simp [htask, Task.runsCompiler]
    · simp [htask, Task.closesCompiler]
  | @closeFlush flush hsettled =>
    refine h.sameFlags (progress.compiler.sameFlags_flushed flush) ?_ ?_
    · simp [htask, Task.runsCompiler]
    · simp [htask, Task.closesCompiler]
  | @idleFlush flush hsettled =>
    refine h.sameFlags (progress.compiler.sameFlags_flushed flush) ?_ ?_
    · simp [htask, Task.runsCompiler]
    · simp [htask, Task.closesCompiler]
  | closeShutdown =>
    have hclosing : progress.compiler.lifecycle = .closing := by
      by_contra hnot
      rw [if_neg hnot] at hcloses
      simp [Task.closesCompiler] at hcloses
    have hidle : progress.compiler.running = false := by
      by_contra hrunning
      obtain ⟨hopen, -⟩ := h.running_open (Bool.not_eq_false _ ▸ hrunning)
      rw [hopen] at hclosing
      cases hclosing
    have hfree : progress.compiler.watching = none := by
      by_contra hwatching
      rw [h.watching_open hwatching] at hclosing
      cases hclosing
    refine ⟨?_, ?_, fun hrunning => ?_, fun hwatching => absurd hfree hwatching⟩
    · simpa [Task.runsCompiler] using hruns
    · rw [if_pos hclosing] at hcloses
      simpa [Task.closesCompiler] using hcloses
    · rw [hidle] at hrunning
      cases hrunning
  | @finishFlush session callbacks flush found hsession hsettled =>
    have hsame := progress.compiler.sameFlags_flushed flush
    obtain ⟨hlifecycle, hrunning⟩ := (progress.compiler.flushed flush).lifecycle_detach session found.accepted
    rw [hsame.lifecycle] at hlifecycle
    rw [hsame.running] at hrunning
    have hwatching := (progress.compiler.flushed flush).watching_detach session found.accepted
    rw [hsame.watching] at hwatching
    have hnone : progress.compiler.watching = none →
        ((progress.compiler.flushed flush).detach session found.accepted).watching = none := by
      intro hfree
      rw [hwatching, hfree, ite_self]
    refine ⟨?_, ?_, fun hrun => ?_, fun hbusy => ?_⟩
    · rw [hrunning]
      simpa [Task.runsCompiler] using hruns
    · rw [hlifecycle]
      simpa [Task.closesCompiler] using hcloses
    · rw [hrunning] at hrun
      obtain ⟨hopen, hfree⟩ := h.running_open hrun
      exact ⟨hlifecycle.trans hopen, hnone hfree⟩
    · rw [hlifecycle]
      exact h.watching_open fun hfree => hbusy (hnone hfree)
  | _ =>
    refine h.sameFlags (.refl _) ?_ ?_
    · simp [htask, Task.runsCompiler]
    · simp [htask, Task.closesCompiler]

theorem ofSessions (h : Arbitrates progress.compiler progress.tasks) (hproduced : OfSessions produced)
    (hsame : progress.compiler.SameFlags compiler) : Arbitrates compiler (produced + progress.tasks) :=
  h.sameFlags hsame (by rw [count_add, hproduced.1, zero_add]) (by rw [count_add, hproduced.2, zero_add])

theorem step {next : CompilerProgress} {event : Event} (h : Arbitrates progress.compiler progress.tasks)
    (hstep : CompilerStep progress event next) : Arbitrates next.compiler next.tasks := by
  cases hstep with
  | asks hasks => exact h.asks hasks
  | watch haccepts watchOptions hrun =>
    obtain ⟨hruns, hcloses, hrunning, -⟩ := h.ofSessions hrun.ofSessions (.refl _)
    refine ⟨hruns, hcloses, fun hrun => ?_, fun _ => haccepts.1⟩
    exact absurd (haccepts.2.1.symm.trans hrun) Bool.false_ne_true
  | watchRejected hrejects hrun => exact h.ofSessions hrun.ofSessions (.refl _)
  | session hsession hacts =>
    obtain ⟨hproduced, hsame⟩ := hacts.ofSessions
    exact h.ofSessions hproduced hsame
  | continues hcontinues =>
    cases hcontinues with
    | resumes htask hresumes => exact h.resumes htask hresumes
    | ends htask hsession hends =>
      obtain ⟨hproduced, hsame⟩ := hends.ofSessions
      refine h.sameFlags hsame ?_ ?_
      · rw [htask, count_add, hproduced.1, count_cons, zero_add]
        rfl
      · rw [htask, count_add, hproduced.2, count_cons, zero_add]
        rfl
    | settles hcalled hpending => exact h
  | @idleTimer htimer flush compiler hflush =>
    have hsame := (progress.compiler.sameFlags_clearIdleFlushTimer).trans
      (CompilerImpl.sameFlags_flushCacheNow progress.compiler.clearIdleFlushTimer)
    rw [hflush] at hsame
    refine h.sameFlags hsame ?_ ?_
    · simp [Task.runsCompiler]
    · simp [Task.closesCompiler]
  | fileChanges path snapshot => exact h
  | reads htask path =>
    refine h.sameFlags (.refl _) ?_ ?_
    · simp [htask, Task.runsCompiler]
    · simp [htask, Task.closesCompiler]

end Arbitrates

end Unpack.Compiler
