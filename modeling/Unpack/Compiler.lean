import Unpack.Watching
import Unpack.Lib.Run
import Mathlib.Data.Finset.Insert

/-! The operations of a compiler: runs, watch sessions and its end. The promises that are waited for and the
callbacks that are due are tasks; they go on in any order, and calls come in between, also from within callbacks.
What the native compiler, the hooks and the callbacks do is left open. Logging is left out. -/

namespace Unpack.Compiler

inductive Lifecycle where
  | open
  | closing
  | closed
  deriving DecidableEq

/-- A pending flush is known by the number of its `settleCache` call. -/
structure CompilerImpl where
  lifecycle : Lifecycle := .open
  running : Bool := false
  watching : Option Nat := none
  idleFlushTimer : Bool := false
  pendingCacheFlush : Option Nat := none
  settleCalls : Nat := 0
  writableFilesystemCache : Bool := false

namespace CompilerImpl

variable (compiler : CompilerImpl)

/-- The compiler takes a run or a watch session. -/
def Accepts : Prop := compiler.lifecycle = .open ∧ compiler.running = false ∧ compiler.watching = none

/-- The promise that `#flushCacheNow` waits for, if the cache is written to files. -/
def flushCacheNow : Option Nat × CompilerImpl :=
  if !compiler.writableFilesystemCache then (none, compiler)
  else
    match compiler.pendingCacheFlush with
    | some flush => (some flush, compiler)
    | none =>
        (some compiler.settleCalls,
          { compiler with
            settleCalls := compiler.settleCalls + 1
            pendingCacheFlush := some compiler.settleCalls })

/-- The end of `#flushCacheNow`. -/
def flushed (flush : Option Nat) : CompilerImpl :=
  if flush.isSome && compiler.pendingCacheFlush = flush then { compiler with pendingCacheFlush := none }
  else compiler

def clearIdleFlushTimer : CompilerImpl := { compiler with idleFlushTimer := false }

def scheduleIdleCacheFlush : CompilerImpl :=
  if !compiler.writableFilesystemCache || compiler.lifecycle != .open then compiler
  else { compiler with idleFlushTimer := true }

/-- The callback of a session that has been closed. -/
def detach (session : Nat) (accepted : Bool) : CompilerImpl :=
  if accepted && compiler.watching = some session then { compiler with watching := none } else compiler

end CompilerImpl

/-- A session that the compiler has refused only hands its handler the error. -/
structure Session where
  accepted : Bool
  watching : WatchingImpl

/-- What a compilation has read, in its order. -/
abbrev Reads := List (String × PollSnapshot)

/-- What a successful compilation tells its session, with what it has read. -/
structure WatchStats where
  watchDependencies : WatchDependencySets
  outputPath : String
  reads : Reads

abbrev LatestStats := Option WatchStats

inductive Callback where
  | run (call : Call)
  | close (call : Call)
  | watchClose (session : Nat) (call : Call)
  deriving DecidableEq

/-- The promises that are waited for, and the callbacks that are due. -/
inductive Task where
  | runNative (call : Call)
  | runHooks (call : Call)
  | runFailed (call : Call)
  | deferred (callback : Callback)
  | closeFlush (flush : Option Nat)
  | closeShutdown
  | closeDeliver (call : Call)
  | watchNative (session : Nat) (reads : Reads)
  | watchHooks (session : Nat) (stats : WatchStats)
  | watchHandler (session : Nat) (latestStats : LatestStats) (guarded : Bool)
  | watchEnded (session : Nat) (latestStats : LatestStats)
  | handlerDeferred (session : Nat)
  | finishFlush (session : Nat) (callbacks : List Call) (flush : Option Nat)
  | finishDeliver (session : Nat) (callbacks : List Call)
  | finishCallback (session : Nat) (callbacks : List Call)
  | idleFlush (flush : Option Nat)

structure CompilerProgress where
  compiler : CompilerImpl
  sessions : List Session := []
  tasks : Multiset Task := 0
  calls : Nat := 0
  settled : Finset Nat := ∅
  files : String → PollSnapshot

namespace CompilerProgress

/-- The state of a compiler at its start. -/
def start (writableFilesystemCache : Bool) (files : String → PollSnapshot) : CompilerProgress :=
  { compiler := { writableFilesystemCache }, files }

def FlushSettled (progress : CompilerProgress) (flush : Option Nat) : Prop :=
  ∀ settleCall, flush = some settleCall → settleCall ∈ progress.settled

end CompilerProgress

inductive RunOutcome where
  | rejected
  | threw
  | started
  deriving DecidableEq

inductive CloseOutcome where
  | rejected
  | accepted
  | closing
  | closed
  deriving DecidableEq

/-- Whether `#run` went past its guard, and whether it started a native run, called the handler at once, or left
it to be called. -/
inductive SessionRun where
  | skipped
  | started
  | threw
  | refused
  deriving DecidableEq

inductive Event where
  | run (call : Call) (outcome : RunOutcome)
  | watch (session : Nat) (accepted : Bool) (run : SessionRun)
  | close (call : Call) (outcome : CloseOutcome)
  | invalidate (session : Nat) (run : SessionRun)
  | sessionClose (session : Nat) (call : Call)
  | rebuild (session : Nat) (run : SessionRun)
  | ended (session : Nat) (latestStats : LatestStats) (run : SessionRun)
  | called (callback : Callback)
  | handlerCalled (session : Nat)
  | handlerThrew (session : Nat) (calledAgain : Bool)
  | closeCallbackThrew (session : Nat) (left : List Call)
  | detached (session : Nat)
  | shutdown
  | nativeClosed
  | other

/-- `#run`, whether its guard lets it pass or not. -/
inductive RunsSession (session : Nat) (accepted : Bool) (watching : WatchingImpl) :
    SessionRun → List Task → WatchingImpl → Prop
  | skipped (hguard : watching.closed = true ∨ watching.running = true) :
      RunsSession session accepted watching .skipped [] watching
  | started (hopen : watching.closed = false) (hidle : watching.running = false) (haccepted : accepted = true) :
      RunsSession session accepted watching .started [.watchNative session []] watching.beginRun.2
  | threw (hopen : watching.closed = false) (hidle : watching.running = false) (haccepted : accepted = true) :
      RunsSession session accepted watching .threw [.watchHandler session none false] watching.beginRun.2
  | refused (hopen : watching.closed = false) (hidle : watching.running = false) (haccepted : accepted = false) :
      RunsSession session accepted watching .refused [.watchEnded session none, .handlerDeferred session]
        watching.beginRun.2

/-- The start of `#finishClose`: the callbacks are taken, and wait for the flush. -/
def finishClose (compiler : CompilerImpl) (session : Nat) (accepted : Bool) (watching : WatchingImpl) :
    Task × WatchingImpl × CompilerImpl :=
  let (flush, compiler) := if accepted then compiler.flushCacheNow else (none, compiler)
  (.finishFlush session watching.closeCallbacks flush, { watching with closeCallbacks := [] }, compiler)

/-- The session when `#run` goes on behind its compilation, up to the end of the watchers. -/
def WatchingImpl.endRun (watching : WatchingImpl) (latestStats : LatestStats) (files : String → PollSnapshot)
    (watchable : String → Bool) : WatchingImpl :=
  let watching := { watching with running := false }
  match latestStats with
  | none => watching
  | some stats =>
      let watching := { watching with hasCompletedCompilation := true }
      if watching.closed then watching
      else watching.replaceWatchers files watchable stats.watchDependencies stats.outputPath

/-- What a session is asked to do, and what its timer and its watchers do. -/
inductive SessionActs (progress : CompilerProgress) (session : Nat) (accepted : Bool) (watching : WatchingImpl) :
    Event → List Task → WatchingImpl → CompilerImpl → Prop
  | invalidateClosed (h : watching.closed = true) :
      SessionActs progress session accepted watching (.invalidate session .skipped) [] watching progress.compiler
  | invalidateRunning (hopen : watching.closed = false) (h : watching.running = true) :
      SessionActs progress session accepted watching (.invalidate session .skipped) []
        { watching.invalidate with invalidated := true } progress.compiler
  | invalidate (hopen : watching.closed = false) (h : watching.running = false) {run : SessionRun}
      {produced : List Task} {next : WatchingImpl}
      (hrun : RunsSession session accepted watching.invalidate run produced next) :
      SessionActs progress session accepted watching (.invalidate session run) produced next progress.compiler
  | closeClosed (hclosed : watching.closed = true) (hidle : watching.running = false) :
      SessionActs progress session accepted watching (.sessionClose session progress.calls)
        [.deferred (.watchClose session progress.calls)] watching progress.compiler
  | closeRunning (hrunning : watching.running = true) :
      SessionActs progress session accepted watching (.sessionClose session progress.calls) []
        (watching.close progress.calls) progress.compiler
  | close (hopen : watching.closed = false) (hidle : watching.running = false) {task : Task}
      {next : WatchingImpl} {compiler : CompilerImpl}
      (hfinish : finishClose progress.compiler session accepted (watching.close progress.calls) =
        (task, next, compiler)) :
      SessionActs progress session accepted watching (.sessionClose session progress.calls) [task] next compiler
  | rebuildRunning (htimer : watching.rebuildTimer = true) (hrunning : watching.running = true) :
      SessionActs progress session accepted watching (.rebuild session .skipped) []
        { watching with rebuildTimer := false, invalidated := true } progress.compiler
  | rebuild (htimer : watching.rebuildTimer = true) (hidle : watching.running = false) {run : SessionRun}
      {produced : List Task} {next : WatchingImpl}
      (hrun : RunsSession session accepted { watching with rebuildTimer := false } run produced next) :
      SessionActs progress session accepted watching (.rebuild session run) produced next progress.compiler
  | watchEvent {target : WatchTarget} (hwatched : .event target ∈ watching.watchers)
      (filename : Option String) :
      SessionActs progress session accepted watching .other []
        (watching.watchEvent progress.files target filename) progress.compiler
  | poll {targets : List WatchTarget} (hwatched : .poll targets ∈ watching.watchers) :
      SessionActs progress session accepted watching .other [] (watching.poll progress.files targets)
        progress.compiler

/-- What `#run` does behind its compilation. -/
inductive SessionEnds (progress : CompilerProgress) (session : Nat) (accepted : Bool) (watching : WatchingImpl)
    (latestStats : LatestStats) : SessionRun → List Task → WatchingImpl → CompilerImpl → Prop
  | closed (h : watching.closed = true) (watchable : String → Bool) {task : Task} {next : WatchingImpl}
      {compiler : CompilerImpl}
      (hfinish : finishClose progress.compiler session accepted
        (watching.endRun latestStats progress.files watchable) = (task, next, compiler)) :
      SessionEnds progress session accepted watching latestStats .skipped [task] next compiler
  | valid (hopen : watching.closed = false) (h : watching.invalidated = false) (watchable : String → Bool) :
      SessionEnds progress session accepted watching latestStats .skipped []
        (watching.endRun latestStats progress.files watchable) progress.compiler
  | invalidated (hopen : watching.closed = false) (h : watching.invalidated = true)
      (watchable : String → Bool) {run : SessionRun} {produced : List Task} {next : WatchingImpl}
      (hrun : RunsSession session accepted
        { watching.endRun latestStats progress.files watchable with invalidated := false } run produced next) :
      SessionEnds progress session accepted watching latestStats run produced next progress.compiler

/-- A run is asked for, or the end of the compiler. -/
inductive Asks (progress : CompilerProgress) : Event → List Task → CompilerImpl → Prop
  | runRejected (h : ¬progress.compiler.Accepts) :
      Asks progress (.run progress.calls .rejected) [.deferred (.run progress.calls)] progress.compiler
  | runThrew (h : progress.compiler.Accepts) :
      Asks progress (.run progress.calls .threw) [.runFailed progress.calls]
        { progress.compiler with running := true }
  | runStarted (h : progress.compiler.Accepts) :
      Asks progress (.run progress.calls .started) [.runNative progress.calls]
        { progress.compiler with running := true }
  | closeClosed (h : progress.compiler.lifecycle = .closed) :
      Asks progress (.close progress.calls .closed) [.deferred (.close progress.calls)] progress.compiler
  | closeClosing (h : progress.compiler.lifecycle = .closing) :
      Asks progress (.close progress.calls .closing) [.closeDeliver progress.calls] progress.compiler
  | closeRejected (h : progress.compiler.lifecycle = .open)
      (hbusy : progress.compiler.running = true ∨ progress.compiler.watching ≠ none) :
      Asks progress (.close progress.calls .rejected) [.deferred (.close progress.calls)] progress.compiler
  | close (h : progress.compiler.Accepts) {flush : Option Nat} {compiler : CompilerImpl}
      (hflush : progress.compiler.clearIdleFlushTimer.flushCacheNow = (flush, compiler)) :
      Asks progress (.close progress.calls .accepted) [.closeFlush flush, .closeDeliver progress.calls]
        { compiler with lifecycle := .closing }

/-- What a task does when it goes on, apart from the end of `#run`. A callback that `close` of a session defers is
queued behind the end of the session, unless that end waits for a flush. -/
inductive Resumes (progress : CompilerProgress) : Task → Event → List Task → CompilerImpl → Prop
  | runFails (call : Call) :
      Resumes progress (.runNative call) (.called (.run call)) [] { progress.compiler with running := false }
  | runCompletes (call : Call) :
      Resumes progress (.runNative call) .other [.runHooks call] progress.compiler.scheduleIdleCacheFlush
  | runHooks (call : Call) :
      Resumes progress (.runHooks call) (.called (.run call)) [] { progress.compiler with running := false }
  | runFailed (call : Call) :
      Resumes progress (.runFailed call) (.called (.run call)) [] { progress.compiler with running := false }
  | deferred (callback : Callback)
      (hqueued : ∀ session call, callback = .watchClose session call → ∀ callbacks,
        .finishFlush session callbacks none ∉ progress.tasks) :
      Resumes progress (.deferred callback) (.called callback) [] progress.compiler
  | closeFlush {flush : Option Nat} (h : progress.FlushSettled flush) :
      Resumes progress (.closeFlush flush) .shutdown [.closeShutdown] (progress.compiler.flushed flush)
  | closeShutdown :
      Resumes progress .closeShutdown .nativeClosed [] { progress.compiler with lifecycle := .closed }
  | closeDeliver (call : Call) (h : progress.compiler.lifecycle = .closed) :
      Resumes progress (.closeDeliver call) (.called (.close call)) [] progress.compiler
  | watchFails (session : Nat) (reads : Reads) :
      Resumes progress (.watchNative session reads) (.handlerCalled session) [.watchHandler session none true]
        progress.compiler
  | watchRejects (session : Nat) (reads : Reads) :
      Resumes progress (.watchNative session reads) (.handlerCalled session) [.watchHandler session none false]
        progress.compiler
  | watchCompletes (session : Nat) (stats : WatchStats)
      (hreads : ∀ target ∈ watchTargets stats.watchDependencies, ∃ snapshot, (target.path, snapshot) ∈ stats.reads) :
      Resumes progress (.watchNative session stats.reads) .other [.watchHooks session stats]
        progress.compiler.scheduleIdleCacheFlush
  | watchHooks (session : Nat) (stats : WatchStats) :
      Resumes progress (.watchHooks session stats) (.handlerCalled session)
        [.watchHandler session (some stats) true] progress.compiler
  | watchHooksFail (session : Nat) (stats : WatchStats) :
      Resumes progress (.watchHooks session stats) (.handlerCalled session) [.watchHandler session none true]
        progress.compiler
  | handlerReturns (session : Nat) (latestStats : LatestStats) (guarded : Bool) :
      Resumes progress (.watchHandler session latestStats guarded) .other [.watchEnded session latestStats]
        progress.compiler
  | handlerThrows (session : Nat) (latestStats : LatestStats) :
      Resumes progress (.watchHandler session latestStats true) (.handlerThrew session true)
        [.watchHandler session latestStats false] progress.compiler
  | handlerRejects (session : Nat) (latestStats : LatestStats) :
      Resumes progress (.watchHandler session latestStats false) (.handlerThrew session false) []
        progress.compiler
  | handlerDeferred (session : Nat) :
      Resumes progress (.handlerDeferred session) (.handlerCalled session) [] progress.compiler
  | finishFlush (session : Nat) (callbacks : List Call) {flush : Option Nat} {found : Session}
      (hsession : progress.sessions[session]? = some found) (h : progress.FlushSettled flush) :
      Resumes progress (.finishFlush session callbacks flush) (.detached session)
        [.finishDeliver session callbacks] ((progress.compiler.flushed flush).detach session found.accepted)
  | finishDeliver (session : Nat) (call : Call) (callbacks : List Call) :
      Resumes progress (.finishDeliver session (call :: callbacks)) (.called (.watchClose session call))
        [.finishCallback session callbacks] progress.compiler
  | finished (session : Nat) : Resumes progress (.finishDeliver session []) .other [] progress.compiler
  | closeCallbackReturns (session : Nat) (callbacks : List Call) :
      Resumes progress (.finishCallback session callbacks) .other [.finishDeliver session callbacks]
        progress.compiler
  | closeCallbackThrows (session : Nat) (callbacks : List Call) :
      Resumes progress (.finishCallback session callbacks) (.closeCallbackThrew session callbacks) []
        progress.compiler
  | idleFlush {flush : Option Nat} (h : progress.FlushSettled flush) :
      Resumes progress (.idleFlush flush) .other [] (progress.compiler.flushed flush)

/-- What happens without a call, a timer, a watcher or a change of a file. -/
inductive Continues (progress : CompilerProgress) : Event → CompilerProgress → Prop
  | resumes {task : Task} {rest : Multiset Task} (htask : progress.tasks = task ::ₘ rest) {event : Event}
      {produced : List Task} {compiler : CompilerImpl} (h : Resumes progress task event produced compiler) :
      Continues progress event { progress with compiler, tasks := produced + rest }
  | ends {session : Nat} {latestStats : LatestStats} {rest : Multiset Task}
      (htask : progress.tasks = .watchEnded session latestStats ::ₘ rest) {found : Session}
      (hsession : progress.sessions[session]? = some found) {run : SessionRun} {produced : List Task}
      {watching : WatchingImpl} {compiler : CompilerImpl}
      (h : SessionEnds progress session found.accepted found.watching latestStats run produced watching compiler) :
      Continues progress (.ended session latestStats run)
        { progress with
          compiler, tasks := produced + rest
          sessions := progress.sessions.modify session ({ · with watching }) }
  | settles {settleCall : Nat} (hcalled : settleCall < progress.compiler.settleCalls)
      (hpending : settleCall ∉ progress.settled) :
      Continues progress .other { progress with settled := insert settleCall progress.settled }

inductive CompilerStep (progress : CompilerProgress) : Event → CompilerProgress → Prop
  | asks {event : Event} {produced : List Task} {compiler : CompilerImpl}
      (h : Asks progress event produced compiler) :
      CompilerStep progress event
        { progress with compiler, tasks := produced + progress.tasks, calls := progress.calls + 1 }
  | watch (h : progress.compiler.Accepts) (watchOptions : NormalizedWatchOptions) {run : SessionRun}
      {produced : List Task} {watching : WatchingImpl}
      (hrun : RunsSession progress.sessions.length true { watchOptions } run produced watching) :
      CompilerStep progress (.watch progress.sessions.length true run)
        { progress with
          compiler := { progress.compiler with watching := some progress.sessions.length }
          tasks := produced + progress.tasks
          sessions := progress.sessions ++ [⟨true, watching⟩] }
  | watchRejected (h : ¬progress.compiler.Accepts) {run : SessionRun} {produced : List Task}
      {watching : WatchingImpl} (hrun : RunsSession progress.sessions.length false {} run produced watching) :
      CompilerStep progress (.watch progress.sessions.length false run)
        { progress with
          tasks := produced + progress.tasks
          sessions := progress.sessions ++ [⟨false, watching⟩] }
  | session {session : Nat} {found : Session} (hsession : progress.sessions[session]? = some found)
      {event : Event} {produced : List Task} {watching : WatchingImpl} {compiler : CompilerImpl}
      (h : SessionActs progress session found.accepted found.watching event produced watching compiler) :
      CompilerStep progress event
        { progress with
          compiler, tasks := produced + progress.tasks, calls := progress.calls + 1
          sessions := progress.sessions.modify session ({ · with watching }) }
  | continues {event : Event} {next : CompilerProgress} (h : Continues progress event next) :
      CompilerStep progress event next
  | idleTimer (htimer : progress.compiler.idleFlushTimer = true) {flush : Option Nat} {compiler : CompilerImpl}
      (hflush : progress.compiler.clearIdleFlushTimer.flushCacheNow = (flush, compiler)) :
      CompilerStep progress .other { progress with compiler, tasks := .idleFlush flush ::ₘ progress.tasks }
  | fileChanges (path : String) (snapshot : PollSnapshot) :
      CompilerStep progress .other
        { progress with files := fun other => if other = path then snapshot else progress.files other }
  | reads {session : Nat} {reads : Reads} {rest : Multiset Task}
      (htask : progress.tasks = .watchNative session reads ::ₘ rest) (path : String) :
      CompilerStep progress .other
        { progress with tasks := .watchNative session (reads ++ [(path, progress.files path)]) ::ₘ rest }

/-- The runs of a compiler from its creation. -/
abbrev CompilerRun : List (CompilerProgress × Event) → CompilerProgress → Prop :=
  Interleaving.Run (fun progress => ∃ writable files, progress = CompilerProgress.start writable files) CompilerStep

/-- No task can go on. -/
def CompilerProgress.AtRest (progress : CompilerProgress) : Prop := ∀ event next, ¬Continues progress event next

end Unpack.Compiler
