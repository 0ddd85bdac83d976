import Unpack.CompilerArbitration

/-! The callbacks of a watch session: its handler is called once for each compilation, and what `close` has been
given is called once, when the compiler has let the session go. -/

namespace Unpack.Compiler

/-- `#run` has gone past its guard. -/
def SessionRun.compiles : SessionRun → Bool
  | skipped => false
  | _ => true

namespace Event

/-- A compilation of the session starts. -/
def compiles (session : Nat) : Event → Bool
  | watch acted _ went | invalidate acted went | rebuild acted went | ended acted _ went =>
      acted = session && went.compiles
  | _ => false

/-- The handler of the session is called. -/
def handles (session : Nat) : Event → Bool
  | watch acted _ went | invalidate acted went | rebuild acted went | ended acted _ went =>
      acted = session && went = .threw
  | handlerCalled acted => acted = session
  | handlerThrew acted calledAgain => acted = session && calledAgain
  | _ => false

/-- `close` of the session is called. -/
def closes (session : Nat) : Event → Bool
  | sessionClose acted _ => acted = session
  | _ => false

end Event

/-- The handler is still to be called for a compilation of the session. -/
def Task.awaitsHandler (session : Nat) : Task → Bool
  | watchNative other _ | watchHooks other _ | handlerDeferred other => other = session
  | _ => false

section

variable {progress next : CompilerProgress} {event : Event} {other : Nat} {accepted : Bool}
  {watching ended : WatchingImpl} {produced : List Task} {compiler : CompilerImpl}

theorem RunsSession.handler (session : Nat) {run : SessionRun}
    (h : RunsSession other accepted watching run produced ended) :
    (count (Task.awaitsHandler session) produced +
        if (Event.watch other accepted run).handles session = true then 1 else 0) =
      if (Event.watch other accepted run).compiles session = true then 1 else 0 := by
  cases h <;> simp [Task.awaitsHandler, Event.handles, Event.compiles, SessionRun.compiles]

theorem finishClose_awaitsHandler (session : Nat) {last : CompilerImpl} {task : Task}
    (h : finishClose compiler other accepted watching = (task, ended, last)) : task.awaitsHandler session = false := by
  obtain ⟨⟨flush, rfl⟩, -, -⟩ := finishClose_eq h
  rfl

theorem SessionActs.handler (session : Nat)
    (h : SessionActs progress other accepted watching event produced ended compiler) :
    (count (Task.awaitsHandler session) produced + if event.handles session = true then 1 else 0) =
      if event.compiles session = true then 1 else 0 := by
  cases h with
  | invalidate hopen h hrun | rebuild htimer hidle hrun => exact hrun.handler session
  | close hopen hidle hfinish => simp [Event.handles, Event.compiles, finishClose_awaitsHandler session hfinish]
  | _ => simp [Event.handles, Event.compiles, SessionRun.compiles, Task.awaitsHandler]

theorem SessionEnds.handler (session : Nat) {latestStats : LatestStats} {run : SessionRun}
    (h : SessionEnds progress other accepted watching latestStats run produced ended compiler) :
    (count (Task.awaitsHandler session) produced +
        if (Event.ended other latestStats run).handles session = true then 1 else 0) =
      if (Event.ended other latestStats run).compiles session = true then 1 else 0 := by
  cases h with
  | closed hclosed watchable hfinish =>
    simp [Event.handles, Event.compiles, SessionRun.compiles, finishClose_awaitsHandler session hfinish]
  | valid => simp [Event.handles, Event.compiles, SessionRun.compiles]
  | invalidated hopen hinvalid watchable hrun => exact hrun.handler session

theorem Resumes.handler (session : Nat) {task : Task} (h : Resumes progress task event produced compiler)
    (hreturns : ∀ calledAgain, event ≠ .handlerThrew session calledAgain) :
    (count (Task.awaitsHandler session) produced + if event.handles session = true then 1 else 0) =
      if task.awaitsHandler session = true then 1 else 0 := by
  cases h with
  | handlerThrows other latestStats =>
    have hne : other ≠ session := fun heq => hreturns true (heq ▸ rfl)
    simp [Event.handles, Task.awaitsHandler, hne]
  | _ => simp [Event.handles, Task.awaitsHandler]

/-- As many compilations are waiting for the handler as have started and not been reported. -/
theorem CompilerStep.handler (session : Nat) (h : CompilerStep progress event next)
    (hreturns : ∀ calledAgain, event ≠ .handlerThrew session calledAgain) :
    (count (Task.awaitsHandler session) next.tasks + if event.handles session = true then 1 else 0) =
      count (Task.awaitsHandler session) progress.tasks + if event.compiles session = true then 1 else 0 := by
  cases h with
  | asks hasks => cases hasks <;> simp [Event.handles, Event.compiles, Task.awaitsHandler]
  | watch haccepts watchOptions hrun | watchRejected hrejects hrun =>
    have hhandler := hrun.handler session
    rw [count_add]
    omega
  | session hfound hacts =>
    have hhandler := hacts.handler session
    simp only [count_add] at hhandler ⊢
    omega
  | continues hcontinues =>
    cases hcontinues with
    | resumes htask hresumes =>
      have hhandler := hresumes.handler session hreturns
      have hcompiles : event.compiles session = false := by cases hresumes <;> rfl
      simp only [htask, count_add, count_cons, hcompiles] at hhandler ⊢
      simp only [Bool.false_eq_true, if_false]
      omega
    | ends htask hfound hends =>
      have hhandler := hends.handler session
      have hended : ∀ other latestStats, (Task.watchEnded other latestStats).awaitsHandler session = false :=
        fun _ _ => rfl
      simp only [htask, count_add, count_cons, hended] at hhandler ⊢
      simp only [Bool.false_eq_true, if_false]
      omega
    | settles => rfl
  | idleTimer => simp [Event.handles, Event.compiles, Task.awaitsHandler]
  | fileChanges => rfl
  | reads htask path => simp [Event.handles, Event.compiles, Task.awaitsHandler, htask]

end

/-- What the callbacks of the session may do, and when it may be closed once more. -/
def Event.Orderly (session : Nat) (progress : CompilerProgress) : Event → Prop
  | handlerThrew acted _ => acted ≠ session
  | closeCallbackThrew acted left => acted = session → left = []
  | sessionClose acted _ => acted = session →
      ∀ callbacks flush, Task.finishFlush session callbacks (some flush) ∉ progress.tasks
  | _ => True

/-- The task belongs to the session, or is a callback of its end. -/
def Task.Concerns (session : Nat) (task : Task) : Prop :=
  task.session = some session ∨ ∃ call, task = .deferred (.watchClose session call)

/-- A session that runs has a task, one that has been closed waits for its end, and a callback that is deferred is
called when it has ended. -/
structure Reports (compiler : CompilerImpl) (tasks : Multiset Task) (session : Nat) (found : Session) : Prop where
  busy : found.watching.running = true → ∃ task ∈ tasks, task.runs session = true
  awaited : compiler.watching = some session → found.watching.Closed →
    ∃ callbacks flush, Task.finishFlush session callbacks flush ∈ tasks
  deferred : ∀ call, Task.deferred (.watchClose session call) ∈ tasks → found.watching.Closed ∧
    (compiler.watching = some session → ∃ callbacks, Task.finishFlush session callbacks none ∈ tasks)

section

variable {progress : CompilerProgress} {compiler last : CompilerImpl} {tasks rest : Multiset Task} {session : Nat}
  {found : Session} {accepted : Bool} {watching next : WatchingImpl} {produced : List Task}

theorem Reports.frame (h : Reports compiler tasks session found)
    (hwatching : last.watching = some session ↔ compiler.watching = some session)
    (htasks : ∀ task, task.Concerns session → (task ∈ rest ↔ task ∈ tasks)) : Reports last rest session found where
  busy := fun hrunning => by
    obtain ⟨task, htask, hruns⟩ := h.busy hrunning
    exact ⟨task, (htasks task (.inl (OfKind.runs session task hruns))).mpr htask, hruns⟩
  awaited := fun howned hclosed => by
    obtain ⟨callbacks, flush, htask⟩ := h.awaited (hwatching.mp howned) hclosed
    exact ⟨callbacks, flush, (htasks _ (.inl rfl)).mpr htask⟩
  deferred := fun call hcall => by
    obtain ⟨hclosed, hqueued⟩ := h.deferred call ((htasks _ (.inr ⟨call, rfl⟩)).mp hcall)
    refine ⟨hclosed, fun howned => ?_⟩
    obtain ⟨callbacks, htask⟩ := hqueued (hwatching.mp howned)
    exact ⟨callbacks, (htasks _ (.inl rfl)).mpr htask⟩

/-- The flags of the session stay. -/
theorem Reports.sameFlags (h : Reports compiler tasks session ⟨accepted, watching⟩) (hsame : watching.SameFlags next) :
    Reports compiler tasks session ⟨accepted, next⟩ where
  busy := fun hrunning => h.busy (hsame.running.symm.trans hrunning)
  awaited := fun howned hclosed =>
    h.awaited howned ⟨hsame.closed.symm.trans hclosed.1, hsame.running.symm.trans hclosed.2⟩
  deferred := fun call hcall => by
    obtain ⟨⟨hclosed, hidle⟩, hqueued⟩ := h.deferred call hcall
    exact ⟨⟨hsame.closed.trans hclosed, hsame.running.trans hidle⟩, hqueued⟩

/-- The session is open, and `#run` goes past its guard or not. -/
theorem Reports.ran (h : Reports compiler tasks session ⟨accepted, watching⟩) {run : SessionRun}
    (hrun : RunsSession session accepted watching run produced next) :
    Reports compiler (produced + tasks) session ⟨accepted, next⟩ := by
  cases hrun.ran with
  | skipped hproduced hnext =>
    subst hproduced hnext
    simpa using h
  | ran hopen hidle hnext hruns haccepted hfinishes hdelivers =>
    obtain ⟨hclosed, hrunning, -⟩ := hnext
    refine ⟨fun _ => ?_, fun howned hclosed' => ?_, fun call hcall => ?_⟩
    · obtain ⟨task, htask, hkind⟩ := Multiset.countP_pos.mp (hruns.symm ▸ Nat.one_pos)
      exact ⟨task, Multiset.mem_add.mpr (.inl htask), hkind⟩
    · exact absurd (hclosed.symm.trans hclosed'.1) Bool.false_ne_true
    · have hold := (Multiset.mem_add.mp hcall).resolve_left (hrun.ne_deferred _)
      exact absurd (hopen.symm.trans (h.deferred call hold).1.1) Bool.false_ne_true

/-- A session that ends: its callbacks wait for the flush. -/
theorem Reports.ended {flush : Option Nat} {callbacks : List Call} (hclosed : next.Closed)
    (hdeferred : ∀ call, Task.deferred (.watchClose session call) ∉ rest) :
    Reports compiler (.finishFlush session callbacks flush ::ₘ rest) session ⟨accepted, next⟩ where
  busy := fun hrunning => absurd (hclosed.2.symm.trans hrunning) Bool.false_ne_true
  awaited := fun _ _ => ⟨callbacks, flush, Multiset.mem_cons_self _ _⟩
  deferred := fun call hcall => by
    rcases Multiset.mem_cons.mp hcall with hnew | hold
    · cases hnew
    · exact absurd hold (hdeferred call)

theorem Reports.acts {event : Event} (h : Reports progress.compiler progress.tasks session ⟨accepted, watching⟩)
    (hacts : SessionActs progress session accepted watching event produced next last)
    (horderly : event.Orderly session progress) :
    Reports last (produced + progress.tasks) session ⟨accepted, next⟩ := by
  have hleft : Reports progress.compiler (([] : List Task) + progress.tasks) session ⟨accepted, watching⟩ := by
    simpa using h
  cases hacts with
  | invalidateClosed hclosed => exact hleft
  | invalidateRunning hopen hrunning => exact hleft.sameFlags ⟨rfl, rfl, rfl⟩
  | invalidate hopen hidle hrun =>
    have hinvalidate : Reports progress.compiler progress.tasks session ⟨accepted, watching.invalidate⟩ :=
      h.sameFlags ⟨rfl, rfl, rfl⟩
    exact hinvalidate.ran hrun
  | closeClosed hclosed hidle =>
    refine ⟨fun hrunning => absurd (hidle.symm.trans hrunning) Bool.false_ne_true, fun howned hended => ?_,
      fun call hcall => ⟨⟨hclosed, hidle⟩, fun howned => ?_⟩⟩
    · obtain ⟨callbacks, flush, htask⟩ := h.awaited howned hended
      exact ⟨callbacks, flush, Multiset.mem_add.mpr (.inr htask)⟩
    · obtain ⟨callbacks, flush, htask⟩ := h.awaited howned ⟨hclosed, hidle⟩
      cases flush with
      | none => exact ⟨callbacks, Multiset.mem_add.mpr (.inr htask)⟩
      | some flush => exact absurd htask (horderly rfl callbacks flush)
  | closeRunning hrunning =>
    refine ⟨hleft.busy, fun howned hclosed => ?_, fun call hcall => ?_⟩
    · exact absurd (hclosed.2.symm.trans hrunning) Bool.false_ne_true
    · exact absurd ((hleft.deferred call hcall).1.2.symm.trans hrunning) Bool.false_ne_true
  | close hopen hidle hfinish =>
    obtain ⟨⟨flush, rfl⟩, rfl, -⟩ := finishClose_eq hfinish
    have hclosed : (watching.close progress.calls).Closed := ⟨rfl, hidle⟩
    refine Reports.ended hclosed fun call hcall => ?_
    exact absurd (hopen.symm.trans (h.deferred call hcall).1.1) Bool.false_ne_true
  | rebuildRunning htimer hrunning => exact hleft.sameFlags ⟨rfl, rfl, rfl⟩
  | rebuild htimer hidle hrun =>
    have htimer : Reports progress.compiler progress.tasks session
        ⟨accepted, { watching with rebuildTimer := false }⟩ := h.sameFlags ⟨rfl, rfl, rfl⟩
    exact htimer.ran hrun
  | watchEvent hwatched filename => exact hleft.sameFlags (watching.sameFlags_watchEvent ..)
  | poll hwatched => exact hleft.sameFlags (watching.sameFlags_poll ..)

/-- A session runs while a task of its compilation is left. -/
theorem Fits.running (h : Fits compiler tasks session found) {task : Task} (htask : task ∈ tasks)
    (hruns : task.runs session = true) : found.watching.running = true := by
  by_contra hidle
  exact Bool.false_ne_true ((count_eq_zero.mp (h.idle (Bool.not_eq_true _ ▸ hidle)) task htask).symm.trans hruns)

/-- As long as the session runs, only its compilation matters. -/
theorem Reports.ofRunning (hrunning : found.watching.running = true) {task : Task} (htask : task ∈ rest)
    (hruns : task.runs session = true)
    (hdeferred : ∀ call, Task.deferred (.watchClose session call) ∉ rest) : Reports compiler rest session found where
  busy := fun _ => ⟨task, htask, hruns⟩
  awaited := fun _ hclosed => absurd (hclosed.2.symm.trans hrunning) Bool.false_ne_true
  deferred := fun call hcall => absurd hcall (hdeferred call)

/-- The compiler does not hold the session, which has been closed. -/
theorem Reports.ofDetached (hclosed : found.watching.Closed) (hdetached : compiler.watching ≠ some session) :
    Reports compiler rest session found where
  busy := fun hrunning => absurd (hclosed.2.symm.trans hrunning) Bool.false_ne_true
  awaited := fun howned => absurd howned hdetached
  deferred := fun _ _ => ⟨hclosed, fun howned => absurd howned hdetached⟩

/-- A task that is neither of a compilation nor the end of the session goes away. -/
theorem Reports.remove (h : Reports compiler tasks session found) {task : Task} (htask : tasks = task ::ₘ rest)
    (hruns : task.runs session = false) (hfinish : ∀ callbacks flush, task ≠ .finishFlush session callbacks flush) :
    Reports compiler rest session found where
  busy := fun hrunning => by
    obtain ⟨other, hother, hkind⟩ := h.busy hrunning
    rcases Multiset.mem_cons.mp (htask ▸ hother) with rfl | hrest
    · exact absurd (hruns.symm.trans hkind) Bool.false_ne_true
    · exact ⟨other, hrest, hkind⟩
  awaited := fun howned hclosed => by
    obtain ⟨callbacks, flush, hother⟩ := h.awaited howned hclosed
    exact ⟨callbacks, flush, (Multiset.mem_cons.mp (htask ▸ hother)).resolve_left (hfinish _ _).symm⟩
  deferred := fun call hcall => by
    obtain ⟨hclosed, hqueued⟩ := h.deferred call (htask ▸ Multiset.mem_cons_of_mem hcall)
    refine ⟨hclosed, fun howned => ?_⟩
    obtain ⟨callbacks, hother⟩ := hqueued howned
    exact ⟨callbacks, (Multiset.mem_cons.mp (htask ▸ hother)).resolve_left (hfinish _ _).symm⟩

theorem Reports.not_deferred (h : Reports compiler tasks session found) (hrunning : found.watching.running = true)
    (call : Call) : Task.deferred (.watchClose session call) ∉ tasks :=
  fun hcall => Bool.false_ne_true ((h.deferred call hcall).1.2.symm.trans hrunning)

theorem Reports.ends {latestStats : LatestStats} {run : SessionRun}
    (h : Reports progress.compiler progress.tasks session ⟨accepted, watching⟩)
    (hfits : Fits progress.compiler progress.tasks session ⟨accepted, watching⟩)
    (htask : progress.tasks = .watchEnded session latestStats ::ₘ rest)
    (hends : SessionEnds progress session accepted watching latestStats run produced next last) :
    Reports last (produced + rest) session ⟨accepted, next⟩ := by
  have hruns : Task.runs session (.watchEnded session latestStats) = true := decide_eq_true rfl
  have hrunning : watching.running = true := hfits.running (htask ▸ Multiset.mem_cons_self _ rest) hruns
  have hdeferred : ∀ call, Task.deferred (.watchClose session call) ∉ rest :=
    fun call hcall => h.not_deferred hrunning call (htask ▸ Multiset.mem_cons_of_mem hcall)
  have hended : ∀ watchable, watching.closed = false → Reports progress.compiler rest session
      ⟨accepted, watching.endRun latestStats progress.files watchable⟩ := by
    intro watchable hopen
    have hflags := watching.sameFlags_endRun progress.files latestStats watchable
    refine ⟨fun hrun => ?_, fun _ hclosed => ?_, fun call hcall => absurd hcall (hdeferred call)⟩
    · exact absurd (hflags.running.symm.trans hrun) Bool.false_ne_true
    · exact absurd (hopen.symm.trans (hflags.closed.symm.trans hclosed.1)) Bool.false_ne_true
  cases hends with
  | closed hclosed watchable hfinish =>
    have hflags := watching.sameFlags_endRun progress.files latestStats watchable
    obtain ⟨⟨flush, rfl⟩, rfl, -⟩ := finishClose_eq hfinish
    have hended : (watching.endRun latestStats progress.files watchable).Closed :=
      ⟨hflags.closed.trans hclosed, hflags.running⟩
    exact Reports.ended hended hdeferred
  | valid hopen hvalid watchable => simpa using hended watchable hopen
  | invalidated hopen hinvalid watchable hrun =>
    have hcleared : Reports progress.compiler rest session
        ⟨accepted, { watching.endRun latestStats progress.files watchable with invalidated := false }⟩ :=
      (hended watchable hopen).sameFlags ⟨rfl, rfl, rfl⟩
    exact hcleared.ran hrun

theorem Reports.resumes {event : Event} {task : Task} (h : Reports progress.compiler progress.tasks session found)
    (hfits : Fits progress.compiler progress.tasks session found)
    (hlast : Fits last (produced + rest) session found) (htask : progress.tasks = task ::ₘ rest)
    (hconcerns : task.Concerns session) (hresumes : Resumes progress task event produced last)
    (horderly : event.Orderly session progress) : Reports last (produced + rest) session found := by
  have hmem : task ∈ progress.tasks := htask ▸ Multiset.mem_cons_self task rest
  have hruns : task.runs session = true → ∀ next : Task, produced = [next] → next.runs session = true →
      Reports last (produced + rest) session found := by
    rintro hkind next rfl hnext
    have hrunning := hfits.running hmem hkind
    refine .ofRunning hrunning (Multiset.mem_cons_self next rest) hnext fun call hcall => ?_
    rcases Multiset.mem_cons.mp hcall with hnew | hold
    · rw [← hnew] at hnext
      cases hnext
    · exact h.not_deferred hrunning call (htask ▸ Multiset.mem_cons_of_mem hold)
  have hdelivers : task.delivers session = true → last = progress.compiler →
      Reports last (produced + rest) session found := by
    rintro hkind rfl
    refine .ofDetached (hfits.finishes ?_) (hfits.delivers ?_)
    · refine fun hnone => Bool.false_ne_true ((count_eq_zero.mp hnone task hmem).symm.trans ?_)
      cases task <;> first | exact hkind | cases hkind
    · exact fun hnone => Bool.false_ne_true ((count_eq_zero.mp hnone task hmem).symm.trans hkind)
  rcases hconcerns with hsession | ⟨call, rfl⟩
  · cases hresumes with
    | watchFails | watchRejects | watchCompletes | watchHooks | watchHooksFail | handlerReturns =>
      cases hsession
      exact hruns (decide_eq_true rfl) _ rfl (decide_eq_true rfl)
    | handlerThrows | handlerRejects =>
      cases hsession
      exact absurd rfl horderly
    | handlerDeferred =>
      cases hsession
      have hleft := h.remove htask rfl fun callbacks flush heq => by cases heq
      simpa using hleft
    | finishFlush acted callbacks hfound hsettled =>
      cases hsession
      exact .ofDetached (hlast.finishes (by simp [Task.finishes])) (hlast.delivers (by simp [Task.delivers]))
    | finishDeliver | finished | closeCallbackReturns | closeCallbackThrows =>
      cases hsession
      exact hdelivers (decide_eq_true rfl) rfl
    | _ => cases hsession
  · cases hresumes with
    | deferred callback hqueued =>
      have hleft := h.remove htask rfl fun callbacks flush heq => by cases heq
      simpa using hleft

end

/-- Where the callbacks of a session are in a state. -/
structure Delivering (session : Nat) (progress : CompilerProgress) : Prop where
  reports : ∀ found, progress.sessions[session]? = some found →
    Reports progress.compiler progress.tasks session found
  known : ∀ call, Task.deferred (.watchClose session call) ∈ progress.tasks → session < progress.sessions.length

namespace Delivering

variable {progress next : CompilerProgress} {event : Event} {session : Nat}

/-- The session is left alone. -/
theorem frame (h : Delivering session progress) (hsessions : ∀ found, next.sessions[session]? = some found →
      progress.sessions[session]? = some found)
    (hlength : progress.sessions.length ≤ next.sessions.length)
    (hwatching : next.compiler.watching = some session ↔ progress.compiler.watching = some session)
    (htasks : ∀ task, task.Concerns session → (task ∈ next.tasks ↔ task ∈ progress.tasks)) :
    Delivering session next where
  reports := fun found hfound => (h.reports found (hsessions found hfound)).frame hwatching htasks
  known := fun call hcall => (h.known call ((htasks _ (.inr ⟨call, rfl⟩)).mp hcall)).trans_le hlength

/-- Tasks that do not concern the session are added. -/
theorem mem_add_iff {produced : List Task} {tasks : Multiset Task}
    (hproduced : ∀ task ∈ produced, ¬task.Concerns session) (task : Task) (hconcerns : task.Concerns session) :
    task ∈ produced + tasks ↔ task ∈ tasks := by
  rw [Multiset.mem_add]
  exact or_iff_right fun hnew => hproduced task hnew hconcerns

/-- A task that does not concern the session goes away. -/
theorem mem_cons_iff {removed : Task} {tasks rest : Multiset Task} (htasks : tasks = removed ::ₘ rest)
    (hremoved : ¬removed.Concerns session) (task : Task) (hconcerns : task.Concerns session) :
    task ∈ rest ↔ task ∈ tasks := by
  rw [htasks, Multiset.mem_cons]
  refine (or_iff_right ?_).symm
  rintro rfl
  exact hremoved hconcerns

theorem not_concerns_run {acted : Nat} {accepted : Bool} {watching ended : WatchingImpl} {run : SessionRun}
    {produced : List Task} (h : RunsSession acted accepted watching run produced ended) (hne : acted ≠ session)
    (task : Task) (htask : task ∈ produced) : ¬task.Concerns session := by
  rintro (hsession | ⟨call, rfl⟩)
  · exact hne (h.onlyOf task htask session hsession).symm
  · exact h.ne_deferred _ htask

theorem not_concerns_acts {acted : Nat} {accepted : Bool} {watching ended : WatchingImpl} {produced : List Task}
    {compiler : CompilerImpl} (h : SessionActs progress acted accepted watching event produced ended compiler)
    (hne : acted ≠ session) (task : Task) (htask : task ∈ produced) : ¬task.Concerns session := by
  rintro (hsession | ⟨call, rfl⟩)
  · exact hne (h.onlyOf task htask session hsession).symm
  · cases h with
    | invalidate hopen h hrun | rebuild htimer hidle hrun => exact hrun.ne_deferred _ htask
    | close hopen hidle hfinish => exact finishClose_ne_deferred hfinish _ (List.mem_singleton.mp htask).symm
    | closeClosed =>
      cases List.mem_singleton.mp htask
      exact hne rfl
    | _ => simp at htask

theorem not_concerns_ends {acted : Nat} {accepted : Bool} {watching ended : WatchingImpl} {latestStats : LatestStats}
    {run : SessionRun} {produced : List Task} {compiler : CompilerImpl}
    (h : SessionEnds progress acted accepted watching latestStats run produced ended compiler) (hne : acted ≠ session)
    (task : Task) (htask : task ∈ produced) : ¬task.Concerns session := by
  rintro (hsession | ⟨call, rfl⟩)
  · exact hne (h.onlyOf task htask session hsession).symm
  · cases h with
    | closed hclosed watchable hfinish => exact finishClose_ne_deferred hfinish _ (List.mem_singleton.mp htask).symm
    | valid => cases List.not_mem_nil htask
    | invalidated hopen hinvalid watchable hrun => exact hrun.ne_deferred _ htask

theorem appends (h : Delivering session progress) {accepted : Bool}
    {watchOptions : NormalizedWatchOptions} {watching : WatchingImpl} {run : SessionRun} {produced : List Task}
    {compiler : CompilerImpl} {files : String → PollSnapshot} {calls : Nat} {settled : Finset Nat}
    (hrun : RunsSession progress.sessions.length accepted { watchOptions } run produced watching)
    (hothers : session < progress.sessions.length →
      (compiler.watching = some session ↔ progress.compiler.watching = some session)) :
    Delivering session ⟨compiler, progress.sessions ++ [⟨accepted, watching⟩], produced + progress.tasks, calls,
      settled, files⟩ := by
  rcases Nat.lt_trichotomy session progress.sessions.length with hold | rfl | hbeyond
  · refine h.frame (fun found hfound => ?_) ?_ (hothers hold) (mem_add_iff (not_concerns_run hrun (Nat.ne_of_gt hold)))
    · rwa [List.getElem?_append_left hold] at hfound
    · simp
  · refine ⟨fun found hfound => ?_, fun call hcall => by simp⟩
    rw [List.getElem?_concat_length] at hfound
    cases hfound
    have hnew : Reports compiler progress.tasks progress.sessions.length ⟨accepted, { watchOptions }⟩ :=
      ⟨nofun, fun _ hclosed => (by cases hclosed.1), fun call hcall => absurd (h.known call hcall) (Nat.lt_irrefl _)⟩
    exact hnew.ran hrun
  · refine ⟨fun found hfound => ?_, fun call hcall => ?_⟩
    · rw [List.getElem?_eq_none (List.length_append ▸ hbeyond)] at hfound
      cases hfound
    · have hold := (Multiset.mem_add.mp hcall).resolve_left (hrun.ne_deferred _)
      exact absurd (h.known call hold) (Nat.lt_asymm hbeyond)

theorem step (h : Delivering session progress) (hfit : SessionsFit progress) (hnext : SessionsFit next)
    (hstep : CompilerStep progress event next) (horderly : event.Orderly session progress) :
    Delivering session next := by
  cases hstep with
  | @asks _ produced compiler hasks =>
    refine h.frame (fun _ hfound => hfound) le_rfl ?_ (mem_add_iff fun task htask => ?_)
    · cases hasks with
      | @close haccepts flush compiler hflush =>
        have hsame := CompilerImpl.sameFlags_flushCacheNow progress.compiler.clearIdleFlushTimer
        rw [hflush] at hsame
        exact Eq.congr_left hsame.watching
      | _ => exact Iff.rfl
    · rintro (hsession | ⟨call, rfl⟩)
      · cases (hasks.ofNone htask).symm.trans hsession
      · cases hasks <;> simp at htask
  | watch haccepts watchOptions hrun =>
    refine h.appends hrun fun hold => ?_
    rw [haccepts.2.2]
    exact iff_of_false (fun heq => Nat.ne_of_lt hold (Option.some.inj heq).symm) nofun
  | watchRejected hrejects hrun => exact h.appends hrun fun _ => Iff.rfl
  | @session acted found hfound _ produced watching compiler hacts =>
    have hwatching := hacts.ofSessions.2.watching
    by_cases hacted : acted = session
    · subst hacted
      refine ⟨fun last hlast => ?_, fun call hcall => ?_⟩
      · rw [List.getElem?_modify_eq, hfound] at hlast
        cases hlast
        exact (h.reports found hfound).acts hacts horderly
      · rw [List.length_modify]
        exact (List.getElem?_eq_some_iff.mp hfound).1
    · refine h.frame (fun last hlast => ?_) (List.length_modify ..).ge (Eq.congr_left hwatching)
        (mem_add_iff (not_concerns_acts hacts hacted))
      rwa [List.getElem?_modify_ne _ _ hacted] at hlast
  | continues hcontinues =>
    cases hcontinues with
    | @resumes task rest htask _ produced compiler hresumes =>
      by_cases hconcerns : task.Concerns session
      · refine ⟨fun found hfound => ?_, fun call hcall => ?_⟩
        · exact (h.reports found hfound).resumes (hfit.fits session found hfound) (hnext.fits session found hfound)
            htask hconcerns hresumes horderly
        · rcases Multiset.mem_add.mp hcall with hnew | hold
          · cases hresumes <;> simp at hnew
          · exact h.known call (htask ▸ Multiset.mem_cons_of_mem hold)
      · refine h.frame (fun _ hfound => hfound) le_rfl (hresumes.watching_iff fun heq => hconcerns (.inl heq))
          fun other hother => ?_
        refine (mem_add_iff (fun new hnew => ?_) other hother).trans (mem_cons_iff htask hconcerns other hother)
        rintro (hsession | ⟨call, rfl⟩)
        · exact hconcerns (.inl ((hresumes.session_eq hnew).symm.trans hsession))
        · cases hresumes <;> simp at hnew
    | @ends acted latestStats rest htask found hfound run produced watching compiler hends =>
      have hwatching := hends.ofSessions.2.watching
      by_cases hacted : acted = session
      · subst hacted
        refine ⟨fun last hlast => ?_, fun call hcall => ?_⟩
        · rw [List.getElem?_modify_eq, hfound] at hlast
          cases hlast
          exact (h.reports found hfound).ends (hfit.fits acted found hfound) htask hends
        · rw [List.length_modify]
          exact (List.getElem?_eq_some_iff.mp hfound).1
      · refine h.frame (fun last hlast => ?_) (List.length_modify ..).ge (Eq.congr_left hwatching)
          fun other hother => ?_
        · rwa [List.getElem?_modify_ne _ _ hacted] at hlast
        · refine (mem_add_iff (not_concerns_ends hends hacted) other hother).trans (mem_cons_iff htask ?_ other hother)
          rintro (hsession | ⟨call, hcall⟩)
          · exact hacted (Option.some.inj hsession)
          · cases hcall
    | settles => exact ⟨h.reports, h.known⟩
  | @idleTimer htimer flush compiler hflush =>
    have hsame := CompilerImpl.sameFlags_flushCacheNow progress.compiler.clearIdleFlushTimer
    rw [hflush] at hsame
    refine h.frame (fun _ hfound => hfound) le_rfl (Eq.congr_left hsame.watching) fun task hconcerns => ?_
    refine (Multiset.mem_cons.trans (or_iff_right ?_))
    rintro rfl
    rcases hconcerns with hsession | ⟨call, hcall⟩
    · cases hsession
    · cases hcall
  | fileChanges => exact ⟨h.reports, h.known⟩
  | @reads acted reads rest htask path =>
    have hkept : ∀ other : Task, (∀ reads, other ≠ .watchNative acted reads) →
        (other ∈ Task.watchNative acted (reads ++ [(path, progress.files path)]) ::ₘ rest ↔
          other ∈ progress.tasks) := by
      intro other hother
      rw [htask, Multiset.mem_cons, Multiset.mem_cons]
      exact or_congr_left (iff_of_false (hother _) (hother _))
    have hfinish : ∀ callbacks flush, Task.finishFlush session callbacks flush ∈ _ ↔
        Task.finishFlush session callbacks flush ∈ progress.tasks := fun _ _ => hkept _ fun _ => nofun
    have hdeferred : ∀ call, Task.deferred (.watchClose session call) ∈ _ ↔
        Task.deferred (.watchClose session call) ∈ progress.tasks := fun _ => hkept _ fun _ => nofun
    refine ⟨fun found hfound => ⟨fun hrunning => ?_, fun howned hclosed => ?_, fun call hcall => ?_⟩,
      fun call hcall => h.known call ((hdeferred call).mp hcall)⟩
    · obtain ⟨task, hold, hkind⟩ := (h.reports found hfound).busy hrunning
      rcases Multiset.mem_cons.mp (htask ▸ hold) with rfl | hrest
      · exact ⟨_, Multiset.mem_cons_self _ _, hkind⟩
      · exact ⟨task, Multiset.mem_cons_of_mem hrest, hkind⟩
    · obtain ⟨callbacks, flush, hold⟩ := (h.reports found hfound).awaited howned hclosed
      exact ⟨callbacks, flush, (hfinish callbacks flush).mpr hold⟩
    · obtain ⟨hclosed, hqueued⟩ := (h.reports found hfound).deferred call ((hdeferred call).mp hcall)
      refine ⟨hclosed, fun howned => ?_⟩
      obtain ⟨callbacks, hold⟩ := hqueued howned
      exact ⟨callbacks, (hfinish callbacks none).mpr hold⟩

end Delivering

/-- Every step of the run is orderly for the session. -/
def OrderlyRun (session : Nat) (trace : List (CompilerProgress × Event)) : Prop :=
  ∀ passed ∈ trace, passed.2.Orderly session passed.1

/-- The callbacks of a session are called exactly once. -/
structure Delivered (session : Nat) (trace : List (CompilerProgress × Event)) (progress : CompilerProgress) :
    Prop where
  compilations : count (Task.runs session) progress.tasks ≤ 1
  handler : times (Event.handles session) trace + count (Task.awaitsHandler session) progress.tasks =
    times (Event.compiles session) trace
  handlerOnce : progress.AtRest → times (Event.handles session) trace = times (Event.compiles session) trace
  closed : ∀ before state call after, trace = before ++ (state, .sessionClose session call) :: after →
    ∀ event ∈ events after, event.compiles session = false
  closeCallbacks : ∀ call, .sessionClose session call ∈ events trace →
    timesCalled trace (.watchClose session call) ≤ 1 ∧
      (progress.AtRest → timesCalled trace (.watchClose session call) = 1)
  detached : ∀ before state call, trace = before ++ [(state, .called (.watchClose session call))] →
    count (Task.runs session) progress.tasks = 0 ∧ progress.compiler.watching ≠ some session
  comesToRest : Acc (fun next state => ∃ event, Continues state event next) progress

/-- The session exists and has been closed. -/
def CompilerProgress.HasClosed (progress : CompilerProgress) (session : Nat) : Prop :=
  ∃ found, progress.sessions[session]? = some found ∧ found.watching.closed = true

section

variable {progress next : CompilerProgress} {event : Event} {trace : List (CompilerProgress × Event)} {session : Nat}

theorem RunsSession.closed {accepted : Bool} {watching ended : WatchingImpl} {run : SessionRun}
    {produced : List Task} (h : RunsSession session accepted watching run produced ended)
    (hclosed : watching.closed = true) : run = .skipped ∧ ended = watching := by
  cases h with
  | skipped => exact ⟨rfl, rfl⟩
  | started hopen | threw hopen | refused hopen => exact absurd (hopen.symm.trans hclosed) Bool.false_ne_true

theorem SessionActs.closed {accepted : Bool} {watching ended : WatchingImpl} {produced : List Task}
    {compiler : CompilerImpl} (h : SessionActs progress session accepted watching event produced ended compiler)
    (hclosed : watching.closed = true ∨ event.closes session = true) :
    ended.closed = true ∧ event.compiles session = false := by
  have hnot : watching.closed = false → event.closes session = false → ∀ {p : Prop}, p := by
    intro hopen hother
    rw [hopen, hother] at hclosed
    rcases hclosed with h | h <;> cases h
  cases h with
  | invalidateClosed h => exact ⟨h, by simp [Event.compiles, SessionRun.compiles]⟩
  | invalidateRunning hopen | invalidate hopen => exact hnot hopen rfl
  | closeClosed h => exact ⟨h, rfl⟩
  | closeRunning => exact ⟨rfl, rfl⟩
  | close hopen hidle hfinish =>
    obtain ⟨-, rfl, -⟩ := finishClose_eq hfinish
    exact ⟨rfl, rfl⟩
  | rebuildRunning =>
    refine ⟨hclosed.resolve_right nofun, ?_⟩
    simp [Event.compiles, SessionRun.compiles]
  | rebuild htimer hidle hrun =>
    have hwas : watching.closed = true := hclosed.resolve_right nofun
    obtain ⟨rfl, rfl⟩ := hrun.closed hwas
    exact ⟨hwas, by simp [Event.compiles, SessionRun.compiles]⟩
  | watchEvent hwatched filename =>
    exact ⟨(watching.sameFlags_watchEvent _ _ _).closed.trans (hclosed.resolve_right nofun), rfl⟩
  | poll hwatched => exact ⟨(watching.sameFlags_poll _ _).closed.trans (hclosed.resolve_right nofun), rfl⟩

theorem SessionEnds.closed' {accepted : Bool} {watching ended : WatchingImpl} {latestStats : LatestStats}
    {run : SessionRun} {produced : List Task} {compiler : CompilerImpl}
    (h : SessionEnds progress session accepted watching latestStats run produced ended compiler)
    (hclosed : watching.closed = true) : ended.closed = true ∧ run = .skipped := by
  cases h with
  | closed hwas watchable hfinish =>
    have hflags := watching.sameFlags_endRun progress.files latestStats watchable
    obtain ⟨-, rfl, -⟩ := finishClose_eq hfinish
    exact ⟨hflags.closed.trans hwas, rfl⟩
  | valid hopen | invalidated hopen => exact absurd (hopen.symm.trans hclosed) Bool.false_ne_true

/-- A session that has been closed stays closed, and does not compile. -/
theorem CompilerStep.hasClosed (h : CompilerStep progress event next) (hclosed : progress.HasClosed session) :
    next.HasClosed session ∧ event.compiles session = false := by
  obtain ⟨found, hfound, hwas⟩ := hclosed
  have hlength : session < progress.sessions.length := (List.getElem?_eq_some_iff.mp hfound).1
  cases h with
  | asks hasks => exact ⟨⟨found, hfound, hwas⟩, by cases hasks <;> rfl⟩
  | watch haccepts watchOptions hrun | watchRejected hrejects hrun =>
    refine ⟨⟨found, (List.getElem?_append_left hlength).trans hfound, hwas⟩, ?_⟩
    simp [Event.compiles, Nat.ne_of_gt hlength]
  | @session acted before hbefore _ produced watching compiler hacts =>
    by_cases hacted : acted = session
    · subst hacted
      cases hfound.symm.trans hbefore
      obtain ⟨hended, hcompiles⟩ := hacts.closed (.inl hwas)
      exact ⟨⟨⟨found.accepted, watching⟩, by rw [List.getElem?_modify_eq, hfound]; rfl, hended⟩, hcompiles⟩
    · refine ⟨⟨found, (List.getElem?_modify_ne _ _ hacted).trans hfound, hwas⟩, ?_⟩
      cases hacts <;> simp [Event.compiles, hacted]
  | continues hcontinues =>
    cases hcontinues with
    | resumes htask hresumes => exact ⟨⟨found, hfound, hwas⟩, by cases hresumes <;> rfl⟩
    | @ends acted latestStats rest htask before hbefore run produced watching compiler hends =>
      by_cases hacted : acted = session
      · subst hacted
        cases hfound.symm.trans hbefore
        obtain ⟨hended, rfl⟩ := hends.closed' hwas
        refine ⟨⟨⟨found.accepted, watching⟩, by rw [List.getElem?_modify_eq, hfound]; rfl, hended⟩, ?_⟩
        simp [Event.compiles, SessionRun.compiles]
      · refine ⟨⟨found, (List.getElem?_modify_ne _ _ hacted).trans hfound, hwas⟩, ?_⟩
        simp [Event.compiles, hacted]
    | settles => exact ⟨⟨found, hfound, hwas⟩, rfl⟩
  | idleTimer | fileChanges | reads => exact ⟨⟨found, hfound, hwas⟩, rfl⟩

/-- `close` of a session closes it. -/
theorem CompilerStep.sessionClose {call : Call} (h : CompilerStep progress (.sessionClose session call) next) :
    next.HasClosed session := by
  cases h with
  | asks hasks => cases hasks
  | @session acted found hfound _ produced watching compiler hacts =>
    have hacted : acted = session := by cases hacts <;> rfl
    subst hacted
    obtain ⟨hclosed, -⟩ := hacts.closed (.inr (decide_eq_true rfl))
    exact ⟨⟨found.accepted, watching⟩, by rw [List.getElem?_modify_eq, hfound]; rfl, hclosed⟩
  | continues hcontinues =>
    cases hcontinues with
    | resumes htask hresumes => cases hresumes

theorem CompilerRun.hasClosed (h : CompilerRun trace progress) {call : Call}
    (hcall : .sessionClose session call ∈ events trace) : progress.HasClosed session := by
  induction h with
  | start h => cases hcall
  | @step trace progress next last hrun hstep ih =>
    rw [events_concat] at hcall
    rcases List.mem_append.mp hcall with hearlier | hnow
    · exact (hstep.hasClosed (ih hearlier)).1
    · cases List.mem_singleton.mp hnow
      exact hstep.sessionClose

/-- No compilation starts once the session has been closed. -/
theorem not_compiles_of_closed (h : CompilerRun trace progress) {before after : List (CompilerProgress × Event)}
    {state : CompilerProgress} {call : Call} (htrace : trace = before ++ (state, .sessionClose session call) :: after)
    (hevent : event ∈ events after) : event.compiles session = false := by
  obtain ⟨⟨passed, event⟩, hpassed, rfl⟩ := List.mem_map.mp hevent
  obtain ⟨first, second, rfl⟩ := List.append_of_mem hpassed
  have hsplit : trace = (before ++ (state, .sessionClose session call) :: first ++ [(passed, event)]) ++ second := by
    simp [htrace]
  rw [hsplit] at h
  obtain ⟨next, hnext⟩ := h.of_append
  obtain ⟨hrun, hstep⟩ := hnext.last_step
  have hcall : .sessionClose session call ∈ events (before ++ (state, .sessionClose session call) :: first) :=
    List.mem_map.mpr ⟨_, List.mem_append_right _ (List.mem_cons_self ..), rfl⟩
  exact (hstep.hasClosed (CompilerRun.hasClosed hrun hcall)).2

theorem CompilerRun.delivering (h : CompilerRun trace progress) (horderly : OrderlyRun session trace) :
    Delivering session progress := by
  induction h with
  | start h =>
    obtain ⟨writable, files, rfl⟩ := h
    exact ⟨nofun, fun call hcall => absurd hcall (Multiset.notMem_zero _)⟩
  | step hrun hstep ih =>
    have hearlier := ih fun passed hpassed => horderly passed (List.mem_append_left _ hpassed)
    have hlast := horderly _ (List.mem_append_right _ (List.mem_singleton_self _))
    have hsound := CompilerRun.sound (hrun.step hstep)
    exact hearlier.step (CompilerRun.sound hrun).sessions hsound.sessions hstep hlast

theorem CompilerRun.handler (h : CompilerRun trace progress) (horderly : OrderlyRun session trace) :
    times (Event.handles session) trace + count (Task.awaitsHandler session) progress.tasks =
      times (Event.compiles session) trace := by
  induction h with
  | start h =>
    obtain ⟨writable, files, rfl⟩ := h
    rfl
  | @step trace progress next event hrun hstep ih =>
    have hearlier := ih fun passed hpassed => horderly passed (List.mem_append_left _ hpassed)
    have hlast := horderly _ (List.mem_append_right _ (List.mem_singleton_self _))
    have hhandler := hstep.handler session fun calledAgain heq => (by subst heq; exact hlast rfl)
    rw [times_concat, times_concat]
    omega

theorem leftBehind_eq_zero (horderly : OrderlyRun session trace) (call : Call) :
    Callback.watchClose session call ∉ callbacksIn Event.leftBehind trace := by
  induction trace using List.reverseRecOn with
  | nil => exact Multiset.notMem_zero _
  | append_singleton trace last ih =>
    obtain ⟨progress, event⟩ := last
    have hlast := horderly _ (List.mem_append_right _ (List.mem_singleton_self _))
    rw [callbacksIn_concat, Multiset.mem_add, not_or]
    refine ⟨ih fun passed hpassed => horderly passed (List.mem_append_left _ hpassed), fun hleft => ?_⟩
    cases event with
    | closeCallbackThrew acted left =>
      obtain ⟨other, hother, heq⟩ := List.mem_map.mp (Multiset.mem_coe.mp hleft)
      cases heq
      rw [hlast rfl] at hother
      cases hother
    | _ => cases Multiset.notMem_zero _ hleft

/-- The callback of `close` of a session is called when the session does not run and the compiler has let it go. -/
theorem CompilerStep.watchCloseCalled (h : CompilerStep progress event next) {call : Call}
    (hevent : event = .called (.watchClose session call)) (hsound : Sound progress)
    (hdelivering : Delivering session progress) :
    count (Task.runs session) next.tasks = 0 ∧ next.compiler.watching ≠ some session := by
  cases h with
  | asks hasks => cases hasks <;> cases hevent
  | session hfound hacts => cases hacts <;> cases hevent
  | continues hcontinues =>
    cases hcontinues with
    | @resumes task rest htask _ produced compiler hresumes =>
      have hmem : task ∈ progress.tasks := htask ▸ Multiset.mem_cons_self task rest
      have hleft : ∀ found, progress.sessions[session]? = some found → found.watching.Closed →
          count (Task.runs session) rest = 0 := by
        intro found hfound hclosed
        have hidle := (hsound.sessions.fits session found hfound).idle hclosed.2
        rw [htask, count_cons] at hidle
        exact Nat.eq_zero_of_add_eq_zero_right hidle
      cases hresumes with
      | deferred callback hqueued =>
        cases hevent
        obtain ⟨found, hfound⟩ : ∃ found, progress.sessions[session]? = some found :=
          ⟨_, List.getElem?_eq_getElem (hdelivering.known call hmem)⟩
        obtain ⟨hclosed, hended⟩ := (hdelivering.reports found hfound).deferred call hmem
        refine ⟨by simpa using hleft found hfound hclosed, fun howned => ?_⟩
        obtain ⟨callbacks, hfinish⟩ := hended howned
        exact hqueued session call rfl callbacks hfinish
      | finishDeliver acted call' callbacks =>
        cases hevent
        obtain ⟨found, hfound⟩ := hsound.exists_session hmem rfl
        have hfits := hsound.sessions.fits session found hfound
        have hfinishes : count (Task.finishes session) progress.tasks ≠ 0 := by simp [htask, Task.finishes]
        have hdelivers : count (Task.delivers session) progress.tasks ≠ 0 := by simp [htask, Task.delivers]
        have hnone := hleft found hfound (hfits.finishes hfinishes)
        exact ⟨by simpa [Task.runs] using hnone, hfits.delivers hdelivers⟩
      | _ => cases hevent
    | ends => cases hevent
    | settles => cases hevent
  | _ => cases hevent

/-- One compilation of a session at a time. -/
theorem CompilerRun.compilations_le_one (h : CompilerRun trace progress) (session : Nat) :
    count (Task.runs session) progress.tasks ≤ 1 := by
  have hfit := h.sound.sessions
  by_cases hsession : session < progress.sessions.length
  · refine (hfit.fits session _ (List.getElem?_eq_getElem hsession)).runs.trans ?_
    split_ifs <;> omega
  · rw [(OfKind.runs session).count_eq_zero fun task htask heq => hsession (hfit.known task htask session heq)]
    exact Nat.zero_le 1

theorem CompilerRun.closeCallbacks (h : CompilerRun trace progress) (horderly : OrderlyRun session trace) {call : Call}
    (hcall : .sessionClose session call ∈ events trace) :
    timesCalled trace (.watchClose session call) ≤ 1 ∧
      (progress.AtRest → timesCalled trace (.watchClose session call) = 1) := by
  have hone := Multiset.count_eq_one_of_mem (CompilerRun.issued h).1 (mem_issued hcall rfl)
  rw [CompilerRun.callbacks h, Multiset.count_add, Multiset.count_add,
    Multiset.count_eq_zero_of_notMem (leftBehind_eq_zero horderly call)] at hone
  refine ⟨by rw [timesCalled]; omega, fun hrest => ?_⟩
  obtain ⟨hnone, -⟩ := h.sound.atRest hrest
  -- a session that keeps callbacks runs, and a session that runs has a task
  have hheld : Callback.watchClose session call ∉ heldFrom 0 progress.sessions := by
    intro hmem
    obtain ⟨index, found, other, hfound, heq, hother⟩ := mem_heldFrom hmem
    rw [Nat.zero_add] at heq
    cases heq
    have hrunning := (h.sound.sessions.fits session found hfound).closeCallbacks (List.ne_nil_of_mem hother)
    obtain ⟨task, htask, -⟩ := ((CompilerRun.delivering h horderly).reports found hfound).busy hrunning.2
    rw [hnone] at htask
    cases Multiset.notMem_zero task htask
  rw [CompilerProgress.owed, hnone, callbacksOf_zero, zero_add, Multiset.count_eq_zero_of_notMem hheld] at hone
  rw [timesCalled]
  omega

end

/-- In every run that is orderly for a session its callbacks are called exactly once. -/
theorem delivered_of_orderly {session : Nat} {trace : List (CompilerProgress × Event)} {progress : CompilerProgress}
    (h : CompilerRun trace progress) (horderly : OrderlyRun session trace) : Delivered session trace progress where
  compilations := CompilerRun.compilations_le_one h session
  handler := CompilerRun.handler h horderly
  handlerOnce := fun hrest => by
    have hhandler := CompilerRun.handler h horderly
    rw [(h.sound.atRest hrest).1] at hhandler
    exact hhandler
  closed := fun before state call after htrace event hevent => not_compiles_of_closed h htrace hevent
  closeCallbacks := fun call hcall => CompilerRun.closeCallbacks h horderly hcall
  detached := fun before state call htrace => by
    subst htrace
    obtain ⟨hrun, hstep⟩ := h.last_step
    refine hstep.watchCloseCalled rfl (CompilerRun.sound hrun) (CompilerRun.delivering hrun fun passed hpassed => ?_)
    exact horderly passed (List.mem_append_left _ hpassed)
  comesToRest := comesToRest progress

namespace SecondClose

/-- A compiler with a writable cache. The first compilation of its session fails; the session is closed twice, the
second time while the cache is flushed for the first. -/
def started : CompilerProgress := .start true fun _ => none

def compiling : CompilerProgress :=
  { started with
    compiler := { started.compiler with watching := some 0 }
    sessions := [⟨true, WatchingImpl.beginRun {} |>.2⟩]
    tasks := {.watchNative 0 []} }

def failed : CompilerProgress := { compiling with tasks := {.watchHandler 0 none true} }

def reported : CompilerProgress := { compiling with tasks := {.watchEnded 0 none} }

def idle : CompilerProgress := { compiling with sessions := [⟨true, {}⟩], tasks := 0 }

def closing : CompilerProgress :=
  { idle with
    compiler := { idle.compiler with settleCalls := 1, pendingCacheFlush := some 0 }
    sessions := [⟨true, { closed := true }⟩]
    tasks := {.finishFlush 0 [0] (some 0)}
    calls := 1 }

def closedTwice : CompilerProgress :=
  { closing with tasks := .deferred (.watchClose 0 1) ::ₘ {.finishFlush 0 [0] (some 0)}, calls := 2 }

def answered : CompilerProgress := { closedTwice with tasks := {.finishFlush 0 [0] (some 0)} }

def firstSteps : List (CompilerProgress × Event) :=
  [(started, .watch 0 true .started), (compiling, .handlerCalled 0), (failed, .other),
    (reported, .ended 0 none .skipped)]

theorem run_idle : CompilerRun firstSteps idle := by
  have hstart : CompilerRun [] started := .start ⟨true, _, rfl⟩
  have hwatch : CompilerStep started (.watch 0 true .started) compiling :=
    .watch ⟨rfl, rfl, rfl⟩ {} (.started rfl rfl rfl)
  have hfails : CompilerStep compiling (.handlerCalled 0) failed :=
    .continues (.resumes (show _ = Task.watchNative 0 [] ::ₘ 0 from rfl) (.watchFails 0 []))
  have hreturns : CompilerStep failed .other reported :=
    .continues (.resumes (show _ = Task.watchHandler 0 none true ::ₘ 0 from rfl) (.handlerReturns 0 none true))
  have hvalid : SessionEnds reported 0 true (WatchingImpl.beginRun {}).2 none .skipped [] {} idle.compiler :=
    .valid rfl rfl fun _ => true
  have htask : reported.tasks = .watchEnded 0 none ::ₘ 0 := rfl
  have hfound : reported.sessions[0]? = some ⟨true, (WatchingImpl.beginRun {}).2⟩ := rfl
  have hends : CompilerStep reported (.ended 0 none .skipped) idle := .continues (Continues.ends htask hfound hvalid :)
  exact (((hstart.step hwatch).step hfails).step hreturns).step hends

theorem run_closing : CompilerRun (firstSteps ++ [(idle, .sessionClose 0 0)]) closing := by
  have hfirst : SessionActs idle 0 true {} (.sessionClose 0 0) [.finishFlush 0 [0] (some 0)] { closed := true }
      closing.compiler := .close rfl rfl rfl
  have hidle : idle.sessions[0]? = some ⟨true, {}⟩ := rfl
  have hcloses : CompilerStep idle (.sessionClose 0 0) closing := (CompilerStep.session hidle hfirst :)
  exact run_idle.step hcloses

def closeSteps : List (CompilerProgress × Event) :=
  [(idle, .sessionClose 0 0), (closing, .sessionClose 0 1)]

theorem run : CompilerRun (firstSteps ++ closeSteps ++ [(closedTwice, .called (.watchClose 0 1))]) answered := by
  have hsecond : SessionActs closing 0 true { closed := true } (.sessionClose 0 1) [.deferred (.watchClose 0 1)]
      { closed := true } closing.compiler := .closeClosed rfl rfl
  have hclosing : closing.sessions[0]? = some ⟨true, { closed := true }⟩ := rfl
  have hagain : CompilerStep closing (.sessionClose 0 1) closedTwice := (CompilerStep.session hclosing hsecond :)
  have hqueued : ∀ session call, Callback.watchClose 0 1 = .watchClose session call → ∀ callbacks,
      .finishFlush session callbacks none ∉ closedTwice.tasks := by
    intro session call _ callbacks hmem
    simp [closedTwice] at hmem
  have htask : closedTwice.tasks = .deferred (.watchClose 0 1) ::ₘ {.finishFlush 0 [0] (some 0)} := rfl
  have hanswer : CompilerStep closedTwice (.called (.watchClose 0 1)) answered :=
    .continues (Continues.resumes htask (.deferred _ hqueued) :)
  exact (run_closing.step hagain).step hanswer

end SecondClose

/-- The second callback is called although the compiler still holds the session. -/
theorem secondClose_not_delivered :
    CompilerRun (SecondClose.firstSteps ++ SecondClose.closeSteps ++
        [(SecondClose.closedTwice, .called (.watchClose 0 1))]) SecondClose.answered ∧
      ¬Delivered 0 (SecondClose.firstSteps ++ SecondClose.closeSteps ++
        [(SecondClose.closedTwice, .called (.watchClose 0 1))]) SecondClose.answered :=
  ⟨SecondClose.run, fun h => (h.detached _ _ _ rfl).2 rfl⟩

namespace OneClose

open SecondClose

/-- Closed once, the session waits for the flush; then it is detached, and its callback is called. -/
def settled : CompilerProgress := { closing with settled := {0} }

def detached : CompilerProgress :=
  { settled with
    compiler := (settled.compiler.flushed (some 0)).detach 0 true
    tasks := {.finishDeliver 0 [0]} }

def called : CompilerProgress := { detached with tasks := {.finishCallback 0 []} }

def steps : List (CompilerProgress × Event) :=
  firstSteps ++ [(idle, .sessionClose 0 0)] ++ [(closing, .other)] ++ [(settled, .detached 0)] ++
    [(detached, .called (.watchClose 0 0))]

theorem run : CompilerRun steps called := by
  have hsettles : CompilerStep closing .other settled :=
    .continues (.settles (show 0 < closing.compiler.settleCalls from Nat.zero_lt_one) (Finset.notMem_empty 0))
  have hflushed : settled.FlushSettled (some 0) := fun settleCall heq => by
    rw [← Option.some.inj heq]
    exact Finset.mem_singleton_self 0
  have hsession : settled.sessions[0]? = some ⟨true, { closed := true }⟩ := rfl
  have htask : settled.tasks = .finishFlush 0 [0] (some 0) ::ₘ 0 := rfl
  have hdetaches : CompilerStep settled (.detached 0) detached :=
    .continues (Continues.resumes htask (.finishFlush 0 [0] hsession hflushed) :)
  have hcalls : CompilerStep detached (.called (.watchClose 0 0)) called :=
    .continues (.resumes (show _ = Task.finishDeliver 0 [0] ::ₘ 0 from rfl) (.finishDeliver 0 0 []))
  exact ((run_closing.step hsettles).step hdetaches).step hcalls

end OneClose

theorem delivered_oneClose : Delivered 0 OneClose.steps OneClose.called := by
  refine delivered_of_orderly OneClose.run fun passed hpassed => ?_
  simp only [OneClose.steps, SecondClose.firstSteps, List.mem_append, List.mem_cons, List.not_mem_nil, or_false,
    or_assoc] at hpassed
  rcases hpassed with rfl | rfl | rfl | rfl | rfl | rfl | rfl | rfl
  case inr.inr.inr.inr.inl => exact fun _ _ _ hmem => Multiset.notMem_zero _ hmem
  all_goals trivial

end Unpack.Compiler
