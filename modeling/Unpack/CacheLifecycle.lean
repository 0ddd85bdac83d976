import Unpack.Lib.Run
import Mathlib.Data.Option.Basic
import Mathlib.Algebra.Group.Nat.Defs

/-! The lifecycle of a compiler's cache: runs, idle timers, publications, and the callers that settle the cache
or shut it down. The lock over the state is taken and released by each function here once, and what a caller
does between two of them is interleaved with everything else. The clock is an input of each step. Callers that
wait may go on at any time; log events are left out. -/

namespace Unpack.CacheLifecycle

inductive CacheIdleReason where
  | ordinary
  | largeChange
  deriving DecidableEq

structure CacheIdleTimeouts where
  ordinary : Nat
  initialStore : Nat
  afterLargeChange : Nat

inductive CacheActivity where
  | ready
  | active (runId : Nat)
  | idle
  | shuttingDown
  | closed
  deriving DecidableEq

inductive CacheFlushReason where
  | initialStore
  | ordinary
  | largeChange
  deriving DecidableEq

structure ScheduledCacheFlush where
  token : Nat
  deadline : Nat
  reason : CacheFlushReason
  deriving DecidableEq

structure InFlightCacheFlush where
  targetGeneration : Nat
  deriving DecidableEq

structure CacheLifecycleOutcome where
  diagnostic : Option String := none
  deriving DecidableEq

structure CacheLifecycleState where
  activity : CacheActivity := .ready
  shutdownRunId : Option Nat := none
  scheduled : Option ScheduledCacheFlush := none
  flush : Option InFlightCacheFlush := none
  diagnostic : Option String := none
  shutdownOutcome : Option CacheLifecycleOutcome := none
  initialStoreDeadline : Option Nat := none
  ordinaryDeadline : Option Nat := none
  largeChangeDeadline : Option Nat := none
  nextRunId : Nat := 1
  nextTimerToken : Nat := 1
  deriving DecidableEq

inductive LifecycleError where
  | compilerBusy
  | compilerClosed
  deriving DecidableEq

/-- `saturating_add(1)` of a 64-bit number. -/
def saturatingSucc (value : Nat) : Nat := min (value + 1) (2 ^ 64 - 1)

/-- What the lifecycle reads of the cache. -/
structure CacheGenerations where
  writable : Bool
  dirtyGeneration : Nat := 0
  publishedGeneration : Nat := 0
  initialStorePending : Bool
  deriving DecidableEq

namespace CacheGenerations

def pendingGeneration (cache : CacheGenerations) : Option Nat :=
  if cache.writable ∧ cache.publishedGeneration < cache.dirtyGeneration then some cache.dirtyGeneration
  else none

def markDirty (cache : CacheGenerations) : CacheGenerations :=
  { cache with dirtyGeneration := cache.dirtyGeneration + 1 }

/-- How writing the cache goes, should it come to that, or else that the task is lost. -/
inductive PublicationAnswer where
  | written
  | failed (error : String)
  | taskFailed (error : String)
  deriving DecidableEq

def publishGeneration (cache : CacheGenerations) (targetGeneration : Nat) :
    PublicationAnswer → CacheGenerations × Except String Unit
  | .taskFailed error => (cache, .error ("cache publication task failed: " ++ error))
  | .failed error =>
      if cache.writable = false ∨ targetGeneration ≤ cache.publishedGeneration then (cache, .ok ())
      else (cache, .error error)
  | .written =>
      if cache.writable = false ∨ targetGeneration ≤ cache.publishedGeneration then (cache, .ok ())
      else
        ({ cache with
            publishedGeneration := max cache.publishedGeneration targetGeneration
            initialStorePending := false }, .ok ())

end CacheGenerations

open CacheGenerations

namespace CacheLifecycleState

def endIdle (state : CacheLifecycleState) : Except LifecycleError (CacheLifecycleState × Nat) :=
  match state.activity with
  | .active _ => .error .compilerBusy
  | .shuttingDown | .closed => .error .compilerClosed
  | .ready | .idle =>
      .ok ({ state with
        scheduled := none
        ordinaryDeadline := none
        largeChangeDeadline := none
        nextRunId := saturatingSucc state.nextRunId
        activity := .active state.nextRunId }, state.nextRunId)

def clearDeadlines (state : CacheLifecycleState) : CacheLifecycleState :=
  { state with initialStoreDeadline := none, ordinaryDeadline := none, largeChangeDeadline := none }

/-- With whether an idle timer is to be scheduled. -/
def beginIdle (timeouts : CacheIdleTimeouts) (cache : CacheGenerations) (now runId : Nat)
    (idleReason : CacheIdleReason) (state : CacheLifecycleState) : CacheLifecycleState × Bool :=
  if state.activity = .shuttingDown ∧ state.shutdownRunId = some runId then
    ({ state with shutdownRunId := none }, false)
  else if state.activity ≠ .active runId then (state, false)
  else if cache.pendingGeneration.isSome then
    ({ state with
        activity := .idle
        ordinaryDeadline := some (now + timeouts.ordinary)
        initialStoreDeadline :=
          if cache.initialStorePending ∧ state.initialStoreDeadline = none then
            some (now + timeouts.initialStore)
          else state.initialStoreDeadline
        largeChangeDeadline :=
          if idleReason = .largeChange then some (now + timeouts.afterLargeChange)
          else state.largeChangeDeadline }, state.flush.isNone)
  else ({ state.clearDeadlines with activity := .idle }, false)

/-- The first of the earliest deadlines. -/
def earliestDeadline (state : CacheLifecycleState) : Option (CacheFlushReason × Nat) :=
  [(CacheFlushReason.initialStore, state.initialStoreDeadline),
    (.largeChange, state.largeChangeDeadline), (.ordinary, state.ordinaryDeadline)].foldl
    (fun earliest entry =>
      match earliest, entry.2 with
      | earliest, none => earliest
      | none, some deadline => some (entry.1, deadline)
      | some (reason, least), some deadline =>
          if deadline < least then some (entry.1, deadline) else some (reason, least)) none

/-- With the token and the target of the timer, if one is to be started. -/
def scheduleIdleTimer (timeouts : CacheIdleTimeouts) (cache : CacheGenerations) (now : Nat)
    (state : CacheLifecycleState) : CacheLifecycleState × Option (Nat × Nat) :=
  if state.activity ≠ .idle ∨ state.flush.isSome ∨ state.scheduled.isSome then (state, none)
  else
    match cache.pendingGeneration with
    | none => (state.clearDeadlines, none)
    | some targetGeneration =>
        let state := { state with
          ordinaryDeadline := some (state.ordinaryDeadline.getD (now + timeouts.ordinary))
          initialStoreDeadline :=
            if cache.initialStorePending ∧ state.initialStoreDeadline = none then
              some (now + timeouts.initialStore)
            else state.initialStoreDeadline }
        match state.earliestDeadline with
        | none => (state, none)
        | some (reason, deadline) =>
            ({ state with
                nextTimerToken := saturatingSucc state.nextTimerToken
                scheduled := some ⟨state.nextTimerToken, deadline, reason⟩ },
              some (state.nextTimerToken, targetGeneration))

def clearDeadline (state : CacheLifecycleState) : CacheFlushReason → CacheLifecycleState
  | .initialStore => { state with initialStoreDeadline := none }
  | .ordinary => { state with ordinaryDeadline := none }
  | .largeChange => { state with largeChangeDeadline := none }

/-- The first part of `fire_timer`; a timer that is no longer wanted goes no further. -/
def takeScheduled (now token : Nat) (state : CacheLifecycleState) : Option CacheLifecycleState :=
  if state.activity ≠ .idle then none
  else
    match state.scheduled.filter (·.token = token) with
    | none => none
    | some scheduled =>
        if now < scheduled.deadline then none
        else some (clearDeadline { state with scheduled := none } scheduled.reason)

/-- The second part of `fire_timer`. -/
def startTimed (targetGeneration : Nat) (state : CacheLifecycleState) : Option CacheLifecycleState :=
  if state.activity ≠ .idle ∨ state.flush.isSome then none
  else some { state with flush := some ⟨targetGeneration⟩ }

/-- `perform_flush` after the publication, with whether an idle timer is to be scheduled. -/
def finishFlush (cache : CacheGenerations) (targetGeneration : Nat) (result : Except String Unit)
    (state : CacheLifecycleState) : CacheLifecycleState × Bool :=
  let state :=
    if state.flush.any (·.targetGeneration = targetGeneration) then { state with flush := none } else state
  match result with
  | .ok () =>
      if cache.pendingGeneration.isNone then (state.clearDeadlines, false)
      else (state, state.activity = .idle ∧ state.scheduled.isNone)
  | .error error => ({ state with diagnostic := some error }, false)

inductive Action where
  | start (targetGeneration : Nat)
  | wait
  | done (outcome : CacheLifecycleOutcome)
  deriving DecidableEq

def isActive (state : CacheLifecycleState) : Bool :=
  match state.activity with
  | .active _ => true
  | _ => false

def readyIfIdle (state : CacheLifecycleState) : CacheLifecycleState :=
  if state.activity = .idle then { state with activity := .ready } else state

/-- `settle` up to its question for the pending generation, which it asks without the lock. -/
def settleLook (state : CacheLifecycleState) : CacheLifecycleState × Option Action :=
  let state := { state with scheduled := none, ordinaryDeadline := none, largeChangeDeadline := none }
  match state.diagnostic with
  | some diagnostic =>
      ({ state with diagnostic := none }.readyIfIdle, some (.done { diagnostic := some diagnostic }))
  | none => if state.isActive ∨ state.flush.isSome then (state, some .wait) else (state, none)

/-- `settle` after the answer. -/
def settleAct (target : Option Nat) (state : CacheLifecycleState) : CacheLifecycleState × Action :=
  if state.isActive ∨ state.flush.isSome then (state, .wait)
  else
    match target with
    | some targetGeneration => ({ state with flush := some ⟨targetGeneration⟩ }, .start targetGeneration)
    | none => (state.readyIfIdle, .done {})

inductive ShutdownLook where
  | done (outcome : CacheLifecycleOutcome)
  | retry
  | wait
  | ask (diagnostic : Option String)
  deriving DecidableEq

def beginShutdown (state : CacheLifecycleState) : CacheLifecycleState :=
  { state.clearDeadlines with activity := .shuttingDown, scheduled := none }

/-- `shutdown` up to its question for the pending generation. The diagnostic is taken along. -/
def shutdownLook (state : CacheLifecycleState) : CacheLifecycleState × ShutdownLook :=
  match state.activity with
  | .closed => (state, .done (state.shutdownOutcome.getD {}))
  | .ready | .idle => (state.beginShutdown, .retry)
  | .active runId => ({ state.beginShutdown with shutdownRunId := some runId }, .retry)
  | .shuttingDown =>
      if state.shutdownRunId.isSome ∨ state.flush.isSome then (state, .wait)
      else ({ state with diagnostic := none }, .ask state.diagnostic)

/-- `shutdown` after the answer. -/
def shutdownAct (diagnostic : Option String) (target : Option Nat) (state : CacheLifecycleState) :
    CacheLifecycleState × Action :=
  if state.shutdownRunId.isSome ∨ state.flush.isSome then (state, .wait)
  else
    match diagnostic, target with
    | some diagnostic, _ =>
        let outcome := { diagnostic := some diagnostic }
        ({ state with activity := .closed, shutdownOutcome := some outcome }, .done outcome)
    | none, some targetGeneration =>
        ({ state with flush := some ⟨targetGeneration⟩ }, .start targetGeneration)
    | none, none =>
        ({ state with activity := .closed, shutdownOutcome := some {} }, .done {})

end CacheLifecycleState

inductive FlushCaller where
  | timer
  | settle
  | shutdown
  deriving DecidableEq

/-- Where an actor is between two of its turns. -/
inductive Point where
  | run (runId : Nat) (idleReason : CacheIdleReason)
  | scheduling (caller : FlushCaller)
  | timer (token targetGeneration : Nat)
  | fired (targetGeneration : Nat)
  | starting (targetGeneration : Nat)
  | publishing (caller : FlushCaller) (targetGeneration : Nat)
  | published (caller : FlushCaller) (targetGeneration : Nat) (result : Except String Unit)
  | settling
  | settleAsking
  | settleAsked (target : Option Nat)
  | shutting
  | shutdownAsking (diagnostic : Option String)
  | shutdownAsked (diagnostic : Option String) (target : Option Nat)
  | finished
  | settled (outcome : CacheLifecycleOutcome)
  | shut (outcome : CacheLifecycleOutcome)

def FlushCaller.resume : FlushCaller → Point
  | timer => .finished
  | settle => .settling
  | shutdown => .shutting

structure LifecycleSystem where
  state : CacheLifecycleState := {}
  cache : CacheGenerations
  actors : List Point := []

/-- An actor is named by its position. Preparing a run may mark the cache before the run becomes active. -/
inductive LifecycleEvent where
  | run (idleReason : CacheIdleReason)
  | settle
  | shutdown
  | prepare
  | store (actor : Nat)
  | turn (actor now : Nat) (answer : PublicationAnswer)
  deriving DecidableEq

section

variable (timeouts : CacheIdleTimeouts)

open CacheLifecycleState

/-- What a turn makes of the state and the cache, where the actor goes on, and what it starts. -/
structure Turned where
  state : CacheLifecycleState
  cache : CacheGenerations
  point : Point
  started : List Point := []

def settlePoint : Option Action → Point
  | none => .settleAsking
  | some (.start targetGeneration) => .publishing .settle targetGeneration
  | some .wait => .settling
  | some (.done outcome) => .settled outcome

def shutdownPoint : Action → Point
  | .start targetGeneration => .publishing .shutdown targetGeneration
  | .wait => .shutting
  | .done outcome => .shut outcome

def shutdownLookPoint : ShutdownLook → Point
  | .done outcome => .shut outcome
  | .retry | .wait => .shutting
  | .ask diagnostic => .shutdownAsking diagnostic

def turn (state : CacheLifecycleState) (cache : CacheGenerations) (now : Nat) (answer : PublicationAnswer) :
    Point → Option Turned
  | .run runId idleReason =>
      let (state, shouldSchedule) := state.beginIdle timeouts cache now runId idleReason
      some { state, cache, point := if shouldSchedule then .scheduling .timer else .finished }
  | .scheduling caller =>
      let (state, plan) := state.scheduleIdleTimer timeouts cache now
      some { state, cache, point := caller.resume,
             started := plan.toList.map fun (token, targetGeneration) => .timer token targetGeneration }
  | .timer token targetGeneration =>
      match state.takeScheduled now token with
      | none => some { state, cache, point := .finished }
      | some state => some { state, cache, point := .fired targetGeneration }
  | .fired targetGeneration =>
      match cache.pendingGeneration with
      | none => some { state, cache, point := .finished }
      | some current => some { state, cache, point := .starting (max current targetGeneration) }
  | .starting targetGeneration =>
      match state.startTimed targetGeneration with
      | none => some { state, cache, point := .finished }
      | some state => some { state, cache, point := .publishing .timer targetGeneration }
  | .publishing caller targetGeneration =>
      let (cache, result) := cache.publishGeneration targetGeneration answer
      some { state, cache, point := .published caller targetGeneration result }
  | .published caller targetGeneration result =>
      let (state, shouldSchedule) := state.finishFlush cache targetGeneration result
      some { state, cache, point := if shouldSchedule then .scheduling caller else caller.resume }
  | .settling =>
      let (state, action) := state.settleLook
      some { state, cache, point := settlePoint action }
  | .settleAsking => some { state, cache, point := .settleAsked cache.pendingGeneration }
  | .settleAsked target =>
      let (state, action) := state.settleAct target
      some { state, cache, point := settlePoint (some action) }
  | .shutting =>
      let (state, look) := state.shutdownLook
      some { state, cache, point := shutdownLookPoint look }
  | .shutdownAsking diagnostic =>
      some { state, cache, point := .shutdownAsked diagnostic cache.pendingGeneration }
  | .shutdownAsked diagnostic target =>
      let (state, action) := state.shutdownAct diagnostic target
      some { state, cache, point := shutdownPoint action }
  | .finished | .settled _ | .shut _ => none

/-- One step of the system, unless the event is none of it. A run that is refused changes nothing. -/
def LifecycleSystem.step (system : LifecycleSystem) : LifecycleEvent → Option LifecycleSystem
  | .run idleReason =>
      match system.state.endIdle with
      | .error _ => none
      | .ok (state, runId) => some { system with state, actors := system.actors ++ [.run runId idleReason] }
  | .settle => some { system with actors := system.actors ++ [.settling] }
  | .shutdown => some { system with actors := system.actors ++ [.shutting] }
  | .prepare => some { system with cache := system.cache.markDirty }
  | .store actor =>
      match system.actors[actor]? with
      | some (.run _ _) => some { system with cache := system.cache.markDirty }
      | _ => none
  | .turn actor now answer => do
      let point ← system.actors[actor]?
      let turned ← turn timeouts system.state system.cache now answer point
      return { state := turned.state, cache := turned.cache,
               actors := system.actors.set actor turned.point ++ turned.started }

def LifecycleStep (system : LifecycleSystem) (event : LifecycleEvent) (next : LifecycleSystem) : Prop :=
  system.step timeouts event = some next

/-- A new compiler, with nothing stored yet. -/
def LifecycleStart (system : LifecycleSystem) : Prop :=
  system.state = {} ∧ system.actors = [] ∧ system.cache.dirtyGeneration = system.cache.publishedGeneration

abbrev LifecycleRun : List (LifecycleSystem × LifecycleEvent) → LifecycleSystem → Prop :=
  Interleaving.Run LifecycleStart (LifecycleStep timeouts)

end

end Unpack.CacheLifecycle
