import Unpack.CacheLifecycle
import Unpack.Lib.Roles

/-! What a turn of the cache lifecycle can do, said once for each kind of turn: which roles its actor had, which
it goes on with, and what becomes of the parts of the state that decide. -/

namespace Unpack.CacheLifecycle

open CacheGenerations CacheLifecycleState Roles

namespace Point

/-- The target of a publication that is running, or ended but not recorded. -/
def inFlight : Point → Option Nat
  | publishing _ targetGeneration | published _ targetGeneration _ => some targetGeneration
  | _ => none

/-- The run that an actor is to end. -/
def guard : Point → Option Nat
  | run runId _ => some runId
  | _ => none

/-- Between the two sections of `shutdown`. -/
def Asking : Point → Prop
  | shutdownAsking _ | shutdownAsked _ _ => True
  | _ => False

/-- The failure that a caller has taken along or has returned. -/
def carries : Point → Option String
  | shutdownAsking diagnostic | shutdownAsked diagnostic _ => diagnostic
  | settled outcome | shut outcome => outcome.diagnostic
  | _ => none

/-- The failure that the next turn records. -/
def failure : Point → Option String
  | published _ _ (.error error) => some error
  | _ => none

/-- The point plays none of the roles. -/
structure Plain (point : Point) : Prop where
  inFlight : point.inFlight = none
  guard : point.guard = none
  asking : ¬ point.Asking
  carries : point.carries = none
  failure : point.failure = none
  shut : ∀ outcome, point ≠ .shut outcome

end Point

theorem FlushCaller.resume_plain (caller : FlushCaller) : caller.resume.Plain := by
  cases caller <;> exact ⟨rfl, rfl, id, rfl, rfl, nofun⟩

namespace CacheLifecycleState

/-- The run whose end is awaited. -/
def openRun (state : CacheLifecycleState) : Option Nat :=
  match state.activity with
  | .active runId => some runId
  | _ => state.shutdownRunId

def ShutdownStarted (state : CacheLifecycleState) : Prop :=
  state.activity = .shuttingDown ∨ state.activity = .closed

/-- No run is open and none will be. -/
def Quiet (state : CacheLifecycleState) : Prop := state.ShutdownStarted ∧ state.shutdownRunId = none

/-- Closed, and further callers of shutdown are told that all went well. -/
def ClosedCleanly (state : CacheLifecycleState) : Prop :=
  state.activity = .closed ∧ state.shutdownOutcome.getD {} = {}

end CacheLifecycleState

/-- Two states that differ in timers, deadlines and the diagnostic, or in that the latter is no longer idle. -/
structure Alike (before after : CacheLifecycleState) : Prop where
  activity : after.activity = before.activity ∨ before.activity = .idle ∧ after.activity = .ready
  shutdownRunId : after.shutdownRunId = before.shutdownRunId
  shutdownOutcome : after.shutdownOutcome = before.shutdownOutcome
  flush : after.flush = before.flush

/-- A turn of an actor at a point, by what it leaves changed. -/
inductive TurnOf (state : CacheLifecycleState) (cache : CacheGenerations) :
    Point → CacheLifecycleState → CacheGenerations → Point → Prop where
  /-- The run that a shutdown waits for ends. -/
  | released {runId : Nat} {idleReason : CacheIdleReason} (hactivity : state.activity = .shuttingDown)
      (hrun : state.shutdownRunId = some runId) :
      TurnOf state cache (.run runId idleReason) { state with shutdownRunId := none } cache .finished
  /-- The end of a run that is not the open one. -/
  | ignored {runId : Nat} {idleReason : CacheIdleReason} (hactivity : state.activity ≠ .active runId)
      (hshutdown : ¬ (state.activity = .shuttingDown ∧ state.shutdownRunId = some runId)) :
      TurnOf state cache (.run runId idleReason) state cache .finished
  | idled {runId : Nat} {idleReason : CacheIdleReason} {after : CacheLifecycleState} {point : Point}
      (hbefore : state.activity = .active runId) (hactivity : after.activity = .idle)
      (hrun : after.shutdownRunId = state.shutdownRunId) (hflush : after.flush = state.flush)
      (hdiagnostic : after.diagnostic = state.diagnostic) (hpoint : point.Plain) :
      TurnOf state cache (.run runId idleReason) after cache point
  | plain {before point : Point} {after : CacheLifecycleState} (hbefore : before.Plain) (hpoint : point.Plain)
      (halike : Alike state after) (hdiagnostic : after.diagnostic = state.diagnostic) :
      TurnOf state cache before after cache point
  /-- `settle` returns a diagnostic. -/
  | reports {after : CacheLifecycleState} {diagnostic : String} (halike : Alike state after)
      (htaken : state.diagnostic = some diagnostic) :
      TurnOf state cache .settling after cache (.settled { diagnostic := some diagnostic })
  | starts {before : Point} {caller : FlushCaller} {targetGeneration : Nat} (hguard : before.guard = none)
      (hinFlight : before.inFlight = none) (hcarries : before.carries = none) (hfailure : before.failure = none)
      (hflush : state.flush = none)
      (hsource : before = .settleAsked (some targetGeneration) ∨
        before = .shutdownAsked none (some targetGeneration) ∨ state.activity = .idle) :
      TurnOf state cache before { state with flush := some ⟨targetGeneration⟩ } cache
        (.publishing caller targetGeneration)
  | publishes {caller : FlushCaller} {targetGeneration : Nat} {later : CacheGenerations}
      {result : Except String Unit}
      (hpending : cache.pendingGeneration = none → later.pendingGeneration = none) :
      TurnOf state cache (.publishing caller targetGeneration) state later
        (.published caller targetGeneration result)
  | records {caller : FlushCaller} {targetGeneration : Nat} {result : Except String Unit}
      {after : CacheLifecycleState} {point : Point} (hactivity : after.activity = state.activity)
      (hrun : after.shutdownRunId = state.shutdownRunId)
      (houtcome : after.shutdownOutcome = state.shutdownOutcome)
      (hflush : state.flush = some ⟨targetGeneration⟩ → after.flush = none)
      (hdiagnostic : after.diagnostic = match result with
        | .ok () => state.diagnostic
        | .error error => some error) (hpoint : point.Plain) :
      TurnOf state cache (.published caller targetGeneration result) after cache point
  | begins (hactivity : state.activity = .ready ∨ state.activity = .idle) :
      TurnOf state cache .shutting state.beginShutdown cache .shutting
  | beginsDuring {runId : Nat} (hactivity : state.activity = .active runId) :
      TurnOf state cache .shutting { state.beginShutdown with shutdownRunId := some runId } cache .shutting
  | repeats (hactivity : state.activity = .closed) :
      TurnOf state cache .shutting state cache (.shut (state.shutdownOutcome.getD {}))
  | asks (hactivity : state.activity = .shuttingDown) (hrun : state.shutdownRunId = none) :
      TurnOf state cache .shutting { state with diagnostic := none } cache
        (.shutdownAsking state.diagnostic)
  | asked {diagnostic : Option String} :
      TurnOf state cache (.shutdownAsking diagnostic) state cache
        (.shutdownAsked diagnostic cache.pendingGeneration)
  | drops {diagnostic : Option String} {target : Option Nat}
      (hbusy : state.shutdownRunId.isSome ∨ state.flush.isSome) :
      TurnOf state cache (.shutdownAsked diagnostic target) state cache .shutting
  | closes {diagnostic : Option String} {target : Option Nat} (hrun : state.shutdownRunId = none)
      (hflush : state.flush = none) (htarget : diagnostic = none → target = none) :
      TurnOf state cache (.shutdownAsked diagnostic target)
        { state with activity := .closed, shutdownOutcome := some { diagnostic } } cache
        (.shut { diagnostic })

section

variable {timeouts : CacheIdleTimeouts} {state : CacheLifecycleState} {cache : CacheGenerations}
  {now : Nat} {answer : PublicationAnswer} {turned : Turned}

theorem Alike.refl (state : CacheLifecycleState) : Alike state state := ⟨Or.inl rfl, rfl, rfl, rfl⟩

theorem readyIfIdle_alike (state : CacheLifecycleState) :
    Alike state state.readyIfIdle ∧ state.readyIfIdle.diagnostic = state.diagnostic := by
  rw [readyIfIdle]
  split_ifs with h
  · exact ⟨⟨Or.inr ⟨h, rfl⟩, rfl, rfl, rfl⟩, rfl⟩
  · exact ⟨Alike.refl state, rfl⟩

theorem scheduling_plain (shouldSchedule : Bool) (caller : FlushCaller) :
    (if shouldSchedule then Point.scheduling caller else caller.resume).Plain := by
  split_ifs
  · exact ⟨rfl, rfl, id, rfl, rfl, nofun⟩
  · exact caller.resume_plain

theorem turnOf_run {runId : Nat} {idleReason : CacheIdleReason}
    (hturn : turn timeouts state cache now answer (.run runId idleReason) = some turned) :
    TurnOf state cache (.run runId idleReason) turned.state turned.cache turned.point ∧ turned.started = [] := by
  rw [turn] at hturn
  generalize hbegun : state.beginIdle timeouts cache now runId idleReason = begun at hturn
  cases hturn
  refine ⟨?_, rfl⟩
  rw [beginIdle] at hbegun
  by_cases hshutdown : state.activity = .shuttingDown ∧ state.shutdownRunId = some runId
  · rw [if_pos hshutdown] at hbegun
    subst hbegun
    exact .released hshutdown.1 hshutdown.2
  rw [if_neg hshutdown] at hbegun
  by_cases hactivity : state.activity = .active runId
  · rw [if_neg (not_not_intro hactivity)] at hbegun
    by_cases hpending : cache.pendingGeneration.isSome = true
    · rw [if_pos hpending] at hbegun
      subst hbegun
      exact .idled hactivity rfl rfl rfl rfl (scheduling_plain _ .timer)
    · rw [if_neg hpending] at hbegun
      subst hbegun
      exact .idled hactivity rfl rfl rfl rfl (scheduling_plain false .timer)
  · rw [if_pos hactivity] at hbegun
    subst hbegun
    exact .ignored hactivity hshutdown

theorem scheduleIdleTimer_alike :
    Alike state (state.scheduleIdleTimer timeouts cache now).1 ∧
      (state.scheduleIdleTimer timeouts cache now).1.diagnostic = state.diagnostic := by
  rw [scheduleIdleTimer]
  by_cases hbusy : state.activity ≠ .idle ∨ state.flush.isSome ∨ state.scheduled.isSome
  · rw [if_pos hbusy]
    exact ⟨Alike.refl state, rfl⟩
  rw [if_neg hbusy]
  cases cache.pendingGeneration with
  | none => exact ⟨⟨Or.inl rfl, rfl, rfl, rfl⟩, rfl⟩
  | some targetGeneration =>
      dsimp only
      split
      · exact ⟨⟨Or.inl rfl, rfl, rfl, rfl⟩, rfl⟩
      · exact ⟨⟨Or.inl rfl, rfl, rfl, rfl⟩, rfl⟩

theorem turnOf_scheduling {caller : FlushCaller}
    (hturn : turn timeouts state cache now answer (.scheduling caller) = some turned) :
    TurnOf state cache (.scheduling caller) turned.state turned.cache turned.point ∧
      ∀ point ∈ turned.started, point.Plain := by
  rw [turn] at hturn
  have halike := @scheduleIdleTimer_alike timeouts state cache now
  generalize state.scheduleIdleTimer timeouts cache now = scheduled at hturn halike
  cases hturn
  refine ⟨.plain ⟨rfl, rfl, id, rfl, rfl, nofun⟩ caller.resume_plain halike.1 halike.2, ?_⟩
  intro point hpoint
  obtain ⟨timer, _, rfl⟩ := List.mem_map.mp hpoint
  exact ⟨rfl, rfl, id, rfl, rfl, nofun⟩

theorem clearDeadline_alike (reason : CacheFlushReason) :
    Alike state (state.clearDeadline reason) ∧ (state.clearDeadline reason).diagnostic = state.diagnostic := by
  cases reason <;> exact ⟨⟨Or.inl rfl, rfl, rfl, rfl⟩, rfl⟩

theorem takeScheduled_alike {token : Nat} {after : CacheLifecycleState}
    (h : state.takeScheduled now token = some after) :
    Alike state after ∧ after.diagnostic = state.diagnostic := by
  rw [takeScheduled] at h
  split_ifs at h with hactivity
  cases hscheduled : state.scheduled.filter (·.token = token) with
  | none =>
      rw [hscheduled] at h
      cases h
  | some scheduled =>
      rw [hscheduled] at h
      dsimp only at h
      split_ifs at h with hdeadline
      cases h
      obtain ⟨halike, hdiagnostic⟩ :=
        @clearDeadline_alike { state with scheduled := none } scheduled.reason
      exact ⟨⟨halike.activity, halike.shutdownRunId, halike.shutdownOutcome, halike.flush⟩, hdiagnostic⟩

theorem turnOf_timer {token targetGeneration : Nat}
    (hturn : turn timeouts state cache now answer (.timer token targetGeneration) = some turned) :
    TurnOf state cache (.timer token targetGeneration) turned.state turned.cache turned.point ∧
      turned.started = [] := by
  rw [turn] at hturn
  cases htaken : state.takeScheduled now token with
  | none =>
      rw [htaken] at hturn
      cases hturn
      exact ⟨.plain ⟨rfl, rfl, id, rfl, rfl, nofun⟩ ⟨rfl, rfl, id, rfl, rfl, nofun⟩ (Alike.refl state) rfl, rfl⟩
  | some after =>
      rw [htaken] at hturn
      cases hturn
      obtain ⟨halike, hdiagnostic⟩ := takeScheduled_alike htaken
      exact ⟨.plain ⟨rfl, rfl, id, rfl, rfl, nofun⟩ ⟨rfl, rfl, id, rfl, rfl, nofun⟩ halike hdiagnostic, rfl⟩

theorem turnOf_fired {targetGeneration : Nat}
    (hturn : turn timeouts state cache now answer (.fired targetGeneration) = some turned) :
    TurnOf state cache (.fired targetGeneration) turned.state turned.cache turned.point ∧ turned.started = [] := by
  rw [turn] at hturn
  cases hpending : cache.pendingGeneration with
  | none =>
      rw [hpending] at hturn
      cases hturn
      exact ⟨.plain ⟨rfl, rfl, id, rfl, rfl, nofun⟩ ⟨rfl, rfl, id, rfl, rfl, nofun⟩ (Alike.refl state) rfl, rfl⟩
  | some current =>
      rw [hpending] at hturn
      cases hturn
      exact ⟨.plain ⟨rfl, rfl, id, rfl, rfl, nofun⟩ ⟨rfl, rfl, id, rfl, rfl, nofun⟩ (Alike.refl state) rfl, rfl⟩

theorem turnOf_starting {targetGeneration : Nat}
    (hturn : turn timeouts state cache now answer (.starting targetGeneration) = some turned) :
    TurnOf state cache (.starting targetGeneration) turned.state turned.cache turned.point ∧
      turned.started = [] := by
  rw [turn] at hturn
  by_cases hbusy : state.activity ≠ .idle ∨ state.flush.isSome
  · rw [startTimed, if_pos hbusy] at hturn
    cases hturn
    exact ⟨.plain ⟨rfl, rfl, id, rfl, rfl, nofun⟩ ⟨rfl, rfl, id, rfl, rfl, nofun⟩ (Alike.refl state) rfl, rfl⟩
  · rw [startTimed, if_neg hbusy] at hturn
    cases hturn
    obtain ⟨hidle, hflush⟩ := not_or.mp hbusy
    exact ⟨.starts rfl rfl rfl rfl (Option.not_isSome_iff_eq_none.mp hflush)
      (Or.inr (Or.inr (not_not.mp hidle))), rfl⟩

theorem publishGeneration_pending {targetGeneration : Nat} (h : cache.pendingGeneration = none) :
    (cache.publishGeneration targetGeneration answer).1.pendingGeneration = none := by
  cases answer with
  | taskFailed error => exact h
  | failed error =>
      rw [publishGeneration]
      split_ifs <;> exact h
  | written =>
      rw [publishGeneration]
      split_ifs with hskipped
      · exact h
      · have hclean : ¬ (cache.writable = true ∧ cache.publishedGeneration < cache.dirtyGeneration) := by
          intro hpending
          rw [pendingGeneration, if_pos hpending] at h
          cases h
        refine if_neg fun hpending => hclean ⟨hpending.1, ?_⟩
        exact Nat.lt_of_le_of_lt (Nat.le_max_left _ _) hpending.2

theorem turnOf_publishing {caller : FlushCaller} {targetGeneration : Nat}
    (hturn : turn timeouts state cache now answer (.publishing caller targetGeneration) = some turned) :
    TurnOf state cache (.publishing caller targetGeneration) turned.state turned.cache turned.point ∧
      turned.started = [] := by
  rw [turn] at hturn
  cases hturn
  exact ⟨.publishes publishGeneration_pending, rfl⟩

theorem turnOf_published {caller : FlushCaller} {targetGeneration : Nat} {result : Except String Unit}
    (hturn : turn timeouts state cache now answer (.published caller targetGeneration result) = some turned) :
    TurnOf state cache (.published caller targetGeneration result) turned.state turned.cache turned.point ∧
      turned.started = [] := by
  rw [turn] at hturn
  generalize hfinished : state.finishFlush cache targetGeneration result = finished at hturn
  cases hturn
  refine ⟨?_, rfl⟩
  unfold finishFlush at hfinished
  dsimp only at hfinished
  generalize hended : (if state.flush.any (·.targetGeneration = targetGeneration) then
    { state with flush := none } else state) = ended at hfinished
  have hflush : state.flush = some ⟨targetGeneration⟩ → ended.flush = none := by
    intro h
    rw [h, Option.any_some, if_pos (decide_eq_true rfl)] at hended
    rw [← hended]
  obtain ⟨hactivity, hrun, houtcome, hdiagnostic⟩ : ended.activity = state.activity ∧
      ended.shutdownRunId = state.shutdownRunId ∧ ended.shutdownOutcome = state.shutdownOutcome ∧
        ended.diagnostic = state.diagnostic := by
    rw [← hended]
    split_ifs <;> exact ⟨rfl, rfl, rfl, rfl⟩
  cases result with
  | error error =>
      subst hfinished
      exact .records hactivity hrun houtcome hflush rfl (scheduling_plain false caller)
  | ok =>
      dsimp only at hfinished
      split_ifs at hfinished
      · subst hfinished
        exact .records hactivity hrun houtcome hflush hdiagnostic (scheduling_plain false caller)
      · subst hfinished
        exact .records hactivity hrun houtcome hflush hdiagnostic (scheduling_plain _ caller)

theorem settleLook_cases : Alike state state.settleLook.1 ∧
    ((∃ diagnostic, state.diagnostic = some diagnostic ∧
        settlePoint state.settleLook.2 = .settled { diagnostic := some diagnostic }) ∨
      state.settleLook.1.diagnostic = state.diagnostic ∧ (settlePoint state.settleLook.2).Plain) := by
  rw [settleLook]
  cases hdiagnostic : state.diagnostic with
  | some diagnostic =>
      obtain ⟨halike, _⟩ := readyIfIdle_alike { state with
        scheduled := none, ordinaryDeadline := none, largeChangeDeadline := none, diagnostic := none }
      refine ⟨⟨halike.activity, halike.shutdownRunId, halike.shutdownOutcome, halike.flush⟩, Or.inl ?_⟩
      exact ⟨diagnostic, rfl, rfl⟩
  | none =>
      dsimp only
      split_ifs with hbusy
      · exact ⟨⟨Or.inl rfl, rfl, rfl, rfl⟩, Or.inr ⟨rfl, rfl, rfl, id, rfl, rfl, nofun⟩⟩
      · exact ⟨⟨Or.inl rfl, rfl, rfl, rfl⟩, Or.inr ⟨rfl, rfl, rfl, id, rfl, rfl, nofun⟩⟩

theorem turnOf_settling (hturn : turn timeouts state cache now answer .settling = some turned) :
    TurnOf state cache .settling turned.state turned.cache turned.point ∧ turned.started = [] := by
  rw [turn] at hturn
  cases hturn
  refine ⟨?_, rfl⟩
  obtain ⟨halike, ⟨diagnostic, hdiagnostic, hpoint⟩ | ⟨hdiagnostic, hpoint⟩⟩ := @settleLook_cases state
  · show TurnOf state cache .settling state.settleLook.1 cache (settlePoint state.settleLook.2)
    rw [hpoint]
    exact .reports halike hdiagnostic
  · exact .plain ⟨rfl, rfl, id, rfl, rfl, nofun⟩ hpoint halike hdiagnostic

theorem turnOf_settleAsked {target : Option Nat}
    (hturn : turn timeouts state cache now answer (.settleAsked target) = some turned) :
    TurnOf state cache (.settleAsked target) turned.state turned.cache turned.point ∧ turned.started = [] := by
  rw [turn] at hturn
  generalize hacted : state.settleAct target = acted at hturn
  cases hturn
  refine ⟨?_, rfl⟩
  unfold settleAct at hacted
  by_cases hbusy : state.isActive ∨ state.flush.isSome
  · rw [if_pos hbusy] at hacted
    subst hacted
    exact .plain ⟨rfl, rfl, id, rfl, rfl, nofun⟩ ⟨rfl, rfl, id, rfl, rfl, nofun⟩ (Alike.refl state) rfl
  rw [if_neg hbusy] at hacted
  cases target with
  | some targetGeneration =>
      subst hacted
      exact .starts rfl rfl rfl rfl (Option.not_isSome_iff_eq_none.mp (not_or.mp hbusy).2) (Or.inl rfl)
  | none =>
      subst hacted
      obtain ⟨halike, hdiagnostic⟩ := readyIfIdle_alike state
      exact .plain ⟨rfl, rfl, id, rfl, rfl, nofun⟩ ⟨rfl, rfl, id, rfl, rfl, nofun⟩ halike hdiagnostic

theorem turnOf_shutting (hturn : turn timeouts state cache now answer .shutting = some turned) :
    TurnOf state cache .shutting turned.state turned.cache turned.point ∧ turned.started = [] := by
  rw [turn] at hturn
  generalize hlooked : state.shutdownLook = looked at hturn
  cases hturn
  refine ⟨?_, rfl⟩
  unfold shutdownLook at hlooked
  cases hactivity : state.activity with
  | ready =>
      rw [hactivity] at hlooked
      subst hlooked
      exact .begins (Or.inl hactivity)
  | idle =>
      rw [hactivity] at hlooked
      subst hlooked
      exact .begins (Or.inr hactivity)
  | active runId =>
      rw [hactivity] at hlooked
      subst hlooked
      exact .beginsDuring hactivity
  | closed =>
      rw [hactivity] at hlooked
      subst hlooked
      exact .repeats hactivity
  | shuttingDown =>
      rw [hactivity] at hlooked
      dsimp only at hlooked
      split_ifs at hlooked with hbusy
      · subst hlooked
        exact .plain ⟨rfl, rfl, id, rfl, rfl, nofun⟩ ⟨rfl, rfl, id, rfl, rfl, nofun⟩ (Alike.refl state) rfl
      · subst hlooked
        rw [← hactivity]
        exact .asks hactivity (Option.not_isSome_iff_eq_none.mp (not_or.mp hbusy).1)

theorem turnOf_shutdownAsked {diagnostic : Option String} {target : Option Nat}
    (hturn : turn timeouts state cache now answer (.shutdownAsked diagnostic target) = some turned) :
    TurnOf state cache (.shutdownAsked diagnostic target) turned.state turned.cache turned.point ∧
      turned.started = [] := by
  rw [turn] at hturn
  generalize hacted : state.shutdownAct diagnostic target = acted at hturn
  cases hturn
  refine ⟨?_, rfl⟩
  unfold shutdownAct at hacted
  by_cases hbusy : state.shutdownRunId.isSome ∨ state.flush.isSome
  · rw [if_pos hbusy] at hacted
    subst hacted
    exact .drops hbusy
  rw [if_neg hbusy] at hacted
  have hrun : state.shutdownRunId = none := Option.not_isSome_iff_eq_none.mp (not_or.mp hbusy).1
  have hflush : state.flush = none := Option.not_isSome_iff_eq_none.mp (not_or.mp hbusy).2
  cases diagnostic with
  | some diagnostic =>
      subst hacted
      exact .closes hrun hflush fun h => nomatch h
  | none =>
      cases target with
      | some targetGeneration =>
          subst hacted
          exact .starts rfl rfl rfl rfl hflush (Or.inr (Or.inl rfl))
      | none =>
          subst hacted
          exact .closes hrun hflush fun _ => rfl

/-- A turn is one of those above, and what it starts are timers. -/
theorem turnOf_turn {point : Point} (hturn : turn timeouts state cache now answer point = some turned) :
    TurnOf state cache point turned.state turned.cache turned.point ∧
      ∀ started ∈ turned.started, started.Plain := by
  have halone : ∀ {P : Prop}, P ∧ turned.started = [] → P ∧ ∀ started ∈ turned.started, started.Plain := by
    rintro P ⟨hP, hnone⟩
    exact ⟨hP, fun started hstarted => by rw [hnone] at hstarted; cases hstarted⟩
  cases point with
  | run runId idleReason => exact halone (turnOf_run hturn)
  | scheduling caller => exact turnOf_scheduling hturn
  | timer token targetGeneration => exact halone (turnOf_timer hturn)
  | fired targetGeneration => exact halone (turnOf_fired hturn)
  | starting targetGeneration => exact halone (turnOf_starting hturn)
  | publishing caller targetGeneration => exact halone (turnOf_publishing hturn)
  | published caller targetGeneration result => exact halone (turnOf_published hturn)
  | settling => exact halone (turnOf_settling hturn)
  | settleAsking =>
      rw [turn] at hturn
      cases hturn
      exact halone ⟨.plain ⟨rfl, rfl, id, rfl, rfl, nofun⟩ ⟨rfl, rfl, id, rfl, rfl, nofun⟩ (Alike.refl state) rfl, rfl⟩
  | settleAsked target => exact halone (turnOf_settleAsked hturn)
  | shutting => exact halone (turnOf_shutting hturn)
  | shutdownAsking diagnostic =>
      rw [turn] at hturn
      cases hturn
      exact halone ⟨.asked, rfl⟩
  | shutdownAsked diagnostic target => exact halone (turnOf_shutdownAsked hturn)
  | finished => cases hturn
  | settled outcome => cases hturn
  | shut outcome => cases hturn

end

end Unpack.CacheLifecycle
