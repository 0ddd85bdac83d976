import Unpack.CacheLifecycleTurns

/-! What holds of the cache lifecycle in any order of turns. The publication in flight is the one that the state
records, the run that is open is the one whose end is awaited, and between the two sections of a shutdown no
run is open. A failure is taken by one caller and given back by it as long as nobody disturbs it. -/

namespace Unpack.CacheLifecycle

open CacheGenerations CacheLifecycleState Roles

/-- A caller of shutdown with a failure finds no publication, nobody starts one for a target that was asked for
before the cache was closed, and no failure replaces another. -/
def Point.Undisturbed (state : CacheLifecycleState) : Point → Prop
  | .shutdownAsked (some _) _ => state.flush = none
  | .settleAsked (some _) | .shutdownAsked none (some _) => ¬ state.ClosedCleanly
  | .published _ _ (.error _) => state.diagnostic = none
  | _ => True

/-- Nor is a run prepared while a shutdown is about to close the cache or has done so. -/
def LifecycleSystem.Undisturbed (system : LifecycleSystem) : LifecycleEvent → Prop
  | .turn actor _ _ => ∀ point ∈ system.actors[actor]?, point.Undisturbed system.state
  | .prepare => .shutdownAsked none none ∉ system.actors ∧ ¬ system.state.ClosedCleanly
  | _ => True

deriving instance DecidableEq for Point

instance (state : CacheLifecycleState) : DecidablePred (Point.Undisturbed state) := fun point =>
  match point with
  | .shutdownAsked (some _) _ => inferInstanceAs (Decidable (state.flush = none))
  | .settleAsked (some _) | .shutdownAsked none (some _) =>
      inferInstanceAs (Decidable (¬ (state.activity = .closed ∧ state.shutdownOutcome.getD {} = {})))
  | .published _ _ (.error _) => inferInstanceAs (Decidable (state.diagnostic = none))
  | .settleAsked none | .shutdownAsked none none | .published _ _ (.ok _) | .run _ _ | .scheduling _ | .timer _ _
  | .fired _ | .starting _ | .publishing _ _ | .settling | .settleAsking | .shutting | .shutdownAsking _ | .finished
  | .settled _ | .shut _ => isTrue trivial

instance (system : LifecycleSystem) : DecidablePred system.Undisturbed := fun event =>
  match event with
  | .turn actor _ _ => inferInstanceAs (Decidable (∀ point ∈ system.actors[actor]?, point.Undisturbed system.state))
  | .prepare => inferInstanceAs (Decidable (.shutdownAsked none none ∉ system.actors ∧
      ¬ (system.state.activity = .closed ∧ system.state.shutdownOutcome.getD {} = {})))
  | .run _ | .settle | .shutdown | .store _ => isTrue trivial

section

variable {state after : CacheLifecycleState} {cache later : CacheGenerations} {before point : Point}

theorem TurnOf.flight (h : TurnOf state cache before after later point) :
    (before.inFlight = point.inFlight ∧ after.flush = state.flush) ∨
      (before.inFlight = none ∧ state.flush = none ∧
        ∃ target, point.inFlight = some target ∧ after.flush = some ⟨target⟩) ∨
      ∃ target, before.inFlight = some target ∧ point.inFlight = none ∧
        (state.flush = some ⟨target⟩ → after.flush = none) := by
  cases h with
  | idled _ _ _ hflush _ hpoint => exact Or.inl ⟨hpoint.inFlight.symm, hflush⟩
  | plain hbefore hpoint halike _ => exact Or.inl ⟨hbefore.inFlight.trans hpoint.inFlight.symm, halike.flush⟩
  | reports halike _ => exact Or.inl ⟨rfl, halike.flush⟩
  | starts _ hinFlight _ _ hflush _ => exact Or.inr (Or.inl ⟨hinFlight, hflush, _, rfl, rfl⟩)
  | records _ _ _ hflush _ hpoint => exact Or.inr (Or.inr ⟨_, rfl, hpoint.inFlight, hflush⟩)
  | released | ignored | publishes | begins | beginsDuring | repeats | asks | asked | drops | closes =>
      exact Or.inl ⟨rfl, rfl⟩

/-- No turn opens a run again once a shutdown has started. -/
theorem TurnOf.shutdownStarted (h : TurnOf state cache before after later point)
    (hstarted : state.ShutdownStarted) : after.ShutdownStarted := by
  have hkept : ∀ {next : CacheLifecycleState},
      next.activity = state.activity ∨ state.activity = .idle ∧ next.activity = .ready → next.ShutdownStarted := by
    intro next hnext
    rcases hnext with hsame | ⟨hidle, _⟩
    · rwa [ShutdownStarted, hsame]
    · rcases hstarted with h | h <;> (rw [hidle] at h; cases h)
  cases h with
  | idled hactivity => rcases hstarted with h | h <;> (rw [hactivity] at h; cases h)
  | plain _ _ halike _ => exact hkept halike.activity
  | reports halike _ => exact hkept halike.activity
  | records hactivity => exact hkept (Or.inl hactivity)
  | begins | beginsDuring => exact Or.inl rfl
  | closes => exact Or.inr rfl
  | released | ignored | starts | publishes | repeats | asks | asked | drops => exact hstarted

theorem TurnOf.shutdownRunId (h : TurnOf state cache before after later point)
    (hrun : state.shutdownRunId = none) (hstarted : state.ShutdownStarted) : after.shutdownRunId = none := by
  cases h with
  | idled _ _ hsame => rwa [hsame]
  | plain _ _ halike _ => rwa [halike.shutdownRunId]
  | reports halike _ => rwa [halike.shutdownRunId]
  | records _ hsame => rwa [hsame]
  | beginsDuring hactivity => rcases hstarted with h | h <;> (rw [hactivity] at h; cases h)
  | released => rfl
  | ignored | starts | publishes | begins | repeats | asks | asked | drops | closes => exact hrun

theorem TurnOf.quiet (h : TurnOf state cache before after later point) (hquiet : state.Quiet) : after.Quiet :=
  ⟨h.shutdownStarted hquiet.1, h.shutdownRunId hquiet.2 hquiet.1⟩

theorem TurnOf.asking (h : TurnOf state cache before after later point) (hasking : before.Asking → state.Quiet)
    (hpoint : point.Asking) : after.Quiet := by
  cases h with
  | idled _ _ _ _ _ hplain => exact absurd hpoint hplain.asking
  | plain _ hplain _ _ => exact absurd hpoint hplain.asking
  | records _ _ _ _ _ hplain => exact absurd hpoint hplain.asking
  | asks hactivity hrun => exact ⟨Or.inl hactivity, hrun⟩
  | asked => exact hasking trivial
  | released | ignored | reports | starts | publishes | begins | beginsDuring | repeats | drops | closes =>
      exact hpoint.elim

/-- Only a shutdown awaits the end of a run. -/
theorem TurnOf.awaited (h : TurnOf state cache before after later point)
    (hawaited : state.shutdownRunId ≠ none → state.activity = .shuttingDown)
    (hrun : after.shutdownRunId ≠ none) : after.activity = .shuttingDown := by
  have hkept : ∀ {next : CacheLifecycleState}, next.shutdownRunId = state.shutdownRunId →
      next.shutdownRunId ≠ none →
        next.activity = state.activity ∨ state.activity = .idle ∧ next.activity = .ready →
          next.activity = .shuttingDown := by
    intro next hsame hnext hactivity
    have hdown := hawaited (hsame ▸ hnext)
    rcases hactivity with h | ⟨hidle, _⟩
    · exact h.trans hdown
    · rw [hidle] at hdown
      cases hdown
  cases h with
  | released => exact absurd rfl hrun
  | idled hbefore _ hsame =>
      have hdown := hawaited (hsame ▸ hrun)
      rw [hbefore] at hdown
      cases hdown
  | plain _ _ halike _ => exact hkept halike.shutdownRunId hrun halike.activity
  | reports halike _ => exact hkept halike.shutdownRunId hrun halike.activity
  | records hactivity hsame => exact hkept hsame hrun (Or.inl hactivity)
  | begins | beginsDuring => rfl
  | closes hnone => exact absurd hnone hrun
  | ignored | starts | publishes | repeats | asks | asked | drops => exact hawaited hrun

theorem openRun_of_not_active (h : ∀ runId, state.activity ≠ .active runId) :
    state.openRun = state.shutdownRunId := by
  unfold openRun
  split
  · next runId hactive => exact absurd hactive (h runId)
  · rfl

theorem openRun_of_shutdownStarted (h : state.ShutdownStarted) : state.openRun = state.shutdownRunId :=
  openRun_of_not_active fun runId hactive => by
    rcases h with h | h <;> (rw [hactive] at h; cases h)

theorem Alike.openRun (h : Alike state after) : after.openRun = state.openRun := by
  rcases h.activity with hsame | ⟨hidle, hready⟩
  · unfold CacheLifecycleState.openRun
    rw [hsame, h.shutdownRunId]
  · calc
      after.openRun = after.shutdownRunId := openRun_of_not_active fun runId hactive => by
        rw [hready] at hactive
        cases hactive
      _ = state.shutdownRunId := h.shutdownRunId
      _ = state.openRun := (openRun_of_not_active fun runId hactive => by
        rw [hidle] at hactive
        cases hactive).symm

/-- The end of a run ends the open one. -/
theorem TurnOf.guards (h : TurnOf state cache before after later point)
    (hawaited : state.shutdownRunId ≠ none → state.activity = .shuttingDown)
    (hasking : before.Asking → state.Quiet) :
    (before.guard = point.guard ∧ after.openRun = state.openRun) ∨
      ∃ runId, before.guard = some runId ∧ point.guard = none ∧
        (state.openRun = some runId → after.openRun = none) := by
  cases h with
  | released hactivity _ =>
      refine Or.inr ⟨_, rfl, rfl, fun _ => ?_⟩
      exact openRun_of_shutdownStarted (Or.inl hactivity)
  | @ignored runId _ hactivity hshutdown =>
      refine Or.inr ⟨_, rfl, rfl, fun hopen => ?_⟩
      by_cases hactive : ∃ other, state.activity = .active other
      · obtain ⟨other, hother⟩ := hactive
        rw [openRun, hother] at hopen
        rw [hother, Option.some.inj hopen] at hactivity
        exact absurd rfl hactivity
      · rw [openRun_of_not_active (not_exists.mp hactive)] at hopen
        have hdown := hawaited (by rw [hopen]; exact Option.some_ne_none runId)
        exact absurd ⟨hdown, hopen⟩ hshutdown
  | idled hbefore hactivity hrun _ _ hpoint =>
      refine Or.inr ⟨_, rfl, hpoint.guard, fun _ => ?_⟩
      have hnone : state.shutdownRunId = none := by
        by_contra hsome
        have hdown := hawaited hsome
        rw [hbefore] at hdown
        cases hdown
      rw [openRun, hactivity, hrun, hnone]
  | plain hbefore hpoint halike _ => exact Or.inl ⟨hbefore.guard.trans hpoint.guard.symm, halike.openRun⟩
  | reports halike _ => exact Or.inl ⟨rfl, halike.openRun⟩
  | starts hguard => exact Or.inl ⟨hguard, rfl⟩
  | records hactivity hrun _ _ _ hpoint =>
      refine Or.inl ⟨hpoint.guard.symm, ?_⟩
      rw [openRun, openRun, hactivity, hrun]
  | begins hactivity =>
      refine Or.inl ⟨rfl, ?_⟩
      show state.shutdownRunId = state.openRun
      refine (openRun_of_not_active fun runId hactive => ?_).symm
      rcases hactivity with h | h <;> (rw [hactive] at h; cases h)
  | @beginsDuring runId hactivity =>
      refine Or.inl ⟨rfl, ?_⟩
      show some runId = state.openRun
      rw [openRun, hactivity]
  | closes hrun =>
      refine Or.inl ⟨rfl, ?_⟩
      exact (openRun_of_shutdownStarted (hasking trivial).1).symm
  | publishes | repeats | asks | asked | drops => exact Or.inl ⟨rfl, rfl⟩

/-- What is not pending stays so. -/
theorem TurnOf.pending (h : TurnOf state cache before after later point)
    (hnone : cache.pendingGeneration = none) : later.pendingGeneration = none := by
  cases h with
  | publishes hpending => exact hpending hnone
  | released | ignored | idled | plain | reports | starts | records | begins | beginsDuring | repeats | asks
  | asked | drops | closes => exact hnone

/-- A shutdown that has found nothing pending. -/
theorem TurnOf.asked_none (h : TurnOf state cache before after later point)
    (hpoint : point = .shutdownAsked none none) : later.pendingGeneration = none := by
  have hasking : point.Asking := by
    rw [hpoint]
    trivial
  cases h with
  | idled _ _ _ _ _ hplain => exact absurd hasking hplain.asking
  | plain _ hplain _ _ => exact absurd hasking hplain.asking
  | records _ _ _ _ _ hplain => exact absurd hasking hplain.asking
  | asked => exact (Point.shutdownAsked.inj hpoint).2
  | released | ignored | reports | starts | publishes | begins | beginsDuring | repeats | asks | drops | closes =>
      cases hpoint

theorem Alike.closedCleanly (h : Alike state after) (hclosed : after.ClosedCleanly) : state.ClosedCleanly := by
  obtain ⟨hactivity, houtcome⟩ := hclosed
  rcases h.activity with hsame | ⟨_, hready⟩
  · exact ⟨hsame.symm.trans hactivity, h.shutdownOutcome ▸ houtcome⟩
  · rw [hready] at hactivity
    cases hactivity

/-- Only a shutdown that has found nothing pending closes the cache cleanly, and then nobody starts a
publication. -/
theorem TurnOf.closed (h : TurnOf state cache before after later point) (hquiet : before.Undisturbed state)
    (hasked : before = .shutdownAsked none none → cache.pendingGeneration = none)
    (hinFlight : ∀ target, before.inFlight = some target → state.flush ≠ none)
    (hclosed : state.ClosedCleanly → cache.pendingGeneration = none ∧ state.flush = none)
    (hafter : after.ClosedCleanly) : later.pendingGeneration = none ∧ after.flush = none := by
  cases h with
  | released hactivity => exact hclosed hafter
  | ignored | repeats | asks | asked | drops => exact hclosed hafter
  | idled _ hactivity =>
      rw [ClosedCleanly, hactivity] at hafter
      cases hafter.1
  | plain _ _ halike _ =>
      obtain ⟨hpending, hflush⟩ := hclosed (halike.closedCleanly hafter)
      exact ⟨hpending, halike.flush.trans hflush⟩
  | reports halike _ =>
      obtain ⟨hpending, hflush⟩ := hclosed (halike.closedCleanly hafter)
      exact ⟨hpending, halike.flush.trans hflush⟩
  | starts _ _ _ _ _ hsource =>
      rcases hsource with rfl | rfl | hidle
      · exact absurd hafter hquiet
      · exact absurd hafter hquiet
      · have hactivity : state.activity = .closed := hafter.1
        rw [hidle] at hactivity
        cases hactivity
  | publishes hpending =>
      obtain ⟨hnone, hflush⟩ := hclosed hafter
      exact ⟨hpending hnone, hflush⟩
  | records hactivity _ houtcome =>
      obtain ⟨_, hflush⟩ := hclosed ⟨hactivity ▸ hafter.1, houtcome ▸ hafter.2⟩
      exact absurd hflush (hinFlight _ rfl)
  | begins | beginsDuring => cases hafter.1
  | @closes diagnostic target _ hflush htarget =>
      have hdiagnostic : diagnostic = none := congrArg CacheLifecycleOutcome.diagnostic hafter.2
      exact ⟨hasked (by rw [hdiagnostic, htarget hdiagnostic]), hflush⟩

theorem TurnOf.closedCleanly_of_shut (h : TurnOf state cache before after later point) (hpoint : point = .shut {}) :
    after.ClosedCleanly := by
  cases h with
  | idled _ _ _ _ _ hplain => exact absurd hpoint (hplain.shut {})
  | plain _ hplain _ _ => exact absurd hpoint (hplain.shut {})
  | records _ _ _ _ _ hplain => exact absurd hpoint (hplain.shut {})
  | repeats hactivity => exact ⟨hactivity, Point.shut.inj hpoint⟩
  | closes => exact ⟨rfl, Point.shut.inj hpoint⟩
  | released | ignored | reports | starts | publishes | begins | beginsDuring | asks | asked | drops =>
      cases hpoint

/-- A failure that a turn records or finds is recorded or found after it. -/
theorem TurnOf.carried (h : TurnOf state cache before after later point) (hquiet : before.Undisturbed state)
    (hasking : before.Asking → state.Quiet) (error : String) :
    before.failure.toList.count error + before.carries.toList.count error +
        state.diagnostic.toList.count error ≤
      point.carries.toList.count error + after.diagnostic.toList.count error := by
  cases h with
  | idled _ _ _ _ hdiagnostic hpoint =>
      rw [hdiagnostic, hpoint.carries]
      simp [Point.failure, Point.carries]
  | plain hbefore hpoint _ hdiagnostic =>
      rw [hbefore.failure, hbefore.carries, hpoint.carries, hdiagnostic]
      simp
  | reports _ htaken =>
      rw [htaken]
      simp [Point.failure, Point.carries]
  | starts _ _ hcarries hfailure _ _ =>
      rw [hcarries, hfailure]
      simp [Point.carries]
  | @records _ _ result _ _ _ _ _ _ hdiagnostic hpoint =>
      cases result with
      | ok value =>
          rw [hdiagnostic]
          simp [Point.failure, Point.carries]
      | error failure =>
          have hquiet : state.diagnostic = none := hquiet
          rw [hdiagnostic, hquiet]
          simp [Point.failure, Point.carries]
  | @drops diagnostic target hbusy =>
      cases diagnostic with
      | none => simp [Point.failure, Point.carries]
      | some failure =>
          have hflush : state.flush = none := hquiet
          rw [hflush, (hasking trivial).2] at hbusy
          rcases hbusy with h | h <;> cases h
  | repeats => simp [Point.failure, Point.carries]
  | closes => simp [Point.failure, Point.carries]
  | released | ignored | publishes | begins | beginsDuring | asks | asked =>
      simp [Point.failure, Point.carries, beginShutdown, clearDeadlines]

end

namespace LifecycleSystem

structure Invariant (system : LifecycleSystem) : Prop where
  flight : system.actors.filterMap Point.inFlight = (system.state.flush.map (·.targetGeneration)).toList
  guards : system.actors.filterMap Point.guard = system.state.openRun.toList
  awaited : system.state.shutdownRunId ≠ none → system.state.activity = .shuttingDown
  asking : ∀ point ∈ system.actors, point.Asking → system.state.Quiet
  asked : .shutdownAsked none none ∈ system.actors → system.cache.pendingGeneration = none
  closed : system.state.ClosedCleanly → system.cache.pendingGeneration = none ∧ system.state.flush = none

section

variable {system : LifecycleSystem} {actor : Nat} {before point : Point} {after : CacheLifecycleState}
  {cache : CacheGenerations} {started : List Point}

theorem mem_set_append (hstarted : ∀ other ∈ started, other.Plain) {other : Point}
    (hother : other ∈ system.actors.set actor point ++ started) :
    other = point ∨ other ∈ system.actors ∨ other.Plain := by
  rcases List.mem_append.mp hother with hset | hjoined
  · rcases List.mem_or_eq_of_mem_set hset with hold | hnew
    · exact Or.inr (Or.inl hold)
    · exact Or.inl hnew
  · exact Or.inr (Or.inr (hstarted other hjoined))

theorem Invariant.flight_turn (h : system.Invariant) (hbefore : system.actors[actor]? = some before)
    (hturn : TurnOf system.state system.cache before after cache point)
    (hstarted : ∀ other ∈ started, other.Plain) :
    (system.actors.set actor point ++ started).filterMap Point.inFlight =
      (after.flush.map (·.targetGeneration)).toList := by
  rw [filterMap_append_of_none fun other hother => (hstarted other hother).inFlight]
  rcases hturn.flight with ⟨hrole, hflush⟩ | ⟨_, hflush, target, hrole, hafter⟩ | ⟨target, hold, hnew, hafter⟩
  · rw [filterMap_set_of_eq hbefore hrole, h.flight, hflush]
  · rw [hafter]
    refine filterMap_set_of_nil hbefore ?_ hrole
    rw [h.flight, hflush]
    rfl
  · obtain ⟨flush, hflush, htarget⟩ : ∃ flush, system.state.flush = some flush ∧ flush.targetGeneration = target := by
      have hmem := mem_filterMap_of_getElem? hbefore hold
      rw [h.flight, Option.mem_toList, Option.map_eq_some_iff] at hmem
      exact hmem
    subst htarget
    have hsole : system.actors.filterMap Point.inFlight = [flush.targetGeneration] := by
      rw [h.flight, hflush]
      rfl
    rw [hafter hflush]
    exact filterMap_set_of_sole hbefore hsole hold hnew

theorem Invariant.guards_turn (h : system.Invariant) (hbefore : system.actors[actor]? = some before)
    (hturn : TurnOf system.state system.cache before after cache point)
    (hstarted : ∀ other ∈ started, other.Plain) :
    (system.actors.set actor point ++ started).filterMap Point.guard = after.openRun.toList := by
  rw [filterMap_append_of_none fun other hother => (hstarted other hother).guard]
  rcases hturn.guards h.awaited (h.asking before (List.mem_of_getElem? hbefore)) with
    ⟨hrole, hopen⟩ | ⟨runId, hold, hnew, hafter⟩
  · rw [filterMap_set_of_eq hbefore hrole, h.guards, hopen]
  · have hopen : system.state.openRun = some runId := by
      have hmem := mem_filterMap_of_getElem? hbefore hold
      rwa [h.guards, Option.mem_toList] at hmem
    have hsole : system.actors.filterMap Point.guard = [runId] := by
      rw [h.guards, hopen]
      rfl
    rw [hafter hopen]
    exact filterMap_set_of_sole hbefore hsole hold hnew

theorem Invariant.turn (h : system.Invariant) (hbefore : system.actors[actor]? = some before)
    (hturn : TurnOf system.state system.cache before after cache point)
    (hstarted : ∀ other ∈ started, other.Plain) (hquiet : before.Undisturbed system.state) :
    Invariant { state := after, cache, actors := system.actors.set actor point ++ started } := by
  have hmem := List.mem_of_getElem? hbefore
  refine ⟨h.flight_turn hbefore hturn hstarted, h.guards_turn hbefore hturn hstarted,
    hturn.awaited h.awaited, ?_, ?_, ?_⟩
  · intro other hother hasking
    rcases mem_set_append hstarted hother with rfl | hold | hplain
    · exact hturn.asking (h.asking before hmem) hasking
    · exact hturn.quiet (h.asking other hold hasking)
    · exact absurd hasking hplain.asking
  · intro hother
    rcases mem_set_append hstarted hother with hpoint | hold | hplain
    · exact hturn.asked_none hpoint.symm
    · exact hturn.pending (h.asked hold)
    · exact absurd trivial hplain.asking
  · refine hturn.closed hquiet ?_ ?_ h.closed
    · rintro rfl
      exact h.asked hmem
    · intro target htarget hnone
      have hrole := mem_filterMap_of_getElem? hbefore htarget
      rw [h.flight, hnone] at hrole
      cases hrole

end

theorem endIdle_ok {state after : CacheLifecycleState} {runId : Nat} (h : state.endIdle = .ok (after, runId)) :
    (∀ other, state.activity ≠ .active other) ∧ ¬ state.ShutdownStarted ∧ after.activity = .active runId ∧
      after.shutdownRunId = state.shutdownRunId ∧ after.flush = state.flush ∧
        after.diagnostic = state.diagnostic := by
  unfold endIdle at h
  have hready : ∀ {activity : CacheActivity}, state.activity = activity →
      (∀ other, activity ≠ .active other) → activity ≠ .shuttingDown → activity ≠ .closed →
        (∀ other, state.activity ≠ .active other) ∧ ¬ state.ShutdownStarted := by
    rintro _ rfl hactive hdown hclosed
    exact ⟨hactive, fun hstarted => hstarted.elim hdown hclosed⟩
  cases hactivity : state.activity with
  | ready =>
      rw [hactivity] at h
      cases h
      obtain ⟨hactive, hstarted⟩ := hready hactivity nofun nofun nofun
      exact ⟨hactivity ▸ hactive, hstarted, rfl, rfl, rfl, rfl⟩
  | idle =>
      rw [hactivity] at h
      cases h
      obtain ⟨hactive, hstarted⟩ := hready hactivity nofun nofun nofun
      exact ⟨hactivity ▸ hactive, hstarted, rfl, rfl, rfl, rfl⟩
  | active other =>
      rw [hactivity] at h
      cases h
  | shuttingDown =>
      rw [hactivity] at h
      cases h
  | closed =>
      rw [hactivity] at h
      cases h

section

variable {system : LifecycleSystem}

/-- A caller of settle or shutdown joins. -/
theorem Invariant.join (h : system.Invariant) {joined : Point} (hplain : joined.Plain) :
    Invariant { system with actors := system.actors ++ [joined] } := by
  have hrole : ∀ other ∈ [joined], other.Plain := by
    rintro other hother
    rwa [List.mem_singleton.mp hother]
  refine ⟨?_, ?_, h.awaited, ?_, ?_, h.closed⟩
  · exact (filterMap_append_of_none fun other hother => (hrole other hother).inFlight).trans h.flight
  · exact (filterMap_append_of_none fun other hother => (hrole other hother).guard).trans h.guards
  · intro other hother hasking
    rcases List.mem_append.mp hother with hold | hnew
    · exact h.asking other hold hasking
    · exact absurd hasking (hrole other hnew).asking
  · intro hother
    rcases List.mem_append.mp hother with hold | hnew
    · exact h.asked hold
    · exact absurd trivial (hrole _ hnew).asking

theorem Invariant.run (h : system.Invariant) {after : CacheLifecycleState} {runId : Nat}
    (hok : system.state.endIdle = .ok (after, runId)) (idleReason : CacheIdleReason) :
    Invariant { system with state := after, actors := system.actors ++ [.run runId idleReason] } := by
  obtain ⟨hactive, hstarted, hafter, hrun, hflush, _⟩ := endIdle_ok hok
  have hnone : system.state.shutdownRunId = none := by
    by_contra hsome
    exact hstarted (Or.inl (h.awaited hsome))
  have hnobody : ∀ other ∈ system.actors, ¬ other.Asking := fun other hother hasking =>
    hstarted (h.asking other hother hasking).1
  refine ⟨?_, ?_, ?_, ?_, ?_, ?_⟩
  · rw [List.filterMap_append, h.flight, hflush]
    exact List.append_nil _
  · rw [List.filterMap_append, h.guards, openRun_of_not_active hactive, hnone, openRun, hafter]
    rfl
  · intro hsome
    exact absurd (hrun.trans hnone) hsome
  · intro other hother hasking
    rcases List.mem_append.mp hother with hold | hnew
    · exact absurd hasking (hnobody other hold)
    · rw [List.mem_singleton.mp hnew] at hasking
      exact hasking.elim
  · intro hother
    rcases List.mem_append.mp hother with hold | hnew
    · exact absurd trivial (hnobody _ hold)
    · cases List.mem_singleton.mp hnew
  · intro hclosed
    have hactivity := hclosed.1
    rw [hafter] at hactivity
    cases hactivity

/-- The cache is marked while nobody relies on it being clean. -/
theorem Invariant.marked (h : system.Invariant) (hasked : .shutdownAsked none none ∉ system.actors)
    (hclosed : ¬ system.state.ClosedCleanly) : Invariant { system with cache := system.cache.markDirty } :=
  ⟨h.flight, h.guards, h.awaited, h.asking, fun hother => absurd hother hasked,
    fun hcleanly => absurd hcleanly hclosed⟩

/-- A run that stores is open, so nobody closes the cache. -/
theorem Invariant.stores (h : system.Invariant) {actor runId : Nat} {idleReason : CacheIdleReason}
    (hactor : system.actors[actor]? = some (.run runId idleReason)) : ¬ system.state.Quiet := by
  intro hquiet
  have hguard : runId ∈ system.actors.filterMap Point.guard := mem_filterMap_of_getElem? hactor rfl
  rw [h.guards, openRun_of_shutdownStarted hquiet.1, hquiet.2] at hguard
  cases hguard

theorem quiet_of_closedCleanly (h : system.Invariant) (hclosed : system.state.ClosedCleanly) :
    system.state.Quiet := by
  refine ⟨Or.inr hclosed.1, ?_⟩
  by_contra hsome
  have hdown := h.awaited hsome
  rw [hclosed.1] at hdown
  cases hdown

end

/-- The failures that have been recorded, taken along or returned. -/
def kept (system : LifecycleSystem) : List String :=
  system.state.diagnostic.toList ++ system.actors.filterMap Point.carries

/-- The failure that a step records. -/
def recorded (passed : LifecycleSystem × LifecycleEvent) : Option String :=
  match passed.2 with
  | .turn actor _ _ => passed.1.actors[actor]?.bind Point.failure
  | _ => none

section

variable {timeouts : CacheIdleTimeouts} {system next : LifecycleSystem} {event : LifecycleEvent}

/-- A step by what it is a step of. -/
inductive StepOf (system : LifecycleSystem) : LifecycleEvent → LifecycleSystem → Prop where
  | run {idleReason : CacheIdleReason} {after : CacheLifecycleState} {runId : Nat}
      (hok : system.state.endIdle = .ok (after, runId)) :
      StepOf system (.run idleReason)
        { system with state := after, actors := system.actors ++ [.run runId idleReason] }
  | settle : StepOf system .settle { system with actors := system.actors ++ [.settling] }
  | shutdown : StepOf system .shutdown { system with actors := system.actors ++ [.shutting] }
  | prepare : StepOf system .prepare { system with cache := system.cache.markDirty }
  | store {actor runId : Nat} {idleReason : CacheIdleReason}
      (hactor : system.actors[actor]? = some (.run runId idleReason)) :
      StepOf system (.store actor) { system with cache := system.cache.markDirty }
  | turn {actor now : Nat} {answer : PublicationAnswer} {before point : Point} {after : CacheLifecycleState}
      {cache : CacheGenerations} {started : List Point} (hbefore : system.actors[actor]? = some before)
      (hturn : TurnOf system.state system.cache before after cache point)
      (hstarted : ∀ other ∈ started, other.Plain) :
      StepOf system (.turn actor now answer)
        { state := after, cache, actors := system.actors.set actor point ++ started }

theorem stepOf_step (hstep : LifecycleStep timeouts system event next) : StepOf system event next := by
  cases event with
  | run idleReason =>
      rw [LifecycleStep, step] at hstep
      cases hok : system.state.endIdle with
      | error error =>
          rw [hok] at hstep
          cases hstep
      | ok opened =>
          rw [hok] at hstep
          cases hstep
          exact .run hok
  | settle =>
      cases hstep
      exact .settle
  | shutdown =>
      cases hstep
      exact .shutdown
  | prepare =>
      cases hstep
      exact .prepare
  | store actor =>
      rw [LifecycleStep, step] at hstep
      split at hstep
      · next runId idleReason hactor =>
        cases hstep
        exact .store hactor
      · cases hstep
  | turn actor now answer =>
      obtain ⟨before, hbefore, hrest⟩ := Option.bind_eq_some_iff.mp hstep
      obtain ⟨turned, hturned, hnext⟩ := Option.bind_eq_some_iff.mp hrest
      cases hnext
      obtain ⟨hturn, hstarted⟩ := turnOf_turn hturned
      exact .turn hbefore hturn hstarted

theorem Invariant.step (h : system.Invariant) (hquiet : system.Undisturbed event)
    (hstep : StepOf system event next) : next.Invariant := by
  cases hstep with
  | run hok => exact h.run hok _
  | settle => exact h.join ⟨rfl, rfl, id, rfl, rfl, nofun⟩
  | shutdown => exact h.join ⟨rfl, rfl, id, rfl, rfl, nofun⟩
  | prepare => exact h.marked hquiet.1 hquiet.2
  | store hactor =>
      have hopen := h.stores hactor
      refine h.marked (fun hasking => hopen (h.asking _ hasking trivial)) fun hclosed => ?_
      exact hopen (quiet_of_closedCleanly h hclosed)
  | turn hbefore hturn hstarted => exact h.turn hbefore hturn hstarted (hquiet _ hbefore)

theorem shutdownStarted_step (hstarted : system.state.ShutdownStarted) (hstep : StepOf system event next) :
    next.state.ShutdownStarted := by
  cases hstep with
  | run hok => exact absurd hstarted (endIdle_ok hok).2.1
  | settle | shutdown | prepare | store => exact hstarted
  | turn _ hturn _ => exact hturn.shutdownStarted hstarted

theorem kept_step (h : system.Invariant) (hquiet : system.Undisturbed event) (hstep : StepOf system event next)
    (error : String) :
    (recorded (system, event)).toList.count error + system.kept.count error ≤ next.kept.count error := by
  cases hstep with
  | run hok =>
      obtain ⟨_, _, _, _, _, hdiagnostic⟩ := endIdle_ok hok
      simp [recorded, kept, hdiagnostic, Point.carries]
  | settle => simp [recorded, kept, Point.carries]
  | shutdown => simp [recorded, kept, Point.carries]
  | prepare => simp [recorded, kept]
  | store => simp [recorded, kept]
  | @turn actor _ _ before point after _ started hbefore hturn hstarted =>
      have hcarried := hturn.carried (hquiet _ hbefore) (h.asking before (List.mem_of_getElem? hbefore)) error
      have hcount := @count_filterMap_set _ _ Point.carries _ _ _ point _ hbefore error
      have hrecorded : ∀ now answer, recorded (system, .turn actor now answer) = before.failure := by
        intro now answer
        show system.actors[actor]?.bind Point.failure = before.failure
        rw [hbefore]
        rfl
      rw [hrecorded, kept, kept, List.count_append, List.count_append,
        filterMap_append_of_none fun other hother => (hstarted other hother).carries]
      dsimp only
      omega

/-- A shutdown returns without diagnostic where the cache is closed cleanly. -/
theorem closedCleanly_of_shut (hstep : StepOf system event next) {actor : Nat}
    (hshut : next.actors[actor]? = some (.shut {})) (hopen : system.actors[actor]? ≠ some (.shut {})) :
    next.state.ClosedCleanly := by
  have happended : ∀ {joined : List Point}, (∀ other ∈ joined, other.Plain) →
      ∀ {parties : List Point}, (parties ++ joined)[actor]? = some (.shut {}) →
        parties[actor]? = some (.shut {}) := by
    intro joined hplain parties hmem
    by_cases hlt : actor < parties.length
    · rwa [List.getElem?_append_left hlt] at hmem
    · rw [List.getElem?_append_right (Nat.le_of_not_lt hlt)] at hmem
      exact absurd rfl ((hplain _ (List.mem_of_getElem? hmem)).shut {})
  cases hstep with
  | @run idleReason _ runId hok =>
      by_cases hlt : actor < system.actors.length
      · exact absurd ((List.getElem?_append_left hlt).symm.trans hshut) hopen
      · have hmem := List.mem_of_getElem? ((List.getElem?_append_right (Nat.le_of_not_lt hlt)).symm.trans hshut)
        cases List.mem_singleton.mp hmem
  | settle =>
      refine absurd (happended ?_ hshut) hopen
      rintro other hother
      rw [List.mem_singleton.mp hother]
      exact ⟨rfl, rfl, id, rfl, rfl, nofun⟩
  | shutdown =>
      refine absurd (happended ?_ hshut) hopen
      rintro other hother
      rw [List.mem_singleton.mp hother]
      exact ⟨rfl, rfl, id, rfl, rfl, nofun⟩
  | prepare => exact absurd hshut hopen
  | store => exact absurd hshut hopen
  | @turn turning _ _ before point after cache started hbefore hturn hstarted =>
      have hset := happended hstarted hshut
      rw [List.getElem?_set] at hset
      split_ifs at hset with hactor hlt
      · exact hturn.closedCleanly_of_shut (Option.some.inj hset)
      · exact absurd hset hopen

end

end LifecycleSystem

open LifecycleSystem

/-- What is asked of a run of the lifecycle that has come to a state. -/
structure SafeRun (trace : List (LifecycleSystem × LifecycleEvent)) (final : LifecycleSystem) : Prop where
  /-- One publication at most is in flight. -/
  sole : (final.actors.filterMap Point.inFlight).length ≤ 1
  /-- After a shutdown has started no run is active. -/
  shutdown : ∀ passed ∈ trace, passed.1.state.ShutdownStarted → ∀ runId, final.state.activity ≠ .active runId
  /-- A shutdown that has just returned without diagnostic leaves nothing pending and nothing in flight. -/
  clean : ∀ before (last : LifecycleSystem) event (actor : Nat), trace = before ++ [(last, event)] →
    final.actors[actor]? = some (Point.shut {}) →
    last.actors[actor]? ≠ some (Point.shut {}) →
      final.cache.pendingGeneration = none ∧ final.actors.filterMap Point.inFlight = []
  /-- Every failure is recorded, with a caller, or returned, each text at least as often as it has happened. -/
  delivered : ∀ error, (trace.filterMap recorded).count error ≤ final.kept.count error

section

variable {timeouts : CacheIdleTimeouts} {trace : List (LifecycleSystem × LifecycleEvent)} {final : LifecycleSystem}

theorem LifecycleStart.invariant {system : LifecycleSystem} (h : LifecycleStart system) : system.Invariant := by
  obtain ⟨hstate, hactors, _⟩ := h
  have hnobody : ∀ point, point ∉ system.actors := fun point hpoint => by
    rw [hactors] at hpoint
    cases hpoint
  refine ⟨?_, ?_, ?_, ?_, ?_, ?_⟩
  · rw [hactors, hstate]
    rfl
  · rw [hactors, hstate]
    rfl
  · rw [hstate]
    intro hsome
    exact absurd rfl hsome
  · exact fun point hpoint => absurd hpoint (hnobody point)
  · exact fun hpoint => absurd hpoint (hnobody _)
  · rw [hstate]
    intro hclosed
    cases hclosed.1

theorem LifecycleRun.invariant (h : LifecycleRun timeouts trace final)
    (hquiet : ∀ passed ∈ trace, passed.1.Undisturbed passed.2) : final.Invariant :=
  @Interleaving.Run.kept _ _ _ _ LifecycleSystem.Undisturbed (fun _ system => system.Invariant)
    (fun _ hstart => hstart.invariant)
    (fun _ _ _ _ hinvariant hundisturbed hstep => hinvariant.step hundisturbed (stepOf_step hstep)) _ _ h hquiet

/-- In any run of turns that nobody disturbs the lifecycle is safe. -/
theorem LifecycleRun.safeRun (h : LifecycleRun timeouts trace final)
    (hquiet : ∀ passed ∈ trace, passed.1.Undisturbed passed.2) : SafeRun trace final := by
  have hfinal : final.Invariant := LifecycleRun.invariant h hquiet
  refine ⟨?_, ?_, ?_, ?_⟩
  · rw [hfinal.flight, Option.length_toList]
    split <;> omega
  · have hstarted : ∀ passed ∈ trace, passed.1.state.ShutdownStarted → final.state.ShutdownStarted := by
      clear hfinal hquiet
      induction h with
      | start => exact fun passed hpassed => nomatch hpassed
      | step _ hstep ih =>
          intro passed hpassed hbefore
          have hkept := fun hstarted => shutdownStarted_step hstarted (stepOf_step hstep)
          rcases List.mem_append.mp hpassed with hearlier | hlast
          · exact hkept (ih passed hearlier hbefore)
          · rw [List.mem_singleton.mp hlast] at hbefore
            exact hkept hbefore
    intro passed hpassed hbefore runId hactive
    rcases hstarted passed hpassed hbefore with h | h <;> (rw [hactive] at h; cases h)
  · rintro before last event actor rfl hshut hopen
    obtain ⟨_, hstep⟩ := h.last_step
    obtain ⟨hpending, hflush⟩ := hfinal.closed (closedCleanly_of_shut (stepOf_step hstep) hshut hopen)
    refine ⟨hpending, ?_⟩
    rw [hfinal.flight, hflush]
    rfl
  · intro error
    clear hfinal
    induction h with
    | start => exact Nat.zero_le _
    | @step trace system next event hrun hstep ih =>
        have hearlier : ∀ passed ∈ trace, passed.1.Undisturbed passed.2 := fun passed hpassed =>
          hquiet passed (List.mem_append_left _ hpassed)
        have hundisturbed : system.Undisturbed event :=
          hquiet _ (List.mem_append_right _ (List.mem_singleton_self _))
        have hinvariant : system.Invariant := LifecycleRun.invariant hrun hearlier
        have hlast := kept_step hinvariant hundisturbed (stepOf_step hstep) error
        have hcount := ih hearlier
        rw [List.filterMap_append, List.count_append, filterMap_cons_toList, List.filterMap_nil, List.append_nil]
        omega

end

/-- All timeouts over at once. -/
def eager : CacheIdleTimeouts := ⟨0, 0, 0⟩

def newCompiler : LifecycleSystem := { cache := { writable := true, initialStorePending := true } }

theorem newCompiler_start : LifecycleStart newCompiler := ⟨rfl, rfl, rfl⟩

theorem LifecycleRun.of_replay {timeouts : CacheIdleTimeouts} {events : List LifecycleEvent}
    (h : (Interleaving.replay (LifecycleSystem.step timeouts) newCompiler events).isSome) :
    LifecycleRun timeouts
      ((Interleaving.replay (LifecycleSystem.step timeouts) newCompiler events).get h).1
      ((Interleaving.replay (LifecycleSystem.step timeouts) newCompiler events).get h).2 := by
  have hstart : LifecycleRun timeouts [] newCompiler := .start newCompiler_start
  exact hstart.replay (Option.some_get h).symm

/-- A run that stores and ends, and a caller that settles it. -/
def settledEvents : List LifecycleEvent :=
  [.run .ordinary, .store 0, .turn 0 0 .written, .settle, .turn 1 0 .written, .turn 1 0 .written,
    .turn 1 0 .written, .turn 1 0 (.failed "disk full"), .turn 1 0 .written, .turn 1 0 .written]

theorem LifecycleRun.safeRun_settled :
    SafeRun ((Interleaving.replay (LifecycleSystem.step eager) newCompiler settledEvents).get (by decide)).1
      ((Interleaving.replay (LifecycleSystem.step eager) newCompiler settledEvents).get (by decide)).2 :=
  LifecycleRun.safeRun (LifecycleRun.of_replay (by decide)) (by decide)

/-- Two callers shut down. The first takes the failure of its publication; the second starts another before the
first is back, which then waits and forgets what it has taken. -/
def lostEvents : List LifecycleEvent :=
  [.run .ordinary, .store 0, .turn 0 0 .written, .shutdown, .shutdown, .turn 1 0 .written, .turn 1 0 .written,
    .turn 1 0 .written, .turn 1 0 .written, .turn 1 0 (.failed "disk full"), .turn 1 0 .written,
    .turn 1 0 .written, .turn 2 0 .written, .turn 2 0 .written, .turn 2 0 .written, .turn 1 0 .written,
    .turn 1 0 .written, .turn 2 0 .written, .turn 2 0 .written, .turn 2 0 .written, .turn 2 0 .written,
    .turn 2 0 .written, .turn 1 0 .written]

theorem LifecycleRun.not_safeRun_lost :
    ¬ ∀ timeouts trace final, LifecycleRun timeouts trace final → SafeRun trace final := by
  intro hsafe
  have hdelivered := (hsafe _ _ _ (@LifecycleRun.of_replay eager lostEvents (by decide))).delivered "disk full"
  exact absurd hdelivered (by decide)

end Unpack.CacheLifecycle
