import Mathlib.Data.List.Induction

/-! Runs of a system whose parties take their steps in any order. A run keeps the states that it has left,
each with the event by which it was left. An operation that takes several steps between its call and its
return is linearizable when its answer is the answer of one of the states that it has left in between. -/

namespace Interleaving

variable {σ ι : Type}

section

variable (initial : σ → Prop) (step : σ → ι → σ → Prop)

inductive Run : List (σ × ι) → σ → Prop
  | start {state : σ} (h : initial state) : Run [] state
  | step {trace : List (σ × ι)} {state next : σ} {event : ι} (h : Run trace state)
      (hstep : step state event next) : Run (trace ++ [(state, event)]) next

/-- The events `calls` and `returns` tell the beginning and the end of an operation, the request that it
begins with and the value that it ends with. -/
def Linearizable {Thread Request Value : Type} (calls : ι → Option (Thread × Request))
    (returns : ι → Option (Thread × Value)) (answer : σ → Request → Value) : Prop :=
  ∀ before during state event last thread request value final,
    Run initial step (before ++ during ++ [(last, event)]) final →
      returns event = some (thread, value) →
        during.head? = some state → calls state.2 = some (thread, request) →
          (∀ passed ∈ during, ∀ other, returns passed.2 ≠ some (thread, other)) →
            ∃ passed ∈ during ++ [(last, event)], value = answer passed.1 request

/-- An operation ends with the answer of the very state in which it returns. -/
def AnswersAtReturn {Thread Request Value : Type} (calls : ι → Option (Thread × Request))
    (returns : ι → Option (Thread × Value)) (answer : σ → Request → Value) : Prop :=
  ∀ before during state event last thread request value final,
    Run initial step (before ++ during ++ [(last, event)]) final →
      returns event = some (thread, value) →
        during.head? = some state → calls state.2 = some (thread, request) →
          (∀ passed ∈ during, ∀ other, returns passed.2 ≠ some (thread, other)) →
            value = answer last request

end

variable {initial : σ → Prop} {step : σ → ι → σ → Prop} {Invariant : σ → Prop}

/-- What holds at the start and is kept by every step holds in every state of a run. -/
theorem Run.invariant (hinitial : ∀ state, initial state → Invariant state)
    (hkept : ∀ state event next, Invariant state → step state event next → Invariant next)
    {trace : List (σ × ι)} {state : σ} (h : Run initial step trace state) : Invariant state := by
  induction h with
  | start h => exact hinitial _ h
  | step _ hstep ih => exact hkept _ _ _ ih hstep

/-- What is kept by every allowed step, the trace included, holds of a run of allowed steps. -/
theorem Run.kept {Allowed : σ → ι → Prop} {Kept : List (σ × ι) → σ → Prop}
    (hinitial : ∀ state, initial state → Kept [] state)
    (hkept : ∀ trace state event next, Kept trace state → Allowed state event → step state event next →
      Kept (trace ++ [(state, event)]) next)
    {trace : List (σ × ι)} {state : σ} (h : Run initial step trace state)
    (hallowed : ∀ passed ∈ trace, Allowed passed.1 passed.2) : Kept trace state := by
  induction h with
  | start h => exact hinitial _ h
  | step _ hstep ih =>
    have hlast := hallowed _ (List.mem_append_right _ (List.mem_singleton_self _))
    exact hkept _ _ _ _ (ih fun passed hpassed => hallowed passed (List.mem_append_left _ hpassed)) hlast hstep

/-- The run by given events of a system whose events have one outcome at most. -/
def replay (next : σ → ι → Option σ) (state : σ) : List ι → Option (List (σ × ι) × σ)
  | [] => some ([], state)
  | event :: events => do
      let after ← next state event
      let (trace, final) ← replay next after events
      return ((state, event) :: trace, final)

theorem Run.replay {next : σ → ι → Option σ} {before trace : List (σ × ι)} {state final : σ} {events : List ι}
    (h : Run initial (fun state event after => next state event = some after) before state)
    (hreplay : replay next state events = some (trace, final)) :
    Run initial (fun state event after => next state event = some after) (before ++ trace) final := by
  induction events generalizing before trace state with
  | nil =>
    cases hreplay
    rwa [List.append_nil]
  | cons event events ih =>
    obtain ⟨after, hafter, hrest⟩ := Option.bind_eq_some_iff.mp hreplay
    obtain ⟨⟨rest, last⟩, hrest, hlast⟩ := Option.bind_eq_some_iff.mp hrest
    cases hlast
    have hrun := ih (Run.step h hafter) hrest
    rwa [List.append_assoc] at hrun

/-- The last step of a run, and the run before it. -/
theorem Run.last_step {trace : List (σ × ι)} {state final : σ} {event : ι}
    (h : Run initial step (trace ++ [(state, event)]) final) :
    Run initial step trace state ∧ step state event final := by
  generalize hall : trace ++ [(state, event)] = all at h
  cases h with
  | start => simp at hall
  | step h hstep =>
    obtain ⟨rfl, hlast⟩ := List.append_inj' hall rfl
    cases hlast
    exact ⟨h, hstep⟩

theorem Run.of_append {first second : List (σ × ι)} {final : σ}
    (h : Run initial step (first ++ second) final) : ∃ state, Run initial step first state := by
  induction second using List.reverseRecOn generalizing final with
  | nil => exact ⟨final, by simpa using h⟩
  | append_singleton second last ih =>
    obtain ⟨state, event⟩ := last
    rw [← List.append_assoc] at h
    exact ih h.last_step.1

section

variable {Thread Request Value : Type} {calls : ι → Option (Thread × Request)}
  {returns : ι → Option (Thread × Value)} {answer : σ → Request → Value}
  {Serving : σ → Thread → Request → Prop}

/-- A call that has not returned is being served. -/
theorem Run.serving
    (hcall : ∀ state event next thread request, step state event next →
      calls event = some (thread, request) → Serving next thread request)
    (hserve : ∀ state event next thread request, step state event next → Serving state thread request →
      (∀ value, returns event ≠ some (thread, value)) → Serving next thread request)
    {thread : Thread} {request : Request} {before rest : List (σ × ι)} {called : σ × ι} {final : σ}
    (hcalled : calls called.2 = some (thread, request))
    (hrest : ∀ passed ∈ rest, ∀ value, returns passed.2 ≠ some (thread, value))
    (h : Run initial step (before ++ called :: rest) final) : Serving final thread request := by
  induction rest using List.reverseRecOn generalizing final with
  | nil => exact hcall _ _ _ _ _ h.last_step.2 hcalled
  | append_singleton rest last ih =>
    obtain ⟨state, event⟩ := last
    have hsplit : before ++ called :: (rest ++ [(state, event)]) =
        (before ++ called :: rest) ++ [(state, event)] := by
      simp
    rw [hsplit] at h
    obtain ⟨hearlier, hstep⟩ := h.last_step
    refine hserve _ _ _ _ _ hstep (ih (fun passed hpassed => ?_) hearlier) ?_
    · exact hrest passed (List.mem_append_left _ hpassed)
    · exact hrest _ (List.mem_append_right _ (List.mem_singleton_self _))

/-- The state in which an operation returns is between its call and its return. -/
theorem AnswersAtReturn.linearizable (h : AnswersAtReturn initial step calls returns answer) :
    Linearizable initial step calls returns answer := by
  intro before during called event last thread request value final hrun hreturned hhead hcalled hduring
  exact ⟨(last, event), List.mem_append_right _ (List.mem_singleton_self _),
    h before during called event last thread request value final hrun hreturned hhead hcalled hduring⟩

/-- The step that returns gives the answer of the state that it leaves. -/
theorem answersAtReturn_of_last_step (hinitial : ∀ state, initial state → Invariant state)
    (hkept : ∀ state event next, Invariant state → step state event next → Invariant next)
    (hcall : ∀ state event next thread request, step state event next →
      calls event = some (thread, request) → Serving next thread request)
    (hserve : ∀ state event next thread request, step state event next → Serving state thread request →
      (∀ value, returns event ≠ some (thread, value)) → Serving next thread request)
    (hreturn : ∀ state event next thread request value, Invariant state → step state event next →
      Serving state thread request → returns event = some (thread, value) →
        value = answer state request) :
    AnswersAtReturn initial step calls returns answer := by
  intro before during called event last thread request value final h hreturned hhead hcalled hduring
  obtain ⟨rest, rfl⟩ : ∃ rest, during = called :: rest := by
    cases during with
    | nil => cases hhead
    | cons first rest =>
      cases hhead
      exact ⟨rest, rfl⟩
  obtain ⟨hearlier, hstep⟩ := h.last_step
  have hserving := hearlier.serving hcall hserve hcalled fun passed hpassed =>
    hduring passed (List.mem_cons_of_mem called hpassed)
  exact hreturn _ _ _ _ _ _ (hearlier.invariant hinitial hkept) hstep hserving hreturned

end

end Interleaving
