import Mathlib.Data.List.Basic

/-! Programs that observe a state and perform effects on it, where every effect may fail and the program
goes on with the failure. A run takes the outcome of each effect from a list and stops where the list
ends, which is where a crash can leave the state. A condition on the places where a run can stop and one
on the results it can return are proved along the program. -/

namespace EffectProgram

/-- A program over states `σ` that performs effects `ι`, which fail with `ε`. -/
inductive Program (σ ι ε α : Type) : Type
  | done (value : α)
  | observe (next : σ → Program σ ι ε α)
  | perform (effect : ι) (next : Except ε Unit → Program σ ι ε α)

variable {σ ι ε α β : Type}

namespace Program

def bind : Program σ ι ε α → (α → Program σ ι ε β) → Program σ ι ε β
  | done value, f => f value
  | observe next, f => observe fun state => (next state).bind f
  | perform effect next, f => perform effect fun outcome => (next outcome).bind f

instance : Monad (Program σ ι ε) where
  pure := done
  bind := bind

end Program

/-- A program that returns a value or stops with an error. -/
abbrev Action (σ ι ε : Type) := ExceptT ε (Program σ ι ε)

def act (effect : ι) : Action σ ι ε Unit := ExceptT.mk (.perform effect .done)

/-- The effect, whatever comes of it. -/
def attempt (effect : ι) : Action σ ι ε (Except ε Unit) :=
  ExceptT.mk (.perform effect fun outcome => .done (.ok outcome))

def observed (f : σ → α) : Action σ ι ε α := ExceptT.mk (.observe fun state => .done (.ok (f state)))

variable (apply : ι → σ → σ)

/-- Where a run stands: what is left of the program, the effects that failed, and the state. -/
structure Stop (σ ι ε α : Type) where
  rest : Program σ ι ε α
  failed : List ι
  state : σ

theorem Stop.eq_of_rest {stop : Stop σ ι ε α} {rest : Program σ ι ε α} (h : stop.rest = rest) :
    stop = ⟨rest, stop.failed, stop.state⟩ := by
  rw [← h]

/-- The run in which the effects have these outcomes, none of them a failure without an error. -/
def exec : List (Option ε) → Program σ ι ε α → List ι → σ → Stop σ ι ε α
  | _, .done value, failed, state => ⟨.done value, failed, state⟩
  | outcomes, .observe next, failed, state => exec outcomes (next state) failed state
  | [], .perform effect next, failed, state => ⟨.perform effect next, failed, state⟩
  | none :: outcomes, .perform effect next, failed, state =>
      exec outcomes (next (.ok ())) failed (apply effect state)
  | some error :: outcomes, .perform effect next, failed, state =>
      exec outcomes (next (.error error)) (effect :: failed) state

/-- Wherever a run stops the state is as `Stopped` says, and what it returns is as `Returned` says. -/
def Always (Stopped : List ι → σ → Prop) (Returned : α → List ι → σ → Prop) :
    Program σ ι ε α → List ι → σ → Prop
  | .done value, failed, state => Returned value failed state
  | .observe next, failed, state => Always Stopped Returned (next state) failed state
  | .perform effect next, failed, state =>
      Stopped failed state ∧ Always Stopped Returned (next (.ok ())) failed (apply effect state) ∧
        ∀ error, Always Stopped Returned (next (.error error)) (effect :: failed) state

variable {apply} {Stopped : List ι → σ → Prop} {Returned Returned' : α → List ι → σ → Prop}
  {failed : List ι} {state : σ}

theorem Always.exec_cases {program : Program σ ι ε α} {outcomes : List (Option ε)} {stop : Stop σ ι ε α}
    (hstop : exec apply outcomes program failed state = stop)
    (h : Always apply Stopped Returned program failed state) :
    (∃ value, stop.rest = .done value ∧ Returned value stop.failed stop.state) ∨
      (∀ value, stop.rest ≠ .done value) ∧ Stopped stop.failed stop.state := by
  induction program generalizing outcomes failed state with
  | done value =>
    rw [exec] at hstop
    rw [← hstop]
    exact Or.inl ⟨value, rfl, h⟩
  | observe next ih =>
    rw [exec] at hstop
    exact ih state hstop h
  | perform effect next ih =>
    obtain ⟨hstopped, hok, herror⟩ := h
    match outcomes with
    | [] =>
      rw [exec] at hstop
      rw [← hstop]
      refine Or.inr ⟨fun value hvalue => ?_, hstopped⟩
      cases hvalue
    | none :: outcomes =>
      rw [exec] at hstop
      exact ih (.ok ()) hstop hok
    | some error :: outcomes =>
      rw [exec] at hstop
      exact ih (.error error) hstop (herror error)

theorem Always.mono {program : Program σ ι ε α} {Stopped' : List ι → σ → Prop}
    (h : Always apply Stopped Returned program failed state)
    (hstop : ∀ failed state, Stopped failed state → Stopped' failed state)
    (hreturn : ∀ value failed state, Returned value failed state → Returned' value failed state) :
    Always apply Stopped' Returned' program failed state := by
  induction program generalizing failed state with
  | done value => exact hreturn value failed state h
  | observe next ih => exact ih state h
  | perform effect next ih =>
    exact ⟨hstop failed state h.1, ih (.ok ()) h.2.1, fun error => ih (.error error) (h.2.2 error)⟩

theorem Always.bind {program : Program σ ι ε α} {f : α → Program σ ι ε β}
    {Finally : β → List ι → σ → Prop}
    (h : Always apply Stopped (fun value => Always apply Stopped Finally (f value)) program failed state) :
    Always apply Stopped Finally (program.bind f) failed state := by
  induction program generalizing failed state with
  | done value => exact h
  | observe next ih => exact ih state h
  | perform effect next ih =>
    exact ⟨h.1, ih (.ok ()) h.2.1, fun error => ih (.error error) (h.2.2 error)⟩

section

variable {Finally : Except ε β → List ι → σ → Prop}

/-- What holds when an action ends and the next one starts, or when it stops with an error. -/
def Next (Value : α → List ι → σ → Prop) (Failure : ε → List ι → σ → Prop) :
    Except ε α → List ι → σ → Prop
  | .ok value => Value value
  | .error error => Failure error

theorem Always.andThen {action : Action σ ι ε α} {f : α → Action σ ι ε β}
    (h : Always apply Stopped (Next (fun value => Always apply Stopped Finally (f value).run)
      fun error => Finally (.error error)) action.run failed state) :
    Always apply Stopped Finally (action >>= f).run failed state := by
  refine Always.bind (h.mono (fun _ _ hstopped => hstopped) fun outcome failed state hnext => ?_)
  cases outcome with
  | ok value => exact hnext
  | error error => exact hnext

theorem Always.liftM {outcome : Except ε α} {Finally : Except ε α → List ι → σ → Prop}
    (h : Finally outcome failed state) :
    Always apply Stopped Finally (liftM outcome : Action σ ι ε α).run failed state := h

theorem Always.observed {f : σ → α} {Finally : Except ε α → List ι → σ → Prop}
    (h : Finally (.ok (f state)) failed state) :
    Always apply Stopped Finally (EffectProgram.observed f : Action σ ι ε α).run failed state := h

theorem Always.act {effect : ι} {Finally : Except ε Unit → List ι → σ → Prop}
    (hstop : Stopped failed state) (hok : Finally (.ok ()) failed (apply effect state))
    (herror : ∀ error, Finally (.error error) (effect :: failed) state) :
    Always apply Stopped Finally (EffectProgram.act effect : Action σ ι ε Unit).run failed state :=
  ⟨hstop, hok, herror⟩

end

/-- One step of a program: it observes the state, or an effect is performed or fails. -/
inductive Step (apply : ι → σ → σ) : Program σ ι ε α → σ → Program σ ι ε α → σ → Prop
  | observe (next : σ → Program σ ι ε α) (state : σ) : Step apply (.observe next) state (next state) state
  | effect (effect : ι) (next : Except ε Unit → Program σ ι ε α) (state : σ) :
      Step apply (.perform effect next) state (next (.ok ())) (apply effect state)
  | failure (effect : ι) (next : Except ε Unit → Program σ ι ε α) (state : σ) (error : ε) :
      Step apply (.perform effect next) state (next (.error error)) state

theorem Always.step {program rest : Program σ ι ε α} {later : σ}
    (h : Always apply Stopped Returned program failed state) (hstep : Step apply program state rest later) :
    ∃ failed', Always apply Stopped Returned rest failed' later := by
  cases hstep with
  | observe next => exact ⟨failed, h⟩
  | effect effect next => exact ⟨failed, h.2.1⟩
  | failure effect next _ error => exact ⟨effect :: failed, h.2.2 error⟩

variable (apply) in
/-- Whatever fails from here on, no error is returned. -/
def Succeeds (program : Program σ ι ε (Except ε β)) (failed : List ι) (state : σ) : Prop :=
  Always apply (fun _ _ => True) (fun value _ _ => value.isOk = true) program failed state

variable (apply) in
/-- As `Always`, and the state is kept for as long as an error can be returned. -/
def Guarded (Stopped : List ι → σ → Prop) (Returned : Except ε β → List ι → σ → Prop) (Kept : σ → Prop) :
    Program σ ι ε (Except ε β) → List ι → σ → Prop
  | .done value, failed, state => Returned value failed state ∧ (value.isOk = true ∨ Kept state)
  | .observe next, failed, state => Guarded Stopped Returned Kept (next state) failed state
  | .perform effect next, failed, state =>
      Stopped failed state ∧ (Succeeds apply (.perform effect next) failed state ∨ Kept state) ∧
        Guarded Stopped Returned Kept (next (.ok ())) failed (apply effect state) ∧
          ∀ error, Guarded Stopped Returned Kept (next (.error error)) (effect :: failed) state

section

variable {Kept : σ → Prop} {Outcome : Except ε β → List ι → σ → Prop}
  {program rest : Program σ ι ε (Except ε β)}

/-- What has failed before does not matter. -/
theorem Succeeds.of_failed {failed' : List ι} (h : Succeeds apply program failed state) :
    Succeeds apply program failed' state := by
  induction program generalizing failed failed' state with
  | done value => exact h
  | observe next ih => exact ih state h
  | perform effect next ih =>
    obtain ⟨-, hok, herror⟩ := h
    exact ⟨trivial, ih (.ok ()) hok, fun error => ih (.error error) (herror error)⟩

theorem Succeeds.step {later : σ} {failed' : List ι} (h : Succeeds apply program failed state)
    (hstep : Step apply program state rest later) : Succeeds apply rest failed' later := by
  obtain ⟨_, hnext⟩ := Always.step h hstep
  exact Succeeds.of_failed hnext

theorem Guarded.always (h : Guarded apply Stopped Outcome Kept program failed state) :
    Always apply Stopped Outcome program failed state := by
  induction program generalizing failed state with
  | done value => exact h.1
  | observe next ih => exact ih state h
  | perform effect next ih =>
    obtain ⟨hstopped, -, hok, herror⟩ := h
    exact ⟨hstopped, ih (.ok ()) hok, fun error => ih (.error error) (herror error)⟩

/-- Where the program can be stopped now, or what it returns. -/
theorem Guarded.here (h : Guarded apply Stopped Outcome Kept program failed state) :
    Stopped failed state ∨ ∃ outcome, Outcome outcome failed state := by
  induction program generalizing failed state with
  | done value => exact Or.inr ⟨value, h.1⟩
  | observe next ih => exact ih state h
  | perform effect next ih => exact Or.inl h.1

theorem Guarded.kept (h : Guarded apply Stopped Outcome Kept program failed state) :
    Succeeds apply program failed state ∨ Kept state := by
  induction program generalizing failed state with
  | done value => exact h.2
  | observe next ih => exact ih state h
  | perform effect next ih => exact h.2.1

theorem Guarded.step {later : σ} (h : Guarded apply Stopped Outcome Kept program failed state)
    (hstep : Step apply program state rest later) :
    ∃ failed', Guarded apply Stopped Outcome Kept rest failed' later := by
  cases hstep with
  | observe next => exact ⟨failed, h⟩
  | effect effect next => exact ⟨failed, h.2.2.1⟩
  | failure effect next _ error => exact ⟨effect :: failed, h.2.2.2 error⟩

/-- A program that is bound to succeed has nothing to keep. -/
theorem Succeeds.guarded (hsucceeds : Succeeds apply program failed state)
    (h : Always apply Stopped Outcome program failed state) :
    Guarded apply Stopped Outcome Kept program failed state := by
  induction program generalizing failed state with
  | done value => exact ⟨h, Or.inl hsucceeds⟩
  | observe next ih => exact ih state hsucceeds h
  | perform effect next ih =>
    obtain ⟨-, hok, herror⟩ := hsucceeds
    exact ⟨h.1, Or.inl ⟨trivial, hok, herror⟩, ih (.ok ()) hok h.2.1,
      fun error => ih (.error error) (herror error) (h.2.2 error)⟩

/-- An action that keeps the state throughout comes before the rest. -/
theorem Guarded.andThen {action : Action σ ι ε α} {f : α → Action σ ι ε β}
    (h : Always apply (fun failed state => Stopped failed state ∧ Kept state)
      (Next (fun value => Guarded apply Stopped Outcome Kept (f value).run)
        fun error failed state => Outcome (.error error) failed state ∧ Kept state) action.run failed state) :
    Guarded apply Stopped Outcome Kept (action >>= f).run failed state := by
  have hbind : ∀ (program : Program σ ι ε (Except ε α)) (failed : List ι) (state : σ),
      Always apply (fun failed state => Stopped failed state ∧ Kept state)
        (Next (fun value => Guarded apply Stopped Outcome Kept (f value).run)
          fun error failed state => Outcome (.error error) failed state ∧ Kept state) program failed state →
        Guarded apply Stopped Outcome Kept (program.bind (ExceptT.bindCont f)) failed state := by
    intro program
    induction program with
    | done value =>
      intro failed state h
      cases value with
      | ok value => exact h
      | error error => exact ⟨h.1, Or.inr h.2⟩
    | observe next ih => exact fun failed state h => ih state failed state h
    | perform effect next ih =>
      rintro failed state ⟨⟨hstopped, hkept⟩, hok, herror⟩
      exact ⟨hstopped, Or.inr hkept, ih (.ok ()) failed _ hok,
        fun error => ih (.error error) _ state (herror error)⟩
  exact hbind action.run failed state h

end

end EffectProgram
