import Unpack.Lib.EffectProgram
import Mathlib.Logic.Relation

/-! Programs that only look at a world which others change. A run is told by its moments: the world as it is
at each observation. The moments of a composition are those of the first part and then those of the second,
and however the steps of a program are interleaved with the changes of others, each moment comes from the
one before it by such changes. -/

namespace EffectProgram

variable {σ ι ε α β : Type}

/-- The program returns the value when it observes the world at these moments. -/
inductive Observes : Program σ ι ε α → List σ → α → Prop
  | done (value : α) : Observes (.done value) [] value
  | observe {next : σ → Program σ ι ε α} {moment : σ} {moments : List σ} {value : α}
      (h : Observes (next moment) moments value) : Observes (.observe next) (moment :: moments) value

namespace Observes

theorem bind_iff {program : Program σ ι ε α} {f : α → Program σ ι ε β} {moments : List σ} {result : β} :
    Observes (program.bind f) moments result ↔
      ∃ first second value, moments = first ++ second ∧ Observes program first value ∧
        Observes (f value) second result := by
  constructor
  · intro h
    induction program generalizing moments with
    | done value => exact ⟨[], moments, value, rfl, .done value, h⟩
    | observe next ih =>
      cases h with
      | observe h =>
        obtain ⟨first, second, value, rfl, hfirst, hsecond⟩ := ih _ h
        exact ⟨_ :: first, second, value, rfl, .observe hfirst, hsecond⟩
    | perform effect next ih => cases h
  · rintro ⟨first, second, value, rfl, hfirst, hsecond⟩
    induction hfirst with
    | done value => exact hsecond
    | observe _ ih => exact .observe (ih hsecond)

variable {moments : List σ}

theorem pure_iff {value result : α} :
    Observes (pure value : Action σ ι ε α).run moments (.ok result) ↔
      moments = [] ∧ value = result := by
  constructor
  · intro h
    cases h
    exact ⟨rfl, rfl⟩
  · rintro ⟨rfl, rfl⟩
    exact .done _

theorem liftM_iff {outcome : Except ε α} {result : α} :
    Observes (liftM outcome : Action σ ι ε α).run moments (.ok result) ↔
      moments = [] ∧ outcome = .ok result := by
  constructor
  · intro h
    change Observes (.done outcome) moments (.ok result) at h
    cases h
    exact ⟨rfl, rfl⟩
  · rintro ⟨rfl, rfl⟩
    exact .done _

theorem observed_iff {f : σ → α} {result : α} :
    Observes (observed f : Action σ ι ε α).run moments (.ok result) ↔
      ∃ moment, moments = [moment] ∧ f moment = result := by
  constructor
  · intro h
    cases h with
    | observe h =>
      cases h
      exact ⟨_, rfl, rfl⟩
  · rintro ⟨moment, rfl, rfl⟩
    exact .observe (.done _)

theorem andThen_iff {action : Action σ ι ε α} {f : α → Action σ ι ε β} {result : β} :
    Observes (action >>= f).run moments (.ok result) ↔
      ∃ first second value, moments = first ++ second ∧ Observes action.run first (.ok value) ∧
        Observes (f value).run second (.ok result) := by
  change Observes (Program.bind action.run _) moments (Except.ok result) ↔ _
  rw [bind_iff]
  constructor
  · rintro ⟨first, second, value, hmoments, hfirst, hsecond⟩
    cases value with
    | ok value => exact ⟨first, second, value, hmoments, hfirst, hsecond⟩
    | error error =>
      generalize hresult : (Except.ok result : Except ε β) = returned at hsecond
      change Observes (.done (.error error)) second returned at hsecond
      cases hsecond
      cases hresult
  · rintro ⟨first, second, value, hmoments, hfirst, hsecond⟩
    exact ⟨first, second, .ok value, hmoments, hfirst, hsecond⟩

end Observes

/-- A step of the program, or a change of the world by others. -/
inductive Interleaved (apply : ι → σ → σ) (change : σ → σ → Prop) :
    Program σ ι ε α × σ → Program σ ι ε α × σ → Prop
  | program {program rest : Program σ ι ε α} {state later : σ} (h : Step apply program state rest later) :
      Interleaved apply change (program, state) (rest, later)
  | change (program : Program σ ι ε α) {state later : σ} (h : change state later) :
      Interleaved apply change (program, state) (program, later)

/-- The program performs no effects. -/
def Program.Observing : Program σ ι ε α → Prop
  | done _ => True
  | observe next => ∀ state, (next state).Observing
  | perform _ _ => False

theorem Program.observing [IsEmpty ι] (program : Program σ ι ε α) : program.Observing := by
  induction program with
  | done _ => exact trivial
  | observe next ih => exact ih
  | perform effect _ => exact isEmptyElim effect

/-- **Interleavings are moments.** A program that only observes and is interleaved with changes of the world
to its end has observed moments that follow each other by changes. -/
theorem observes_of_interleaved {apply : ι → σ → σ} {change : σ → σ → Prop}
    {program : Program σ ι ε α} {state final : σ} {value : α} (hobserving : program.Observing)
    (h : Relation.ReflTransGen (Interleaved apply change) (program, state) (.done value, final)) :
    ∃ moments, Observes program moments value ∧
      List.IsChain (Relation.ReflTransGen change) (state :: (moments ++ [final])) := by
  generalize hstart : (program, state) = start at h
  induction h using Relation.ReflTransGen.head_induction_on generalizing program state with
  | refl =>
    cases hstart
    exact ⟨[], .done value, .cons_cons .refl (.singleton _)⟩
  | head hstep _ ih =>
    cases hstep with
    | program hstep =>
      cases hstart
      cases hstep with
      | observe next =>
        obtain ⟨moments, hmoments, hchain⟩ := ih (hobserving _) rfl
        exact ⟨_ :: moments, .observe hmoments, .cons_cons .refl hchain⟩
      | effect effect next => exact absurd hobserving id
      | failure effect next _ error => exact absurd hobserving id
    | change _ hchange =>
      cases hstart
      obtain ⟨moments, hmoments, hchain⟩ := ih hobserving rfl
      refine ⟨moments, hmoments, ?_⟩
      cases moments with
      | nil =>
        obtain ⟨hnext, hrest⟩ := List.isChain_cons_cons.mp hchain
        exact .cons_cons (.head hchange hnext) hrest
      | cons moment moments =>
        obtain ⟨hnext, hrest⟩ := List.isChain_cons_cons.mp hchain
        exact .cons_cons (.head hchange hnext) hrest

/-- Moments that follow each other by changes are those of an interleaving. -/
theorem interleaved_of_observes {apply : ι → σ → σ} {change : σ → σ → Prop} {program : Program σ ι ε α}
    {moments : List σ} {state final : σ} {value : α} (h : Observes program moments value)
    (hchain : List.IsChain (Relation.ReflTransGen change) (state :: (moments ++ [final]))) :
    Relation.ReflTransGen (Interleaved apply change) (program, state) (.done value, final) := by
  have hwait : ∀ (program : Program σ ι ε α) {state later : σ}, Relation.ReflTransGen change state later →
      Relation.ReflTransGen (Interleaved apply change) (program, state) (program, later) :=
    fun program _ _ hchanges => hchanges.lift _ fun _ _ hchange => .change program hchange
  induction h generalizing state with
  | done value =>
    obtain ⟨hfirst, -⟩ := List.isChain_cons_cons.mp hchain
    exact hwait _ hfirst
  | observe _ ih =>
    obtain ⟨hfirst, hrest⟩ := List.isChain_cons_cons.mp hchain
    exact ((hwait _ hfirst).tail (.program (.observe _ _))).trans (ih hrest)

end EffectProgram
