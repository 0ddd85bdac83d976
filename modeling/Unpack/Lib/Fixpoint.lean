import Mathlib.Order.Basic

/-! Loops that run a step function until it has nothing left to do. The fuel bounds the number of
steps; a measure that every step lowers shows that the fuel is never what ends the loop. -/

namespace Fixpoint

variable {σ : Type} {step : σ → Option σ} {Inv : σ → Prop}

def iterate (step : σ → Option σ) : Nat → σ → σ
  | 0, s => s
  | fuel + 1, s =>
      match step s with
      | none => s
      | some s' => iterate step fuel s'

/-- What every step keeps holds at the end. -/
theorem iterate_inv (Inv : σ → Prop) (hstep : ∀ s s', Inv s → step s = some s' → Inv s') (fuel : Nat) (s : σ)
    (hs : Inv s) : Inv (iterate step fuel s) := by
  induction fuel generalizing s with
  | zero => exact hs
  | succ fuel ih =>
      rw [iterate]
      cases h : step s with
      | none => exact hs
      | some s' => exact ih s' (hstep s s' hs h)

/-- With fuel for the measure the loop ends because no step is left. -/
theorem step_iterate_eq_none (Inv : σ → Prop) (measure : σ → Nat)
    (hstep : ∀ s s', Inv s → step s = some s' → Inv s')
    (hmeasure : ∀ s s', Inv s → step s = some s' → measure s' < measure s) (fuel : Nat) (s : σ)
    (hs : Inv s) (hfuel : measure s ≤ fuel) : step (iterate step fuel s) = none := by
  induction fuel generalizing s with
  | zero =>
      rw [iterate]
      cases h : step s with
      | none => rfl
      | some s' =>
          have := hmeasure s s' hs h
          omega
  | succ fuel ih =>
      rw [iterate]
      cases h : step s with
      | none => exact h
      | some s' =>
          have := hmeasure s s' hs h
          exact ih s' (hstep s s' hs h) (by omega)

end Fixpoint
