import Mathlib.Logic.Relation

/-! Points that hold values of their own or pass on to other points. A point denotes what is held by the
points it passes on to, however far, and it resolves to a value when that is the only one. -/

namespace Delegation

variable {α β : Type} (passes : α → α → Prop) (holds : α → β → Prop)

def Denotes (a : α) (value : β) : Prop := ∃ b, Relation.ReflTransGen passes a b ∧ holds b value

def Resolves (a : α) (value : β) : Prop :=
  Denotes passes holds a value ∧ ∀ other, Denotes passes holds a other → other = value

/-- Two points resolve to the same value, or neither does. -/
def Same (a b : α) : Prop := ∀ value, Resolves passes holds a value ↔ Resolves passes holds b value

/-- It holds nothing and passes on to one point. -/
structure PassesOnlyTo (a b : α) : Prop where
  holds_nothing : ∀ value, ¬ holds a value
  passes_iff : ∀ c, passes a c ↔ c = b

variable {passes holds} {a b c : α}

theorem PassesOnlyTo.denotes_iff (h : PassesOnlyTo passes holds a b) {value : β} :
    Denotes passes holds a value ↔ Denotes passes holds b value := by
  constructor
  · rintro ⟨c, hreach, hvalue⟩
    rcases Relation.ReflTransGen.cases_head hreach with rfl | ⟨next, hstep, hrest⟩
    · exact absurd hvalue (h.holds_nothing value)
    · rw [(h.passes_iff next).mp hstep] at hrest
      exact ⟨c, hrest, hvalue⟩
  · rintro ⟨c, hreach, hvalue⟩
    exact ⟨c, .head ((h.passes_iff b).mpr rfl) hreach, hvalue⟩

theorem PassesOnlyTo.same (h : PassesOnlyTo passes holds a b) : Same passes holds a b := by
  intro value
  simp only [Resolves, h.denotes_iff]

theorem Same.refl (a : α) : Same passes holds a a := fun _ => Iff.rfl

theorem Same.trans (hab : Same passes holds a b) (hbc : Same passes holds b c) : Same passes holds a c :=
  fun value => (hab value).trans (hbc value)

theorem resolves_of_holds_only {value : β} (hvalue : holds a value) (honly : ∀ other, holds a other → other = value)
    (hpasses : ∀ b, ¬ passes a b) : Resolves passes holds a value := by
  refine ⟨⟨a, .refl, hvalue⟩, ?_⟩
  rintro other ⟨b, hreach, hother⟩
  rcases Relation.ReflTransGen.cases_head hreach with rfl | ⟨next, hstep, -⟩
  · exact honly other hother
  · exact absurd hstep (hpasses next)

/-- A run of steps, with the points it leaves. -/
inductive Run (step : α → α → Prop) : α → List α → α → Prop where
  | refl (a : α) : Run step a [] a
  | head {a b c : α} {left : List α} (hstep : step a b) (hrest : Run step b left c) : Run step a (a :: left) c

namespace Run

variable {step : α → α → Prop} {left before after : List α}

theorem reflTransGen (h : Run step a left b) : Relation.ReflTransGen step a b := by
  induction h with
  | refl a => exact .refl
  | head hstep _ ih => exact .head hstep ih

theorem transGen (h : Run step a left b) (hleft : left ≠ []) : Relation.TransGen step a b := by
  cases h with
  | refl a => exact absurd rfl hleft
  | head hstep hrest => exact .head' hstep hrest.reflTransGen

/-- A run that leaves points which each pass on to one point only keeps the value. -/
theorem same (h : Run step a left b)
    (honly : ∀ p ∈ left, ∀ q, step p q → PassesOnlyTo passes holds p q) : Same passes holds a b := by
  induction h with
  | refl a => exact Same.refl a
  | head hstep _ ih =>
    exact (honly _ List.mem_cons_self _ hstep).same.trans
      (ih fun p hp => honly p (List.mem_cons_of_mem _ hp))

/-- What a run does after a point that it leaves. -/
theorem of_append (h : Run step a (before ++ c :: after) b) : ∃ next, step c next ∧ Run step next after b := by
  induction before generalizing a with
  | nil =>
    cases h with
    | head hstep hrest => exact ⟨_, hstep, hrest⟩
  | cons item before ih =>
    cases h with
    | head _ hrest => exact ih hrest

end Run

/-- The last point of a list that is not good. -/
theorem good_or_last (good : α → Prop) (points : List α) : (∀ p ∈ points, good p) ∨
    ∃ before p after, points = before ++ p :: after ∧ ¬ good p ∧ ∀ q ∈ after, good q := by
  induction points with
  | nil => exact .inl fun p hp => absurd hp List.not_mem_nil
  | cons point points ih =>
    rcases ih with hgood | ⟨before, p, after, rfl, hbad, hafter⟩
    · by_cases hpoint : good point
      · refine .inl fun p hp => ?_
        rcases List.mem_cons.mp hp with rfl | hp
        · exact hpoint
        · exact hgood p hp
      · exact .inr ⟨[], point, points, rfl, hpoint, hgood⟩
    · exact .inr ⟨point :: before, p, after, rfl, hbad, hafter⟩

end Delegation
