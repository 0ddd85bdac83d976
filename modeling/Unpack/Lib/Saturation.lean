import Unpack.Lib.Fixpoint

/-! Passes over a list of items, repeated until a pass changes nothing. An update that changes the state
raises a bounded weight, so some pass changes nothing, and then no item has anything left to change. -/

namespace Saturation

variable {σ ι : Type} [DecidableEq σ]

/-- The updated state, and whether anything changed so far. -/
def visit (update : σ → ι → σ) (state : σ × Bool) (item : ι) : σ × Bool :=
  (update state.1 item, state.2 || decide (update state.1 item ≠ state.1))

def pass (update : σ → ι → σ) (items : List ι) (state : σ) : σ × Bool :=
  items.foldl (visit update) (state, false)

def saturate (update : σ → ι → σ) (items : List ι) (fuel : Nat) (state : σ) : σ :=
  Fixpoint.iterate (fun state =>
    if (pass update items state).2 then some (pass update items state).1 else none) fuel state

variable {update : σ → ι → σ} {items : List ι} {Inv : σ → Prop} {weight : σ → Nat}

theorem foldl_visit
    (hkeep : ∀ state, Inv state → ∀ item ∈ items, Inv (update state item))
    (hgrow : ∀ state, Inv state → ∀ item ∈ items,
      update state item = state ∨ weight state < weight (update state item))
    (start : σ × Bool) (hstart : Inv start.1) :
    Inv (items.foldl (visit update) start).1 ∧
      (items.foldl (visit update) start = start ∧ (∀ item ∈ items, update start.1 item = start.1) ∨
        (items.foldl (visit update) start).2 = true ∧
          weight start.1 < weight (items.foldl (visit update) start).1) := by
  induction items generalizing start with
  | nil => exact ⟨hstart, Or.inl ⟨rfl, by simp⟩⟩
  | cons item items ih =>
      obtain ⟨hinv, hrest⟩ := ih
        (fun state hstate other hother => hkeep state hstate other (List.mem_cons_of_mem _ hother))
        (fun state hstate other hother => hgrow state hstate other (List.mem_cons_of_mem _ hother))
        (visit update start item) (hkeep start.1 hstart item List.mem_cons_self)
      refine ⟨hinv, ?_⟩
      rw [List.foldl_cons]
      rcases hgrow start.1 hstart item List.mem_cons_self with hsame | hless
      · have hvisit : visit update start item = start := by
          simp [visit, hsame]
        rw [hvisit] at hrest ⊢
        refine hrest.imp (fun hdone => ⟨hdone.1, ?_⟩) id
        intro other hother
        rcases List.mem_cons.mp hother with rfl | hother
        · exact hsame
        · exact hdone.2 other hother
      · have hne : update start.1 item ≠ start.1 := by
          intro heq
          rw [heq] at hless
          exact Nat.lt_irrefl _ hless
        refine Or.inr ?_
        rcases hrest with ⟨heq, -⟩ | ⟨hchanged, hmore⟩
        · rw [heq]
          exact ⟨by simp [visit, hne], hless⟩
        · exact ⟨hchanged, Nat.lt_trans hless hmore⟩

/-- The passes end, with the invariant, where no item changes anything. -/
theorem saturate_spec (weight : σ → Nat) {fuel : Nat}
    (hkeep : ∀ state, Inv state → ∀ item ∈ items, Inv (update state item))
    (hgrow : ∀ state, Inv state → ∀ item ∈ items,
      update state item = state ∨ weight state < weight (update state item))
    (hbound : ∀ state, Inv state → weight state ≤ fuel) {start : σ} (hstart : Inv start) :
    Inv (saturate update items fuel start) ∧
      ∀ item ∈ items, update (saturate update items fuel start) item =
        saturate update items fuel start := by
  have hstep : ∀ state next, Inv state →
      (if (pass update items state).2 then some (pass update items state).1 else none) = some next →
        Inv next ∧ weight state < weight next := by
    intro state next hstate hnext
    obtain ⟨hinv, hcases⟩ := foldl_visit hkeep hgrow (state, false) hstate
    split_ifs at hnext with hchanged
    obtain rfl := Option.some.inj hnext
    rcases hcases with ⟨heq, -⟩ | ⟨-, hless⟩
    · rw [pass, heq] at hchanged
      exact Bool.noConfusion hchanged
    · exact ⟨hinv, hless⟩
  have hinv : Inv (saturate update items fuel start) :=
    Fixpoint.iterate_inv _ (fun state next hstate hnext => (hstep state next hstate hnext).1) fuel
      start hstart
  refine ⟨hinv, ?_⟩
  have hdone := Fixpoint.step_iterate_eq_none _ (fun state => fuel - weight state)
    (fun state next hstate hnext => (hstep state next hstate hnext).1)
    (fun state next hstate hnext => by
      obtain ⟨hnextInv, hless⟩ := hstep state next hstate hnext
      have := hbound next hnextInv
      omega)
    fuel start hstart (Nat.sub_le _ _)
  obtain ⟨-, hcases⟩ := foldl_visit hkeep hgrow (saturate update items fuel start, false) hinv
  rcases hcases with ⟨-, hsettled⟩ | ⟨hchanged, -⟩
  · exact hsettled
  · change (if (pass update items (saturate update items fuel start)).2 then _ else _) = none at hdone
    rw [pass, if_pos hchanged] at hdone
    exact absurd hdone (Option.some_ne_none _)

end Saturation
