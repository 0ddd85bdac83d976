import Mathlib.Data.Fintype.Card
import Mathlib.Data.Finset.Image

/-! The first number that is not taken. A finite list takes finitely many numbers when each of its values takes
one at most, so a search with that much fuel ends at a number that is not taken; for an injective sequence, at a
member that is not in the list. -/

namespace Unpack.FreshNames

/-- The search goes on while the numbers are taken and its fuel lasts. -/
structure Searches (search : ℕ → ℕ → ℕ) (taken : ℕ → Prop) : Prop where
  zero : ∀ start, search 0 start = start
  stop : ∀ fuel start, ¬ taken start → search (fuel + 1) start = start
  next : ∀ fuel start, taken start → search (fuel + 1) start = search fuel (start + 1)

variable {α : Type*} [DecidableEq α] {used : List α}

/-- A stretch of numbers that the list takes is no longer than the list. -/
theorem card_le_of_forall_takes (takes : α → ℕ → Prop)
    (hunique : ∀ value left right, takes value left → takes value right → left = right) {start stop : ℕ}
    (htakes : ∀ index, start ≤ index → index < stop → ∃ value ∈ used, takes value index) :
    stop - start ≤ used.toFinset.card := by
  have hstretch : ∀ index : Fin (stop - start), ∃ value ∈ used, takes value (start + index) :=
    fun index => htakes _ (Nat.le_add_right _ _) (by omega)
  choose value hmem hvalue using hstretch
  have hinjective : Function.Injective value := by
    intro left right heq
    have hsame := hunique (value left) _ _ (hvalue left) (heq ▸ hvalue right)
    exact Fin.ext (Nat.add_left_cancel hsame)
  calc stop - start = (Finset.univ : Finset (Fin (stop - start))).card := (Finset.card_fin _).symm
    _ = (Finset.univ.image value).card := (Finset.card_image_of_injective _ hinjective).symm
    _ ≤ used.toFinset.card := Finset.card_le_card <| Finset.image_subset_iff.mpr fun index _ =>
        List.mem_toFinset.mpr (hmem index)

namespace Searches

variable {search : ℕ → ℕ → ℕ} {taken : ℕ → Prop}

/-- The search passes over taken numbers only. -/
theorem taken_of_lt (h : Searches search taken) (fuel : ℕ) {start index : ℕ} (hstart : start ≤ index)
    (hindex : index < search fuel start) : taken index := by
  induction fuel generalizing start with
  | zero =>
      rw [h.zero] at hindex
      exact absurd hindex (Nat.not_lt.mpr hstart)
  | succ fuel ih =>
      by_cases htaken : taken start
      · rw [h.next fuel start htaken] at hindex
        rcases hstart.eq_or_lt with rfl | hlt
        · exact htaken
        · exact ih hlt hindex
      · rw [h.stop fuel start htaken] at hindex
        exact absurd hindex (Nat.not_lt.mpr hstart)

/-- A search that ends at a taken number has used all its fuel. -/
theorem eq_add_of_taken (h : Searches search taken) (fuel start : ℕ) (htaken : taken (search fuel start)) :
    search fuel start = start + fuel := by
  induction fuel generalizing start with
  | zero => exact h.zero start
  | succ fuel ih =>
      by_cases hstart : taken start
      · rw [h.next fuel start hstart] at htaken ⊢
        rw [ih (start + 1) htaken]
        omega
      · rw [h.stop fuel start hstart] at htaken
        exact absurd htaken hstart

/-- With as much fuel as the list has values the search ends at a number that is not taken. -/
theorem not_taken (h : Searches search taken) (takes : α → ℕ → Prop)
    (htakes : ∀ index, taken index → ∃ value ∈ used, takes value index)
    (hunique : ∀ value left right, takes value left → takes value right → left = right) {fuel : ℕ}
    (hfuel : used.toFinset.card ≤ fuel) (start : ℕ) : ¬ taken (search fuel start) := by
  intro htaken
  have hend := h.eq_add_of_taken fuel start htaken
  have hall : ∀ index, start ≤ index → index < start + fuel + 1 → taken index := by
    intro index hlow hhigh
    rcases (Nat.lt_succ_iff.mp hhigh).eq_or_lt with rfl | hlt
    · rwa [← hend]
    · exact h.taken_of_lt fuel hlow (hend.symm ▸ hlt)
  have hlong := card_le_of_forall_takes takes hunique fun index hlow hhigh => htakes index (hall index hlow hhigh)
  omega

end Searches

/-- The first index from `start` on whose member is not in the list, or the last one tried. -/
def firstFree (used : List α) (sequence : ℕ → α) : ℕ → ℕ → ℕ
  | 0, start => start
  | fuel + 1, start =>
      if sequence start ∈ used then firstFree used sequence fuel (start + 1) else start

variable {sequence : ℕ → α}

theorem searches_firstFree : Searches (firstFree used sequence) (sequence · ∈ used) where
  zero _ := rfl
  stop _ _ hfree := if_neg hfree
  next _ _ hused := if_pos hused

/-- The search passes over members of the list only. -/
theorem mem_of_lt_firstFree (fuel start : ℕ) {index : ℕ} (hstart : start ≤ index)
    (hindex : index < firstFree used sequence fuel start) : sequence index ∈ used :=
  searches_firstFree.taken_of_lt fuel hstart hindex

omit [DecidableEq α] in
theorem sequence_unique (hsequence : Function.Injective sequence) (value : α) (left right : ℕ)
    (hleft : sequence left = value) (hright : sequence right = value) : left = right :=
  hsequence (hleft.trans hright.symm)

/-- A stretch of an injective sequence that lies in the list is no longer than the list. -/
theorem card_le_of_forall_mem (hsequence : Function.Injective sequence) {start stop : ℕ}
    (hmem : ∀ index, start ≤ index → index < stop → sequence index ∈ used) :
    stop - start ≤ used.toFinset.card :=
  card_le_of_forall_takes (fun value index => sequence index = value) (sequence_unique hsequence)
    fun index hlow hhigh => ⟨_, hmem index hlow hhigh, rfl⟩

/-- With more fuel than the list has values the search ends outside the list. -/
theorem firstFree_notMem (hsequence : Function.Injective sequence) {fuel : ℕ}
    (hfuel : used.toFinset.card < fuel) (start : ℕ) :
    sequence (firstFree used sequence fuel start) ∉ used :=
  searches_firstFree.not_taken (fun value index => sequence index = value) (fun _ hmem => ⟨_, hmem, rfl⟩)
    (sequence_unique hsequence) hfuel.le start

end Unpack.FreshNames
