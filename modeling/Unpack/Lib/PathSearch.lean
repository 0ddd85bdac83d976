import Unpack.Lib.Worklist

/-! A depth-first check along simple paths. The nodes on the current path are not entered again, so a
cycle counts as good; the check still decides whether everything reachable is good. -/

namespace PathSearch

open Worklist

variable {α : Type} [DecidableEq α]

/-- Whether the node and all that follows it outside the current path is good. -/
def allGood (next : α → List α) (good : α → Bool) : Nat → α → List α → Bool
  | 0, _, _ => false
  | fuel + 1, a, visiting =>
      good a && (decide (a ∈ visiting) ||
        (next a).all fun b => allGood next good fuel b (a :: visiting))

/-- Reachability whose steps leave no node of the list. -/
inductive ReachOutside (next : α → List α) (visiting : List α) : α → α → Prop where
  | refl (a : α) : ReachOutside next visiting a a
  | head {a b c : α} (hfresh : a ∉ visiting) (hab : b ∈ next a)
      (hbc : ReachOutside next visiting b c) : ReachOutside next visiting a c

omit [DecidableEq α] in
theorem ReachOutside.of_reach {next : α → List α} {a b : α} (h : Reach next a b) :
    ReachOutside next [] a b := by
  induction h using Relation.ReflTransGen.head_induction_on with
  | refl => exact .refl b
  | head hab _ ih => exact .head List.not_mem_nil hab ih

/-- A path can be cut after its last visit of a node. -/
theorem ReachOutside.avoid {next : α → List α} {visiting : List α} {a b : α}
    (h : ReachOutside next visiting a b) (cut : α) :
    ReachOutside next (cut :: visiting) a b ∨
      ∃ c ∈ next cut, ReachOutside next (cut :: visiting) c b := by
  induction h with
  | refl a => exact Or.inl (.refl a)
  | @head a c b hfresh hac _ ih =>
      rcases ih with hrest | hcut
      · by_cases heq : a = cut
        · exact Or.inr ⟨c, heq ▸ hac, hrest⟩
        · exact Or.inl (.head (by simp [heq, hfresh]) hac hrest)
      · exact Or.inr hcut

theorem good_of_allGood {next : α → List α} {good : α → Bool} (fuel : Nat) (a : α)
    (visiting : List α) (h : allGood next good fuel a visiting = true) (b : α)
    (hreach : ReachOutside next visiting a b) : good b = true := by
  induction fuel generalizing a visiting with
  | zero => exact Bool.noConfusion h
  | succ fuel ih =>
      rw [allGood, Bool.and_eq_true, Bool.or_eq_true, decide_eq_true_eq, List.all_eq_true] at h
      obtain ⟨hgood, hrest⟩ := h
      have hnext : ∀ c ∈ next a, a ∉ visiting → ReachOutside next (a :: visiting) c b →
          good b = true := fun c hc hfresh hcb =>
        ih c (a :: visiting) (hrest.resolve_left hfresh c hc) hcb
      cases hreach with
      | refl => exact hgood
      | @head _ c _ hfresh hac hcb =>
          -- Cut the rest of the path after its last visit of `a`.
          rcases hcb.avoid a with hcb | ⟨d, had, hdb⟩
          · exact hnext c hac hfresh hcb
          · exact hnext d had hfresh hdb

theorem allGood_of_good {next : α → List α} {good : α → Bool} (nodes : List α)
    (hnodes : ∀ a ∈ nodes, ∀ b ∈ next a, b ∈ nodes) (fuel : Nat) (a : α) (visiting : List α)
    (ha : a ∈ nodes) (hvisiting : ∀ b ∈ visiting, b ∈ nodes) (hnodup : visiting.Nodup)
    (hfuel : nodes.length + 1 ≤ fuel + visiting.length)
    (hgood : ∀ b, Reach next a b → good b = true) : allGood next good fuel a visiting = true := by
  induction fuel generalizing a visiting with
  | zero =>
      have hle := (List.subperm_of_subset hnodup hvisiting).length_le
      omega
  | succ fuel ih =>
      rw [allGood, Bool.and_eq_true, Bool.or_eq_true, decide_eq_true_eq, List.all_eq_true]
      refine ⟨hgood a (Reach.refl a), ?_⟩
      by_cases hmem : a ∈ visiting
      · exact Or.inl hmem
      · refine Or.inr fun b hb => ih b (a :: visiting) (hnodes a ha b hb) ?_ ?_ ?_ ?_
        · intro c hc
          rcases List.mem_cons.mp hc with rfl | hc
          · exact ha
          · exact hvisiting c hc
        · exact List.nodup_cons.mpr ⟨hmem, hnodup⟩
        · rw [List.length_cons]
          omega
        · exact fun c hbc => hgood c (Reach.head hb hbc)

/-- **Exactness.** The check succeeds exactly when everything reachable is good. -/
theorem allGood_iff {next : α → List α} {good : α → Bool} (nodes : List α)
    (hnodes : ∀ a ∈ nodes, ∀ b ∈ next a, b ∈ nodes) {fuel : Nat} {a : α} (ha : a ∈ nodes)
    (hfuel : nodes.length + 1 ≤ fuel) :
    allGood next good fuel a [] = true ↔ ∀ b, Reach next a b → good b = true := by
  constructor
  · exact fun h b hreach => good_of_allGood fuel a [] h b (.of_reach hreach)
  · exact fun h => allGood_of_good nodes hnodes fuel a [] ha (by simp) List.nodup_nil hfuel h

end PathSearch
