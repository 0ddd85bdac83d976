import Unpack.Lib.Worklist
import Mathlib.Data.List.Forall2

/-! Two graphs that look alike from some of their nodes. A relation that is one to one and carries successors
along carries what is reached, and breadth-first walks visit related nodes in the same order. -/

namespace Similarity

open Worklist

variable {α β : Type}

/-- The relation pairs nodes one to one, and the successors of paired nodes are paired in order. -/
structure Alike (next : α → List α) (next' : β → List β) (R : α → β → Prop) : Prop where
  unique : Relator.BiUnique R
  next : ∀ {a b}, R a b → List.Forall₂ R (next a) (next' b)

theorem exists_right {R : α → β → Prop} {left : List α} {right : List β} (h : List.Forall₂ R left right) {a : α}
    (ha : a ∈ left) : ∃ b ∈ right, R a b := by
  induction h with
  | nil => simp at ha
  | cons hab _ ih =>
      rcases List.mem_cons.mp ha with rfl | ha
      · exact ⟨_, List.mem_cons_self, hab⟩
      · obtain ⟨b, hb, hR⟩ := ih ha
        exact ⟨b, List.mem_cons_of_mem _ hb, hR⟩

theorem map_eq_map {γ : Type} {R : α → β → Prop} {left : List α} {right : List β} {f : α → γ} {g : β → γ}
    (h : List.Forall₂ R left right) (heq : ∀ a b, R a b → f a = g b) : left.map f = right.map g := by
  have hmap : List.Forall₂ (· = ·) (left.map f) (right.map g) :=
    List.rel_map (P := (· = ·)) (fun a b hab => heq a b hab) h
  rwa [List.forall₂_eq_eq_eq] at hmap

namespace Alike

variable {next : α → List α} {next' : β → List β} {R : α → β → Prop}

/-- What a node reaches is paired with what its partner reaches. -/
theorem reach (h : Alike next next' R) {a c : α} {b : β} (hab : R a b) (hac : Reach next a c) :
    ∃ d, Reach next' b d ∧ R c d := by
  induction hac with
  | refl => exact ⟨b, .refl b, hab⟩
  | tail _ hstep ih =>
      obtain ⟨d, hbd, hR⟩ := ih
      obtain ⟨e, he, hRe⟩ := exists_right (h.next hR) hstep
      exact ⟨e, hbd.tail he, hRe⟩

/-- Walks with fuel for every pop collect paired nodes in the same order. -/
theorem collect [DecidableEq α] [DecidableEq β] (h : Alike next next' R) (nodes : List α) (nodes' : List β)
    (hnodes : ∀ a ∈ nodes, ∀ c ∈ next a, c ∈ nodes) (hnodes' : ∀ b ∈ nodes', ∀ d ∈ next' b, d ∈ nodes')
    (fuel fuel' : Nat) (queue visited : List α) (queue' visited' : List β)
    (hqueue : List.Forall₂ R queue queue') (hvisited : List.Forall₂ R visited visited')
    (hin : ∀ a ∈ queue, a ∈ nodes) (hin' : ∀ b ∈ queue', b ∈ nodes')
    (hfuel : cost next nodes queue visited ≤ fuel) (hfuel' : cost next' nodes' queue' visited' ≤ fuel') :
    List.Forall₂ R (Worklist.collect next fuel queue visited) (Worklist.collect next' fuel' queue' visited') := by
  induction fuel generalizing fuel' queue visited queue' visited' with
  | zero =>
      have hnil : queue = [] := List.length_eq_zero_iff.mp (by rw [cost] at hfuel; omega)
      subst hnil
      cases hqueue
      cases fuel' <;> exact hvisited
  | succ fuel ih =>
      cases hqueue with
      | nil => cases fuel' <;> exact hvisited
      | @cons a b queue queue' hab hqueue =>
          cases fuel' with
          | zero =>
              rw [cost, List.length_cons] at hfuel'
              omega
          | succ fuel' =>
              have ha := hin a List.mem_cons_self
              have hb := hin' b List.mem_cons_self
              have hrest : ∀ c ∈ queue, c ∈ nodes := fun c hc => hin c (List.mem_cons_of_mem _ hc)
              have hrest' : ∀ d ∈ queue', d ∈ nodes' := fun d hd => hin' d (List.mem_cons_of_mem _ hd)
              have hmem : a ∈ visited ↔ b ∈ visited' := List.rel_mem h.unique hab hvisited
              rw [Worklist.collect, Worklist.collect]
              by_cases hseen : a ∈ visited
              · rw [if_pos hseen, if_pos (hmem.mp hseen)]
                rw [cost_skip] at hfuel hfuel'
                exact ih fuel' queue visited queue' visited' hqueue hvisited hrest hrest' (by omega) (by omega)
              · have hseen' : b ∉ visited' := fun hb => hseen (hmem.mpr hb)
                rw [if_neg hseen, if_neg hseen']
                have hcost := cost_visit next nodes queue (queue ++ next a) visited a ha hseen List.length_append
                have hcost' :=
                  cost_visit next' nodes' queue' (queue' ++ next' b) visited' b hb hseen' List.length_append
                refine ih fuel' _ _ _ _ (List.rel_append hqueue (h.next hab))
                  (List.rel_append hvisited (.cons hab .nil)) ?_ ?_ (by omega) (by omega)
                · intro c hc
                  rcases List.mem_append.mp hc with hc | hc
                  · exact hrest c hc
                  · exact hnodes a ha c hc
                · intro d hd
                  rcases List.mem_append.mp hd with hd | hd
                  · exact hrest' d hd
                  · exact hnodes' b hb d hd

end Alike

end Similarity
