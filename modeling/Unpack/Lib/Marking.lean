import Unpack.Lib.Worklist
import Mathlib.Data.List.Perm.Subperm

/-! A walk that marks a node when it is pushed. With fuel for every node it marks the nodes it starts with and all
that reach one of them backwards, and a node left unmarked has no marked successor. -/

namespace Marking

open Worklist

variable {α : Type} [DecidableEq α]

/-- The queue and the marked nodes after one more node has been looked at. -/
def push (state : List α × List α) (a : α) : List α × List α :=
  if a ∈ state.2 then state else (state.1 ++ [a], state.2 ++ [a])

/-- Pop the head of the queue and push what precedes it. -/
def mark (previous : α → List α) : Nat → List α → List α → List α
  | 0, _, marked => marked
  | _ + 1, [], marked => marked
  | fuel + 1, a :: queue, marked =>
      let state := (previous a).foldl push (queue, marked)
      mark previous fuel state.1 state.2

/-- The state after some pushes: the same nodes have joined the queue and the marked ones. -/
theorem foldl_push (items queue marked : List α) (hnodup : marked.Nodup) : ∃ fresh,
    items.foldl push (queue, marked) = (queue ++ fresh, marked ++ fresh) ∧ (marked ++ fresh).Nodup ∧
      (∀ a ∈ fresh, a ∈ items) ∧ ∀ a ∈ items, a ∈ marked ++ fresh := by
  induction items generalizing queue marked with
  | nil => exact ⟨[], by simp, by simpa using hnodup, by simp, by simp⟩
  | cons item items ih =>
      rw [List.foldl_cons, push]
      by_cases hitem : item ∈ marked
      · obtain ⟨fresh, heq, hfresh, hsound, hcomplete⟩ := ih queue marked hnodup
        refine ⟨fresh, by rw [if_pos hitem, heq], hfresh, fun a ha => List.mem_cons_of_mem _ (hsound a ha), ?_⟩
        intro a ha
        rcases List.mem_cons.mp ha with rfl | ha
        · exact List.mem_append_left _ hitem
        · exact hcomplete a ha
      · have hnodup' : (marked ++ [item]).Nodup := by
          rw [List.nodup_append]
          refine ⟨hnodup, List.nodup_singleton item, fun b hb c hc heq => hitem ?_⟩
          rw [← List.mem_singleton.mp hc, ← heq]
          exact hb
        obtain ⟨fresh, heq, hfresh, hsound, hcomplete⟩ := ih (queue ++ [item]) (marked ++ [item]) hnodup'
        refine ⟨item :: fresh, ?_, by simpa using hfresh, ?_, ?_⟩
        · rw [if_neg hitem, heq, List.append_assoc, List.append_assoc]
          rfl
        · intro a ha
          rcases List.mem_cons.mp ha with rfl | ha
          · exact List.mem_cons_self
          · exact List.mem_cons_of_mem _ (hsound a ha)
        · intro a ha
          rcases List.mem_cons.mp ha with rfl | ha
          · exact List.mem_append_right _ List.mem_cons_self
          · simpa using hcomplete a ha

variable {previous : α → List α} {nodes : List α}

/-- What the walk leaves behind: the marked nodes stay marked, and they are closed under what precedes them. -/
theorem mark_spec (hnodes : ∀ a ∈ nodes, ∀ b ∈ previous a, b ∈ nodes) (fuel : Nat) (queue marked : List α)
    (hnodup : marked.Nodup) (hmarked : ∀ a ∈ marked, a ∈ nodes) (hqueue : ∀ a ∈ queue, a ∈ marked)
    (hfuel : queue.length + (nodes.length - marked.length) ≤ fuel)
    (hdone : ∀ a ∈ marked, a ∉ queue → ∀ b ∈ previous a, b ∈ marked) :
    (∀ a ∈ marked, a ∈ mark previous fuel queue marked) ∧
      (∀ a ∈ mark previous fuel queue marked, ∀ b ∈ previous a, b ∈ mark previous fuel queue marked) ∧
      ∀ a ∈ mark previous fuel queue marked, ∃ b ∈ marked, Reach previous b a := by
  induction fuel generalizing queue marked with
  | zero =>
      have hnil : queue = [] := List.length_eq_zero_iff.mp (by omega)
      subst hnil
      exact ⟨fun a ha => ha, fun a ha => hdone a ha List.not_mem_nil, fun a ha => ⟨a, ha, .refl a⟩⟩
  | succ fuel ih =>
      cases queue with
      | nil => exact ⟨fun a ha => ha, fun a ha => hdone a ha List.not_mem_nil, fun a ha => ⟨a, ha, .refl a⟩⟩
      | cons a queue =>
          have ha := hqueue a List.mem_cons_self
          obtain ⟨fresh, heq, hfresh, hsound, hcomplete⟩ := foldl_push (previous a) queue marked hnodup
          have hin : ∀ b ∈ marked ++ fresh, b ∈ nodes := by
            intro b hb
            rcases List.mem_append.mp hb with hb | hb
            · exact hmarked b hb
            · exact hnodes a (hmarked a ha) b (hsound b hb)
          have hle := (hfresh.subperm hin).length_le
          rw [List.length_append] at hle
          have hnext := ih (queue ++ fresh) (marked ++ fresh) hfresh hin ?_ ?_ ?_
          · rw [mark, heq]
            refine ⟨fun b hb => hnext.1 b (List.mem_append_left _ hb), hnext.2.1, fun b hb => ?_⟩
            obtain ⟨c, hc, hreach⟩ := hnext.2.2 b hb
            rcases List.mem_append.mp hc with hc | hc
            · exact ⟨c, hc, hreach⟩
            · exact ⟨a, ha, .head (hsound c hc) hreach⟩
          · intro b hb
            rcases List.mem_append.mp hb with hb | hb
            · exact List.mem_append_left _ (hqueue b (List.mem_cons_of_mem _ hb))
            · exact List.mem_append_right _ hb
          · rw [List.length_cons] at hfuel
            rw [List.length_append, List.length_append]
            omega
          · intro b hb hout c hc
            rcases List.mem_append.mp hb with hb | hb
            · by_cases hba : b = a
              · exact hcomplete c (hba ▸ hc)
              · refine List.mem_append_left _ (hdone b hb ?_ c hc)
                rw [List.mem_cons]
                exact fun h => h.elim hba fun h => hout (List.mem_append_left _ h)
            · exact absurd (List.mem_append_right _ hb) hout

/-- From some nodes exactly those are marked from which one of them is reached. -/
theorem mem_mark_iff (hnodes : ∀ a ∈ nodes, ∀ b ∈ previous a, b ∈ nodes) {start : List α} (hnodup : start.Nodup)
    (hstart : ∀ a ∈ start, a ∈ nodes) {fuel : Nat} (hfuel : nodes.length ≤ fuel) {a : α} :
    a ∈ mark previous fuel start start ↔ ∃ b ∈ start, Reach previous b a := by
  have hle := (hnodup.subperm hstart).length_le
  obtain ⟨hkept, hclosed, hsound⟩ := mark_spec hnodes fuel start start hnodup hstart (fun b hb => hb) (by omega)
    fun b hb hout => absurd hb hout
  constructor
  · exact hsound a
  · rintro ⟨b, hb, hreach⟩
    exact hreach.mem_of_closed (P := fun c => c ∈ mark previous fuel start start) hclosed (hkept b hb)

end Marking
