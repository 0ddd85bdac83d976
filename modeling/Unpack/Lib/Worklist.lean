import Mathlib.Logic.Relation
import Mathlib.Algebra.Order.BigOperators.Group.List
import Mathlib.Algebra.Order.Group.Nat
import Mathlib.Data.List.Nodup
import Mathlib.Algebra.GroupWithZero.Nat

/-! Breadth-first collection over a successor function. The queue may hold a node many times; a node
is expanded when it is first popped. With fuel for every push the collected list is exactly what the
successor function reaches from the queue. -/

namespace Worklist

variable {α : Type}

/-- Reflexive transitive closure of the successor function. -/
def Reach (next : α → List α) : α → α → Prop :=
  Relation.ReflTransGen fun a b => b ∈ next a

theorem Reach.refl {next : α → List α} (a : α) : Reach next a a := Relation.ReflTransGen.refl

theorem Reach.tail {next : α → List α} {a b c : α} (hab : Reach next a b) (hbc : c ∈ next b) :
    Reach next a c :=
  Relation.ReflTransGen.tail hab hbc

theorem Reach.head {next : α → List α} {a b c : α} (hab : b ∈ next a) (hbc : Reach next b c) :
    Reach next a c :=
  Relation.ReflTransGen.head hab hbc

/-- A set closed under the successor function keeps everything it reaches. -/
theorem Reach.mem_of_closed {next : α → List α} {P : α → Prop}
    (hclosed : ∀ a, P a → ∀ b ∈ next a, P b) {a b : α} (hab : Reach next a b) (ha : P a) : P b := by
  induction hab with
  | refl => exact ha
  | tail _ hbc ih => exact hclosed _ ih _ hbc

variable [DecidableEq α]

/-- The worklist: pop the head of the queue, skip it when visited, otherwise visit it and push its
successors. -/
def collect (next : α → List α) : Nat → List α → List α → List α
  | 0, _, visited => visited
  | _ + 1, [], visited => visited
  | fuel + 1, a :: queue, visited =>
      if a ∈ visited then collect next fuel queue visited
      else collect next fuel (queue ++ next a) (visited ++ [a])

/-- The same walk where the successors join the queue in some other way: at its front it is a stack. -/
def collectWith (push : List α → List α → List α) (next : α → List α) :
    Nat → List α → List α → List α
  | 0, _, visited => visited
  | _ + 1, [], visited => visited
  | fuel + 1, a :: queue, visited =>
      if a ∈ visited then collectWith push next fuel queue visited
      else collectWith push next fuel (push queue (next a)) (visited ++ [a])

theorem collectWith_append (next : α → List α) (fuel : Nat) (queue visited : List α) :
    collectWith (fun queue new => queue ++ new) next fuel queue visited =
      collect next fuel queue visited := by
  induction fuel generalizing queue visited with
  | zero => rfl
  | succ fuel ih =>
      cases queue with
      | nil => rfl
      | cons a queue => rw [collectWith, collect, ih, ih]

/-- The pops still to come: what is queued, and the pushes of the nodes not yet visited. -/
def cost (next : α → List α) (nodes queue visited : List α) : Nat :=
  queue.length + ((nodes.filter fun a => a ∉ visited).map fun a => (next a).length).sum

theorem cost_skip (next : α → List α) (nodes queue visited : List α) (a : α) :
    cost next nodes (a :: queue) visited = cost next nodes queue visited + 1 := by
  simp only [cost, List.length_cons]
  omega

theorem sum_filter_visit (weight : α → Nat) (nodes visited : List α) (a : α) (hmem : a ∈ nodes)
    (hfresh : a ∉ visited) :
    ((nodes.filter fun b => b ∉ visited ++ [a]).map weight).sum + weight a ≤
      ((nodes.filter fun b => b ∉ visited).map weight).sum := by
  induction nodes with
  | nil => simp at hmem
  | cons node nodes ih =>
      by_cases heq : node = a
      · subst heq
        have hle : ((nodes.filter fun b => b ∉ visited ++ [node]).map weight).sum ≤
            ((nodes.filter fun b => b ∉ visited).map weight).sum := by
          apply List.Sublist.sum_le_sum
          · apply List.Sublist.map
            apply List.monotone_filter_right
            intro b hb
            simp only [List.mem_append, List.mem_singleton, not_or, decide_eq_true_eq] at hb ⊢
            exact hb.1
          · intro _ _
            exact Nat.zero_le _
        simp only [List.filter_cons, hfresh, List.mem_append, List.mem_singleton, or_true,
          not_true_eq_false, decide_false, not_false_eq_true, decide_true, if_true,
          Bool.false_eq_true, if_false, List.map_cons, List.sum_cons] at hle ⊢
        omega
      · have hmem' : a ∈ nodes := by
          rcases List.mem_cons.mp hmem with h | h
          · exact absurd h.symm heq
          · exact h
        have hih := ih hmem'
        by_cases hnode : node ∈ visited
        · simpa [List.filter_cons, hnode] using hih
        · have hne : node ∉ visited ++ [a] := by simp [hnode, heq]
          simp only [List.filter_cons, hnode, hne, not_false_eq_true, decide_true, if_true,
            List.map_cons, List.sum_cons]
          omega

theorem cost_visit (next : α → List α) (nodes queue queue' visited : List α) (a : α)
    (hmem : a ∈ nodes) (hfresh : a ∉ visited)
    (hlength : queue'.length = queue.length + (next a).length) :
    cost next nodes queue' (visited ++ [a]) + 1 ≤ cost next nodes (a :: queue) visited := by
  have h := sum_filter_visit (fun b => (next b).length) nodes visited a hmem hfresh
  simp only [cost, List.length_cons] at h ⊢
  omega

/-- What is visited stays collected. -/
theorem mem_collect_of_visited (next : α → List α) (fuel : Nat) (queue visited : List α) {a : α}
    (ha : a ∈ visited) : a ∈ collect next fuel queue visited := by
  induction fuel generalizing queue visited with
  | zero => exact ha
  | succ fuel ih =>
      cases queue with
      | nil => exact ha
      | cons b queue =>
          rw [collect]
          split_ifs
          · exact ih _ _ ha
          · exact ih _ _ (List.mem_append_left _ ha)

/-- Every property of the queue that successors inherit holds of everything collected. -/
theorem collect_sound (next : α → List α) (P : α → Prop)
    (hstep : ∀ a, P a → ∀ b ∈ next a, P b) (fuel : Nat) (queue visited : List α)
    (hqueue : ∀ a ∈ queue, P a) (hvisited : ∀ a ∈ visited, P a) :
    ∀ a ∈ collect next fuel queue visited, P a := by
  induction fuel generalizing queue visited with
  | zero => exact hvisited
  | succ fuel ih =>
      cases queue with
      | nil => exact hvisited
      | cons a queue =>
          have ha := hqueue a List.mem_cons_self
          have hrest : ∀ b ∈ queue, P b := fun b hb => hqueue b (List.mem_cons_of_mem _ hb)
          rw [collect]
          split_ifs with hmem
          · exact ih _ _ hrest hvisited
          · apply ih
            · intro b hb
              rcases List.mem_append.mp hb with hb | hb
              · exact hrest b hb
              · exact hstep a ha b hb
            · intro b hb
              rcases List.mem_append.mp hb with hb | hb
              · exact hvisited b hb
              · exact List.mem_singleton.mp hb ▸ ha

/-- The successors join the queue, all of them and nothing else. -/
structure Pushes (push : List α → List α → List α) : Prop where
  mem_iff : ∀ queue new a, a ∈ push queue new ↔ a ∈ queue ∨ a ∈ new
  length_eq : ∀ queue new, (push queue new).length = queue.length + new.length

omit [DecidableEq α] in
theorem pushes_append : Pushes fun queue new : List α => queue ++ new where
  mem_iff _ _ _ := List.mem_append
  length_eq _ _ := List.length_append

/-- With fuel for every pop, what is collected holds the queue and the visited nodes and is closed
under successors. -/
theorem collectWith_closed {push : List α → List α → List α} (hpush : Pushes push)
    (next : α → List α) (nodes : List α)
    (hnodes : ∀ a ∈ nodes, ∀ b ∈ next a, b ∈ nodes) (fuel : Nat) (queue visited : List α)
    (hqueue : ∀ a ∈ queue, a ∈ nodes) (hfuel : cost next nodes queue visited ≤ fuel)
    (hdone : ∀ a ∈ visited, ∀ b ∈ next a, b ∈ visited ∨ b ∈ queue) :
    (∀ a ∈ queue, a ∈ collectWith push next fuel queue visited) ∧
      (∀ a ∈ visited, a ∈ collectWith push next fuel queue visited) ∧
      ∀ a ∈ collectWith push next fuel queue visited, ∀ b ∈ next a,
        b ∈ collectWith push next fuel queue visited := by
  induction fuel generalizing queue visited with
  | zero =>
      have hnil : queue = [] := by
        rw [cost] at hfuel
        exact List.length_eq_zero_iff.mp (by omega)
      subst hnil
      refine ⟨by simp, fun a ha => ha, fun a ha b hb => ?_⟩
      exact (hdone a ha b hb).resolve_right List.not_mem_nil
  | succ fuel ih =>
      cases queue with
      | nil =>
          refine ⟨by simp, fun a ha => ha, fun a ha b hb => ?_⟩
          exact (hdone a ha b hb).resolve_right List.not_mem_nil
      | cons a queue =>
          have ha := hqueue a List.mem_cons_self
          have hrest : ∀ b ∈ queue, b ∈ nodes := fun b hb => hqueue b (List.mem_cons_of_mem _ hb)
          rw [collectWith]
          split_ifs with hmem
          · have hcost : cost next nodes queue visited ≤ fuel := by
              rw [cost_skip] at hfuel
              omega
            have hdone' : ∀ b ∈ visited, ∀ c ∈ next b, c ∈ visited ∨ c ∈ queue := by
              intro b hb c hc
              rcases hdone b hb c hc with h | h
              · exact Or.inl h
              · rcases List.mem_cons.mp h with h | h
                · exact Or.inl (h ▸ hmem)
                · exact Or.inr h
            obtain ⟨hq, hv, hclosed⟩ := ih queue visited hrest hcost hdone'
            refine ⟨fun b hb => ?_, hv, hclosed⟩
            rcases List.mem_cons.mp hb with h | h
            · exact h ▸ hv a hmem
            · exact hq b h
          · have hcost : cost next nodes (push queue (next a)) (visited ++ [a]) ≤ fuel := by
              have := cost_visit next nodes queue _ visited a ha hmem (hpush.length_eq queue (next a))
              omega
            have hqueue' : ∀ b ∈ push queue (next a), b ∈ nodes := by
              intro b hb
              rcases (hpush.mem_iff _ _ b).mp hb with hb | hb
              · exact hrest b hb
              · exact hnodes a ha b hb
            have hdone' : ∀ b ∈ visited ++ [a], ∀ c ∈ next b,
                c ∈ visited ++ [a] ∨ c ∈ push queue (next a) := by
              intro b hb c hc
              rcases List.mem_append.mp hb with hb | hb
              · rcases hdone b hb c hc with h | h
                · exact Or.inl (List.mem_append_left _ h)
                · rcases List.mem_cons.mp h with h | h
                  · exact Or.inl (h ▸ List.mem_append_right _ (List.mem_singleton_self _))
                  · exact Or.inr ((hpush.mem_iff _ _ c).mpr (Or.inl h))
              · rw [List.mem_singleton.mp hb] at hc
                exact Or.inr ((hpush.mem_iff _ _ c).mpr (Or.inr hc))
            obtain ⟨hq, hv, hclosed⟩ := ih _ _ hqueue' hcost hdone'
            refine ⟨fun b hb => ?_, fun b hb => hv b (List.mem_append_left _ hb), hclosed⟩
            rcases List.mem_cons.mp hb with h | h
            · exact h ▸ hv a (List.mem_append_right _ (List.mem_singleton_self _))
            · exact hq b ((hpush.mem_iff _ _ b).mpr (Or.inl h))

/-- **Completeness.** From one start, everything the start reaches is collected. -/
theorem mem_collectWith_of_reach {push : List α → List α → List α} (hpush : Pushes push)
    (next : α → List α) (nodes : List α)
    (hnodes : ∀ a ∈ nodes, ∀ b ∈ next a, b ∈ nodes) (fuel : Nat) (start : α) (hstart : start ∈ nodes)
    (hfuel : 1 + (nodes.map fun a => (next a).length).sum ≤ fuel) {b : α} (hb : Reach next start b) :
    b ∈ collectWith push next fuel [start] [] := by
  have hcost : cost next nodes [start] [] ≤ fuel := by simpa [cost] using hfuel
  obtain ⟨hq, -, hclosed⟩ := collectWith_closed hpush next nodes hnodes fuel [start] []
    (by simpa using hstart) hcost (by simp)
  exact hb.mem_of_closed (P := fun a => a ∈ collectWith push next fuel [start] []) hclosed
    (hq start (by simp))

/-- Distinct keys share out the items: the rows of a table hold no more than its items. -/
theorem sum_length_filter_le {β : Type} (key : β → Option α) (keys : List α) (items : List β)
    (hnodup : keys.Nodup) :
    (keys.map fun a => (items.filter fun item => key item = some a).length).sum ≤ items.length := by
  induction keys generalizing items with
  | nil => exact Nat.zero_le _
  | cons a keys ih =>
      obtain ⟨hfresh, hnodup⟩ := List.nodup_cons.mp hnodup
      have hrest : (keys.map fun b => (items.filter fun item => key item = some b).length) =
          keys.map fun b => ((items.filter fun item => !decide (key item = some a)).filter
            fun item => key item = some b).length := by
        apply List.map_congr_left
        intro b hb
        have hne : b ≠ a := fun heq => hfresh (heq ▸ hb)
        rw [List.filter_filter]
        congr 1
        apply List.filter_congr
        intro item _
        by_cases hkey : key item = some b <;> simp [hkey, hne]
      have hih := ih (items.filter fun item => !decide (key item = some a)) hnodup
      have hsplit := List.length_eq_length_filter_add (l := items) fun item =>
        decide (key item = some a)
      rw [List.map_cons, List.sum_cons, hrest]
      omega

/-- **Exactness.** From one start, the worklist collects exactly what the start reaches. -/
theorem mem_collect_iff (next : α → List α) (nodes : List α)
    (hnodes : ∀ a ∈ nodes, ∀ b ∈ next a, b ∈ nodes) (fuel : Nat) (start : α) (hstart : start ∈ nodes)
    (hfuel : 1 + (nodes.map fun a => (next a).length).sum ≤ fuel) (b : α) :
    b ∈ collect next fuel [start] [] ↔ Reach next start b := by
  constructor
  · intro hb
    refine collect_sound next (Reach next start) (fun a ha c hc => ha.tail hc) fuel [start] []
      ?_ (by simp) b hb
    intro a ha
    rw [List.mem_singleton.mp ha]
    exact Reach.refl start
  · intro hb
    rw [← collectWith_append]
    exact mem_collectWith_of_reach pushes_append next nodes hnodes fuel start hstart hfuel hb

end Worklist
