import Unpack.BuiltGroups
import Unpack.Lib.EdgeInsertion

/-! The parent and child edges of the chunk groups while the connecting phase inserts them. An edge that
would close a cycle is left out, so the edges stay acyclic; children and parents stay inverse, and every
edge is an edge of the runtime as well. -/

namespace Unpack

open Relation

namespace ChunkGraph

def children (chunkGraph : ChunkGraph) (group : ChunkGroupHandle) : List ChunkGroupHandle :=
  (chunkGraph.chunkGroup group).elim [] (·.children)

def parents (chunkGraph : ChunkGraph) (group : ChunkGroupHandle) : List ChunkGroupHandle :=
  (chunkGraph.chunkGroup group).elim [] (·.parents)

def ChildEdge (chunkGraph : ChunkGraph) (parent child : ChunkGroupHandle) : Prop :=
  child ∈ chunkGraph.children parent

/-- What holds of the edges after every insertion. -/
structure Linked (chunkGraph : ChunkGraph) : Prop where
  acyclic : EdgeInsertion.Acyclic chunkGraph.ChildEdge
  inverse : ∀ parent child, child ∈ chunkGraph.children parent ↔ parent ∈ chunkGraph.parents child
  contained : ∀ parent child, child ∈ chunkGraph.children parent →
    child ∈ chunkGraph.runtimeChildren parent

theorem mem_parents_lt {chunkGraph : ChunkGraph} {parent child : ChunkGroupHandle}
    (h : parent ∈ chunkGraph.parents child) : child < chunkGraph.chunkGroups.length := by
  by_contra hge
  rw [parents, chunkGroup, List.getElem?_eq_none (Nat.le_of_not_lt hge)] at h
  exact List.not_mem_nil h

theorem Linked.child_lt {chunkGraph : ChunkGraph} (h : chunkGraph.Linked)
    {parent child : ChunkGroupHandle} (hedge : child ∈ chunkGraph.children parent) :
    child < chunkGraph.chunkGroups.length :=
  mem_parents_lt ((h.inverse parent child).mp hedge)

/-- The search answers whether the target is among what the worklist would collect. -/
theorem chunkGroupReaches_eq_true (chunkGraph : ChunkGraph) (target : ChunkGroupHandle) (fuel : Nat)
    (pending visited collected : List ChunkGroupHandle) (hsame : ∀ group, group ∈ visited ↔
      group ∈ collected) (hfresh : target ∉ collected) :
    chunkGroupReaches chunkGraph target fuel pending visited = true ↔
      target ∈ Worklist.collect chunkGraph.children fuel pending collected := by
  induction fuel generalizing pending visited collected with
  | zero => exact ⟨fun h => Bool.noConfusion h, fun h => absurd h hfresh⟩
  | succ fuel ih =>
      cases pending with
      | nil => exact ⟨fun h => Bool.noConfusion h, fun h => absurd h hfresh⟩
      | cons group pending =>
          rw [chunkGroupReaches, Worklist.collect]
          by_cases htarget : group = target
          · subst htarget
            rw [if_pos rfl, if_neg hfresh]
            exact iff_of_true rfl (Worklist.mem_collect_of_visited _ _ _ _
              (List.mem_append_right _ (List.mem_singleton_self group)))
          · rw [if_neg htarget]
            by_cases hmem : group ∈ collected
            · rw [if_pos ((hsame group).mpr hmem), if_pos hmem]
              exact ih pending visited collected hsame hfresh
            · rw [if_neg fun h => hmem ((hsame group).mp h), if_neg hmem]
              refine ih _ _ _ (fun other => ?_) ?_
              · rw [List.mem_cons, List.mem_append, List.mem_singleton, hsame, or_comm]
              · simp [hfresh, Ne.symm htarget]

/-- **The cycle check is exact.** -/
theorem chunkGroupReaches_iff {chunkGraph : ChunkGraph} (h : chunkGraph.Linked)
    {start : ChunkGroupHandle} (hstart : start < chunkGraph.chunkGroups.length)
    (target : ChunkGroupHandle) :
    chunkGroupReaches chunkGraph target (reachFuel chunkGraph) [start] [] = true ↔
      ReflTransGen chunkGraph.ChildEdge start target := by
  have hsum : (List.range chunkGraph.chunkGroups.length).map (fun group =>
      (chunkGraph.children group).length) = chunkGraph.chunkGroups.map (·.children.length) := by
    apply List.ext_getElem
    · simp
    · intro index hleft hright
      have hlt : index < chunkGraph.chunkGroups.length := by simpa using hright
      simp [children, chunkGroup, List.getElem?_eq_getElem hlt]
  rw [chunkGroupReaches_eq_true chunkGraph target _ [start] [] [] (fun _ => Iff.rfl)
    List.not_mem_nil]
  refine Worklist.mem_collect_iff chunkGraph.children (List.range chunkGraph.chunkGroups.length) ?_ _
    start (List.mem_range.mpr hstart) ?_ target
  · intro parent _ child hedge
    exact List.mem_range.mpr (h.child_lt hedge)
  · rw [hsum]
    exact Nat.le_refl _

section

variable (chunkGraph : ChunkGraph)

theorem mem_children_connectChunkGroups {parent : ChunkGroupHandle} (childGroup : ChunkGroupHandle)
    (hparent : parent < chunkGraph.chunkGroups.length) (other child : ChunkGroupHandle) :
    child ∈ (chunkGraph.connectChunkGroups parent childGroup).children other ↔
      child ∈ chunkGraph.children other ∨ other = parent ∧ child = childGroup := by
  have hget : (chunkGraph.connectChunkGroups parent childGroup).children other =
      if parent = other then pushNew (chunkGraph.children other) childGroup
      else chunkGraph.children other := by
    simp only [children, chunkGroup, connectChunkGroups, connectRuntimeChunkGroups,
      List.getElem?_modify]
    by_cases hlt : other < chunkGraph.chunkGroups.length
    · rw [List.getElem?_eq_getElem hlt]
      by_cases hother : parent = other <;> by_cases hself : childGroup = other <;>
        simp [hother, hself, ChunkGroup.addChild, ChunkGroup.addParent]
    · have hne : parent ≠ other := fun heq => hlt (heq ▸ hparent)
      simp [List.getElem?_eq_none (Nat.le_of_not_lt hlt), hne]
  rw [hget]
  split_ifs with heq
  · simp [mem_pushNew, heq]
  · simp [Ne.symm heq]

theorem mem_parents_connectChunkGroups (parent : ChunkGroupHandle) {childGroup : ChunkGroupHandle}
    (hchild : childGroup < chunkGraph.chunkGroups.length) (other group : ChunkGroupHandle) :
    group ∈ (chunkGraph.connectChunkGroups parent childGroup).parents other ↔
      group ∈ chunkGraph.parents other ∨ other = childGroup ∧ group = parent := by
  have hget : (chunkGraph.connectChunkGroups parent childGroup).parents other =
      if childGroup = other then pushNew (chunkGraph.parents other) parent
      else chunkGraph.parents other := by
    simp only [parents, chunkGroup, connectChunkGroups, connectRuntimeChunkGroups,
      List.getElem?_modify]
    by_cases hlt : other < chunkGraph.chunkGroups.length
    · rw [List.getElem?_eq_getElem hlt]
      by_cases hother : parent = other <;> by_cases hself : childGroup = other <;>
        simp [hother, hself, ChunkGroup.addChild, ChunkGroup.addParent]
    · have hne : childGroup ≠ other := fun heq => hlt (heq ▸ hchild)
      simp [List.getElem?_eq_none (Nat.le_of_not_lt hlt), hne]
  rw [hget]
  split_ifs with heq
  · simp [mem_pushNew, heq]
  · simp [Ne.symm heq]

theorem chunkGroups_foldl_connectBlock (childGroup : ChunkGroupHandle)
    (origins : List AsyncBlockOrigin) :
    (origins.foldl (fun chunkGraph origin => chunkGraph.connectBlockAndChunkGroup origin childGroup)
      chunkGraph).chunkGroups = chunkGraph.chunkGroups := by
  induction origins generalizing chunkGraph with
  | nil => rfl
  | cons origin origins ih => exact ih (chunkGraph.connectBlockAndChunkGroup origin childGroup)

theorem children_congr {before after : ChunkGraph} (h : after.chunkGroups = before.chunkGroups) :
    after.children = before.children := by
  funext group
  rw [children, children, chunkGroup, chunkGroup, h]

theorem parents_congr {before after : ChunkGraph} (h : after.chunkGroups = before.chunkGroups) :
    after.parents = before.parents := by
  funext group
  rw [parents, parents, chunkGroup, chunkGroup, h]

/-- Both arenas of groups have the same length. -/
def Sized (chunkGraph : ChunkGraph) (count : Nat) : Prop :=
  chunkGraph.chunkGroups.length = count ∧ chunkGraph.runtimeChunkGroupChildren.length = count

theorem Sized.of_sameContents {before after : ChunkGraph} {count : Nat} (h : before.Sized count)
    (hsame : SameContents before after) : after.Sized count := by
  have hlength := congrArg List.length hsame.groups
  rw [List.length_map, List.length_map] at hlength
  exact ⟨hlength.trans h.1, hsame.children_length.trans h.2⟩

/-- The step lemma: an edge is inserted unless the child reaches its parent. -/
theorem linked_connectLoadingEdge {chunkGraph : ChunkGraph} {count : Nat} (h : chunkGraph.Linked)
    (hsized : chunkGraph.Sized count) {childGroup : ChunkGroupHandle} (hchild : childGroup < count)
    {edge : ChunkGroupHandle × List AsyncBlockOrigin} (hparent : edge.1 < count) :
    (connectLoadingEdge childGroup chunkGraph edge).Linked ∧
      ∀ parent child, child ∈ (connectLoadingEdge childGroup chunkGraph edge).children parent ↔
        child ∈ chunkGraph.children parent ∨ child = childGroup ∧ parent = edge.1 ∧
          ¬ ReflTransGen chunkGraph.ChildEdge childGroup edge.1 := by
  obtain ⟨hgroups, hruntime⟩ := hsized
  obtain ⟨-, hchildren, -⟩ := connectLoadingEdge_spec chunkGraph childGroup edge
    (hruntime.symm ▸ hparent)
  have hreaches := chunkGroupReaches_iff h (hgroups.symm ▸ hchild) edge.1
  by_cases hback : ReflTransGen chunkGraph.ChildEdge childGroup edge.1
  · have hsame : (connectLoadingEdge childGroup chunkGraph edge).chunkGroups =
        chunkGraph.chunkGroups := by
      rw [connectLoadingEdge, if_pos (hreaches.mpr hback)]
      exact chunkGroups_foldl_connectBlock _ _ _
    have hkept := children_congr hsame
    refine ⟨⟨?_, ?_, ?_⟩, fun parent child => ?_⟩
    · have hrelation : (connectLoadingEdge childGroup chunkGraph edge).ChildEdge =
          chunkGraph.ChildEdge := by
        funext parent child
        exact congrArg (child ∈ · parent) hkept
      rw [hrelation]
      exact h.acyclic
    · rw [hkept, parents_congr hsame]
      exact h.inverse
    · intro parent child hedge
      rw [hkept] at hedge
      exact (hchildren parent child).mpr (Or.inl (h.contained parent child hedge))
    · rw [hkept]
      exact ⟨Or.inl, fun hor => hor.elim id fun hand => absurd hback hand.2.2⟩
  · have hsame : (connectLoadingEdge childGroup chunkGraph edge).chunkGroups =
        (chunkGraph.connectChunkGroups edge.1 childGroup).chunkGroups := by
      rw [connectLoadingEdge, if_neg fun hreach => hback (hreaches.mp hreach)]
      exact chunkGroups_foldl_connectBlock _ _ _
    have hnew : ∀ parent child,
        child ∈ (connectLoadingEdge childGroup chunkGraph edge).children parent ↔
          child ∈ chunkGraph.children parent ∨ parent = edge.1 ∧ child = childGroup := by
      intro parent child
      rw [children_congr hsame]
      exact mem_children_connectChunkGroups chunkGraph childGroup (hgroups.symm ▸ hparent) parent child
    have hrelation : (connectLoadingEdge childGroup chunkGraph edge).ChildEdge =
        EdgeInsertion.insert chunkGraph.ChildEdge edge.1 childGroup := by
      funext parent child
      exact propext (hnew parent child)
    refine ⟨⟨?_, ?_, ?_⟩, fun parent child => ?_⟩
    · rw [hrelation]
      exact EdgeInsertion.acyclic_insert h.acyclic hback
    · intro parent child
      rw [hnew, parents_congr hsame,
        mem_parents_connectChunkGroups chunkGraph edge.1 (hgroups.symm ▸ hchild), h.inverse]
      exact or_congr Iff.rfl and_comm
    · intro parent child hedge
      exact (hchildren parent child).mpr
        (((hnew parent child).mp hedge).imp (h.contained parent child) id)
    · rw [hnew]
      exact or_congr Iff.rfl
        ⟨fun hand => ⟨hand.2, hand.1, hback⟩, fun hand => ⟨hand.2.1, hand.1⟩⟩

/-- The run lemma: the edges to one child do not change what it reaches, so each of them is inserted
unless its parent is reached before the first. -/
theorem linked_foldl_connectLoadingEdge {count : Nat} {childGroup : ChunkGroupHandle}
    (hchild : childGroup < count) (edges : List (ChunkGroupHandle × List AsyncBlockOrigin))
    (hparents : ∀ edge ∈ edges, edge.1 < count) {chunkGraph : ChunkGraph} (h : chunkGraph.Linked)
    (hsized : chunkGraph.Sized count) :
    (edges.foldl (connectLoadingEdge childGroup) chunkGraph).Linked ∧
      ∀ parent child,
        child ∈ (edges.foldl (connectLoadingEdge childGroup) chunkGraph).children parent ↔
          child ∈ chunkGraph.children parent ∨ child = childGroup ∧
            (∃ edge ∈ edges, parent = edge.1) ∧
              ¬ ReflTransGen chunkGraph.ChildEdge childGroup parent := by
  induction edges generalizing chunkGraph with
  | nil => exact ⟨h, by simp⟩
  | cons edge edges ih =>
      have hedge := hparents edge List.mem_cons_self
      obtain ⟨hlinked, hchildren⟩ := linked_connectLoadingEdge h hsized hchild hedge
      have hsame := (connectLoadingEdge_spec chunkGraph childGroup edge
        (hsized.2.symm ▸ hedge)).1
      obtain ⟨hlinked', hchildren'⟩ := ih
        (fun other hother => hparents other (List.mem_cons_of_mem _ hother)) hlinked
        (hsized.of_sameContents hsame)
      have hreach : ∀ group,
          ReflTransGen (connectLoadingEdge childGroup chunkGraph edge).ChildEdge childGroup group ↔
            ReflTransGen chunkGraph.ChildEdge childGroup group := by
        intro group
        by_cases hback : ReflTransGen chunkGraph.ChildEdge childGroup edge.1
        · have hkept : (connectLoadingEdge childGroup chunkGraph edge).ChildEdge =
              chunkGraph.ChildEdge := by
            funext parent child
            exact propext ((hchildren parent child).trans
              ⟨fun hor => hor.elim id fun hand => absurd hback hand.2.2, Or.inl⟩)
          rw [hkept]
        · have hrelation : (connectLoadingEdge childGroup chunkGraph edge).ChildEdge =
              EdgeInsertion.insert chunkGraph.ChildEdge edge.1 childGroup := by
            funext parent child
            exact propext ((hchildren parent child).trans (or_congr Iff.rfl
              ⟨fun hand => ⟨hand.2.1, hand.1⟩, fun hand => ⟨hand.2, hand.1, hback⟩⟩))
          rw [hrelation]
          exact EdgeInsertion.reach_target_insert
      refine ⟨hlinked', fun parent child => ?_⟩
      rw [List.foldl_cons, hchildren', hchildren, hreach, or_assoc]
      refine or_congr Iff.rfl ⟨?_, ?_⟩
      · rintro (⟨rfl, rfl, hfree⟩ | ⟨rfl, ⟨other, hmem, rfl⟩, hfree⟩)
        · exact ⟨rfl, ⟨edge, List.mem_cons_self, rfl⟩, hfree⟩
        · exact ⟨rfl, ⟨other, List.mem_cons_of_mem _ hmem, rfl⟩, hfree⟩
      · rintro ⟨rfl, ⟨other, hmem, rfl⟩, hfree⟩
        rcases List.mem_cons.mp hmem with rfl | hmem
        · exact Or.inl ⟨rfl, rfl, hfree⟩
        · exact Or.inr ⟨rfl, ⟨other, hmem, rfl⟩, hfree⟩

end

end ChunkGraph

end Unpack
