import Mathlib.Logic.Relation
import Mathlib.Data.Fintype.EquivFin
import Mathlib.Order.WellFounded

/-! Edges added one by one to an acyclic relation, where an edge that would close a cycle is left out.
The relation stays acyclic, edges into a node do not change what that node reaches, and in a finite
acyclic relation every node descends from one that has no edge into it. -/

namespace EdgeInsertion

open Relation

variable {α : Type}

def Acyclic (edge : α → α → Prop) : Prop := ∀ a, ¬ TransGen edge a a

/-- The relation with one more edge. -/
def insert (edge : α → α → Prop) (source target : α) : α → α → Prop := fun a b =>
  edge a b ∨ a = source ∧ b = target

variable {edge : α → α → Prop} {source target : α}

theorem reach_insert {a b : α} (h : ReflTransGen edge a b) :
    ReflTransGen (insert edge source target) a b :=
  ReflTransGen.mono (fun _ _ hab => Or.inl hab) _ _ h

/-- A path with the new edge goes to its source, and on from its target, without it. -/
theorem reach_of_insert {a b : α} (h : ReflTransGen (insert edge source target) a b) :
    ReflTransGen edge a b ∨ ReflTransGen edge a source ∧ ReflTransGen edge target b := by
  induction h with
  | refl => exact Or.inl .refl
  | tail _ hstep ih =>
      rcases hstep with hold | ⟨rfl, rfl⟩
      · exact ih.imp (fun h => h.tail hold) fun h => ⟨h.1, h.2.tail hold⟩
      · exact Or.inr ⟨ih.elim id And.left, .refl⟩

/-- What the target reaches does not change. -/
theorem reach_target_insert {b : α} :
    ReflTransGen (insert edge source target) target b ↔ ReflTransGen edge target b :=
  ⟨fun h => (reach_of_insert h).elim id And.right, reach_insert⟩

theorem acyclic_insert (hedge : Acyclic edge) (hback : ¬ ReflTransGen edge target source) :
    Acyclic (insert edge source target) := by
  intro a hcycle
  obtain ⟨b, hstep, hrest⟩ := TransGen.head'_iff.mp hcycle
  rcases hstep with hold | ⟨rfl, rfl⟩
  · rcases reach_of_insert hrest with hpath | ⟨hsource, htarget⟩
    · exact hedge a (TransGen.head' hold hpath)
    · exact hback (htarget.trans (.head hold hsource))
  · rcases reach_of_insert hrest with hpath | ⟨hsource, -⟩
    · exact hback hpath
    · exact hback hsource

/-- **Descent.** Among finitely many nodes, when each is a root or has an edge into it from another of
them, every node descends from a root. -/
theorem exists_root_reaches (hedge : Acyclic edge) (nodes : Finset α) (root : α → Prop)
    (hparent : ∀ a ∈ nodes, root a ∨ ∃ b ∈ nodes, edge b a) {a : α} (ha : a ∈ nodes) :
    ∃ b, root b ∧ ReflTransGen edge b a := by
  let below := fun b c : nodes => TransGen edge b.1 c.1
  have : IsTrans nodes below := ⟨fun _ _ _ => TransGen.trans⟩
  have : Std.Irrefl below := ⟨fun b => hedge b.1⟩
  have hwf : WellFounded below := Finite.wellFounded_of_trans_of_irrefl below
  have hall : ∀ node : nodes, ∃ b, root b ∧ ReflTransGen edge b node.1 := by
    intro node
    induction node using hwf.induction with
    | _ node ih =>
        rcases hparent node.1 node.2 with hroot | ⟨b, hb, hedge⟩
        · exact ⟨node.1, hroot, .refl⟩
        · obtain ⟨c, hroot, hreach⟩ := ih ⟨b, hb⟩ (.single hedge)
          exact ⟨c, hroot, hreach.tail hedge⟩
  exact hall ⟨a, ha⟩

end EdgeInsertion
