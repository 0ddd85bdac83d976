import Mathlib.Data.List.Basic

/-! Lists of parties in which one party at most plays a role. `role` tells what a party plays it with; the
roles of a list change with a single party. -/

namespace Roles

variable {α ρ : Type} {role : α → Option ρ} {parties : List α} {index : Nat} {old new : α}

/-- The party plays the role as before. -/
theorem filterMap_set_of_eq (hold : parties[index]? = some old) (h : role old = role new) :
    (parties.set index new).filterMap role = parties.filterMap role := by
  induction parties generalizing index with
  | nil => rfl
  | cons party parties ih =>
      cases index with
      | zero =>
          obtain rfl : party = old := Option.some.inj hold
          rw [List.set_cons_zero, List.filterMap_cons, List.filterMap_cons, h]
      | succ index =>
          rw [List.set_cons_succ, List.filterMap_cons, List.filterMap_cons, ih hold]

/-- Nobody played the role before the party. -/
theorem filterMap_set_of_nil (hold : parties[index]? = some old) (hnone : parties.filterMap role = []) {value : ρ}
    (h : role new = some value) : (parties.set index new).filterMap role = [value] := by
  induction parties generalizing index with
  | nil => cases hold
  | cons party parties ih =>
      have hparty : role party = none := (List.filterMap_eq_nil_iff.mp hnone) party List.mem_cons_self
      have hrest : parties.filterMap role = [] := by
        rwa [List.filterMap_cons_none hparty] at hnone
      cases index with
      | zero => rw [List.set_cons_zero, List.filterMap_cons_some h, hrest]
      | succ index => rw [List.set_cons_succ, List.filterMap_cons_none hparty, ih hold hrest]

/-- The only party that played the role gives it up. -/
theorem filterMap_set_of_sole (hold : parties[index]? = some old) {value only : ρ}
    (hsole : parties.filterMap role = [only]) (hrole : role old = some value) (h : role new = none) :
    (parties.set index new).filterMap role = [] := by
  induction parties generalizing index with
  | nil => cases hold
  | cons party parties ih =>
      cases index with
      | zero =>
          obtain rfl : party = old := Option.some.inj hold
          rw [List.filterMap_cons_some hrole] at hsole
          rw [List.set_cons_zero, List.filterMap_cons_none h]
          exact (List.cons.inj hsole).2
      | succ index =>
          cases hparty : role party with
          | none =>
              rw [List.filterMap_cons_none hparty] at hsole
              rw [List.set_cons_succ, List.filterMap_cons_none hparty, ih hold hsole]
          | some other =>
              rw [List.filterMap_cons_some hparty] at hsole
              have hnobody := List.filterMap_eq_nil_iff.mp (List.cons.inj hsole).2 old (List.mem_of_getElem? hold)
              rw [hrole] at hnobody
              cases hnobody

theorem mem_filterMap_of_getElem? (hold : parties[index]? = some old) {value : ρ} (h : role old = some value) :
    value ∈ parties.filterMap role := List.mem_filterMap.mpr ⟨old, List.mem_of_getElem? hold, h⟩

theorem filterMap_cons_toList (party : α) (parties : List α) :
    (party :: parties).filterMap role = (role party).toList ++ parties.filterMap role := by
  rw [List.filterMap_cons]
  cases role party <;> rfl

/-- What the party no longer plays the role with is made up by what it now plays it with. -/
theorem count_filterMap_set [BEq ρ] (hold : parties[index]? = some old) (value : ρ) :
    ((parties.set index new).filterMap role).count value + (role old).toList.count value =
      (parties.filterMap role).count value + (role new).toList.count value := by
  induction parties generalizing index with
  | nil => cases hold
  | cons party parties ih =>
      cases index with
      | zero =>
          obtain rfl : party = old := Option.some.inj hold
          rw [List.set_cons_zero, filterMap_cons_toList, filterMap_cons_toList, List.count_append, List.count_append]
          omega
      | succ index =>
          have hrest := @ih index hold
          rw [List.set_cons_succ, filterMap_cons_toList, filterMap_cons_toList, List.count_append, List.count_append]
          omega

/-- Parties that do not play the role change nothing when they join. -/
theorem filterMap_append_of_none {joined : List α} (h : ∀ party ∈ joined, role party = none) :
    (parties ++ joined).filterMap role = parties.filterMap role := by
  rw [List.filterMap_append, List.filterMap_eq_nil_iff.mpr h, List.append_nil]

end Roles
