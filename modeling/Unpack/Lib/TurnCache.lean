import Mathlib.Data.List.AList

/-! A cache that is filled anew in each turn. What a turn asks for is taken over from the turn before, unless it
is affected by what has happened since; when a turn begins, everything else of the turn before is forgotten. -/

namespace TurnCache

variable {κ ν : Type} [DecidableEq κ]

/-- What this turn keeps, and what it may still take over. -/
structure Generations (κ ν : Type) where
  current : AList (fun _ : κ => ν) := ∅
  previous : AList (fun _ : κ => ν) := ∅

inductive Lookup (ν : Type) where
  | reusable (value : ν)
  | invalidated
  | miss

namespace Generations

/-- Without reuse everything is forgotten. -/
def beginTurn (generations : Generations κ ν) (reuse : Bool) : Generations κ ν :=
  if reuse then { previous := generations.current } else {}

def remember (generations : Generations κ ν) (key : κ) (value : ν) : Generations κ ν :=
  { generations with current := generations.current.insert key value }

/-- What is affected is dropped, and what is not usable is left where it is. -/
def take (generations : Generations κ ν) (affected usable : ν → Bool) (key : κ) : Lookup ν × Generations κ ν :=
  match generations.previous.lookup key with
  | none => (.miss, generations)
  | some value =>
      if affected value then
        (.invalidated, { generations with previous := generations.previous.erase key })
      else if usable value then (.reusable value, generations.remember key value)
      else (.miss, generations)

end Generations

/-- Every value that is kept has one property, and every value that may be taken over another. -/
structure Holds (Current Previous : κ → ν → Prop) (generations : Generations κ ν) : Prop where
  current : ∀ key value, generations.current.lookup key = some value → Current key value
  previous : ∀ key value, generations.previous.lookup key = some value → Previous key value

variable {Current Previous Current' Previous' : κ → ν → Prop} {generations : Generations κ ν}

theorem take_eq_reusable {affected usable : ν → Bool} {key : κ} {value : ν}
    (h : (generations.take affected usable key).1 = .reusable value) :
    generations.previous.lookup key = some value ∧ affected value = false ∧ usable value = true := by
  unfold Generations.take at h
  cases hfound : generations.previous.lookup key with
  | none =>
      rw [hfound] at h
      cases h
  | some found =>
      rw [hfound] at h
      dsimp only at h
      split_ifs at h with haffected husable
      cases h
      exact ⟨rfl, Bool.eq_false_iff.mpr haffected, husable⟩

namespace Holds

theorem empty : Holds Current Previous ({} : Generations κ ν) where
  current := fun key value h => by
    rw [AList.lookup_empty] at h
    cases h
  previous := fun key value h => by
    rw [AList.lookup_empty] at h
    cases h

theorem imp (h : Holds Current Previous generations) (hcurrent : ∀ key value, Current key value → Current' key value)
    (hprevious : ∀ key value, Previous key value → Previous' key value) : Holds Current' Previous' generations where
  current key value hfound := hcurrent key value (h.current key value hfound)
  previous key value hfound := hprevious key value (h.previous key value hfound)

theorem beginTurn (h : Holds Current Previous generations) (reuse : Bool)
    (hreuse : reuse = true → ∀ key value, Current key value → Previous' key value) :
    Holds Current' Previous' (generations.beginTurn reuse) := by
  cases reuse with
  | false => exact empty
  | true =>
      have hnone : Holds Current' Previous' ({} : Generations κ ν) := empty
      exact ⟨hnone.current, fun key value hfound => hreuse rfl key value (h.current key value hfound)⟩

theorem remember (h : Holds Current Previous generations) {key : κ} {value : ν} (hvalue : Current key value) :
    Holds Current Previous (generations.remember key value) where
  current other found hfound := by
    by_cases hkey : other = key
    · subst hkey
      rw [Generations.remember, AList.lookup_insert] at hfound
      cases hfound
      exact hvalue
    · rw [Generations.remember, AList.lookup_insert_ne hkey] at hfound
      exact h.current other found hfound
  previous := h.previous

theorem erase_previous (h : Holds Current Previous generations) (key : κ) :
    Holds Current Previous { generations with previous := generations.previous.erase key } where
  current := h.current
  previous other found hfound := by
    by_cases hkey : other = key
    · subst hkey
      rw [AList.lookup_erase] at hfound
      cases hfound
    · rw [AList.lookup_erase_ne hkey] at hfound
      exact h.previous other found hfound

/-- What is taken over has to be as good as what this turn has made. -/
theorem take (h : Holds Current Previous generations) {affected usable : ν → Bool} {key : κ}
    (htake : ∀ value, Previous key value → affected value = false → usable value = true → Current key value) :
    Holds Current Previous (generations.take affected usable key).2 := by
  unfold Generations.take
  cases hfound : generations.previous.lookup key with
  | none => exact h
  | some value =>
      dsimp only
      split_ifs with haffected husable
      · exact h.erase_previous key
      · exact h.remember (htake value (h.previous key value hfound) (Bool.eq_false_iff.mpr haffected) husable)
      · exact h

end Holds

end TurnCache
