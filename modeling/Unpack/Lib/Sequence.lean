import Mathlib.Data.List.Basic
import Mathlib.Algebra.GroupWithZero.Nat

/-! Words that are matched by a sequence of parts, each taking the next piece of the word. Whether a part takes a
piece may depend on what is left behind it. -/

namespace Sequence

variable {τ α : Type}

def Matches (accepts : τ → List α → List α → Prop) : List τ → List α → Prop
  | [], word => word = []
  | part :: parts, word => ∃ taken rest, taken ++ rest = word ∧ accepts part taken rest ∧ Matches accepts parts rest

variable {accepts : τ → List α → List α → Prop} {part : τ} {parts : List τ} {word : List α}

theorem matches_cons_iff_range : Matches accepts (part :: parts) word ↔
    ∃ count ∈ List.range (word.length + 1), accepts part (word.take count) (word.drop count) ∧
      Matches accepts parts (word.drop count) := by
  constructor
  · rintro ⟨taken, rest, rfl, haccepts, hrest⟩
    refine ⟨taken.length, List.mem_range.mpr ?_, ?_⟩
    · rw [List.length_append]
      omega
    · rw [List.take_left, List.drop_left]
      exact ⟨haccepts, hrest⟩
  · rintro ⟨count, _, haccepts, hrest⟩
    exact ⟨word.take count, word.drop count, List.take_append_drop count word, haccepts, hrest⟩

instance decidableMatches [∀ part taken rest, Decidable (accepts part taken rest)] (parts : List τ) (word : List α) :
    Decidable (Matches accepts parts word) :=
  match parts with
  | [] => decidable_of_iff (word.isEmpty = true) List.isEmpty_iff
  | _ :: parts =>
      have (rest : List α) : Decidable (Matches accepts parts rest) := decidableMatches parts rest
      decidable_of_iff _ matches_cons_iff_range.symm

theorem Matches.singleton (h : accepts part word []) : Matches accepts [part] word :=
  ⟨word, [], List.append_nil word, h, rfl⟩

/-- Where what is left makes no difference, a word splits where its parts do. -/
theorem Matches.of_append (hfree : ∀ part taken rest other, accepts part taken rest → accepts part taken other)
    {first second : List τ} (h : Matches accepts (first ++ second) word) :
    ∃ left right, left ++ right = word ∧ Matches accepts first left ∧ Matches accepts second right := by
  induction first generalizing word with
  | nil => exact ⟨[], word, rfl, rfl, h⟩
  | cons part first ih =>
      obtain ⟨taken, rest, rfl, haccepts, hrest⟩ := h
      obtain ⟨left, right, rfl, hleft, hright⟩ := ih hrest
      exact ⟨taken ++ left, right, List.append_assoc taken left right,
        ⟨taken, left, rfl, hfree part taken _ left haccepts, hleft⟩, hright⟩

/-- A word is at least as long as its parts require. -/
theorem Matches.le_length {least : τ → Nat}
    (hleast : ∀ part taken rest, accepts part taken rest → least part ≤ taken.length)
    (h : Matches accepts parts word) : (parts.map least).sum ≤ word.length := by
  induction parts generalizing word with
  | nil => exact Nat.zero_le _
  | cons part parts ih =>
      obtain ⟨taken, rest, rfl, haccepts, hrest⟩ := h
      rw [List.map_cons, List.sum_cons, List.length_append]
      exact Nat.add_le_add (hleast part taken rest haccepts) (ih hrest)

end Sequence
