import Mathlib.Data.List.Basic

/-! Streams that several values are written to one after the other. A way to write values is self-delimiting
when the end of what was written for a value can be told whatever follows it, so that two streams are
equal only when they are equal value by value. -/

namespace HashStream

variable {α α' β : Type} {write : α → List β} {write' : α' → List β}

/-- Where what is written for a value ends does not depend on what follows it. -/
def Delimited (write : α → List β) : Prop :=
  ∀ ⦃left right tail tail'⦄, write left ++ tail = write right ++ tail' →
    write left = write right ∧ tail = tail'

/-- The value can be told too. -/
def SelfDelimiting (write : α → List β) : Prop :=
  ∀ ⦃left right tail tail'⦄, write left ++ tail = write right ++ tail' → left = right ∧ tail = tail'

theorem Delimited.selfDelimiting (h : Delimited write) (hinj : Function.Injective write) :
    SelfDelimiting write := by
  intro left right tail tail' heq
  obtain ⟨hwrite, htail⟩ := h heq
  exact ⟨hinj hwrite, htail⟩

/-- Two lists are cut at their first mark. -/
theorem cut_at_mark {mark : β} {front front' tail tail' : List β} (hfront : mark ∉ front)
    (hfront' : mark ∉ front') (h : front ++ mark :: tail = front' ++ mark :: tail') :
    front = front' ∧ tail = tail' := by
  induction front generalizing front' with
  | nil =>
    cases front' with
    | nil => exact ⟨rfl, (List.cons.inj h).2⟩
    | cons item front' =>
      exact absurd (List.cons.inj h).1 fun hmark => hfront' (hmark ▸ List.mem_cons_self)
  | cons item front ih =>
    cases front' with
    | nil => exact absurd (List.cons.inj h).1 fun hmark => hfront (hmark ▸ List.mem_cons_self)
    | cons item' front' =>
      obtain ⟨rfl, hrest⟩ := List.cons.inj h
      obtain ⟨rfl, htails⟩ := ih (fun hmem => hfront (List.mem_cons_of_mem item hmem))
        (fun hmem => hfront' (List.mem_cons_of_mem item hmem)) hrest
      exact ⟨rfl, htails⟩

/-- A mark that nothing written contains. -/
theorem Delimited.terminated {mark : β} (h : ∀ value, mark ∉ write value) :
    Delimited fun value => write value ++ [mark] := by
  intro left right tail tail' heq
  simp only [List.append_assoc, List.singleton_append] at heq
  obtain ⟨hfront, htail⟩ := cut_at_mark (h left) (h right) heq
  exact ⟨congrArg (· ++ [mark]) hfront, htail⟩

/-- As many values on both sides. -/
theorem SelfDelimiting.flatMap (h : SelfDelimiting write) {left right : List α}
    {tail tail' : List β} (hlength : left.length = right.length)
    (heq : left.flatMap write ++ tail = right.flatMap write ++ tail') : left = right ∧ tail = tail' := by
  induction left generalizing right with
  | nil =>
    cases List.length_eq_zero_iff.mp hlength.symm
    exact ⟨rfl, heq⟩
  | cons value left ih =>
    cases right with
    | nil => cases hlength
    | cons value' right =>
      simp only [List.flatMap_cons, List.append_assoc] at heq
      obtain ⟨rfl, hrest⟩ := h heq
      obtain ⟨rfl, htail⟩ := ih (Nat.succ.inj hlength) hrest
      exact ⟨rfl, htail⟩

/-- One of the two sequences goes on where the other has ended, unless they are the same. -/
theorem SelfDelimiting.flatMap_or (h : SelfDelimiting write) {left right : List α}
    {tail tail' : List β} (heq : left.flatMap write ++ tail = right.flatMap write ++ tail') :
    left = right ∧ tail = tail' ∨
      (∃ next rest, left = right ++ next :: rest ∧
        tail' = write next ++ (rest.flatMap write ++ tail)) ∨
      ∃ next rest, right = left ++ next :: rest ∧
        tail = write next ++ (rest.flatMap write ++ tail') := by
  induction left generalizing right with
  | nil =>
    cases right with
    | nil => exact .inl ⟨rfl, heq⟩
    | cons next rest =>
      exact .inr (.inr ⟨next, rest, rfl, by simpa [List.append_assoc] using heq⟩)
  | cons value left ih =>
    cases right with
    | nil => exact .inr (.inl ⟨value, left, rfl, by simpa [List.append_assoc] using heq.symm⟩)
    | cons value' right =>
      simp only [List.flatMap_cons, List.append_assoc] at heq
      obtain ⟨rfl, hrest⟩ := h heq
      rcases ih hrest with ⟨rfl, htail⟩ | ⟨next, rest, rfl, htail⟩ | ⟨next, rest, rfl, htail⟩
      · exact .inl ⟨rfl, htail⟩
      · exact .inr (.inl ⟨next, rest, rfl, htail⟩)
      · exact .inr (.inr ⟨next, rest, rfl, htail⟩)

/-- A whole stream tells its values, each of which writes something. -/
theorem SelfDelimiting.flatMap_injective (h : SelfDelimiting write) (hwrites : ∀ value, write value ≠ []) :
    Function.Injective fun values : List α => values.flatMap write := by
  have hgoes : ∀ {next : α} {stream : List β}, [] ≠ write next ++ stream := fun hnil =>
    hwrites _ (List.append_eq_nil_iff.mp hnil.symm).1
  intro left right heq
  have heq : left.flatMap write ++ [] = right.flatMap write ++ [] := congrArg (· ++ []) heq
  rcases h.flatMap_or heq with ⟨hsame, _⟩ | ⟨next, rest, _, htail⟩ | ⟨next, rest, _, htail⟩
  · exact hsame
  · exact absurd htail hgoes
  · exact absurd htail hgoes

end HashStream
