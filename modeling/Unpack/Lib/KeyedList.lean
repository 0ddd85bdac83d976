import Mathlib.Data.List.Destutter
import Mathlib.Data.List.Sort

/-! Lists in the strict order of a key. They are what ordered sets and maps go through, also where the key
does not tell all elements apart. -/

namespace KeyedList

variable {α κ : Type} [LinearOrder κ] (key : α → κ)

/-- The keys increase along the list. -/
def Increasing (items : List α) : Prop := items.Pairwise fun a b => key a < key b

instance (items : List α) : Decidable (Increasing key items) := by
  unfold Increasing
  infer_instance

theorem Increasing.nodup_keys {items : List α} (h : Increasing key items) : (items.map key).Nodup := by
  rw [List.Nodup, List.pairwise_map]
  exact h.imp fun hlt => hlt.ne

theorem Increasing.eq_of_mem_iff {left right : List α} (hleft : Increasing key left)
    (hright : Increasing key right) (h : ∀ item, item ∈ left ↔ item ∈ right) : left = right := by
  have hirrefl : Std.Irrefl fun a b : α => key a < key b := ⟨fun a => lt_irrefl (key a)⟩
  have hantisymm : Std.Antisymm fun a b : α => key a < key b := ⟨fun a b hab hba => absurd hba hab.asymm⟩
  exact List.Pairwise.eq_of_mem_iff hleft hright h

theorem Increasing.lookup_eq_some {β : Type} [BEq α] [LawfulBEq α] {entries : List (α × β)} {a : α} {b : β}
    (h : Increasing (fun entry => key entry.1) entries) :
    entries.lookup a = some b ↔ (a, b) ∈ entries := by
  induction entries with
  | nil => simp
  | cons entry entries ih =>
    obtain ⟨first, value⟩ := entry
    obtain ⟨hfirst, hrest⟩ := List.pairwise_cons.mp h
    rw [List.lookup_cons, List.mem_cons]
    by_cases heq : a = first
    · subst heq
      rw [beq_self_eq_true]
      constructor
      · intro hvalue
        cases hvalue
        exact Or.inl rfl
      · rintro (hpair | hmem)
        · cases hpair
          rfl
        · exact absurd (hfirst _ hmem) (lt_irrefl _)
    · rw [beq_false_of_ne heq, ih hrest]
      constructor
      · exact Or.inr
      · rintro (hpair | hmem)
        · exact absurd (congrArg Prod.fst hpair) heq
        · exact hmem

/-- Sorted by the key; of elements with one key the first stays. -/
def sortDedup (items : List α) : List α :=
  (items.insertionSort fun a b => key a ≤ key b).destutter fun a b => key a ≠ key b

theorem increasing_sortDedup (items : List α) : Increasing key (sortDedup key items) := by
  let sorted := items.insertionSort fun a b => key a ≤ key b
  have hsorted : sorted.Pairwise fun a b => key a ≤ key b := List.pairwise_insertionSort _ items
  have hsub : List.Sublist (sortDedup key items) sorted := List.destutter_sublist _ sorted
  have hle : (sortDedup key items).IsChain fun a b => key a ≤ key b := (hsorted.sublist hsub).isChain
  have hne : (sortDedup key items).IsChain fun a b => key a ≠ key b := List.isChain_destutter _ sorted
  have hlt : (sortDedup key items).IsChain fun a b => key a < key b :=
    List.isChain_iff_getElem.mpr fun i hi =>
      lt_of_le_of_ne (List.isChain_iff_getElem.mp hle i hi) (List.isChain_iff_getElem.mp hne i hi)
  exact hlt.pairwise

theorem mem_keys_destutter (items : List α) {k : κ} :
    k ∈ (items.destutter fun a b => key a ≠ key b).map key ↔ k ∈ items.map key := by
  constructor
  · exact fun h => List.map_subset key (List.destutter_sublist _ items).subset h
  · cases items with
    | nil => exact id
    | cons first rest =>
      induction rest generalizing first with
      | nil => exact id
      | cons second rest ih =>
        intro h
        rw [List.destutter_cons', List.destutter'_cons]
        split_ifs with hne
        · rw [List.map_cons, List.mem_cons] at h ⊢
          exact h.imp_right fun h => by simpa [List.destutter_cons'] using ih second h
        · have heq : key first = key second := not_not.mp hne
          have hfirst : k ∈ (first :: rest).map key := by
            rw [List.map_cons, List.map_cons, ← heq] at h
            rw [List.map_cons]
            simpa using h
          simpa [List.destutter_cons'] using ih first hfirst

theorem mem_keys_sortDedup (items : List α) {k : κ} :
    k ∈ (sortDedup key items).map key ↔ k ∈ items.map key := by
  rw [sortDedup, mem_keys_destutter, List.mem_map, List.mem_map]
  simp only [List.mem_insertionSort]

/-- An element with the same key is replaced. -/
def insert (a : α) : List α → List α
  | [] => [a]
  | b :: rest =>
      if key a < key b then a :: b :: rest
      else if key a = key b then a :: rest
      else b :: insert a rest

theorem mem_insert {a b : α} {items : List α} (h : b ∈ insert key a items) : b = a ∨ b ∈ items := by
  induction items with
  | nil => exact Or.inl (List.mem_singleton.mp h)
  | cons head rest ih =>
    rw [insert] at h
    split_ifs at h with hlt heq
    · exact List.mem_cons.mp h
    · exact (List.mem_cons.mp h).imp_right (List.mem_cons_of_mem head)
    · rcases List.mem_cons.mp h with rfl | h
      · exact Or.inr List.mem_cons_self
      · exact (ih h).imp_right (List.mem_cons_of_mem head)

theorem increasing_insert (a : α) {items : List α} (h : Increasing key items) :
    Increasing key (insert key a items) := by
  induction items with
  | nil => exact List.pairwise_singleton _ a
  | cons head rest ih =>
    obtain ⟨hhead, hrest⟩ := List.pairwise_cons.mp h
    rw [insert]
    split_ifs with hlt heq
    · refine List.pairwise_cons.mpr ⟨fun b hb => ?_, h⟩
      rcases List.mem_cons.mp hb with rfl | hb
      · exact hlt
      · exact hlt.trans (hhead b hb)
    · exact List.pairwise_cons.mpr ⟨fun b hb => heq ▸ hhead b hb, hrest⟩
    · have hgt : key head < key a := lt_of_le_of_ne (not_lt.mp hlt) (Ne.symm heq)
      refine List.pairwise_cons.mpr ⟨fun b hb => ?_, ih hrest⟩
      rcases mem_insert key hb with rfl | hb
      · exact hgt
      · exact hhead b hb

theorem insert_of_lt {a : α} {items : List α} (h : ∀ b ∈ items, key b < key a) :
    insert key a items = items ++ [a] := by
  induction items with
  | nil => rfl
  | cons head rest ih =>
    have hhead := h head List.mem_cons_self
    rw [insert, if_neg hhead.not_gt, if_neg hhead.ne', ih fun b hb => h b (List.mem_cons_of_mem head hb),
      List.cons_append]

/-- The elements put in one after the other; of elements with one key the last stays. -/
def collect (items : List α) : List α := items.foldl (fun collected a => insert key a collected) []

theorem collect_append_singleton (items : List α) (a : α) :
    collect key (items ++ [a]) = insert key a (collect key items) := by
  rw [collect, List.foldl_append]
  rfl

theorem increasing_collect (items : List α) : Increasing key (collect key items) := by
  induction items using List.reverseRecOn with
  | nil => exact List.Pairwise.nil
  | append_singleton items a ih =>
    rw [collect_append_singleton]
    exact increasing_insert key a ih

theorem mem_of_mem_collect {items : List α} {a : α} (h : a ∈ collect key items) : a ∈ items := by
  induction items using List.reverseRecOn with
  | nil => exact h
  | append_singleton items b ih =>
    rw [collect_append_singleton] at h
    rcases mem_insert key h with rfl | h
    · exact List.mem_append_right items List.mem_cons_self
    · exact List.mem_append_left [b] (ih h)

theorem mem_insert_iff {a b : α} {items : List α} (h : Increasing key items) :
    b ∈ insert key a items ↔ b = a ∨ b ∈ items ∧ key b ≠ key a := by
  induction items with
  | nil => simp [insert]
  | cons head rest ih =>
    obtain ⟨hhead, hrest⟩ := List.pairwise_cons.mp h
    rw [insert]
    split_ifs with hlt heq
    · have hne : ∀ c ∈ head :: rest, key c ≠ key a := by
        intro c hc
        rcases List.mem_cons.mp hc with rfl | hc
        · exact hlt.ne'
        · exact (hlt.trans (hhead c hc)).ne'
      rw [List.mem_cons]
      exact or_congr_right ⟨fun hb => ⟨hb, hne b hb⟩, And.left⟩
    · rw [List.mem_cons]
      refine or_congr_right ⟨fun hb => ⟨List.mem_cons_of_mem head hb, ?_⟩, ?_⟩
      · exact heq ▸ (hhead b hb).ne'
      · rintro ⟨hb, hne⟩
        rcases List.mem_cons.mp hb with rfl | hb
        · exact absurd heq.symm hne
        · exact hb
    · rw [List.mem_cons, ih hrest, List.mem_cons]
      constructor
      · rintro (rfl | rfl | ⟨hb, hne⟩)
        · exact .inr ⟨.inl rfl, fun hsame => heq hsame.symm⟩
        · exact .inl rfl
        · exact .inr ⟨.inr hb, hne⟩
      · rintro (rfl | ⟨rfl | hb, hne⟩)
        · exact .inr (.inl rfl)
        · exact .inl rfl
        · exact .inr (.inr ⟨hb, hne⟩)

/-- No element after it has its key. -/
def IsLast (items : List α) (a : α) : Prop :=
  ∃ before after, items = before ++ a :: after ∧ ∀ b ∈ after, key b ≠ key a

omit [LinearOrder κ] in
theorem isLast_append_singleton {items : List α} {a b : α} :
    IsLast key (items ++ [a]) b ↔ b = a ∨ IsLast key items b ∧ key b ≠ key a := by
  constructor
  · rintro ⟨before, after, heq, hafter⟩
    rcases List.eq_nil_or_concat' after with rfl | ⟨after, last, rfl⟩
    · exact .inl (List.cons.inj (List.append_inj' heq rfl).2).1.symm
    · rw [← List.cons_append, ← List.append_assoc] at heq
      obtain ⟨hitems, hlast⟩ := List.append_inj' heq rfl
      cases hlast
      exact .inr ⟨⟨before, after, hitems, fun c hc => hafter c (List.mem_append_left _ hc)⟩,
        (hafter a (by simp)).symm⟩
  · rintro (rfl | ⟨⟨before, after, rfl, hafter⟩, hne⟩)
    · exact ⟨items, [], rfl, by simp⟩
    · refine ⟨before, after ++ [a], by simp, fun c hc => ?_⟩
      rcases List.mem_append.mp hc with hc | hc
      · exact hafter c hc
      · rw [List.mem_singleton.mp hc]
        exact hne.symm

theorem mem_collect_iff {items : List α} {a : α} : a ∈ collect key items ↔ IsLast key items a := by
  induction items using List.reverseRecOn with
  | nil => simp [collect, IsLast]
  | append_singleton items b ih =>
    rw [collect_append_singleton, mem_insert_iff key (increasing_collect key items), ih,
      isLast_append_singleton]

/-- Each key has a last element. -/
theorem exists_isLast {items : List α} {a : α} (h : a ∈ items) :
    ∃ b, IsLast key items b ∧ key b = key a := by
  induction items using List.reverseRecOn with
  | nil => cases h
  | append_singleton items b ih =>
    by_cases hkey : key b = key a
    · exact ⟨b, (isLast_append_singleton key).mpr (.inl rfl), hkey⟩
    · rcases List.mem_append.mp h with h | h
      · obtain ⟨c, hc, hsame⟩ := ih h
        exact ⟨c, (isLast_append_singleton key).mpr (.inr ⟨hc, fun heq => hkey (heq ▸ hsame)⟩), hsame⟩
      · exact absurd (congrArg key (List.mem_singleton.mp h)).symm hkey

omit [LinearOrder κ] in
theorem IsLast.mem {items : List α} {a : α} (h : IsLast key items a) : a ∈ items := by
  obtain ⟨before, after, rfl, -⟩ := h
  exact List.mem_append_right before List.mem_cons_self

omit [LinearOrder κ] in
theorem isLast_map {β : Type} {f : β → α} {items : List β} {a : α} :
    IsLast key (items.map f) a ↔ ∃ b, IsLast (key ∘ f) items b ∧ f b = a := by
  constructor
  · rintro ⟨before, after, heq, hafter⟩
    obtain ⟨before, rest, rfl, rfl, hrest⟩ := List.map_eq_append_iff.mp heq
    obtain ⟨b, after, rfl, rfl, rfl⟩ := List.map_eq_cons_iff.mp hrest
    exact ⟨b, ⟨before, after, rfl, fun c hc => hafter (f c) (List.mem_map_of_mem hc)⟩, rfl⟩
  · rintro ⟨b, ⟨before, after, rfl, hafter⟩, rfl⟩
    refine ⟨before.map f, after.map f, by simp, fun a ha => ?_⟩
    obtain ⟨c, hc, rfl⟩ := List.mem_map.mp ha
    exact hafter c hc

/-- A list in order is collected as it is. -/
theorem collect_of_increasing {items : List α} (h : Increasing key items) : collect key items = items := by
  induction items using List.reverseRecOn with
  | nil => rfl
  | append_singleton items a ih =>
    obtain ⟨hitems, -, hlast⟩ := List.pairwise_append.mp h
    rw [collect_append_singleton, ih hitems]
    exact insert_of_lt key fun b hb => hlast b hb a List.mem_cons_self

end KeyedList
