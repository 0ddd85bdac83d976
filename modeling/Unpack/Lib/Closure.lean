import Mathlib.Data.List.Nodup

/-! A set grown one node at a time, where a node may enter only together with all its parents. A node
that has no parents to offer is refused, and with it every node that needs it; the set is then what it
was before. -/

namespace Closure

variable {α : Type} [DecidableEq α]

def close (parents : α → Option (List α)) : Nat → List α → α → Option (List α)
  | 0, _, _ => none
  | fuel + 1, members, a =>
      if a ∈ members then some members
      else (parents a).bind fun needed => needed.foldlM (close parents fuel) (a :: members)

variable {parents : α → Option (List α)}

/-- `after` has `before` and `wanted`, and every node it has beyond `before` came with its parents. -/
structure Grown (parents : α → Option (List α)) (before wanted after : List α) : Prop where
  old : ∀ b ∈ before, b ∈ after
  new : ∀ b ∈ wanted, b ∈ after
  closed : ∀ b ∈ after, b ∉ before → ∃ needed, parents b = some needed ∧ ∀ c ∈ needed, c ∈ after

theorem Grown.trans {before middle after left right : List α}
    (h : Grown parents before left middle) (h' : Grown parents middle right after) :
    Grown parents before (left ++ right) after where
  old b hb := h'.old b (h.old b hb)
  new b hb := (List.mem_append.mp hb).elim (fun hb => h'.old b (h.new b hb)) (h'.new b)
  closed b hb hnot := by
    by_cases hmiddle : b ∈ middle
    · obtain ⟨needed, hneeded, hin⟩ := h.closed b hmiddle hnot
      exact ⟨needed, hneeded, fun c hc => h'.old c (hin c hc)⟩
    · exact h'.closed b hb hmiddle

omit [DecidableEq α] in
/-- The parents are closed one after the other. -/
theorem foldlM_cons_eq_some {f : List α → α → Option (List α)} {a : α} {rest before after : List α}
    (h : (a :: rest).foldlM f before = some after) :
    ∃ middle, f before a = some middle ∧ rest.foldlM f middle = some after := by
  rw [List.foldlM_cons] at h
  exact Option.bind_eq_some_iff.mp h

theorem grown_foldlM {f : List α → α → Option (List α)}
    (hf : ∀ before a after, f before a = some after → Grown parents before [a] after)
    (wanted before after : List α) (h : wanted.foldlM f before = some after) :
    Grown parents before wanted after := by
  induction wanted generalizing before with
  | nil =>
      obtain rfl : before = after := Option.some.inj h
      exact ⟨fun b hb => hb, fun b hb => absurd hb List.not_mem_nil, fun b hb hnot => absurd hb hnot⟩
  | cons a rest ih =>
      obtain ⟨middle, hstep, hrest⟩ := foldlM_cons_eq_some h
      exact (hf before a middle hstep).trans (ih middle hrest)

/-- **Soundness.** What enters comes with its parents. -/
theorem grown_close (fuel : Nat) (before : List α) (a : α) (after : List α)
    (h : close parents fuel before a = some after) : Grown parents before [a] after := by
  induction fuel generalizing before a after with
  | zero => exact absurd h (Option.some_ne_none after).symm
  | succ fuel ih =>
      rw [close] at h
      split_ifs at h with hmem
      · obtain rfl := Option.some.inj h
        exact ⟨fun b hb => hb, fun b hb => List.mem_singleton.mp hb ▸ hmem,
          fun b hb hnot => absurd hb hnot⟩
      · obtain ⟨needed, hneeded, hfold⟩ := Option.bind_eq_some_iff.mp h
        have hgrown := grown_foldlM ih needed (a :: before) after hfold
        refine ⟨fun b hb => hgrown.old b (List.mem_cons_of_mem a hb), ?_, ?_⟩
        · intro b hb
          rw [List.mem_singleton.mp hb]
          exact hgrown.old a List.mem_cons_self
        · intro b hb hnot
          by_cases heq : b = a
          · exact ⟨needed, heq ▸ hneeded, hgrown.new⟩
          · exact hgrown.closed b hb (by simp [heq, hnot])

omit [DecidableEq α] in
theorem nodup_foldlM {f : List α → α → Option (List α)}
    (hf : ∀ before a after, before.Nodup → f before a = some after → after.Nodup)
    (wanted before after : List α) (hnodup : before.Nodup)
    (h : wanted.foldlM f before = some after) : after.Nodup := by
  induction wanted generalizing before with
  | nil => exact Option.some.inj h ▸ hnodup
  | cons a rest ih =>
      obtain ⟨middle, hstep, hrest⟩ := foldlM_cons_eq_some h
      exact ih middle (hf before a middle hnodup hstep) hrest

theorem nodup_close (fuel : Nat) (before : List α) (a : α) (after : List α) (hnodup : before.Nodup)
    (h : close parents fuel before a = some after) : after.Nodup := by
  induction fuel generalizing before a after with
  | zero => exact absurd h (Option.some_ne_none after).symm
  | succ fuel ih =>
      rw [close] at h
      split_ifs at h with hmem
      · exact Option.some.inj h ▸ hnodup
      · obtain ⟨needed, -, hfold⟩ := Option.bind_eq_some_iff.mp h
        exact nodup_foldlM ih needed (a :: before) after (List.nodup_cons.mpr ⟨hmem, hnodup⟩) hfold

/-- **Minimality.** Nothing enters but what a set around the node that is closed under parents has. -/
theorem close_subset (fuel : Nat) (before : List α) (a : α) (after : List α)
    (h : close parents fuel before a = some after) (T : α → Prop) (ha : T a)
    (hclosed : ∀ b, T b → b ∈ after → b ∉ before → ∀ needed, parents b = some needed →
      ∀ c ∈ needed, T c) :
    ∀ b ∈ after, b ∈ before ∨ T b := by
  induction fuel generalizing before a after with
  | zero => exact absurd h (Option.some_ne_none after).symm
  | succ fuel ih =>
      rw [close] at h
      split_ifs at h with hmem
      · obtain rfl := Option.some.inj h
        exact fun b hb => Or.inl hb
      · obtain ⟨needed, hneeded, hfold⟩ := Option.bind_eq_some_iff.mp h
        have hgrown := grown_foldlM (grown_close fuel) needed (a :: before) after hfold
        have hfoldSubset : ∀ (wanted start : List α), (∀ c ∈ wanted, T c) →
            (∀ b ∈ before, b ∈ start) → wanted.foldlM (close parents fuel) start = some after →
            ∀ b ∈ after, b ∈ start ∨ T b := by
          intro wanted
          induction wanted with
          | nil => exact fun start _ _ hnil b hb => Or.inl (Option.some.inj hnil ▸ hb)
          | cons c rest ihRest =>
              intro start hwanted hstart hcons
              obtain ⟨middle, hstep, hrest⟩ := foldlM_cons_eq_some hcons
              have hmiddle := grown_close fuel start c middle hstep
              have hafter := grown_foldlM (grown_close fuel) rest middle after hrest
              have hfirst := ih start c middle hstep (hwanted c List.mem_cons_self)
                fun b hb hin hnot => hclosed b hb (hafter.old b hin) fun hbefore =>
                  hnot (hstart b hbefore)
              intro b hb
              rcases ihRest middle (fun d hd => hwanted d (List.mem_cons_of_mem c hd))
                (fun d hd => hmiddle.old d (hstart d hd)) hrest b hb with hin | hT
              · exact hfirst b hin
              · exact Or.inr hT
        have hneededT : ∀ c ∈ needed, T c := hclosed a ha
          (hgrown.old a List.mem_cons_self) hmem needed hneeded
        intro b hb
        rcases hfoldSubset needed (a :: before) hneededT
          (fun c hc => List.mem_cons_of_mem a hc) hfold b hb with hin | hT
        · rcases List.mem_cons.mp hin with rfl | hbefore
          · exact Or.inr ha
          · exact Or.inl hbefore
        · exact Or.inr hT

/-- **Completeness.** A node enters when some set around it offers parents inside itself. -/
theorem exists_close (parents : α → Option (List α)) (nodes : List α) (T : α → Prop)
    (hnodes : ∀ b, T b → b ∈ nodes) (fuel : Nat)
    (before : List α) (a : α) (ha : T a)
    (hclosed : ∀ b, T b → b ∉ before → ∃ needed, parents b = some needed ∧ ∀ c ∈ needed, T c)
    (hfuel : (nodes.filter (· ∉ before)).length < fuel) :
    ∃ after, close parents fuel before a = some after := by
  induction fuel generalizing before a with
  | zero => exact absurd hfuel (Nat.not_lt_zero _)
  | succ fuel ih =>
      rw [close]
      by_cases hmem : a ∈ before
      · exact ⟨before, if_pos hmem⟩
      · obtain ⟨needed, hneeded, hneededT⟩ := hclosed a ha hmem
        have hshrink : ∀ start : List α, (∀ b ∈ a :: before, b ∈ start) →
            (nodes.filter (· ∉ start)).length < (nodes.filter (· ∉ before)).length := by
          intro start hstart
          have hsub : (nodes.filter (· ∉ start)).Sublist
              ((nodes.filter (· ∉ before)).filter (· ≠ a)) := by
            rw [List.filter_filter]
            apply List.monotone_filter_right
            intro b hb
            have hnot : b ∉ start := by simpa using hb
            have hne : b ≠ a := fun heq => hnot (heq ▸ hstart a List.mem_cons_self)
            have hold : b ∉ before := fun hin => hnot (hstart b (List.mem_cons_of_mem a hin))
            simp [hne, hold]
          refine Nat.lt_of_le_of_lt hsub.length_le ?_
          rw [List.length_filter_lt_length_iff_exists]
          exact ⟨a, List.mem_filter.mpr ⟨hnodes a ha, by simpa using hmem⟩, by simp⟩
        have hfold : ∀ (wanted start : List α), (∀ c ∈ wanted, T c) →
            (∀ b ∈ a :: before, b ∈ start) →
            ∃ after, wanted.foldlM (close parents fuel) start = some after := by
          intro wanted
          induction wanted with
          | nil => exact fun start _ _ => ⟨start, rfl⟩
          | cons c rest ihRest =>
              intro start hwanted hstart
              have hlt := hshrink start hstart
              obtain ⟨middle, hstep⟩ := ih start c (hwanted c List.mem_cons_self)
                (fun b hb hnot => hclosed b hb fun hin =>
                  hnot (hstart b (List.mem_cons_of_mem a hin))) (by omega)
              have hmiddle := grown_close fuel start c middle hstep
              obtain ⟨after, hafter⟩ := ihRest middle
                (fun d hd => hwanted d (List.mem_cons_of_mem c hd))
                (fun d hd => hmiddle.old d (hstart d hd))
              refine ⟨after, ?_⟩
              rw [List.foldlM_cons, hstep]
              exact hafter
        obtain ⟨after, hafter⟩ := hfold needed (a :: before) hneededT fun b hb => hb
        refine ⟨after, ?_⟩
        rw [if_neg hmem, hneeded]
        exact hafter

end Closure
