import Unpack.UniqueIds

/-! Which candidates get their short name as it is: those alone with a short name that no id has taken
before. Every other string id has a suffix, so there is a hyphen in it. -/

namespace Unpack

variable {stableHash : String → UInt64}

theorem toString_ne_empty (number : ℕ) : (toString number : String) ≠ "" := by
  intro heq
  have hdigits := congrArg String.toList heq
  rw [Nat.toString_eq_repr, Nat.toList_repr] at hdigits
  exact Nat.toDigits_ne_nil hdigits

/-- A name with a hyphen and more after it. -/
def Suffixed (shortName text : String) : Prop :=
  ∃ rest, text.toList = shortName.toList ++ '-' :: rest

theorem Suffixed.hyphen_mem {shortName text : String} (h : Suffixed shortName text) : '-' ∈ text.toList := by
  obtain ⟨rest, hrest⟩ := h
  rw [hrest]
  exact List.mem_append_right _ List.mem_cons_self

theorem suffixed_triedName (shortName suffix : String) (index : ℕ) :
    Suffixed shortName (triedName s!"{shortName}-{suffix}" index) := by
  have hbase : (s!"{shortName}-{suffix}" : String).toList = shortName.toList ++ '-' :: suffix.toList := by
    show (shortName ++ "-" ++ suffix).toList = _
    simp [String.toList_append]
  cases index with
  | zero => exact ⟨_, hbase⟩
  | succ index =>
      rw [Suffixed, triedName_succ_toList, hbase]
      exact ⟨_, List.append_assoc _ _ _⟩

theorem suffixed_unusedName (used : List String) (shortName suffix : String) (fuel : ℕ) :
    Suffixed shortName
      (unusedName used s!"{shortName}-{suffix}" fuel s!"{shortName}-{suffix}" 0) := by
  have heq := unusedName_eq used s!"{shortName}-{suffix}" fuel 0
  rw [show triedName s!"{shortName}-{suffix}" 0 = s!"{shortName}-{suffix}" from rfl] at heq
  rw [heq]
  exact suffixed_triedName _ _ _

/-- The later state has what the earlier one has. -/
def NamedIds.Grows (before after : NamedIds) : Prop :=
  before.used ⊆ after.used ∧ before.assigned ⊆ after.assigned

theorem NamedIds.Grows.trans {first second third : NamedIds} (h : first.Grows second)
    (h' : second.Grows third) : first.Grows third :=
  ⟨fun _ hmem => h'.1 (h.1 hmem), fun _ hmem => h'.2 (h.2 hmem)⟩

theorem grows_foldl_assignSuffixed (shortName : String) (items : List (ℕ × String)) (ids : NamedIds) :
    ids.Grows (items.foldl (assignSuffixed stableHash shortName) ids) := by
  induction items generalizing ids with
  | nil => exact ⟨fun _ hmem => hmem, fun _ hmem => hmem⟩
  | cons item items ih =>
      refine NamedIds.Grows.trans ?_ (ih _)
      exact ⟨fun _ hmem => List.mem_cons_of_mem _ hmem, fun _ hmem => List.mem_append_left _ hmem⟩

theorem grows_assignGroup (ids : NamedIds) (group : String × List (ℕ × String)) :
    ids.Grows (assignGroup stableHash ids group) := by
  unfold assignGroup
  split
  · exact ⟨fun _ hmem => hmem, fun _ hmem => hmem⟩
  · split
    next item _ =>
      split
      · exact grows_foldl_assignSuffixed group.1 [item] ids
      · exact ⟨fun _ hmem => List.mem_cons_of_mem _ hmem, fun _ hmem => List.mem_append_left _ hmem⟩
    · exact grows_foldl_assignSuffixed group.1 _ ids

theorem grows_foldl_assignGroup (groups : List (String × List (ℕ × String))) (ids : NamedIds) :
    ids.Grows (groups.foldl (assignGroup stableHash) ids) := by
  induction groups generalizing ids with
  | nil => exact ⟨fun _ hmem => hmem, fun _ hmem => hmem⟩
  | cons group groups ih => exact (grows_assignGroup ids group).trans (ih _)

theorem assigned_foldl_assignNumber (items : List (ℕ × String)) (state : NamedIds × ℕ) :
    state.1.assigned ⊆ (items.foldl assignNumber state).1.assigned := by
  induction items generalizing state with
  | nil => exact fun _ hmem => hmem
  | cons item items ih => exact fun _ hmem => ih _ (List.mem_append_left _ hmem)

theorem mem_foldl_assignSuffixed (shortName : String) (items : List (ℕ × String)) (ids : NamedIds)
    {given : ℕ × RenderId}
    (hgiven : given ∈ (items.foldl (assignSuffixed stableHash shortName) ids).assigned) :
    given ∈ ids.assigned ∨ ∃ text, given.2 = .string text ∧ Suffixed shortName text := by
  induction items generalizing ids with
  | nil => exact Or.inl hgiven
  | cons item items ih =>
      rcases ih _ hgiven with hbefore | hnew
      · rcases List.mem_append.mp hbefore with hold | hthis
        · exact Or.inl hold
        · rw [List.mem_singleton] at hthis
          exact Or.inr ⟨_, congrArg Prod.snd hthis, suffixed_unusedName _ _ _ _⟩
      · exact Or.inr hnew

/-- An id of the groups: suffixed, or the short name of a candidate that is alone with it. -/
def LoneOrSuffixed (groups : List (String × List (ℕ × String))) (used : List String)
    (given : ℕ × RenderId) : Prop :=
  ∃ text, given.2 = .string text ∧ ((∃ group ∈ groups, group.1 ≠ "" ∧ Suffixed group.1 text) ∨
    text ≠ "" ∧ text ∉ used ∧ ∃ fullName, (text, [(given.1, fullName)]) ∈ groups)

theorem mem_assignGroup (ids : NamedIds) (group : String × List (ℕ × String)) {given : ℕ × RenderId}
    (hgiven : given ∈ (assignGroup stableHash ids group).assigned) :
    given ∈ ids.assigned ∨ LoneOrSuffixed [group] ids.used given := by
  unfold assignGroup at hgiven
  split at hgiven
  · exact Or.inl hgiven
  next hempty =>
    have hne : group.1 ≠ "" := fun heq => hempty (by rw [heq]; rfl)
    have hsuffixed : ∀ items : List (ℕ × String),
        given ∈ (items.foldl (assignSuffixed stableHash group.1) ids).assigned →
        given ∈ ids.assigned ∨ LoneOrSuffixed [group] ids.used given := fun items hmem =>
      (mem_foldl_assignSuffixed group.1 items ids hmem).imp_right fun ⟨text, htext, hform⟩ =>
        ⟨text, htext, Or.inl ⟨group, List.mem_singleton_self group, hne, hform⟩⟩
    split at hgiven
    next item hitem =>
      split at hgiven
      · exact hsuffixed [item] hgiven
      next hunused =>
        rcases List.mem_append.mp hgiven with hold | hthis
        · exact Or.inl hold
        · rw [List.mem_singleton] at hthis
          subst hthis
          refine Or.inr ⟨group.1, rfl, Or.inr ⟨hne, hunused, item.2, ?_⟩⟩
          rw [List.mem_singleton, ← hitem]
    · exact hsuffixed _ hgiven

theorem mem_foldl_assignGroup (groups : List (String × List (ℕ × String))) (ids : NamedIds)
    {given : ℕ × RenderId}
    (hgiven : given ∈ (groups.foldl (assignGroup stableHash) ids).assigned) :
    given ∈ ids.assigned ∨ LoneOrSuffixed groups ids.used given := by
  induction groups generalizing ids with
  | nil => exact Or.inl hgiven
  | cons group groups ih =>
      rcases ih _ hgiven with hbefore | ⟨text, htext, hlone⟩
      · refine (mem_assignGroup ids group hbefore).imp_right ?_
        rintro ⟨text, htext, hlone⟩
        have hsub : ∀ other ∈ [group], other ∈ group :: groups := fun other hother =>
          List.mem_cons.mpr (Or.inl (List.mem_singleton.mp hother))
        exact ⟨text, htext, hlone.imp
          (fun ⟨other, hother, hform⟩ => ⟨other, hsub other hother, hform⟩)
          fun ⟨hne, hunused, fullName, hmem⟩ => ⟨hne, hunused, fullName, hsub _ hmem⟩⟩
      · refine Or.inr ⟨text, htext, hlone.imp
          (fun ⟨other, hother, hform⟩ => ⟨other, List.mem_cons_of_mem _ hother, hform⟩)
          fun ⟨hne, hunused, fullName, hmem⟩ => ?_⟩
        exact ⟨hne, fun hused => hunused ((grows_assignGroup ids group).1 hused), fullName,
          List.mem_cons_of_mem _ hmem⟩

/-- A group alone with a name that is not used gets the name. -/
theorem mem_assignGroup_lone {ids : NamedIds} {name : String} {item : ℕ × String} (hne : name ≠ "")
    (hunused : name ∉ ids.used) :
    (item.1, RenderId.string name) ∈ (assignGroup stableHash ids (name, [item])).assigned := by
  have hempty : ¬ name.isEmpty = true := by simpa using hne
  rw [assignGroup, if_neg hempty]
  show _ ∈ (if name ∈ ids.used then _ else _ : NamedIds).assigned
  rw [if_neg hunused]
  exact List.mem_append_right _ List.mem_cons_self

/-- Groups that are all alone take their own names and no other. -/
theorem used_foldl_assignGroup_lone (groups : List (String × List (ℕ × String)))
    (hlone : ∀ group ∈ groups, ∃ item, group.2 = [item]) (hnodup : (groups.map (·.1)).Nodup)
    (ids : NamedIds) (hunused : ∀ group ∈ groups, group.1 ∉ ids.used) :
    ∀ text ∈ (groups.foldl (assignGroup stableHash) ids).used,
      text ∈ ids.used ∨ text ∈ groups.map (·.1) := by
  induction groups generalizing ids with
  | nil => exact fun text htext => Or.inl htext
  | cons group groups ih =>
      obtain ⟨hnew, hrest⟩ := List.nodup_cons.mp hnodup
      obtain ⟨item, hitem⟩ := hlone group List.mem_cons_self
      have hstep : ∀ text ∈ (assignGroup stableHash ids group).used,
          text ∈ ids.used ∨ text = group.1 := by
        intro text htext
        rw [assignGroup] at htext
        split at htext
        · exact Or.inl htext
        · rw [hitem] at htext
          simp only [if_neg (hunused group List.mem_cons_self)] at htext
          exact (List.mem_cons.mp htext).symm
      have hafter := ih (fun other hother => hlone other (List.mem_cons_of_mem _ hother)) hrest
        (assignGroup stableHash ids group) (by
          intro other hother hused
          rcases hstep _ hused with hold | heq
          · exact hunused other (List.mem_cons_of_mem _ hother) hold
          · exact hnew (List.mem_map.mpr ⟨other, hother, heq⟩))
      intro text htext
      rw [List.map_cons, List.mem_cons]
      rcases hafter text htext with hstepped | hlater
      · exact (hstep text hstepped).imp_right Or.inl
      · exact Or.inr (Or.inr hlater)

theorem filter_eq_singleton {α : Type*} {p : α → Bool} {items : List α} (hnodup : items.Nodup) {item : α}
    (hitem : item ∈ items) (hp : p item) (honly : ∀ other ∈ items, p other → other = item) :
    items.filter p = [item] := by
  refine List.perm_singleton.mp ((List.perm_ext_iff_of_nodup (hnodup.filter p)
    (List.nodup_singleton item)).mpr fun other => ?_)
  rw [List.mem_filter, List.mem_singleton]
  constructor
  · rintro ⟨hother, hpother⟩
    exact honly other hother hpother
  · rintro rfl
    exact ⟨hitem, hp⟩

theorem mem_groupCandidates {candidates : List NamedIdCandidate}
    {group : String × List (ℕ × String)} : group ∈ groupCandidates candidates ↔
      (∃ candidate ∈ candidates, candidate.shortName = group.1) ∧
        group.2 = sortItems ((candidates.filter (·.shortName = group.1)).map fun candidate =>
          (candidate.item, candidate.fullName)) := by
  rw [groupCandidates, List.mem_map]
  simp only [List.mem_insertionSort, List.mem_dedup, List.mem_map]
  constructor
  · rintro ⟨shortName, hshort, rfl⟩
    exact ⟨hshort, rfl⟩
  · rintro ⟨hshort, hitems⟩
    exact ⟨group.1, hshort, Prod.ext rfl hitems.symm⟩

theorem nodup_groupCandidates (candidates : List NamedIdCandidate) :
    ((groupCandidates candidates).map (·.1)).Nodup := by
  have hnames : (groupCandidates candidates).map (·.1) =
      (candidates.map (·.shortName)).dedup.insertionSort (· ≤ ·) := by
    rw [groupCandidates, List.map_map]
    exact List.map_id _
  rw [hnames, (List.perm_insertionSort _ _).nodup_iff]
  exact List.nodup_dedup _

/-- A candidate that is alone with its short name. -/
theorem lone_mem_groupCandidates_iff {candidates : List NamedIdCandidate} {name : String}
    {item : ℕ × String} : (name, [item]) ∈ groupCandidates candidates ↔
      ∃ candidate, candidates.filter (·.shortName = name) = [candidate] ∧
        item = (candidate.item, candidate.fullName) := by
  rw [mem_groupCandidates]
  constructor
  · rintro ⟨-, hitems⟩
    have hperm : List.Perm [item] ((candidates.filter (·.shortName = name)).map fun candidate =>
        (candidate.item, candidate.fullName)) :=
      (List.Perm.of_eq hitems).trans (List.perm_insertionSort _ _)
    have hone := (List.length_map _).symm.trans hperm.length_eq.symm
    obtain ⟨candidate, hcandidate⟩ := List.length_eq_one_iff.mp hone
    rw [hcandidate] at hperm
    exact ⟨candidate, hcandidate, List.singleton_perm_singleton.mp hperm⟩
  · rintro ⟨candidate, hfilter, rfl⟩
    have hmem : candidate ∈ candidates.filter (·.shortName = name) := by
      rw [hfilter]
      exact List.mem_singleton_self candidate
    obtain ⟨hcandidate, hname⟩ := List.mem_filter.mp hmem
    refine ⟨⟨candidate, hcandidate, of_decide_eq_true hname⟩, ?_⟩
    simp only [hfilter]
    rfl

theorem mem_of_mem_foldl_assignGroup {candidates : List NamedIdCandidate} {reserved : List String}
    {given : ℕ × RenderId} (hgiven : given ∈ ((groupCandidates candidates).foldl
      (assignGroup stableHash) { used := reserved }).assigned) :
    given ∈ assignNamedIdsWithReserved stableHash candidates reserved := by
  rw [assignNamedIdsWithReserved, List.mem_insertionSort]
  exact assigned_foldl_assignNumber _ _ hgiven

/-- An id that is no number is a short name with a suffix, or the short name of a candidate that is alone
with it. -/
theorem named_of_mem_assignNamedIdsWithReserved {candidates : List NamedIdCandidate}
    {reserved : List String} {item : ℕ} {name : String}
    (hgiven : (item, RenderId.string name) ∈ assignNamedIdsWithReserved stableHash candidates reserved) :
    (∃ candidate ∈ candidates, candidate.shortName ≠ "" ∧ Suffixed candidate.shortName name) ∨
      name ≠ "" ∧ name ∉ reserved ∧ ∃ candidate, candidate.item = item ∧
        candidates.filter (·.shortName = name) = [candidate] := by
  rw [assignNamedIdsWithReserved, List.mem_insertionSort] at hgiven
  rcases mem_assigned_foldl_assignNumber _ _ hgiven with hnamed | ⟨number, hnumber⟩
  · rcases mem_foldl_assignGroup _ _ hnamed with hstart | ⟨text, htext, hlone⟩
    · exact absurd hstart List.not_mem_nil
    · obtain rfl := RenderId.string.inj htext
      refine hlone.imp ?_ ?_
      · rintro ⟨group, hgroup, hne, hform⟩
        obtain ⟨⟨candidate, hcandidate, hname⟩, -⟩ := mem_groupCandidates.mp hgroup
        exact ⟨candidate, hcandidate, hname.symm ▸ hne, hname.symm ▸ hform⟩
      · rintro ⟨hne, hunused, fullName, hgroup⟩
        obtain ⟨candidate, hfilter, hitem⟩ := lone_mem_groupCandidates_iff.mp hgroup
        exact ⟨hne, hunused, candidate, (congrArg Prod.fst hitem).symm, hfilter⟩
  · exact RenderId.noConfusion hnumber

/-- An id without a hyphen is a number or the short name of a candidate that is alone with it. -/
theorem lone_of_mem_assignNamedIdsWithReserved {candidates : List NamedIdCandidate}
    {reserved : List String} {item : ℕ} {name : String}
    (hgiven : (item, RenderId.string name) ∈ assignNamedIdsWithReserved stableHash candidates reserved) :
    '-' ∈ name.toList ∨ name ≠ "" ∧ name ∉ reserved ∧ ∃ candidate, candidate.item = item ∧
      candidates.filter (·.shortName = name) = [candidate] :=
  (named_of_mem_assignNamedIdsWithReserved hgiven).imp_left fun ⟨_, _, _, hform⟩ => hform.hyphen_mem

/-- A candidate alone with a short name that has no hyphen and is not reserved gets it. -/
theorem mem_assignNamedIdsWithReserved_lone {candidates : List NamedIdCandidate}
    {reserved : List String} {candidate : NamedIdCandidate} {name : String} (hne : name ≠ "")
    (hhyphen : '-' ∉ name.toList) (hunreserved : name ∉ reserved)
    (hlone : candidates.filter (·.shortName = name) = [candidate]) :
    (candidate.item, RenderId.string name) ∈
      assignNamedIdsWithReserved stableHash candidates reserved := by
  refine mem_of_mem_foldl_assignGroup ?_
  have hgroup := lone_mem_groupCandidates_iff.mpr ⟨candidate, hlone, rfl⟩
  obtain ⟨before, after, hsplit⟩ := List.append_of_mem hgroup
  have hnodup := nodup_groupCandidates candidates
  rw [hsplit, List.map_append, List.map_cons] at hnodup
  rw [hsplit, List.foldl_append, List.foldl_cons]
  refine (grows_foldl_assignGroup after _).2 (mem_assignGroup_lone hne ?_)
  intro hused
  have hapart := @NamedIds.Apart.foldl_assignGroup stableHash _ before _ (NamedIds.apart_start reserved)
  rcases (hapart.mem_used name).mp hused with hreserved | htaken
  · exact hunreserved hreserved
  · obtain ⟨given, hgiven, htext⟩ := List.mem_map.mp htaken
    rcases mem_foldl_assignGroup before _ hgiven with hstart | ⟨text, hstring, hfrom⟩
    · exact List.not_mem_nil hstart
    · obtain rfl : text = name := by rw [hstring] at htext; exact htext
      rcases hfrom with hsuffixed | ⟨-, -, fullName, hbefore⟩
      · obtain ⟨_, -, -, hform⟩ := hsuffixed
        exact hhyphen hform.hyphen_mem
      · exact (List.nodup_append.mp hnodup).2.2 text (List.mem_map_of_mem hbefore) text
          List.mem_cons_self rfl

/-- Candidates with short names of their own get them. -/
theorem mem_assignNamedIds_of_nodup {candidates : List NamedIdCandidate}
    (hnodup : (candidates.map (·.shortName)).Nodup) {candidate : NamedIdCandidate}
    (hcandidate : candidate ∈ candidates) (hne : candidate.shortName ≠ "") :
    (candidate.item, RenderId.string candidate.shortName) ∈ assignNamedIds stableHash candidates := by
  have hlone : ∀ other ∈ candidates,
      candidates.filter (·.shortName = other.shortName) = [other] := fun other hother =>
    filter_eq_singleton (List.Nodup.of_map _ hnodup) hother (by simp) fun third hthird hname =>
      List.inj_on_of_nodup_map hnodup hthird hother (of_decide_eq_true hname)
  refine mem_of_mem_foldl_assignGroup ?_
  have hgroup := lone_mem_groupCandidates_iff.mpr ⟨candidate, hlone candidate hcandidate, rfl⟩
  obtain ⟨before, after, hsplit⟩ := List.append_of_mem hgroup
  have hgroups := nodup_groupCandidates candidates
  rw [hsplit, List.map_append, List.map_cons] at hgroups
  obtain ⟨hbefore, -, hdisjoint⟩ := List.nodup_append.mp hgroups
  rw [hsplit, List.foldl_append, List.foldl_cons]
  refine (grows_foldl_assignGroup after _).2 (mem_assignGroup_lone hne ?_)
  have halone : ∀ group ∈ before, ∃ item, group.2 = [item] := by
    intro group hmem
    have hin : group ∈ groupCandidates candidates := hsplit ▸ List.mem_append_left _ hmem
    obtain ⟨⟨other, hother, hname⟩, hitems⟩ := mem_groupCandidates.mp hin
    rw [← hname, hlone other hother] at hitems
    exact ⟨_, hitems⟩
  intro hused
  have hearlier := (used_foldl_assignGroup_lone before halone hbefore { used := [] }
    (fun _ _ => List.not_mem_nil) _ hused).resolve_left List.not_mem_nil
  exact hdisjoint _ hearlier _ List.mem_cons_self rfl

end Unpack
