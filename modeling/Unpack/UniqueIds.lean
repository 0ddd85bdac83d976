import Unpack.IdAssignment
import Unpack.Lib.FreshNames
import Mathlib.Logic.Equiv.List

/-! Assigned ids are apart. Names, suffixed names, indexed names and numbers share one set of used texts;
every id is taken outside that set and its text joins it. -/

namespace Unpack

open FreshNames

theorem toString_injective : Function.Injective (toString : ℕ → String) := by
  intro left right heq
  have hdigits : Nat.toDigits 10 left = Nat.toDigits 10 right := by
    simpa only [Nat.toString_eq_repr, Nat.toList_repr] using congrArg String.toList heq
  simpa using congrArg (fun digits => Nat.ofDigitChars 10 digits 0) hdigits

/-- The names that are tried for a base. -/
def triedName (base : String) : ℕ → String
  | 0 => base
  | index + 1 => s!"{base}-{index}"

theorem triedName_succ_toList (base : String) (index : ℕ) : (triedName base (index + 1)).toList =
    base.toList ++ '-' :: (toString index : String).toList := by
  show (base ++ "-" ++ toString index).toList = _
  simp [String.toList_append]

theorem triedName_injective (base : String) : Function.Injective (triedName base) := by
  intro left right heq
  have hlist := congrArg String.toList heq
  cases left with
  | zero =>
      cases right with
      | zero => rfl
      | succ right =>
          rw [triedName_succ_toList] at hlist
          simpa [triedName] using congrArg List.length hlist
  | succ left =>
      cases right with
      | zero =>
          rw [triedName_succ_toList] at hlist
          simpa [triedName] using congrArg List.length hlist
      | succ right =>
          rw [triedName_succ_toList, triedName_succ_toList] at hlist
          have hdigits := (List.cons.inj (List.append_cancel_left hlist)).2
          rw [toString_injective (String.toList_inj.mp hdigits)]

theorem unusedName_eq (used : List String) (base : String) (fuel index : ℕ) :
    unusedName used base fuel (triedName base index) index =
      triedName base (firstFree used (triedName base) fuel index) := by
  induction fuel generalizing index with
  | zero => rfl
  | succ fuel ih =>
      rw [unusedName, firstFree]
      split
      · exact ih (index + 1)
      · rfl

theorem unusedNumber_eq (used : List String) (fuel next : ℕ) :
    unusedNumber used fuel next = firstFree used toString fuel next := by
  induction fuel generalizing next with
  | zero => rfl
  | succ fuel ih =>
      rw [unusedNumber, firstFree, ih]

theorem card_lt_length_succ (used : List String) : used.toFinset.card < used.length + 1 :=
  Nat.lt_succ_of_le (List.toFinset_card_le used)

/-- The search for a name ends at a name that is not used. -/
theorem unusedName_notMem (used : List String) (base : String) :
    unusedName used base (used.length + 1) base 0 ∉ used := by
  have heq := unusedName_eq used base (used.length + 1) 0
  rw [triedName] at heq
  rw [heq]
  exact firstFree_notMem (triedName_injective base) (card_lt_length_succ used) 0

/-- The search for a number ends at a number whose text is not used. -/
theorem unusedNumber_notMem (used : List String) (next : ℕ) :
    (toString (unusedNumber used (used.length + 1) next) : String) ∉ used := by
  rw [unusedNumber_eq]
  exact firstFree_notMem toString_injective (card_lt_length_succ used) next

/-- When the numbers before the first one tried are used, all before the one found are, so it is no
larger than the set of used texts. -/
theorem unusedNumber_le (used : List String) {next : ℕ}
    (hnext : ∀ number < next, (toString number : String) ∈ used) :
    unusedNumber used (used.length + 1) next ≤ used.toFinset.card ∧
      ∀ number < unusedNumber used (used.length + 1) next, (toString number : String) ∈ used := by
  rw [unusedNumber_eq]
  have hbefore : ∀ number < firstFree used toString (used.length + 1) next,
      (toString number : String) ∈ used := by
    intro number hlt
    rcases Nat.lt_or_ge number next with hlow | hhigh
    · exact hnext number hlow
    · exact @mem_of_lt_firstFree _ _ _ toString (used.length + 1) next _ hhigh hlt
  refine ⟨?_, hbefore⟩
  simpa using @card_le_of_forall_mem _ _ _ _ toString_injective 0 _ fun number _ hlt =>
    hbefore number hlt

/-- The texts of the assigned ids. -/
def NamedIds.texts (ids : NamedIds) : List String :=
  ids.assigned.map (·.2.toText)

/-- What holds between two assignments of ids: the used texts are the reserved ones and those of the ids
assigned, and no text is there twice. -/
structure NamedIds.Apart (reserved : List String) (ids : NamedIds) : Prop where
  mem_used : ∀ text, text ∈ ids.used ↔ text ∈ reserved ∨ text ∈ ids.texts
  nodup : ids.texts.Nodup
  unreserved : ∀ text ∈ ids.texts, text ∉ reserved

variable {stableHash : String → UInt64} {reserved : List String}

theorem NamedIds.apart_start (reserved : List String) : NamedIds.Apart reserved { used := reserved } where
  mem_used := by simp [NamedIds.texts]
  nodup := List.nodup_nil
  unreserved := by simp [NamedIds.texts]

namespace NamedIds.Apart

/-- An id whose text is not used is assigned. -/
theorem assign {ids : NamedIds} (hapart : ids.Apart reserved) {item : ℕ} {id : RenderId}
    (hfresh : id.toText ∉ ids.used) :
    NamedIds.Apart reserved { ids with
      used := id.toText :: ids.used
      assigned := ids.assigned ++ [(item, id)] } := by
  have htexts : NamedIds.texts { ids with
      used := id.toText :: ids.used
      assigned := ids.assigned ++ [(item, id)] } = ids.texts ++ [id.toText] := by
    simp [NamedIds.texts]
  have hnew : id.toText ∉ reserved ∧ id.toText ∉ ids.texts := by
    simpa only [hapart.mem_used, not_or] using hfresh
  refine ⟨?_, ?_, ?_⟩
  · intro text
    rw [htexts, List.mem_cons, hapart.mem_used, List.mem_append, List.mem_singleton]
    tauto
  · rw [htexts]
    exact List.nodup_append.mpr ⟨hapart.nodup, List.nodup_singleton _, fun text htext other hother =>
      fun heq => hnew.2 (by rw [← List.mem_singleton.mp hother, ← heq]; exact htext)⟩
  · intro text htext
    rw [htexts, List.mem_append, List.mem_singleton] at htext
    rcases htext with hold | rfl
    · exact hapart.unreserved text hold
    · exact hnew.1

/-- Items kept for a number change no text. -/
theorem keep {ids : NamedIds} (hapart : ids.Apart reserved) (unnamed : List (ℕ × String)) :
    NamedIds.Apart reserved { ids with unnamed := unnamed } :=
  ⟨hapart.mem_used, hapart.nodup, hapart.unreserved⟩

theorem assignSuffixed {ids : NamedIds} (hapart : ids.Apart reserved) (shortName : String)
    (item : ℕ × String) : (assignSuffixed stableHash shortName ids item).Apart reserved := by
  unfold Unpack.assignSuffixed
  exact @Apart.assign _ _ hapart _ (.string _) (unusedName_notMem ids.used _)

theorem foldl_assignSuffixed (shortName : String) (items : List (ℕ × String)) {ids : NamedIds}
    (hapart : ids.Apart reserved) :
    (items.foldl (Unpack.assignSuffixed stableHash shortName) ids).Apart reserved := by
  induction items generalizing ids with
  | nil => exact hapart
  | cons item items ih => exact ih (hapart.assignSuffixed shortName item)

theorem assignGroup {ids : NamedIds} (hapart : ids.Apart reserved)
    (group : String × List (ℕ × String)) : (assignGroup stableHash ids group).Apart reserved := by
  unfold Unpack.assignGroup
  split
  · exact hapart.keep _
  · split
    next item _ =>
      split
      · exact hapart.assignSuffixed group.1 item
      next hunused => exact @Apart.assign _ _ hapart _ (.string group.1) hunused
    · exact foldl_assignSuffixed group.1 _ hapart

theorem foldl_assignGroup (groups : List (String × List (ℕ × String))) {ids : NamedIds}
    (hapart : ids.Apart reserved) :
    (groups.foldl (Unpack.assignGroup stableHash) ids).Apart reserved := by
  induction groups generalizing ids with
  | nil => exact hapart
  | cons group groups ih => exact ih (hapart.assignGroup group)

/-- The used texts are no more than the reserved ones and the assigned ids. -/
theorem card_used_le {ids : NamedIds} (hapart : ids.Apart reserved) :
    ids.used.toFinset.card ≤ reserved.toFinset.card + ids.assigned.length := by
  have hused : ids.used.toFinset = reserved.toFinset ∪ ids.texts.toFinset := by
    ext text
    simpa using hapart.mem_used text
  calc ids.used.toFinset.card = (reserved.toFinset ∪ ids.texts.toFinset).card := by rw [hused]
    _ ≤ reserved.toFinset.card + ids.texts.toFinset.card := Finset.card_union_le _ _
    _ ≤ reserved.toFinset.card + ids.texts.length :=
        Nat.add_le_add_left (List.toFinset_card_le _) _
    _ = reserved.toFinset.card + ids.assigned.length := by rw [NamedIds.texts, List.length_map]

end NamedIds.Apart

theorem toText_number_ofNat {number : ℕ} (hnumber : number < 2 ^ 32) :
    (RenderId.number (.ofNat number)).toText = toString number := by
  show toString (UInt32.ofNat number).toNat = toString number
  rw [UInt32.toNat_ofNat_of_lt' hnumber]

/-- What holds before each number is given. -/
structure NumbersApart (reserved : List String) (state : NamedIds × ℕ) : Prop where
  apart : state.1.Apart reserved
  passed : ∀ number < state.2, (toString number : String) ∈ state.1.used

theorem NumbersApart.assignNumber {state : NamedIds × ℕ} (hapart : NumbersApart reserved state)
    (hroom : reserved.toFinset.card + state.1.assigned.length < 2 ^ 32) (item : ℕ × String) :
    NumbersApart reserved (assignNumber state item) := by
  obtain ⟨hle, hpassed⟩ := unusedNumber_le state.1.used hapart.passed
  have hfresh := unusedNumber_notMem state.1.used state.2
  unfold Unpack.assignNumber
  simp only
  generalize unusedNumber state.1.used (state.1.used.length + 1) state.2 = number at *
  have htext := toText_number_ofNat (hle.trans (hapart.apart.card_used_le) |>.trans_lt hroom)
  rw [← htext] at hfresh
  have hassigned := @NamedIds.Apart.assign _ _ hapart.apart item.1 _ hfresh
  rw [htext] at hassigned
  refine ⟨hassigned, ?_⟩
  intro other hother
  rcases (Nat.lt_succ_iff.mp hother).lt_or_eq with hlt | rfl
  · exact List.mem_cons_of_mem _ (hpassed other hlt)
  · exact List.mem_cons_self

theorem length_assigned_assignNumber (state : NamedIds × ℕ) (item : ℕ × String) :
    (assignNumber state item).1.assigned.length = state.1.assigned.length + 1 := by
  simp [assignNumber]

theorem NumbersApart.foldl (items : List (ℕ × String)) {state : NamedIds × ℕ}
    (hapart : NumbersApart reserved state)
    (hroom : reserved.toFinset.card + state.1.assigned.length + items.length ≤ 2 ^ 32) :
    NumbersApart reserved (items.foldl Unpack.assignNumber state) := by
  induction items generalizing state with
  | nil => exact hapart
  | cons item items ih =>
      rw [List.length_cons] at hroom
      refine ih (hapart.assignNumber (by omega) item) ?_
      rw [length_assigned_assignNumber]
      omega

/-- The items of the ids assigned, and those kept for a number. -/
def NamedIds.items (ids : NamedIds) : List ℕ :=
  ids.assigned.map (·.1) ++ ids.unnamed.map (·.1)

theorem items_assigned {ids : NamedIds} {item : ℕ} {id : RenderId} {used : List String} :
    List.Perm (NamedIds.items { ids with used := used, assigned := ids.assigned ++ [(item, id)] })
      (ids.items ++ [item]) := by
  simp only [NamedIds.items, List.map_append, List.map_cons, List.map_nil, List.append_assoc]
  exact List.Perm.append_left _ List.perm_append_comm

theorem items_foldl_assignSuffixed (shortName : String) (items : List (ℕ × String)) (ids : NamedIds) :
    List.Perm (items.foldl (assignSuffixed stableHash shortName) ids).items
      (ids.items ++ items.map (·.1)) := by
  induction items generalizing ids with
  | nil => simp
  | cons item items ih =>
      have hstep : List.Perm (assignSuffixed stableHash shortName ids item).items
          (ids.items ++ [item.1]) := items_assigned
      refine (ih _).trans ((hstep.append_right _).trans ?_)
      simp

theorem items_assignGroup (ids : NamedIds) (group : String × List (ℕ × String)) :
    List.Perm (assignGroup stableHash ids group).items (ids.items ++ group.2.map (·.1)) := by
  unfold assignGroup
  split
  · simp [NamedIds.items]
  · split
    next item heq =>
      rw [heq]
      split
      · exact items_foldl_assignSuffixed group.1 [item] ids
      · exact items_assigned
    · exact items_foldl_assignSuffixed group.1 _ ids

theorem items_foldl_assignGroup (groups : List (String × List (ℕ × String))) (ids : NamedIds) :
    List.Perm (groups.foldl (assignGroup stableHash) ids).items
      (ids.items ++ groups.flatMap fun group => group.2.map (·.1)) := by
  induction groups generalizing ids with
  | nil => simp
  | cons group groups ih =>
      refine (ih _).trans (((items_assignGroup ids group).append_right _).trans ?_)
      simp

theorem items_foldl_assignNumber (items : List (ℕ × String)) (state : NamedIds × ℕ) :
    (items.foldl assignNumber state).1.assigned.map (·.1) =
      state.1.assigned.map (·.1) ++ items.map (·.1) := by
  induction items generalizing state with
  | nil => simp
  | cons item items ih =>
      rw [List.foldl_cons, ih]
      simp [assignNumber]

/-- A list is its parts by key, put together in any order of the keys. -/
theorem flatMap_filter_perm {α κ : Type*} [DecidableEq κ] (key : α → κ) (keys : List κ)
    (hnodup : keys.Nodup) (items : List α) (hkeys : ∀ item ∈ items, key item ∈ keys) :
    List.Perm (keys.flatMap fun wanted => items.filter fun item => key item = wanted) items := by
  induction keys generalizing items with
  | nil =>
      have hempty : items = [] := List.eq_nil_iff_forall_not_mem.mpr fun item hitem =>
        List.not_mem_nil (hkeys item hitem)
      simp [hempty]
  | cons first keys ih =>
      obtain ⟨hfirst, hnodup⟩ := List.nodup_cons.mp hnodup
      have hrest := ih hnodup (items.filter fun item => !decide (key item = first)) (by
        intro item hitem
        obtain ⟨hmem, hne⟩ := List.mem_filter.mp hitem
        exact (List.mem_cons.mp (hkeys item hmem)).resolve_left (by simpa using hne))
      have hsame : (keys.flatMap fun wanted =>
          (items.filter fun item => !decide (key item = first)).filter fun item =>
            key item = wanted) =
          keys.flatMap fun wanted => items.filter fun item => key item = wanted := by
        refine List.flatMap_congr fun wanted hwanted => ?_
        rw [List.filter_filter]
        refine List.filter_congr fun item _ => ?_
        by_cases heq : key item = wanted
        · have hne : wanted ≠ first := fun hfirst' => hfirst (hfirst' ▸ hwanted)
          simp [heq, hne]
        · simp [heq]
      rw [hsame] at hrest
      rw [List.flatMap_cons]
      exact (hrest.append_left _).trans (List.filter_append_perm _ items)

theorem items_groupCandidates (candidates : List NamedIdCandidate) :
    List.Perm ((groupCandidates candidates).flatMap fun group => group.2.map (·.1))
      (candidates.map (·.item)) := by
  have hkeys := flatMap_filter_perm NamedIdCandidate.shortName
    ((candidates.map (·.shortName)).dedup.insertionSort (· ≤ ·))
    ((List.perm_insertionSort _ _).nodup_iff.mpr (List.nodup_dedup _)) candidates
    (fun candidate hcandidate => by
      rw [List.mem_insertionSort, List.mem_dedup]
      exact List.mem_map_of_mem hcandidate)
  refine List.Perm.trans ?_ (hkeys.map (·.item))
  rw [groupCandidates, List.flatMap_map, List.map_flatMap]
  refine List.Perm.flatMap_left _ fun shortName _ => ?_
  have hsort := (List.perm_insertionSort (fun left right : ℕ × String =>
    ((compare left.2 right.2).then (compare left.1 right.1)).isLE = true)
    ((candidates.filter (·.shortName = shortName)).map fun candidate =>
      (candidate.item, candidate.fullName))).map (·.1)
  rwa [List.map_map] at hsort

/-- A full name with the item it stands for. The assignment reads the items only to break ties between equal full
names; with distinct ones the whole run is one run over names, with the items written in. -/
def labelled (itemOf : String → ℕ) (fullName : String) : ℕ × String :=
  (itemOf fullName, fullName)

/-- A run over full names. -/
structure NameRun where
  used : List String
  assigned : List (String × RenderId)
  unnamed : List String

/-- The state that a run over names stands for. -/
def NameRun.ids (itemOf : String → ℕ) (run : NameRun) : NamedIds where
  used := run.used
  assigned := run.assigned.map fun given => (itemOf given.1, given.2)
  unnamed := run.unnamed.map (labelled itemOf)

theorem assignSuffixed_labelled (shortName fullName : String) (run : NameRun) :
    ∃ run' : NameRun, ∀ itemOf,
      assignSuffixed stableHash shortName (run.ids itemOf) (labelled itemOf fullName) =
        run'.ids itemOf := by
  let base := s!"{shortName}-{hashSuffix stableHash fullName}"
  let name := unusedName run.used base (run.used.length + 1) base 0
  refine ⟨{ run with
    used := name :: run.used
    assigned := run.assigned ++ [(fullName, .string name)] }, fun itemOf => ?_⟩
  simp [assignSuffixed, NameRun.ids, labelled, name, base]

theorem foldl_assignSuffixed_labelled (shortName : String) (fullNames : List String)
    (run : NameRun) : ∃ run' : NameRun, ∀ itemOf,
      (fullNames.map (labelled itemOf)).foldl (assignSuffixed stableHash shortName) (run.ids itemOf) =
        run'.ids itemOf := by
  induction fullNames generalizing run with
  | nil => exact ⟨run, fun _ => rfl⟩
  | cons fullName fullNames ih =>
      obtain ⟨middle, hmiddle⟩ := @assignSuffixed_labelled stableHash shortName
        fullName run
      obtain ⟨last, hlast⟩ := ih middle
      refine ⟨last, fun itemOf => ?_⟩
      rw [List.map_cons, List.foldl_cons, hmiddle, hlast]

theorem assignGroup_labelled (group : String × List String) (run : NameRun) :
    ∃ run' : NameRun, ∀ itemOf,
      assignGroup stableHash (run.ids itemOf) (group.1, group.2.map (labelled itemOf)) =
        run'.ids itemOf := by
  by_cases hempty : group.1.isEmpty
  · refine ⟨{ run with unnamed := run.unnamed ++ group.2 }, fun itemOf => ?_⟩
    rw [assignGroup, if_pos hempty]
    simp [NameRun.ids]
  · by_cases halone : (∃ fullName, group.2 = [fullName]) ∧ group.1 ∉ run.used
    · obtain ⟨⟨fullName, heq⟩, hunused⟩ := halone
      refine ⟨{ run with
        used := group.1 :: run.used
        assigned := run.assigned ++ [(fullName, .string group.1)] }, fun itemOf => ?_⟩
      have hunused' : group.1 ∉ (run.ids itemOf).used := hunused
      rw [assignGroup, if_neg hempty, heq, List.map_singleton]
      simp only [if_neg hunused']
      simp [NameRun.ids, labelled]
    · obtain ⟨last, hlast⟩ := @foldl_assignSuffixed_labelled stableHash group.1
        group.2 run
      refine ⟨last, fun itemOf => ?_⟩
      rw [← hlast itemOf, assignGroup, if_neg hempty]
      split
      next item heq =>
        obtain ⟨fullName, hnames, -⟩ := List.map_eq_singleton_iff.mp heq
        have hused : group.1 ∈ (run.ids itemOf).used := by
          by_contra hunused
          exact halone ⟨⟨fullName, hnames⟩, hunused⟩
        have hitem : group.2.map (labelled itemOf) = [item] := heq
        rw [if_pos hused, hitem]
        rfl
      · rfl

theorem foldl_assignGroup_labelled (groups : List (String × List String)) (run : NameRun) :
    ∃ run' : NameRun, ∀ itemOf,
      (groups.map fun group => (group.1, group.2.map (labelled itemOf))).foldl
        (assignGroup stableHash) (run.ids itemOf) = run'.ids itemOf := by
  induction groups generalizing run with
  | nil => exact ⟨run, fun _ => rfl⟩
  | cons group groups ih =>
      obtain ⟨middle, hmiddle⟩ := @assignGroup_labelled stableHash group run
      obtain ⟨last, hlast⟩ := ih middle
      refine ⟨last, fun itemOf => ?_⟩
      rw [List.map_cons, List.foldl_cons, hmiddle, hlast]

theorem foldl_assignNumber_labelled (fullNames : List String) (run : NameRun) (next : ℕ) :
    ∃ (run' : NameRun) (next' : ℕ), ∀ itemOf,
      (fullNames.map (labelled itemOf)).foldl assignNumber (run.ids itemOf, next) =
        (run'.ids itemOf, next') := by
  induction fullNames generalizing run next with
  | nil => exact ⟨run, next, fun _ => rfl⟩
  | cons fullName fullNames ih =>
      let number := unusedNumber run.used (run.used.length + 1) next
      obtain ⟨last, next', hlast⟩ := ih { run with
        used := toString number :: run.used
        assigned := run.assigned ++ [(fullName, .number (.ofNat number))] } (number + 1)
      refine ⟨last, next', fun itemOf => ?_⟩
      rw [← hlast itemOf, List.map_cons, List.foldl_cons]
      simp [assignNumber, NameRun.ids, labelled, number]

theorem isLE_labelled (itemOf : String → ℕ) (left right : String) :
    left ≤ right ↔ ((compare (labelled itemOf left).2 (labelled itemOf right).2).then
      (compare (labelled itemOf left).1 (labelled itemOf right).1)).isLE := by
  show left ≤ right ↔ ((compare left right).then (compare (itemOf left) (itemOf right))).isLE = true
  rcases lt_trichotomy left right with hlt | rfl | hgt
  · simp [hlt.le, compare_lt_iff_lt.mpr hlt]
  · simp
  · simp [hgt.not_ge, compare_gt_iff_gt.mpr hgt]

/-- Items that go with their full names are sorted as the names are. -/
theorem sortItems_labelled (itemOf : String → ℕ) (fullNames : List String) :
    sortItems (fullNames.map (labelled itemOf)) =
      (fullNames.insertionSort (· ≤ ·)).map (labelled itemOf) :=
  (List.map_insertionSort _ _ _ _ fun left _ right _ => isLE_labelled itemOf left right).symm

/-- The full names by short name, in the order of the names. -/
def groupNames (names : List (String × String)) : List (String × List String) :=
  ((names.map (·.1)).dedup.insertionSort (· ≤ ·)).map fun shortName =>
    (shortName, ((names.filter (·.1 = shortName)).map (·.2)).insertionSort (· ≤ ·))

def NamedIdCandidate.names (candidate : NamedIdCandidate) : String × String :=
  (candidate.shortName, candidate.fullName)

theorem insertionSort_eq_of_perm {left right : List String} (hperm : List.Perm left right) :
    left.insertionSort (· ≤ ·) = right.insertionSort (· ≤ ·) :=
  List.Perm.eq_of_pairwise (fun _ _ _ _ => le_antisymm) (List.pairwise_insertionSort _ _)
    (List.pairwise_insertionSort _ _)
    ((List.perm_insertionSort _ _).trans (hperm.trans (List.perm_insertionSort _ _).symm))

theorem groupNames_eq_of_perm {left right : List (String × String)} (hperm : List.Perm left right) :
    groupNames left = groupNames right := by
  unfold groupNames
  rw [insertionSort_eq_of_perm (hperm.map (·.1)).dedup]
  refine List.map_congr_left fun shortName _ => ?_
  rw [insertionSort_eq_of_perm ((hperm.filter _).map (·.2))]

theorem groupCandidates_labelled (itemOf : String → ℕ) (candidates : List NamedIdCandidate)
    (hitem : ∀ candidate ∈ candidates, candidate.item = itemOf candidate.fullName) :
    groupCandidates candidates =
      (groupNames (candidates.map NamedIdCandidate.names)).map fun group =>
        (group.1, group.2.map (labelled itemOf)) := by
  simp only [groupCandidates, groupNames, List.map_map]
  have hshort : candidates.map (Prod.fst ∘ NamedIdCandidate.names) =
      candidates.map (·.shortName) := rfl
  rw [hshort]
  refine List.map_congr_left fun shortName _ => ?_
  simp only [Function.comp_apply, Prod.mk.injEq, true_and]
  rw [← sortItems_labelled, List.filter_map, List.map_map, List.map_map]
  congr 1
  refine List.map_congr_left fun candidate hcandidate => ?_
  simp [NamedIdCandidate.names, labelled, hitem candidate (List.mem_filter.mp hcandidate).1]

/-- A list of pairs with distinct keys is read off by a function. -/
theorem exists_function_of_nodup {α β : Type*} [Inhabited β] {pairs : List (α × β)}
    (hnodup : (pairs.map (·.1)).Nodup) : ∃ value : α → β, ∀ pair ∈ pairs, pair.2 = value pair.1 := by
  classical
  refine ⟨fun key => if hkey : ∃ pair ∈ pairs, pair.1 = key then hkey.choose.2 else default,
    fun pair hpair => ?_⟩
  have hkey : ∃ other ∈ pairs, other.1 = pair.1 := ⟨pair, hpair, rfl⟩
  show pair.2 = if hkey : ∃ other ∈ pairs, other.1 = pair.1 then hkey.choose.2 else default
  rw [dif_pos hkey]
  rw [List.inj_on_of_nodup_map hnodup hkey.choose_spec.1 hpair hkey.choose_spec.2]

theorem exists_injective_string : ∃ code : String → ℕ, Function.Injective code := by
  have hchar : Countable Char :=
    Function.Injective.countable (f := Char.toNat) fun _ _ heq => Char.toNat_inj.mp heq
  have hstring : Countable String :=
    Function.Injective.countable (f := String.toList) fun _ _ heq => String.toList_inj.mp heq
  exact exists_injective_nat String

/-- For given names one run over names is the assignment for every way to write items in. -/
theorem exists_nameRun (stableHash : String → UInt64) (reserved : List String)
    (names : List (String × String)) : ∃ run : NameRun, ∀ (itemOf : String → ℕ)
      (candidates : List NamedIdCandidate),
      (∀ candidate ∈ candidates, candidate.item = itemOf candidate.fullName) →
      List.Perm (candidates.map NamedIdCandidate.names) names →
      List.Perm (assignNamedIdsWithReserved stableHash candidates reserved)
        (run.ids itemOf).assigned := by
  obtain ⟨named, hnamed⟩ := @foldl_assignGroup_labelled stableHash
    (groupNames names) { used := reserved, assigned := [], unnamed := [] }
  obtain ⟨run, next, hrun⟩ := foldl_assignNumber_labelled
    (named.unnamed.insertionSort (· ≤ ·)) named 0
  refine ⟨run, fun itemOf candidates hitem hnames => ?_⟩
  have hgroups : (groupCandidates candidates).foldl (assignGroup stableHash) { used := reserved } =
      named.ids itemOf := by
    rw [groupCandidates_labelled itemOf candidates hitem, groupNames_eq_of_perm hnames]
    exact hnamed itemOf
  have hsorted : sortItems (named.ids itemOf).unnamed =
      (named.unnamed.insertionSort (· ≤ ·)).map (labelled itemOf) :=
    sortItems_labelled itemOf named.unnamed
  rw [assignNamedIdsWithReserved, hgroups, hsorted, hrun itemOf]
  exact List.perm_insertionSort _ _

/-- Every candidate gets one id. -/
theorem items_assignNamedIdsWithReserved (candidates : List NamedIdCandidate)
    (reserved : List String) :
    List.Perm ((assignNamedIdsWithReserved stableHash candidates reserved).map (·.1))
      (candidates.map (·.item)) := by
  let named := (groupCandidates candidates).foldl (assignGroup stableHash) { used := reserved }
  have hnamed : List.Perm named.items (candidates.map (·.item)) := by
    refine (items_foldl_assignGroup (groupCandidates candidates) { used := reserved }).trans ?_
    exact items_groupCandidates candidates
  have hnumbers := items_foldl_assignNumber (sortItems named.unnamed) (named, 0)
  have hsort : List.Perm ((sortItems named.unnamed).map (·.1)) (named.unnamed.map (·.1)) :=
    (List.perm_insertionSort _ _).map _
  have hassigned : List.Perm (assignNamedIdsWithReserved stableHash candidates reserved)
      ((sortItems named.unnamed).foldl assignNumber (named, 0)).1.assigned :=
    List.perm_insertionSort _ _
  refine (hassigned.map (·.1)).trans ?_
  rw [hnumbers]
  exact (hsort.append_left _).trans hnamed

/-- What an assignment of ids gives: each candidate one id, the texts of the ids pairwise distinct and
none of them reserved, and, when the full names are distinct, to each full name an id that neither the
order of the candidates nor their items change. -/
structure NamesApart (stableHash : String → UInt64) (reserved : List String)
    (candidates : List NamedIdCandidate) : Prop where
  once : List.Perm ((assignNamedIdsWithReserved stableHash candidates reserved).map (·.1))
    (candidates.map (·.item))
  nodup : ((assignNamedIdsWithReserved stableHash candidates reserved).map (·.2.toText)).Nodup
  unreserved : ∀ given ∈ assignNamedIdsWithReserved stableHash candidates reserved,
    given.2.toText ∉ reserved
  stable : (candidates.map (·.fullName)).Nodup → ∃ idOf : String → RenderId, ∀ others,
    List.Perm (others.map NamedIdCandidate.names) (candidates.map NamedIdCandidate.names) →
    List.Perm (assignNamedIdsWithReserved stableHash others reserved)
      (others.map fun other => (other.item, idOf other.fullName))

theorem texts_assignNamedIdsWithReserved (stableHash : String → UInt64) (reserved : List String)
    (candidates : List NamedIdCandidate)
    (hcount : reserved.toFinset.card + candidates.length ≤ 2 ^ 32) :
    ((assignNamedIdsWithReserved stableHash candidates reserved).map (·.2.toText)).Nodup ∧
      ∀ given ∈ assignNamedIdsWithReserved stableHash candidates reserved,
        given.2.toText ∉ reserved := by
  let named := (groupCandidates candidates).foldl (assignGroup stableHash) { used := reserved }
  let numbered := ((sortItems named.unnamed).foldl assignNumber (named, 0)).1
  have hnamed : named.Apart reserved :=
    (NamedIds.apart_start reserved).foldl_assignGroup (groupCandidates candidates)
  have hlength : named.assigned.length + named.unnamed.length = candidates.length := by
    have hitems : List.Perm named.items (candidates.map (·.item)) :=
      (items_foldl_assignGroup (groupCandidates candidates) { used := reserved }).trans
        (items_groupCandidates candidates)
    simpa [NamedIds.items] using hitems.length_eq
  have hsort : (sortItems named.unnamed).length = named.unnamed.length :=
    List.length_insertionSort _ _
  have hnumbered : numbered.Apart reserved :=
    (NumbersApart.foldl (sortItems named.unnamed)
      ⟨hnamed, fun number hnumber => absurd hnumber (Nat.not_lt_zero number)⟩
      (by show reserved.toFinset.card + named.assigned.length + _ ≤ _; omega)).apart
  have hassigned : List.Perm (assignNamedIdsWithReserved stableHash candidates reserved)
      numbered.assigned := List.perm_insertionSort _ _
  have htexts : List.Perm
      ((assignNamedIdsWithReserved stableHash candidates reserved).map (·.2.toText)) numbered.texts :=
    hassigned.map _
  refine ⟨htexts.nodup_iff.mpr hnumbered.nodup, fun given hgiven => ?_⟩
  exact hnumbered.unreserved _ (List.mem_map_of_mem (hassigned.mem_iff.mp hgiven))

theorem stable_assignNamedIdsWithReserved (stableHash : String → UInt64) (reserved : List String)
    (candidates : List NamedIdCandidate) (hnodup : (candidates.map (·.fullName)).Nodup) :
    ∃ idOf : String → RenderId, ∀ others,
      List.Perm (others.map NamedIdCandidate.names) (candidates.map NamedIdCandidate.names) →
      List.Perm (assignNamedIdsWithReserved stableHash others reserved)
        (others.map fun other => (other.item, idOf other.fullName)) := by
  obtain ⟨run, hrun⟩ := exists_nameRun stableHash reserved (candidates.map NamedIdCandidate.names)
  -- with items that tell the full names apart, the run is seen to give each full name one id
  have hfullNames : List.Perm (run.assigned.map (·.1)) (candidates.map (·.fullName)) := by
    obtain ⟨code, hcode⟩ := exists_injective_string
    let coded := candidates.map fun candidate => { candidate with item := code candidate.fullName }
    have hcoded := hrun code coded (by
        intro candidate hcandidate
        obtain ⟨_, _, rfl⟩ := List.mem_map.mp hcandidate
        rfl) (by rw [List.map_map]; rfl)
    have hitems := @items_assignNamedIdsWithReserved stableHash coded reserved
    refine (List.map_perm_map_iff hcode).mp ?_
    have hleft := hcoded.map (·.1)
    simp only [NameRun.ids, List.map_map] at hleft ⊢
    refine hleft.symm.trans (hitems.trans ?_)
    simp only [coded, List.map_map]
    rfl
  have : Inhabited RenderId := ⟨.number 0⟩
  obtain ⟨idOf, hidOf⟩ := exists_function_of_nodup (hfullNames.nodup_iff.mpr hnodup)
  refine ⟨idOf, fun others hothers => ?_⟩
  have hothersFull : List.Perm (others.map (·.fullName)) (candidates.map (·.fullName)) := by
    have hsecond := hothers.map (·.2)
    rw [List.map_map, List.map_map] at hsecond
    exact hsecond
  obtain ⟨itemOf, hitemOf⟩ := @exists_function_of_nodup _ _ _
    (others.map fun other => (other.fullName, other.item)) (by
      rw [List.map_map]
      exact hothersFull.nodup_iff.mpr hnodup)
  have hitem : ∀ other ∈ others, other.item = itemOf other.fullName := fun other hother =>
    hitemOf (other.fullName, other.item) (List.mem_map_of_mem hother)
  have hwritten : (run.ids itemOf).assigned =
      (run.assigned.map (·.1)).map fun fullName => (itemOf fullName, idOf fullName) := by
    rw [List.map_map]
    refine List.map_congr_left fun given hgiven => ?_
    rw [hidOf given hgiven]
    rfl
  have hresult := hrun itemOf others hitem hothers
  rw [hwritten] at hresult
  refine hresult.trans (((hfullNames.trans hothersFull.symm).map _).trans ?_)
  rw [List.map_map]
  refine List.Perm.of_eq (List.map_congr_left fun other hother => ?_)
  rw [Function.comp_apply, hitem other hother]

/-- Both searches end, and as long as the ids can be counted in a `u32` the assignment keeps them
apart and stable. -/
theorem assignNamedIdsWithReserved_namesApart (stableHash : String → UInt64)
    (reserved : List String) (candidates : List NamedIdCandidate)
    (hcount : reserved.toFinset.card + candidates.length < 2 ^ 32) :
    (∀ used base, unusedName used base (used.length + 1) base 0 ∉ used) ∧
      (∀ used next, (toString (unusedNumber used (used.length + 1) next) : String) ∉ used) ∧
      NamesApart stableHash reserved candidates := by
  obtain ⟨hnodup, hunreserved⟩ :=
    texts_assignNamedIdsWithReserved stableHash reserved candidates hcount.le
  exact ⟨unusedName_notMem, unusedNumber_notMem,
    ⟨items_assignNamedIdsWithReserved candidates reserved, hnodup, hunreserved,
      stable_assignNamedIdsWithReserved stableHash reserved candidates⟩⟩

theorem assignNamedIdsWithReserved_namesApart_numbers :
    let candidates : List NamedIdCandidate :=
      [{ item := 1, shortName := "", fullName := "b" }, { item := 0, shortName := "", fullName := "a" }]
    NamesApart (fun _ => 0) ["0"] candidates ∧ ∃ idOf : String → RenderId,
      List.Perm (assignNamedIdsWithReserved (fun _ => 0) candidates ["0"])
        [(1, idOf "b"), (0, idOf "a")] := by
  intro candidates
  have hapart := (assignNamedIdsWithReserved_namesApart (fun _ => 0) ["0"] candidates
    (by decide)).2.2
  obtain ⟨idOf, hidOf⟩ := hapart.stable (by decide)
  exact ⟨hapart, idOf, hidOf candidates (List.Perm.refl _)⟩

/-- More unnamed candidates than there are numbers. -/
def tooManyCandidates : List NamedIdCandidate :=
  (List.range (2 ^ 32 + 1)).map fun item => { item, shortName := "", fullName := toString item }

theorem assigned_foldl_assignGroup_unnamed (groups : List (String × List (ℕ × String)))
    (hgroups : ∀ group ∈ groups, group.1 = "") (ids : NamedIds) :
    (groups.foldl (assignGroup stableHash) ids).assigned = ids.assigned := by
  induction groups generalizing ids with
  | nil => rfl
  | cons group groups ih =>
      have hempty : group.1.isEmpty = true := by rw [hgroups group List.mem_cons_self]; rfl
      rw [List.foldl_cons, ih fun other hother => hgroups other (List.mem_cons_of_mem _ hother),
        assignGroup, if_pos hempty]

theorem mem_assigned_foldl_assignNumber (items : List (ℕ × String)) (state : NamedIds × ℕ)
    {given : ℕ × RenderId} (hgiven : given ∈ (items.foldl assignNumber state).1.assigned) :
    given ∈ state.1.assigned ∨ ∃ number, given.2 = .number number := by
  induction items generalizing state with
  | nil => exact Or.inl hgiven
  | cons item items ih =>
      rcases ih _ hgiven with hbefore | hnumber
      · rcases List.mem_append.mp hbefore with hold | hnew
        · exact Or.inl hold
        · exact Or.inr ⟨_, congrArg Prod.snd (List.mem_singleton.mp hnew)⟩
      · exact Or.inr hnumber

/-- Candidates without a short name get numbers. -/
theorem number_of_mem_assignNamedIdsWithReserved {reserved : List String}
    {candidates : List NamedIdCandidate} (hunnamed : ∀ candidate ∈ candidates, candidate.shortName = "")
    {given : ℕ × RenderId}
    (hgiven : given ∈ assignNamedIdsWithReserved stableHash candidates reserved) :
    ∃ number, given.2 = .number number := by
  have hgroups : ∀ group ∈ groupCandidates candidates, group.1 = "" := by
    intro group hgroup
    obtain ⟨shortName, hshort, rfl⟩ := List.mem_map.mp hgroup
    rw [List.mem_insertionSort, List.mem_dedup] at hshort
    obtain ⟨candidate, hcandidate, rfl⟩ := List.mem_map.mp hshort
    exact hunnamed candidate hcandidate
  rw [assignNamedIdsWithReserved, List.mem_insertionSort] at hgiven
  rcases mem_assigned_foldl_assignNumber _ _ hgiven with hnamed | hnumber
  · rw [assigned_foldl_assignGroup_unnamed _ hgroups] at hnamed
    exact absurd hnamed List.not_mem_nil
  · exact hnumber

theorem tooManyCandidates_not_namesApart :
    ¬ ∀ (stableHash : String → UInt64) (reserved : List String) (candidates : List NamedIdCandidate),
      NamesApart stableHash reserved candidates := by
  intro hall
  have hapart := hall (fun _ => 0) [] tooManyCandidates
  let given := assignNamedIdsWithReserved (fun _ => 0) tooManyCandidates []
  have hlength : given.length = 2 ^ 32 + 1 := by
    have hitems := hapart.once.length_eq
    rw [List.length_map, List.length_map, tooManyCandidates, List.length_map, List.length_range]
      at hitems
    exact hitems
  have hsubset : (given.map (·.2.toText)).toFinset ⊆
      (Finset.range (2 ^ 32)).image (toString : ℕ → String) := by
    intro text htext
    obtain ⟨pair, hpair, rfl⟩ := List.mem_map.mp (List.mem_toFinset.mp htext)
    obtain ⟨number, hnumber⟩ := number_of_mem_assignNamedIdsWithReserved (fun candidate hmem => by
      obtain ⟨item, -, rfl⟩ := List.mem_map.mp hmem
      rfl) hpair
    refine Finset.mem_image.mpr ⟨number.toNat, Finset.mem_range.mpr number.toNat_lt, ?_⟩
    rw [hnumber]
    rfl
  have hcard : (given.map (·.2.toText)).length ≤ 2 ^ 32 := by
    rw [← List.toFinset_card_of_nodup hapart.nodup]
    calc (given.map (·.2.toText)).toFinset.card
        ≤ ((Finset.range (2 ^ 32)).image (toString : ℕ → String)).card :=
          Finset.card_le_card hsubset
      _ ≤ (Finset.range (2 ^ 32)).card := Finset.card_image_le
      _ = 2 ^ 32 := Finset.card_range _
  rw [List.length_map, hlength] at hcard
  exact absurd hcard (Nat.not_succ_le_self _)

end Unpack
