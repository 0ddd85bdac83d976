import Unpack.PackFilePublished
import Mathlib.Data.List.Perm.Basic

/-! Which packs a publication rewrites: those that waste too much, those that are too large, and small ones in
use. For each file this is told by its live entries. -/

namespace Unpack

section

variable (entries : IndexEntries) (batch : PackFileWriteBatch)

/-- Whether an entry of the file is not replaced. -/
def isLive (file : PathBuf) (item : PackFileAddress × PackFileIndexEntry) : Bool :=
  item.1 ∉ batch.items ∧ item.2.content.file = file

/-- The entries of a file that are carried and not replaced. -/
def liveEntries (file : PathBuf) : List (PackFileAddress × PackFileIndexEntry) :=
  entries.toList.filter (isLive batch file)

def liveLength (live : List (PackFileAddress × PackFileIndexEntry)) : Nat :=
  (live.map (·.2.content.length.toNat)).sum

variable {entries batch} {file : PathBuf}

theorem mem_liveEntries {item : PackFileAddress × PackFileIndexEntry} : item ∈ liveEntries entries batch file ↔
    entries[item.1]? = some item.2 ∧ item.1 ∉ batch.items ∧ item.2.content.file = file := by
  rw [liveEntries, List.mem_filter, isLive, decide_eq_true_eq, Std.ExtTreeMap.mem_toList_iff_getElem?_eq_some]

theorem liveLength_cons (item : PackFileAddress × PackFileIndexEntry)
    (live : List (PackFileAddress × PackFileIndexEntry)) :
    liveLength (item :: live) = item.2.content.length.toNat + liveLength live := List.sum_cons

theorem nodup_keys {α β : Type} [Ord α] [Std.TransOrd α] (map : BTreeMap α β) : (map.toList.map (·.1)).Nodup := by
  rw [List.Nodup, List.pairwise_map]
  refine Std.ExtTreeMap.distinct_keys_toList.imp fun hcompare heq => hcompare ?_
  rw [heq]
  exact Std.ReflCmp.compare_self

theorem nodup_liveAddresses : ((liveEntries entries batch file).map (·.1)).Nodup :=
  (nodup_keys entries).sublist (List.filter_sublist.map _)

/-- The addresses of a file are those of its live entries. -/
theorem getElem?_entriesByContentFile (file : PathBuf) : (entriesByContentFile entries batch)[file]? =
    if liveEntries entries batch file = [] then none else some ((liveEntries entries batch file).map (·.1)) := by
  have hfold : ∀ items : List (PackFileAddress × PackFileIndexEntry),
      (items.foldl (fun files item =>
        if item.1 ∈ batch.items then files
        else files.insert item.2.content.file ((files[item.2.content.file]?).getD [] ++ [item.1]))
        (∅ : BTreeMap PathBuf (List PackFileAddress)))[file]? =
      let live := items.filter (isLive batch file)
      if live = [] then none else some (live.map (·.1)) := by
    intro items
    induction items using List.reverseRecOn with
    | nil => exact Std.ExtTreeMap.getElem?_empty
    | append_singleton items item ih =>
        dsimp only at ih ⊢
        rw [List.foldl_concat, List.filter_append]
        by_cases hpending : item.1 ∈ batch.items
        · have hdead : isLive batch file item = false := decide_eq_false fun hlive => hlive.1 hpending
          rw [if_pos hpending, ih, List.filter_cons, hdead, if_neg Bool.false_ne_true, List.filter_nil,
            List.append_nil]
        · rw [if_neg hpending, Std.ExtTreeMap.getElem?_insert]
          by_cases hfile : item.2.content.file = file
          · have hlive : isLive batch file item = true := decide_eq_true ⟨hpending, hfile⟩
            have hsome : items.filter (isLive batch file) ++ [item] ≠ [] := List.concat_ne_nil _ _
            rw [hfile, if_pos Std.ReflCmp.compare_self, ih, List.filter_cons, if_pos hlive, List.filter_nil,
              if_neg hsome, List.map_append]
            by_cases hnone : items.filter (isLive batch file) = []
            · rw [if_pos hnone, hnone]
              rfl
            · rw [if_neg hnone]
              rfl
          · have hdead : isLive batch file item = false := decide_eq_false fun hlive => hfile hlive.2
            have hcompare : compare item.2.content.file file ≠ .eq := fun heq =>
              hfile (Std.LawfulEqCmp.eq_of_compare heq)
            rw [if_neg hcompare, ih, List.filter_cons, hdead, if_neg Bool.false_ne_true, List.filter_nil,
              List.append_nil]
  exact hfold entries.toList

theorem liveBytes_eq (hbound : liveLength (liveEntries entries batch file) < 2 ^ 64) :
    liveBytes entries ((liveEntries entries batch file).map (·.1)) =
      some (liveLength (liveEntries entries batch file)) := by
  have hfold : ∀ (live : List (PackFileAddress × PackFileIndexEntry)) (total : Nat),
      (∀ item ∈ live, entries[item.1]? = some item.2) → total + liveLength live < 2 ^ 64 →
        (live.map (·.1)).foldlM (fun total address => do
          let entry ← entries[address]?
          let sum := total + entry.content.length.toNat
          if sum < 2 ^ 64 then some sum else none) total = some (total + liveLength live) := by
    intro live
    induction live with
    | nil => exact fun total _ _ => rfl
    | cons first live ih =>
        intro total hentries hsum
        rw [liveLength_cons] at hsum ⊢
        have hfirst := hentries first List.mem_cons_self
        have hsmall : total + first.2.content.length.toNat < 2 ^ 64 := by omega
        have hrest := ih (total + first.2.content.length.toNat)
          (fun item hitem => hentries item (List.mem_cons_of_mem first hitem)) (by omega)
        have hadd : (do
            let entry ← entries[first.1]?
            let sum := total + entry.content.length.toNat
            if sum < 2 ^ 64 then some sum else none) = some (total + first.2.content.length.toNat) := by
          rw [hfirst]
          exact if_pos hsmall
        rw [List.map_cons, List.foldlM_cons, Option.bind_eq_bind, hadd]
        exact hrest.trans (by rw [Nat.add_assoc])
  have hall := hfold (liveEntries entries batch file) 0 (fun item hitem => (mem_liveEntries.mp hitem).1) (by omega)
  rw [liveBytes, hall, Nat.zero_add]

/-- So much of a pack is lost that it is worth rewriting. -/
def PackFileMaintenance.Compactable (maintenance : PackFileMaintenance) (packSize lost : Nat) : Prop :=
  maintenance.minimumCompactableWasteBytes ≤ lost ∧ packSize * 25 ≤ lost * 100

section

variable (entries batch) (maintenance : PackFileMaintenance)

/-- The files that a publication rewrites. -/
def rewrittenFiles : List PathBuf :=
  (maintenanceSourceFiles entries maintenance (entriesByContentFile entries batch)).map (·.1)

/-- The small files in use, when there are several to merge. -/
def mergedFiles : List PathBuf :=
  let smallUsedFiles := (entriesByContentFile entries batch).toList.filter fun item =>
    isSmallUsed entries maintenance item.2
  if 2 ≤ smallUsedFiles.length then smallUsedFiles.map (·.1) else []

end

variable {maintenance : PackFileMaintenance}

theorem mem_filter_files {keep : List PackFileAddress → Bool} :
    file ∈ ((entriesByContentFile entries batch).toList.filter fun item => keep item.2).map (·.1) ↔
      liveEntries entries batch file ≠ [] ∧ keep ((liveEntries entries batch file).map (·.1)) = true := by
  have hfile := @getElem?_entriesByContentFile entries batch file
  rw [List.mem_map]
  constructor
  · rintro ⟨⟨file, addresses⟩, hmem, rfl⟩
    obtain ⟨hlisted, hkeep⟩ := List.mem_filter.mp hmem
    rw [Std.ExtTreeMap.mem_toList_iff_getElem?_eq_some.mp hlisted] at hfile
    by_cases hnone : liveEntries entries batch file = []
    · rw [if_pos hnone] at hfile
      cases hfile
    · rw [if_neg hnone] at hfile
      rw [← Option.some.inj hfile]
      exact ⟨hnone, hkeep⟩
  · rintro ⟨hsome, hkeep⟩
    rw [if_neg hsome] at hfile
    exact ⟨_, List.mem_filter.mpr ⟨Std.ExtTreeMap.mem_toList_iff_getElem?_eq_some.mpr hfile, hkeep⟩, rfl⟩

theorem mem_mergedFiles : file ∈ mergedFiles entries batch maintenance ↔
    2 ≤ ((entriesByContentFile entries batch).toList.filter fun item =>
        isSmallUsed entries maintenance item.2).length ∧
      liveEntries entries batch file ≠ [] ∧
        isSmallUsed entries maintenance ((liveEntries entries batch file).map (·.1)) = true := by
  rw [mergedFiles]
  by_cases hmany : 2 ≤ ((entriesByContentFile entries batch).toList.filter fun item =>
      isSmallUsed entries maintenance item.2).length
  · rw [if_pos hmany, mem_filter_files]
    exact (and_iff_right hmany).symm
  · rw [if_neg hmany]
    exact Iff.intro nofun fun h => absurd h.1 hmany

/-- A file without live entries is left alone. -/
theorem notMem_rewrittenFiles (hnone : liveEntries entries batch file = []) :
    file ∉ rewrittenFiles entries batch maintenance := by
  rw [rewrittenFiles, maintenanceSourceFiles, mem_filter_files]
  exact fun h => h.1 hnone

theorem mem_rewrittenFiles {first : PackFileAddress × PackFileIndexEntry}
    (hfirst : (liveEntries entries batch file).head? = some first)
    (hbound : liveLength (liveEntries entries batch file) < 2 ^ 64) :
    file ∈ rewrittenFiles entries batch maintenance ↔
      maintenance.Compactable first.2.content.packSize.toNat
          (first.2.content.packSize.toNat - liveLength (liveEntries entries batch file)) ∨
        maintenance.targetContentBytes < first.2.content.packSize.toNat ∨
          file ∈ mergedFiles entries batch maintenance := by
  have hsome : liveEntries entries batch file ≠ [] := List.ne_nil_of_mem (List.mem_of_mem_head? hfirst)
  have hentry := (mem_liveEntries.mp (List.mem_of_mem_head? hfirst)).1
  have hhead : ((liveEntries entries batch file).map (·.1)).head?.bind (entries[·]?) = some first.2 := by
    rw [List.head?_map, hfirst]
    exact hentry
  rw [rewrittenFiles, maintenanceSourceFiles, mem_filter_files, and_iff_right hsome, needsMaintenance, hhead,
    liveBytes_eq hbound, mem_mergedFiles, and_iff_right hsome]
  simp only [PackFileMaintenance.Compactable, Bool.or_eq_true, Bool.and_eq_true, decide_eq_true_eq, or_assoc]

/-- A file whose live entries are all unused is not merged. -/
theorem notMem_mergedFiles (hunused : ∀ item ∈ liveEntries entries batch file, item.2.unusedSinceRevision ≠ none) :
    file ∉ mergedFiles entries batch maintenance := by
  rw [mem_mergedFiles]
  rintro ⟨_, _, hsmall⟩
  have hnone : ((liveEntries entries batch file).map (·.1)).any
      (fun address => (entries[address]?).any (·.unusedSinceRevision.isNone)) = false := by
    rw [List.any_eq_false]
    intro address haddress
    obtain ⟨item, hitem, rfl⟩ := List.mem_map.mp haddress
    rw [(mem_liveEntries.mp hitem).1, Option.any_some, Option.isNone_iff_eq_none]
    exact hunused item hitem
  rw [isSmallUsed] at hsmall
  split at hsmall
  · cases hsmall
  · rw [hnone, Bool.and_false] at hsmall
    cases hsmall

end

end Unpack
