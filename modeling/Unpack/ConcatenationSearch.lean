import Unpack.ModuleConcatenationPlugin
import Unpack.StaticReachability
import Unpack.BuiltGroups

/-! What the search for concatenations finds: every configuration is closed under the importers of its
inner modules, has every import that could join it, and has nothing that it did not have to try. -/

namespace Unpack

namespace ModuleGraph

section

variable {graph : ModuleGraph} {chunkGraph : ChunkGraph}

theorem mem_concatenationImports (h : graph.Indexed) {module target : ModuleHandle} :
    target ∈ graph.concatenationImports module ↔ ∃ connection ∈ graph.connections,
      connection.originModule = some module ∧ connection.isActive = true ∧
        connection.dependency.canConcatenate = true ∧ connection.module = target := by
  simp only [concatenationImports, List.mem_dedup, List.mem_map, List.mem_filter,
    h.mem_outgoingConnections, Bool.and_eq_true, and_assoc]

theorem concatenationImports_lt (h : graph.Indexed) {module target : ModuleHandle}
    (htarget : target ∈ graph.concatenationImports module) : target < graph.modules.length := by
  obtain ⟨connection, hconnection, -, -, -, rfl⟩ := (mem_concatenationImports h).mp htarget
  exact h.target_lt connection hconnection

theorem mem_incomingFromChunks (h : graph.Indexed) {candidate : ModuleHandle}
    {importer : ModuleHandle × Bool} :
    importer ∈ graph.incomingFromChunks chunkGraph candidate ↔ ∃ connection ∈ graph.connections,
      connection.module = candidate ∧ connection.isActive = true ∧
        connection.originModule = some importer.1 ∧
        connection.dependency.canConcatenate = importer.2 ∧
        chunkGraph.moduleChunks importer.1 ≠ [] := by
  obtain ⟨origin, concatenates⟩ := importer
  simp only [incomingFromChunks, List.mem_filter, List.mem_filterMap, Option.map_eq_some_iff,
    h.mem_incomingConnections, Bool.not_eq_true', List.isEmpty_eq_false_iff, Prod.mk.injEq]
  constructor
  · rintro ⟨⟨connection, ⟨⟨hconnection, hmodule⟩, hactive⟩, found, horigin, rfl, hdep⟩, hchunks⟩
    exact ⟨connection, hconnection, hmodule, hactive, horigin, hdep, hchunks⟩
  · rintro ⟨connection, hconnection, hmodule, hactive, horigin, hdep, hchunks⟩
    exact ⟨⟨connection, ⟨⟨hconnection, hmodule⟩, hactive⟩, origin, horigin, rfl, hdep⟩, hchunks⟩

theorem mem_possibleInners (h : graph.Indexed) {entries : List ModuleHandle}
    {handle : ModuleHandle} (hinner : handle ∈ graph.possibleInners chunkGraph entries) :
    handle < graph.modules.length ∧ handle ∉ entries ∧
      graph.moduleCanConcatenate chunkGraph handle = true := by
  rw [possibleInners, List.mem_filter, Bool.and_eq_true, decide_eq_true_eq, h.module_handles,
    List.mem_range] at hinner
  exact ⟨hinner.1, hinner.2.2, hinner.2.1⟩

theorem moduleChunks_ne_nil {handle : ModuleHandle}
    (hcan : graph.moduleCanConcatenate chunkGraph handle = true) :
    chunkGraph.moduleChunks handle ≠ [] := by
  unfold moduleCanConcatenate at hcan
  cases hmodule : graph.module handle with
  | none =>
      rw [hmodule] at hcan
      exact Bool.noConfusion hcan
  | some module =>
      rw [hmodule] at hcan
      simp only [Bool.and_eq_true, Bool.not_eq_true', List.isEmpty_eq_false_iff] at hcan
      exact hcan.2

/-- What it takes for a candidate to join. -/
theorem importersToAdd_spec (h : graph.Indexed) {rootChunks : List ChunkHandle}
    {possibleInners : List ModuleHandle} {candidate : ModuleHandle} {importers : List ModuleHandle}
    (hadd : graph.importersToAdd chunkGraph rootChunks possibleInners candidate = some importers) :
    candidate ∈ possibleInners ∧
      (∀ chunk ∈ rootChunks, candidate ∈ chunkGraph.chunkModules chunk) ∧
      ∀ connection ∈ graph.connections, connection.module = candidate →
        connection.isActive = true → ∀ origin, connection.originModule = some origin →
        chunkGraph.moduleChunks origin ≠ [] →
          connection.dependency.canConcatenate = true ∧ origin ∈ importers := by
  simp only [importersToAdd] at hadd
  split_ifs at hadd with hlocal hincoming
  obtain rfl := Option.some.inj hadd
  rw [not_or, not_not] at hlocal
  refine ⟨hlocal.1, fun chunk hchunk => ?_, ?_⟩
  · by_contra hnot
    exact hlocal.2 (List.any_eq_true.mpr ⟨chunk, hchunk, by simpa using hnot⟩)
  · intro connection hconnection hmodule hactive origin horigin hchunks
    have hmem : (origin, connection.dependency.canConcatenate) ∈
        graph.incomingFromChunks chunkGraph candidate :=
      (mem_incomingFromChunks h).mpr
        ⟨connection, hconnection, hmodule, hactive, horigin, rfl, hchunks⟩
    constructor
    · by_contra hnot
      refine hincoming (List.any_eq_true.mpr ⟨_, hmem, ?_⟩)
      rw [Bool.not_eq_true] at hnot
      simp [hnot]
    · rw [mem_dedupAdjacent, List.mem_insertionSort]
      exact List.mem_map_of_mem (f := Prod.fst) hmem

/-- Only which chunks the root is in matters. -/
theorem importersToAdd_congr {rootChunks otherChunks : List ChunkHandle}
    (hchunks : ∀ chunk, chunk ∈ rootChunks ↔ chunk ∈ otherChunks)
    (possibleInners : List ModuleHandle) (candidate : ModuleHandle) :
    graph.importersToAdd chunkGraph rootChunks possibleInners candidate =
      graph.importersToAdd chunkGraph otherChunks possibleInners candidate := by
  have hany : ∀ p : ChunkHandle → Bool, rootChunks.any p = otherChunks.any p := by
    intro p
    rw [Bool.eq_iff_iff, List.any_eq_true, List.any_eq_true]
    exact exists_congr fun chunk => and_congr_left fun _ => hchunks chunk
  simp only [importersToAdd, hany]

theorem minBy_eq_none {α : Type} {cmp : α → α → Ordering} {items : List α}
    (h : minBy cmp items = none) : items = [] := by
  cases items with
  | nil => rfl
  | cons item items => exact absurd h (Option.some_ne_none _)

theorem mem_of_minBy {α : Type} {cmp : α → α → Ordering} {items : List α} {least : α}
    (h : minBy cmp items = some least) : least ∈ items := by
  have hne : items ≠ [] := by
    rintro rfl
    exact absurd h (Option.some_ne_none least).symm
  obtain ⟨found, hmem, hfound⟩ := minBy_mem cmp hne
  rw [h] at hfound
  exact Option.some.inj hfound ▸ hmem

end

section Search

variable (graph : ModuleGraph) (parents : ModuleHandle → Option (List ModuleHandle))
variable (root : ModuleHandle)

/-- Everything in the set but the root came with its importers. -/
def ImportersWithin (members : ModuleHandle → Prop) : Prop :=
  ∀ module, members module → module ≠ root →
    ∃ importers, parents module = some importers ∧ ∀ importer ∈ importers, members importer

structure SearchInv (search : ConcatenationSearch) : Prop where
  root_mem : root ∈ search.modules
  nodup : search.modules.Nodup
  closed : ImportersWithin parents root (· ∈ search.modules)
  candidates_nodup : search.candidates.Nodup
  candidates_lt : ∀ module ∈ search.candidates, module < graph.modules.length
  processed_nodup : search.processed.Nodup
  processed_lt : ∀ module ∈ search.processed, module < graph.modules.length
  settled : ∀ module ∈ search.modules, ∀ target ∈ graph.concatenationImports module,
    target ∈ search.candidates ∨ target ∈ search.processed
  imported : ∀ target ∈ search.candidates, ∃ module ∈ search.modules,
    target ∈ graph.concatenationImports module
  complete : ∀ target ∈ search.processed, ∀ members : ModuleHandle → Prop, members target →
    (∀ module ∈ search.modules, members module) → ImportersWithin parents root members →
      target ∈ search.modules
  minimal : ∀ members : ModuleHandle → Prop, members root →
    (∀ module ∈ search.modules, members module → ∀ target ∈ graph.concatenationImports module,
      target ∈ search.modules → members target) →
    (∀ module ∈ search.modules, members module → module ≠ root → ∀ importers,
      parents module = some importers → ∀ importer ∈ importers, members importer) →
    ∀ module ∈ search.modules, members module

/-- The candidates still to be processed weigh more than those still to be dropped. -/
def searchMeasure (search : ConcatenationSearch) : Nat :=
  (graph.modules.length - search.processed.length) * (graph.modules.length + 1) +
    search.candidates.length

end Search

section

variable {graph : ModuleGraph} {chunkGraph : ChunkGraph} {rootChunks : List ChunkHandle}
variable {inners : List ModuleHandle} {root : ModuleHandle}

theorem length_le_of_lt {items : List ModuleHandle} {bound : Nat} (hnodup : items.Nodup)
    (hlt : ∀ item ∈ items, item < bound) : items.length ≤ bound := by
  have h := (List.subperm_of_subset hnodup fun item hitem =>
    List.mem_range.mpr (hlt item hitem)).length_le
  rwa [List.length_range] at h

theorem searchInv_init (h : graph.Indexed) :
    SearchInv graph (graph.importersToAdd chunkGraph rootChunks inners) root
      { modules := [root], candidates := graph.concatenationImports root, processed := [] } where
  root_mem := List.mem_singleton_self root
  nodup := List.nodup_singleton root
  closed _ hmodule hne := absurd (List.mem_singleton.mp hmodule) hne
  candidates_nodup := List.nodup_dedup _
  candidates_lt _ hmodule := concatenationImports_lt h hmodule
  processed_nodup := List.nodup_nil
  processed_lt _ hmodule := absurd hmodule List.not_mem_nil
  settled _ hmodule _ htarget := Or.inl (List.mem_singleton.mp hmodule ▸ htarget)
  imported _ htarget := ⟨root, List.mem_singleton_self root, htarget⟩
  complete _ htarget := absurd htarget List.not_mem_nil
  minimal _ hroot _ _ _ hmodule := List.mem_singleton.mp hmodule ▸ hroot

/-- One candidate: the invariant is kept and the measure goes down. -/
theorem searchStep_spec (h : graph.Indexed) (hinners : ∀ inner ∈ inners, inner < graph.modules.length)
    (hroot : root < graph.modules.length) {search search' : ConcatenationSearch}
    (hinv : SearchInv graph (graph.importersToAdd chunkGraph rootChunks inners) root search)
    (hstep : graph.searchStep chunkGraph rootChunks inners search = some search') :
    SearchInv graph (graph.importersToAdd chunkGraph rootChunks inners) root search' ∧
      graph.searchMeasure search' < graph.searchMeasure search := by
  obtain ⟨candidate, hmin, heq⟩ := Option.map_eq_some_iff.mp hstep
  have hcandidate := mem_of_minBy hmin
  have hlt := hinv.candidates_lt candidate hcandidate
  have hdropLength : (search.candidates.filter (· ≠ candidate)).length < search.candidates.length :=
    List.length_filter_lt_length_iff_exists.mpr ⟨candidate, hcandidate, by simp⟩
  have hdropNodup := hinv.candidates_nodup.filter (· ≠ candidate)
  have hdropMem : ∀ target ∈ search.candidates.filter (· ≠ candidate),
      target ∈ search.candidates := fun target htarget => (List.mem_filter.mp htarget).1
  have hdropped : ∀ target, target ∈ search.candidates ∨ target ∈ search.processed →
      target ∈ search.candidates.filter (· ≠ candidate) ∨ target ∈ candidate :: search.processed := by
    intro target htarget
    by_cases hsame : target = candidate
    · exact Or.inr (hsame ▸ List.mem_cons_self)
    · rcases htarget with hcand | hproc
      · exact Or.inl (List.mem_filter.mpr ⟨hcand, by simpa using hsame⟩)
      · exact Or.inr (List.mem_cons_of_mem _ hproc)
  by_cases hprocessed : candidate ∈ search.processed
  · rw [if_pos hprocessed] at heq
    subst heq
    refine ⟨⟨hinv.root_mem, hinv.nodup, hinv.closed, hdropNodup,
      fun target htarget => hinv.candidates_lt target (hdropMem target htarget),
      hinv.processed_nodup, hinv.processed_lt, ?_,
      fun target htarget => hinv.imported target (hdropMem target htarget), hinv.complete,
      hinv.minimal⟩, Nat.add_lt_add_left hdropLength _⟩
    intro module hmodule target htarget
    rcases hdropped target (hinv.settled module hmodule target htarget) with hcand | hproc
    · exact Or.inl hcand
    · rcases List.mem_cons.mp hproc with rfl | hproc
      · exact Or.inr hprocessed
      · exact Or.inr hproc
  · rw [if_neg hprocessed] at heq
    have hprocNodup := List.nodup_cons.mpr ⟨hprocessed, hinv.processed_nodup⟩
    have hprocLt : ∀ module ∈ candidate :: search.processed, module < graph.modules.length := by
      intro module hmodule
      rcases List.mem_cons.mp hmodule with rfl | hmodule
      · exact hlt
      · exact hinv.processed_lt module hmodule
    have hprocLength := length_le_of_lt hprocNodup hprocLt
    have hmeasure : ∀ modules candidates, candidates.length ≤ graph.modules.length →
        graph.searchMeasure ⟨modules, candidates, candidate :: search.processed⟩ <
          graph.searchMeasure search := by
      intro modules candidates hle
      rw [List.length_cons] at hprocLength
      obtain ⟨rest, hrest⟩ := Nat.exists_eq_add_of_le hprocLength
      have hleft : graph.modules.length - (search.processed.length + 1) = rest := by omega
      have hright : graph.modules.length - search.processed.length = rest + 1 := by omega
      rw [searchMeasure, searchMeasure, List.length_cons, hleft, hright, Nat.add_mul, Nat.one_mul]
      refine Nat.lt_of_le_of_lt (Nat.add_le_add_left hle _) ?_
      rw [Nat.add_assoc]
      exact Nat.add_lt_add_left (Nat.lt_of_lt_of_le (Nat.lt_succ_self _) (Nat.le_add_right _ _)) _
    cases hadd : graph.tryToAdd chunkGraph rootChunks inners search.modules candidate with
    | none =>
        rw [hadd] at heq
        subst heq
        refine ⟨⟨hinv.root_mem, hinv.nodup, hinv.closed, hdropNodup,
          fun target htarget => hinv.candidates_lt target (hdropMem target htarget), hprocNodup,
          hprocLt, fun module hmodule target htarget =>
            hdropped target (hinv.settled module hmodule target htarget),
          fun target htarget => hinv.imported target (hdropMem target htarget), ?_, hinv.minimal⟩, ?_⟩
        · intro target htarget members hmember hmodules hwithin
          rcases List.mem_cons.mp htarget with rfl | hproc
          · -- A set around the candidate would have let it join.
            obtain ⟨after, hafter⟩ := Closure.exists_close
              (graph.importersToAdd chunkGraph rootChunks inners)
              (List.range graph.modules.length) members
              (fun module hmodule => by
                rw [List.mem_range]
                by_cases hsame : module = root
                · exact hsame ▸ hroot
                · obtain ⟨importers, himporters, -⟩ := hwithin module hmodule hsame
                  exact hinners module (importersToAdd_spec h himporters).1)
              (graph.modules.length + 1) search.modules target hmember
              (fun module hmodule hnot =>
                hwithin module hmodule fun hsame => hnot (hsame ▸ hinv.root_mem))
              (Nat.lt_succ_of_le ((List.length_filter_le _ _).trans_eq List.length_range))
            rw [tryToAdd, hafter] at hadd
            exact absurd hadd (Option.some_ne_none after)
          · exact hinv.complete target hproc members hmember hmodules hwithin
        · refine hmeasure _ _ ?_
          exact length_le_of_lt hdropNodup fun target htarget =>
            hinv.candidates_lt target (hdropMem target htarget)
    | some modules =>
        rw [hadd] at heq
        subst heq
        have hgrown := Closure.grown_close _ _ _ _ hadd
        have hnewMem : ∀ module, module ∈ modules.filter (· ∉ search.modules) ↔
            module ∈ modules ∧ module ∉ search.modules := by
          intro module
          rw [List.mem_filter, decide_eq_true_eq]
        have hnewLt : ∀ target ∈ (modules.filter (· ∉ search.modules)).flatMap
            graph.concatenationImports ∪ search.candidates.filter (· ≠ candidate),
            target < graph.modules.length := by
          intro target htarget
          rcases List.mem_union_iff.mp htarget with hnew | hold
          · obtain ⟨module, -, himport⟩ := List.mem_flatMap.mp hnew
            exact concatenationImports_lt h himport
          · exact hinv.candidates_lt target (hdropMem target hold)
        have hnewNodup := List.Nodup.union ((modules.filter (· ∉ search.modules)).flatMap
          graph.concatenationImports) hdropNodup
        refine ⟨⟨hgrown.old root hinv.root_mem,
          Closure.nodup_close _ _ _ _ hinv.nodup hadd, ?_, hnewNodup, hnewLt, hprocNodup, hprocLt,
          ?_, ?_, ?_, ?_⟩, hmeasure _ _ (length_le_of_lt hnewNodup hnewLt)⟩
        · intro module hmodule hne
          by_cases hold : module ∈ search.modules
          · obtain ⟨importers, himporters, hin⟩ := hinv.closed module hold hne
            exact ⟨importers, himporters, fun importer himporter =>
              hgrown.old importer (hin importer himporter)⟩
          · exact hgrown.closed module hmodule hold
        · intro module hmodule target htarget
          by_cases hold : module ∈ search.modules
          · rcases hdropped target (hinv.settled module hold target htarget) with hcand | hproc
            · exact Or.inl (List.mem_union_iff.mpr (Or.inr hcand))
            · exact Or.inr hproc
          · exact Or.inl (List.mem_union_iff.mpr (Or.inl (List.mem_flatMap.mpr
              ⟨module, (hnewMem module).mpr ⟨hmodule, hold⟩, htarget⟩)))
        · intro target htarget
          rcases List.mem_union_iff.mp htarget with hnew | hold
          · obtain ⟨module, hmodule, himport⟩ := List.mem_flatMap.mp hnew
            exact ⟨module, ((hnewMem module).mp hmodule).1, himport⟩
          · obtain ⟨module, hmodule, himport⟩ := hinv.imported target (hdropMem target hold)
            exact ⟨module, hgrown.old module hmodule, himport⟩
        · intro target htarget members hmember hmodules hwithin
          rcases List.mem_cons.mp htarget with rfl | hproc
          · exact hgrown.new target (List.mem_singleton_self target)
          · exact hgrown.old target (hinv.complete target hproc members hmember
              (fun module hmodule => hmodules module (hgrown.old module hmodule)) hwithin)
        · intro members hmemberRoot himports himporters
          have hold := hinv.minimal members hmemberRoot
            (fun module hmodule hmember target htarget htargetMem =>
              himports module (hgrown.old module hmodule) hmember target htarget
                (hgrown.old target htargetMem))
            (fun module hmodule => himporters module (hgrown.old module hmodule))
          obtain ⟨module, hmodule, himport⟩ := hinv.imported candidate hcandidate
          have hcandidateMember := himports module (hgrown.old module hmodule)
            (hold module hmodule) candidate himport
            (hgrown.new candidate (List.mem_singleton_self candidate))
          intro added hadded
          rcases Closure.close_subset _ _ _ _ hadd members hcandidateMember
            (fun other hmember hin hnot => himporters other hin hmember fun hsame =>
              hnot (hsame ▸ hinv.root_mem)) added hadded with hin | hmember
          · exact hold added hin
          · exact hmember

/-- What the search for one root ends with. -/
structure SearchDone (graph : ModuleGraph) (parents : ModuleHandle → Option (List ModuleHandle))
    (root : ModuleHandle) (modules : List ModuleHandle) : Prop where
  root_mem : root ∈ modules
  nodup : modules.Nodup
  closed : ImportersWithin parents root (· ∈ modules)
  complete : ∀ module ∈ modules, ∀ target ∈ graph.concatenationImports module,
    ∀ members : ModuleHandle → Prop, members target → (∀ other ∈ modules, members other) →
      ImportersWithin parents root members → target ∈ modules
  minimal : ∀ members : ModuleHandle → Prop, members root →
    (∀ module ∈ modules, members module → ∀ target ∈ graph.concatenationImports module,
      target ∈ modules → members target) →
    (∀ module ∈ modules, members module → module ≠ root → ∀ importers,
      parents module = some importers → ∀ importer ∈ importers, members importer) →
    ∀ module ∈ modules, members module

/-- **The search.** With its fuel the loop ends with no candidate left. -/
theorem searchModules_spec (h : graph.Indexed)
    (hinners : ∀ inner ∈ inners, inner < graph.modules.length)
    (hroot : root < graph.modules.length) :
    SearchDone graph (graph.importersToAdd chunkGraph (chunkGraph.moduleChunks root) inners) root
      (graph.searchModules chunkGraph inners root).modules := by
  let parents := graph.importersToAdd chunkGraph (chunkGraph.moduleChunks root) inners
  have hinit : SearchInv graph parents root
      { modules := [root], candidates := graph.concatenationImports root, processed := [] } :=
    searchInv_init h
  have hmeasure : graph.searchMeasure
      { modules := [root], candidates := graph.concatenationImports root, processed := [] } ≤
        graph.searchFuel := by
    have hle := length_le_of_lt hinit.candidates_nodup hinit.candidates_lt
    rw [searchMeasure, searchFuel, List.length_nil, Nat.sub_zero, Nat.add_mul _ 1, Nat.one_mul]
    exact Nat.add_le_add_left (hle.trans (Nat.le_succ _)) _
  have hinv : SearchInv graph parents root (graph.searchModules chunkGraph inners root) :=
    Fixpoint.iterate_inv _ (fun s s' hs hstep => (searchStep_spec h hinners hroot hs hstep).1) _ _
      hinit
  have hdone := Fixpoint.step_iterate_eq_none (SearchInv graph parents root)
    graph.searchMeasure
    (fun s s' hs hstep => (searchStep_spec h hinners hroot hs hstep).1)
    (fun s s' hs hstep => (searchStep_spec h hinners hroot hs hstep).2) graph.searchFuel _ hinit
    hmeasure
  have hnil : (graph.searchModules chunkGraph inners root).candidates = [] :=
    minBy_eq_none (Option.map_eq_none_iff.mp hdone)
  refine ⟨hinv.root_mem, hinv.nodup, hinv.closed, ?_, hinv.minimal⟩
  intro module hmodule target htarget
  have hprocessed := (hinv.settled module hmodule target htarget).resolve_left fun hcand =>
    List.not_mem_nil (hnil ▸ hcand)
  exact hinv.complete target hprocessed

end

end ModuleGraph

end Unpack
