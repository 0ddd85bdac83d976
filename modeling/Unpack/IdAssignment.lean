import Unpack.ChunkGraph
import Mathlib.Data.List.Sort
import Mathlib.Data.List.Dedup

/-! Render ids. Every module that is in a chunk gets one, and every chunk. Paths relative to the context
and the printed key of an identity come from the file system and from the standard library's debug
format; they and the hash behind a name's suffix are parameters. -/

namespace Unpack

structure RenderPathContext where
  makeRelative : List String → String
  makeRequestRelative : String → String
  moduleIdentityKey : ModuleIdentity → String
  stableHash : String → UInt64

structure NamedIdCandidate where
  item : Nat
  shortName : String
  fullName : String
  deriving DecidableEq

namespace RenderPathContext

/-- `trim_start_matches` with one character. -/
def trimStart (text : String) (character : Char) : String :=
  String.ofList (text.toList.dropWhile (· = character))

def readableModuleName (context : RenderPathContext) (identity : ModuleIdentity) : String :=
  let resource := context.makeRelative identity.resource
  if resource.isEmpty then ""
  else
    let loaders := identity.loaders.foldl (fun name loader =>
      name ++ context.makeRequestRelative loader ++ "!") ""
    let name := loaders ++
      (if !resource.startsWith "." && !resource.startsWith "/" then "./" else "") ++ resource
    let name := identity.query.elim name fun query => name ++ "?" ++ trimStart query '?'
    let name := identity.fragment.elim name fun fragment => name ++ "#" ++ trimStart fragment '#'
    identity.layer.elim name fun layer => name ++ "|layer:" ++ layer

/-- `trim_start_matches` with `./`. -/
def trimDotSlash : List Char → List Char
  | '.' :: '/' :: rest => trimDotSlash rest
  | characters => characters

def requestToId (request : String) : String :=
  String.ofList ((trimDotSlash request.toList).map fun character =>
    if character.isAlphanum then character else '_')

end RenderPathContext

section NamedIds

variable (stableHash : String → UInt64)

/-- Six hexadecimal digits. -/
def hashSuffix (fullName : String) : String :=
  let digits := Nat.toDigits 16 ((stableHash fullName).toNat % 0x1000000)
  String.ofList (List.replicate (6 - digits.length) '0' ++ digits)

/-- The first of the base name and its numbered forms that is not used. -/
def unusedName (used : List String) (base : String) : Nat → String → Nat → String
  | 0, name, _ => name
  | fuel + 1, name, index =>
      if name ∈ used then unusedName used base fuel s!"{base}-{index}" (index + 1) else name

/-- The first number from `next` on whose text is not used. -/
def unusedNumber (used : List String) : Nat → Nat → Nat
  | 0, next => next
  | fuel + 1, next => if toString next ∈ used then unusedNumber used fuel (next + 1) else next

structure NamedIds where
  used : List String
  assigned : List (Nat × RenderId) := []
  unnamed : List (Nat × String) := []

def assignSuffixed (shortName : String) (ids : NamedIds) (item : Nat × String) : NamedIds :=
  let base := s!"{shortName}-{hashSuffix stableHash item.2}"
  let name := unusedName ids.used base (ids.used.length + 1) base 0
  { ids with
    used := name :: ids.used
    assigned := ids.assigned ++ [(item.1, .string name)] }

/-- The items of one short name: alone and unused the name is theirs, otherwise each gets a suffix. -/
def assignGroup (ids : NamedIds) (group : String × List (Nat × String)) : NamedIds :=
  if group.1.isEmpty then { ids with unnamed := ids.unnamed ++ group.2 }
  else
    match group.2 with
    | [item] =>
        if group.1 ∈ ids.used then assignSuffixed stableHash group.1 ids item
        else
          { ids with
            used := group.1 :: ids.used
            assigned := ids.assigned ++ [(item.1, .string group.1)] }
    | items => items.foldl (assignSuffixed stableHash group.1) ids

/-- The source counts in a `u32` and cannot count past its last number; here that number repeats. -/
def assignNumber (state : NamedIds × Nat) (item : Nat × String) : NamedIds × Nat :=
  let next := unusedNumber state.1.used (state.1.used.length + 1) state.2
  ({ state.1 with
      used := toString next :: state.1.used
      assigned := state.1.assigned ++ [(item.1, .number (.ofNat next))] }, next + 1)

/-- By full name, then by item. -/
def sortItems (items : List (Nat × String)) : List (Nat × String) :=
  items.insertionSort fun left right =>
    ((compare left.2 right.2).then (compare left.1 right.1)).isLE

/-- The candidates by short name, in the order of the names. -/
def groupCandidates (candidates : List NamedIdCandidate) : List (String × List (Nat × String)) :=
  ((candidates.map (·.shortName)).dedup.insertionSort (· ≤ ·)).map fun shortName =>
    (shortName, sortItems ((candidates.filter (·.shortName = shortName)).map fun candidate =>
      (candidate.item, candidate.fullName)))

def assignNamedIdsWithReserved (candidates : List NamedIdCandidate) (used : List String) :
    List (Nat × RenderId) :=
  let ids := (groupCandidates candidates).foldl (assignGroup stableHash) { used }
  let ids := ((sortItems ids.unnamed).foldl assignNumber (ids, 0)).1
  ids.assigned.insertionSort fun left right => left.1 ≤ right.1

def assignNamedIds (candidates : List NamedIdCandidate) : List (Nat × RenderId) :=
  assignNamedIdsWithReserved stableHash candidates []

end NamedIds

def RenderId.toText : RenderId → String
  | .string value => value
  | .number value => toString value

def moduleIdCandidates (context : RenderPathContext) (moduleGraph : ModuleGraph)
    (chunkGraph : ChunkGraph) : List NamedIdCandidate :=
  (moduleGraph.modules.filter fun module => !(chunkGraph.moduleChunks module.handle).isEmpty).map
    fun module =>
      { item := module.handle
        shortName := context.readableModuleName module.identity
        fullName := context.moduleIdentityKey module.identity }

def assignModuleRenderIds (context : RenderPathContext) (moduleGraph : ModuleGraph)
    (chunkGraph : ChunkGraph) : ChunkGraph :=
  (assignNamedIds context.stableHash (moduleIdCandidates context moduleGraph chunkGraph)).foldl
    (fun chunkGraph assignment => chunkGraph.setModuleRenderId assignment.1 assignment.2) chunkGraph

def entryIdCandidate (chunk : Chunk) (name : String) : NamedIdCandidate :=
  { item := chunk.handle, shortName := name, fullName := "entry:" ++ name }

def asyncIdCandidate (context : RenderPathContext) (moduleGraph : ModuleGraph) (chunk : Chunk) :
    NamedIdCandidate :=
  let roots := ((chunk.rootModules.filterMap moduleGraph.module).map fun module =>
    (context.readableModuleName module.identity,
      context.moduleIdentityKey module.identity)).insertionSort fun left right =>
    ((compare left.1 right.1).then (compare left.2 right.2)).isLE
  { item := chunk.handle
    shortName := String.intercalate "-" ((roots.map fun root =>
      RenderPathContext.requestToId root.1).filter fun name => !name.isEmpty)
    fullName := "async:" ++ String.intercalate "|" (roots.map (·.2)) }

/-- Named chunks first; their ids are taken when the others get theirs. -/
def assignChunkRenderIds (context : RenderPathContext) (moduleGraph : ModuleGraph)
    (chunkGraph : ChunkGraph) : ChunkGraph :=
  let named := assignNamedIds context.stableHash (chunkGraph.chunks.filterMap fun chunk =>
    chunk.name.map (entryIdCandidate chunk))
  let unnamed := assignNamedIdsWithReserved context.stableHash
    ((chunkGraph.chunks.filter (·.name.isNone)).map (asyncIdCandidate context moduleGraph))
    (named.map (·.2.toText))
  (named ++ unnamed).foldl
    (fun chunkGraph assignment => chunkGraph.setChunkRenderId assignment.1 assignment.2) chunkGraph

section

variable {stableHash : String → UInt64}

/-- The items that a state has assigned or kept for a number. -/
def NamedIds.Has (ids : NamedIds) (item : Nat) : Prop :=
  (∃ id, (item, id) ∈ ids.assigned) ∨ ∃ fullName, (item, fullName) ∈ ids.unnamed

theorem mem_sortItems {items : List (Nat × String)} {item : Nat × String} :
    item ∈ sortItems items ↔ item ∈ items :=
  List.mem_insertionSort _

theorem has_assigned {ids : NamedIds} {item : Nat × String} {id : RenderId} {used : List String}
    {other : Nat} : NamedIds.Has
      { ids with used := used, assigned := ids.assigned ++ [(item.1, id)] } other ↔
        ids.Has other ∨ other = item.1 := by
  simp only [NamedIds.Has, List.mem_append, List.mem_singleton, Prod.mk.injEq, exists_or]
  constructor
  · rintro ((hold | ⟨_, rfl, -⟩) | hunnamed)
    · exact Or.inl (Or.inl hold)
    · exact Or.inr rfl
    · exact Or.inl (Or.inr hunnamed)
  · rintro ((hold | hunnamed) | rfl)
    · exact Or.inl (Or.inl hold)
    · exact Or.inr hunnamed
    · exact Or.inl (Or.inr ⟨id, rfl, rfl⟩)

theorem has_foldl_assignSuffixed {shortName : String} (items : List (Nat × String)) (ids : NamedIds)
    (other : Nat) : (items.foldl (assignSuffixed stableHash shortName) ids).Has other ↔
      ids.Has other ∨ ∃ item ∈ items, item.1 = other := by
  induction items generalizing ids with
  | nil => simp
  | cons item items ih =>
      rw [List.foldl_cons, ih, assignSuffixed, has_assigned]
      simp only [List.mem_cons, exists_eq_or_imp, or_assoc, eq_comm (a := other)]

theorem has_assignGroup (ids : NamedIds) (group : String × List (Nat × String)) (other : Nat) :
    (assignGroup stableHash ids group).Has other ↔
      ids.Has other ∨ ∃ item ∈ group.2, item.1 = other := by
  unfold assignGroup
  by_cases hempty : group.1.isEmpty
  · rw [if_pos hempty]
    simp only [NamedIds.Has, List.mem_append, exists_or, or_assoc]
    refine or_congr Iff.rfl (or_congr Iff.rfl ⟨?_, ?_⟩)
    · rintro ⟨fullName, hmem⟩
      exact ⟨_, hmem, rfl⟩
    · rintro ⟨item, hmem, rfl⟩
      exact ⟨item.2, hmem⟩
  · rw [if_neg hempty]
    split
    next item heq =>
      rw [heq]
      by_cases hused : group.1 ∈ ids.used
      · rw [if_pos hused]
        exact has_foldl_assignSuffixed [item] ids other
      · rw [if_neg hused, has_assigned]
        simp only [List.mem_singleton, exists_eq_left, eq_comm (a := other)]
    · exact has_foldl_assignSuffixed _ ids other

theorem has_foldl_assignGroup (stableHash : String → UInt64)
    (groups : List (String × List (Nat × String))) (ids : NamedIds) (other : Nat) :
    (groups.foldl (assignGroup stableHash) ids).Has other ↔
      ids.Has other ∨ ∃ group ∈ groups, ∃ item ∈ group.2, item.1 = other := by
  induction groups generalizing ids with
  | nil => simp
  | cons group groups ih =>
      rw [List.foldl_cons, ih, has_assignGroup]
      simp only [List.mem_cons, exists_eq_or_imp, or_assoc]

theorem mem_foldl_assignNumber (items : List (Nat × String)) (state : NamedIds × Nat) (other : Nat) :
    (∃ id, (other, id) ∈ (items.foldl assignNumber state).1.assigned) ↔
      (∃ id, (other, id) ∈ state.1.assigned) ∨ ∃ item ∈ items, item.1 = other := by
  induction items generalizing state with
  | nil => simp
  | cons item items ih =>
      rw [List.foldl_cons, ih]
      simp only [assignNumber, List.mem_append, Prod.mk.injEq, exists_or, List.mem_cons,
        List.not_mem_nil, exists_false, false_or, exists_eq_or_imp, or_assoc, exists_and_left,
        exists_eq, and_true, eq_comm (a := other)]

/-- Exactly the candidates get an id. -/
theorem mem_assignNamedIdsWithReserved (candidates : List NamedIdCandidate) (used : List String)
    (other : Nat) :
    (∃ id, (other, id) ∈ assignNamedIdsWithReserved stableHash candidates used) ↔
      ∃ candidate ∈ candidates, candidate.item = other := by
  simp only [assignNamedIdsWithReserved, List.mem_insertionSort]
  rw [mem_foldl_assignNumber]
  have hhas := has_foldl_assignGroup stableHash (groupCandidates candidates)
    { used } other
  have hunnamed : ∀ items : List (Nat × String), (∃ item ∈ sortItems items, item.1 = other) ↔
      ∃ fullName, (other, fullName) ∈ items := by
    intro items
    constructor
    · rintro ⟨item, hmem, rfl⟩
      exact ⟨item.2, mem_sortItems.mp hmem⟩
    · rintro ⟨fullName, hmem⟩
      exact ⟨_, mem_sortItems.mpr hmem, rfl⟩
  rw [hunnamed]
  refine hhas.trans ?_
  simp only [NamedIds.Has, List.not_mem_nil, exists_false, or_self, false_or]
  constructor
  · rintro ⟨group, hgroup, item, hitem, rfl⟩
    obtain ⟨shortName, -, rfl⟩ := List.mem_map.mp hgroup
    obtain ⟨candidate, hcandidate, rfl⟩ := List.mem_map.mp (mem_sortItems.mp hitem)
    exact ⟨candidate, (List.mem_filter.mp hcandidate).1, rfl⟩
  · rintro ⟨candidate, hcandidate, rfl⟩
    refine ⟨_, List.mem_map.mpr ⟨candidate.shortName, ?_, rfl⟩, (candidate.item, candidate.fullName),
      mem_sortItems.mpr (List.mem_map.mpr ⟨candidate, ?_, rfl⟩), rfl⟩
    · rw [List.mem_insertionSort, List.mem_dedup]
      exact List.mem_map_of_mem hcandidate
    · exact List.mem_filter.mpr ⟨hcandidate, by simp⟩

end

end Unpack
