import Unpack.ChunkFilenames
import Unpack.DynamicImports

/-! File names and render ids. Ids are made apart by suffixes, file names of named chunks are not: they
are apart exactly when no two chunks have one name. The map of the runtime finds the file of an async
chunk unless its id is `__proto__`. -/

namespace Unpack

namespace ChunkGraph

variable (context : RenderPathContext) (moduleGraph : ModuleGraph) (chunkGraph : ChunkGraph)

def namedCandidates : List NamedIdCandidate :=
  chunkGraph.chunks.filterMap fun chunk => chunk.name.map (entryIdCandidate chunk)

def unnamedCandidates : List NamedIdCandidate :=
  (chunkGraph.chunks.filter (·.name.isNone)).map (asyncIdCandidate context moduleGraph)

def namedIds : List (Nat × RenderId) :=
  assignNamedIds context.stableHash chunkGraph.namedCandidates

def unnamedIds : List (Nat × RenderId) :=
  assignNamedIdsWithReserved context.stableHash (chunkGraph.unnamedCandidates context moduleGraph)
    ((chunkGraph.namedIds context).map (·.2.toText))

/-- The chunks are numbered in their order, and none has a file name of its own. -/
structure Planned (chunkGraph : ChunkGraph) : Prop where
  handles : ∀ (index : Nat) (chunk : Chunk), chunkGraph.chunks[index]? = some chunk →
    chunk.handle = index
  filenameOverride : ∀ chunk ∈ chunkGraph.chunks, chunk.filenameOverride = none

/-- No async chunk will have the id `__proto__`: none is called so, and one with that short name shares
it with another chunk. -/
structure ProtoFree (context : RenderPathContext) (moduleGraph : ModuleGraph)
    (chunkGraph : ChunkGraph) : Prop where
  named : ∀ chunk ∈ chunkGraph.chunks, chunk.handle ∈ chunkGraph.asyncChunks →
    chunk.name ≠ some "__proto__"
  unnamed : ∀ chunk ∈ chunkGraph.chunks, chunk.handle ∈ chunkGraph.asyncChunks → chunk.name = none →
    (asyncIdCandidate context moduleGraph chunk).shortName = "__proto__" →
    ∃ other ∈ chunkGraph.chunks, other.name = some "__proto__" ∨ other.name = none ∧
      other.handle ≠ chunk.handle ∧ (asyncIdCandidate context moduleGraph other).shortName = "__proto__"

/-- The files of the chunks: each chunk has one, no two have the same, and the map of the runtime has
those of the async chunks. -/
structure FilenamesApart (chunkGraph : ChunkGraph) : Prop where
  emitted : ∀ chunk ∈ chunkGraph.chunks, (resolveChunkFilename chunk).isSome
  apart : ∀ left right leftChunk rightChunk, chunkGraph.chunk left = some leftChunk →
    chunkGraph.chunk right = some rightChunk → left ≠ right →
    resolveChunkFilename leftChunk ≠ resolveChunkFilename rightChunk
  found : ∃ properties, chunkGraph.renderChunkFilenameMap = some properties ∧
    ∀ chunk ∈ chunkGraph.asyncChunks, ∀ found renderId, chunkGraph.chunk chunk = some found →
      found.renderId = some renderId → chunkFilenameOf properties renderId = resolveChunkFilename found

variable {context moduleGraph chunkGraph}

theorem items_namedIds : List.Perm ((chunkGraph.namedIds context).map (·.1))
    ((chunkGraph.chunks.filter (·.name.isSome)).map (·.handle)) := by
  refine (items_assignNamedIdsWithReserved _ _).trans (List.Perm.of_eq ?_)
  rw [namedCandidates, List.map_filterMap, ← List.filterMap_eq_map, List.filterMap_filter]
  refine List.filterMap_congr fun chunk _ => ?_
  cases chunk.name <;> rfl

theorem items_unnamedIds : List.Perm ((chunkGraph.unnamedIds context moduleGraph).map (·.1))
    ((chunkGraph.chunks.filter (·.name.isNone)).map (·.handle)) := by
  refine (items_assignNamedIdsWithReserved _ _).trans (List.Perm.of_eq ?_)
  rw [unnamedCandidates, List.map_map]
  rfl

theorem items_ids : List.Perm
    ((chunkGraph.namedIds context ++ chunkGraph.unnamedIds context moduleGraph).map (·.1))
    (chunkGraph.chunks.map (·.handle)) := by
  rw [List.map_append]
  refine (items_namedIds.append items_unnamedIds).trans ?_
  rw [← List.map_append]
  refine List.Perm.map _ ?_
  have hnone : (fun chunk : Chunk => chunk.name.isNone) = fun chunk => !chunk.name.isSome := by
    funext chunk
    cases chunk.name <;> rfl
  rw [hnone]
  exact List.filter_append_perm _ _

theorem nodup_items_ids (h : chunkGraph.Planned) :
    ((chunkGraph.namedIds context ++ chunkGraph.unnamedIds context moduleGraph).map (·.1)).Nodup := by
  rw [items_ids.nodup_iff, map_handle h.handles]
  exact List.nodup_range

/-- The texts of the ids, as long as there are numbers enough. -/
theorem nodup_texts_ids (hcount : chunkGraph.chunks.length < 2 ^ 32) :
    ((chunkGraph.namedIds context ++ chunkGraph.unnamedIds context moduleGraph).map
      (·.2.toText)).Nodup := by
  have hlength : chunkGraph.namedCandidates.length +
      (chunkGraph.unnamedCandidates context moduleGraph).length = chunkGraph.chunks.length := by
    have hnamed := (@items_assignNamedIdsWithReserved context.stableHash
      chunkGraph.namedCandidates []).length_eq
    have hunnamed := (@items_unnamedIds context moduleGraph chunkGraph).length_eq
    have hall := (@items_ids context moduleGraph chunkGraph).length_eq
    simp only [List.length_map, List.length_append, namedIds, assignNamedIds,
      unnamedCandidates] at hnamed hunnamed hall ⊢
    omega
  have hnamedLength : (chunkGraph.namedIds context).length = chunkGraph.namedCandidates.length := by
    have hitems := (@items_assignNamedIdsWithReserved context.stableHash
      chunkGraph.namedCandidates []).length_eq
    rwa [List.length_map, List.length_map] at hitems
  have hreserved : ((chunkGraph.namedIds context).map (·.2.toText)).toFinset.card ≤
      chunkGraph.namedCandidates.length := by
    refine (List.toFinset_card_le _).trans ?_
    rw [List.length_map, hnamedLength]
  obtain ⟨hnamed, -⟩ := texts_assignNamedIdsWithReserved context.stableHash []
    chunkGraph.namedCandidates (by simp; omega)
  obtain ⟨hunnamed, hunreserved⟩ := texts_assignNamedIdsWithReserved context.stableHash
    ((chunkGraph.namedIds context).map (·.2.toText))
    (chunkGraph.unnamedCandidates context moduleGraph) (by omega)
  rw [List.map_append]
  refine List.nodup_append.mpr ⟨hnamed, hunnamed, fun text htext other hother => ?_⟩
  rintro rfl
  obtain ⟨given, hgiven, rfl⟩ := List.mem_map.mp hother
  exact hunreserved given hgiven htext

theorem Planned.eq_of_handle (h : chunkGraph.Planned) {left right : Chunk}
    (hleft : left ∈ chunkGraph.chunks) (hright : right ∈ chunkGraph.chunks)
    (hhandle : left.handle = right.handle) : left = right := by
  have hnodup : (chunkGraph.chunks.map (·.handle)).Nodup := by
    rw [map_handle h.handles]
    exact List.nodup_range
  exact List.inj_on_of_nodup_map hnodup hleft hright hhandle

theorem mem_unnamedCandidates {chunk : Chunk} (hchunk : chunk ∈ chunkGraph.chunks)
    (hname : chunk.name = none) : asyncIdCandidate context moduleGraph chunk ∈
      chunkGraph.unnamedCandidates context moduleGraph :=
  List.mem_map_of_mem (List.mem_filter.mpr ⟨hchunk, by rw [hname]; rfl⟩)

theorem chunk_setChunkRenderId (chunkGraph : ChunkGraph) (chunk other : ChunkHandle)
    (renderId : RenderId) : (chunkGraph.setChunkRenderId chunk renderId).chunk other =
      if chunk = other then (chunkGraph.chunk other).map fun chunk => { chunk with renderId }
      else chunkGraph.chunk other := by
  rw [ChunkGraph.chunk, setChunkRenderId, List.getElem?_modify]
  split
  · rfl
  · simp [ChunkGraph.chunk]

theorem chunk_foldl_setChunkRenderId (assignments : List (Nat × RenderId))
    (hnodup : (assignments.map (·.1)).Nodup) (chunkGraph : ChunkGraph) (chunk : ChunkHandle) :
    (chunk ∉ assignments.map (·.1) → (assignments.foldl (fun chunkGraph assignment =>
        chunkGraph.setChunkRenderId assignment.1 assignment.2) chunkGraph).chunk chunk =
          chunkGraph.chunk chunk) ∧
      ∀ renderId, (chunk, renderId) ∈ assignments → (assignments.foldl (fun chunkGraph assignment =>
        chunkGraph.setChunkRenderId assignment.1 assignment.2) chunkGraph).chunk chunk =
          (chunkGraph.chunk chunk).map fun chunk => { chunk with renderId := some renderId } := by
  induction assignments generalizing chunkGraph with
  | nil => exact ⟨fun _ => rfl, fun _ hmem => absurd hmem List.not_mem_nil⟩
  | cons assignment assignments ih =>
      obtain ⟨hnew, hrest⟩ := List.nodup_cons.mp hnodup
      obtain ⟨hother, hgiven⟩ := ih hrest (chunkGraph.setChunkRenderId assignment.1 assignment.2)
      constructor
      · intro hnot
        rw [List.map_cons, List.mem_cons, not_or] at hnot
        rw [List.foldl_cons, hother hnot.2, chunk_setChunkRenderId, if_neg (Ne.symm hnot.1)]
      · intro renderId hmem
        rw [List.foldl_cons]
        rcases List.mem_cons.mp hmem with rfl | hlater
        · rw [hother hnew, chunk_setChunkRenderId, if_pos rfl]
        · have hne : assignment.1 ≠ chunk := fun heq =>
            hnew (List.mem_map.mpr ⟨_, hlater, heq.symm⟩)
          rw [hgiven renderId hlater, chunk_setChunkRenderId, if_neg hne]

theorem shortName_namedCandidates :
    chunkGraph.namedCandidates.map (·.shortName) = chunkGraph.chunks.filterMap (·.name) := by
  rw [namedCandidates, List.map_filterMap]
  refine List.filterMap_congr fun chunk _ => ?_
  cases chunk.name <;> rfl

theorem entryIdCandidate_mem {chunk : Chunk} (hchunk : chunk ∈ chunkGraph.chunks) {name : String}
    (hname : chunk.name = some name) : entryIdCandidate chunk name ∈ chunkGraph.namedCandidates :=
  List.mem_filterMap.mpr ⟨chunk, hchunk, by rw [hname]; rfl⟩

/-- Among distinct names a name has one chunk. -/
theorem handle_eq_of_name (hnames : (chunkGraph.chunks.filterMap (·.name)).Nodup) {left right : Chunk}
    (hleft : left ∈ chunkGraph.chunks) (hright : right ∈ chunkGraph.chunks) {name : String}
    (hleftName : left.name = some name) (hrightName : right.name = some name) :
    left.handle = right.handle := by
  rw [← shortName_namedCandidates] at hnames
  have hsame := List.inj_on_of_nodup_map hnames (entryIdCandidate_mem hleft hleftName)
    (entryIdCandidate_mem hright hrightName) rfl
  exact congrArg NamedIdCandidate.item hsame

/-- The ids as a function of the chunk. -/
structure GivenIds (context : RenderPathContext) (moduleGraph : ModuleGraph) (chunkGraph : ChunkGraph)
    (idOf : ChunkHandle → RenderId) : Prop where
  chunk : ∀ chunk, (assignChunkRenderIds context moduleGraph chunkGraph).chunk chunk =
    (chunkGraph.chunk chunk).map fun found => { found with renderId := some (idOf chunk) }
  named : ∀ chunk ∈ chunkGraph.chunks, chunk.name.isSome →
    (chunk.handle, idOf chunk.handle) ∈ chunkGraph.namedIds context
  unnamed : ∀ chunk ∈ chunkGraph.chunks, chunk.name = none →
    (chunk.handle, idOf chunk.handle) ∈ chunkGraph.unnamedIds context moduleGraph

theorem exists_givenIds (h : chunkGraph.Planned) :
    ∃ idOf, GivenIds context moduleGraph chunkGraph idOf := by
  have : Inhabited RenderId := ⟨.number 0⟩
  have hnodup := @nodup_items_ids context moduleGraph _ h
  obtain ⟨idOf, hidOf⟩ := exists_function_of_nodup hnodup
  refine ⟨idOf, ⟨fun chunk => ?_, fun chunk hchunk hname => ?_, fun chunk hchunk hname => ?_⟩⟩
  · obtain ⟨-, hgiven⟩ := chunk_foldl_setChunkRenderId _ hnodup chunkGraph chunk
    by_cases hlt : chunk < chunkGraph.chunks.length
    · have hmem : chunk ∈ chunkGraph.chunks.map (·.handle) := by
        rw [map_handle h.handles]
        exact List.mem_range.mpr hlt
      obtain ⟨given, hin, rfl⟩ := List.mem_map.mp (items_ids.mem_iff.mpr hmem)
      rw [← hidOf given hin]
      exact hgiven given.2 hin
    · have hnone : chunkGraph.chunk chunk = none := List.getElem?_eq_none (Nat.le_of_not_lt hlt)
      have hnot : chunk ∉ (chunkGraph.namedIds context ++
          chunkGraph.unnamedIds context moduleGraph).map (·.1) := by
        rw [items_ids.mem_iff, map_handle h.handles, List.mem_range]
        exact hlt
      rw [hnone]
      exact ((chunk_foldl_setChunkRenderId _ hnodup chunkGraph chunk).1 hnot).trans hnone
  · have hmem : chunk.handle ∈ (chunkGraph.chunks.filter (·.name.isSome)).map (·.handle) :=
      List.mem_map_of_mem (List.mem_filter.mpr ⟨hchunk, hname⟩)
    obtain ⟨given, hin, hitem⟩ := List.mem_map.mp (items_namedIds.mem_iff.mpr hmem)
    rw [← hitem, ← hidOf given (List.mem_append_left _ hin)]
    exact hin
  · have hmem : chunk.handle ∈ (chunkGraph.chunks.filter (·.name.isNone)).map (·.handle) :=
      List.mem_map_of_mem (List.mem_filter.mpr ⟨hchunk, by rw [hname]; rfl⟩)
    obtain ⟨given, hin, hitem⟩ := List.mem_map.mp (items_unnamedIds.mem_iff.mpr hmem)
    rw [← hitem, ← hidOf given (List.mem_append_right _ hin)]
    exact hin

theorem toString_ne_proto (number : ℕ) : (toString number : String) ≠ "__proto__" := by
  intro heq
  have hdigits := congrArg String.toList heq
  rw [Nat.toString_eq_repr, Nat.toList_repr] at hdigits
  exact Nat.underscore_not_in_toDigits (n := number) (by rw [hdigits]; decide)

namespace GivenIds

variable {idOf : ChunkHandle → RenderId}

theorem exists_before (h : GivenIds context moduleGraph chunkGraph idOf) {chunk : ChunkHandle}
    {found : Chunk}
    (hfound : (assignChunkRenderIds context moduleGraph chunkGraph).chunk chunk = some found) :
    ∃ before, chunkGraph.chunk chunk = some before ∧
      found = { before with renderId := some (idOf chunk) } := by
  rw [h.chunk] at hfound
  obtain ⟨before, hbefore, rfl⟩ := Option.map_eq_some_iff.mp hfound
  exact ⟨before, hbefore, rfl⟩

theorem filename (h : GivenIds context moduleGraph chunkGraph idOf) (hplanned : chunkGraph.Planned)
    {chunk : ChunkHandle} {found : Chunk}
    (hfound : (assignChunkRenderIds context moduleGraph chunkGraph).chunk chunk = some found) :
    resolveChunkFilename found = some (found.name.getD (idOf chunk).toText ++ ".js") := by
  obtain ⟨before, hbefore, rfl⟩ := h.exists_before hfound
  have hoverride := hplanned.filenameOverride before (List.mem_of_getElem? hbefore)
  rw [resolveChunkFilename]
  simp only [hoverride]
  cases before.name <;> rfl

/-- No id has an empty text. -/
theorem toText_ne_empty (h : GivenIds context moduleGraph chunkGraph idOf) {chunk : Chunk}
    (hchunk : chunk ∈ chunkGraph.chunks) : (idOf chunk.handle).toText ≠ "" := by
  have hgiven : ∃ candidates reserved, (chunk.handle, idOf chunk.handle) ∈
      assignNamedIdsWithReserved context.stableHash candidates reserved := by
    by_cases hname : chunk.name.isSome
    · exact ⟨_, _, h.named chunk hchunk hname⟩
    · exact ⟨_, _, h.unnamed chunk hchunk (Option.not_isSome_iff_eq_none.mp hname)⟩
  obtain ⟨candidates, reserved, hmem⟩ := hgiven
  cases hid : idOf chunk.handle with
  | number number => exact toString_ne_empty number.toNat
  | string text =>
      rw [hid] at hmem
      rcases lone_of_mem_assignNamedIdsWithReserved hmem with hhyphen | ⟨hne, -⟩
      · rintro rfl
        exact List.not_mem_nil hhyphen
      · exact hne

theorem apart_texts (h : GivenIds context moduleGraph chunkGraph idOf)
    (hcount : chunkGraph.chunks.length < 2 ^ 32) {left right : Chunk}
    (hleft : left ∈ chunkGraph.chunks) (hright : right ∈ chunkGraph.chunks)
    (hne : left.handle ≠ right.handle) :
    (idOf left.handle).toText ≠ (idOf right.handle).toText := by
  have hmem : ∀ chunk ∈ chunkGraph.chunks, (chunk.handle, idOf chunk.handle) ∈
      chunkGraph.namedIds context ++ chunkGraph.unnamedIds context moduleGraph := by
    intro chunk hchunk
    by_cases hname : chunk.name.isSome
    · exact List.mem_append_left _ (h.named chunk hchunk hname)
    · exact List.mem_append_right _ (h.unnamed chunk hchunk (Option.not_isSome_iff_eq_none.mp hname))
  intro heq
  have hsame := List.inj_on_of_nodup_map (nodup_texts_ids hcount) (hmem left hleft)
    (hmem right hright) heq
  exact hne (congrArg Prod.fst hsame)

/-- Among distinct names a chunk's id is its name. -/
theorem id_of_name (h : GivenIds context moduleGraph chunkGraph idOf) (hplanned : chunkGraph.Planned)
    (hnames : (chunkGraph.chunks.filterMap (·.name)).Nodup) {chunk : Chunk}
    (hchunk : chunk ∈ chunkGraph.chunks) {name : String} (hname : chunk.name = some name)
    (hne : name ≠ "") : idOf chunk.handle = .string name := by
  have hshort : (chunkGraph.namedCandidates.map (·.shortName)).Nodup := by
    rwa [shortName_namedCandidates]
  have hgiven : (chunk.handle, RenderId.string name) ∈ chunkGraph.namedIds context :=
    mem_assignNamedIds_of_nodup hshort (entryIdCandidate_mem hchunk hname) hne
  have hhas := h.named chunk hchunk (by rw [hname]; rfl)
  have hnodup : ((chunkGraph.namedIds context).map (·.1)).Nodup := by
    have hall := @nodup_items_ids context moduleGraph _ hplanned
    rw [List.map_append] at hall
    exact (List.nodup_append.mp hall).1
  exact congrArg Prod.snd (List.inj_on_of_nodup_map hnodup hhas hgiven rfl)

theorem apart_filenames (h : GivenIds context moduleGraph chunkGraph idOf)
    (hplanned : chunkGraph.Planned) (hcount : chunkGraph.chunks.length < 2 ^ 32)
    (hnames : (chunkGraph.chunks.filterMap (·.name)).Nodup) {left right : Chunk}
    (hleft : left ∈ chunkGraph.chunks) (hright : right ∈ chunkGraph.chunks)
    (hne : left.handle ≠ right.handle) :
    left.name.getD (idOf left.handle).toText ≠ right.name.getD (idOf right.handle).toText := by
  have htexts := h.apart_texts hcount hleft hright hne
  -- a name against an id: the name is itself the text of an id, or empty
  have hmixed : ∀ {named unnamed : Chunk}, named ∈ chunkGraph.chunks → unnamed ∈ chunkGraph.chunks →
      (idOf named.handle).toText ≠ (idOf unnamed.handle).toText → ∀ {name}, named.name = some name →
      name ≠ (idOf unnamed.handle).toText := by
    intro named unnamed hnamed hunnamed hdistinct name hname heq
    have hempty : name ≠ "" := heq ▸ h.toText_ne_empty hunnamed
    rw [h.id_of_name hplanned hnames hnamed hname hempty] at hdistinct
    exact hdistinct heq
  cases hleftName : left.name with
  | none =>
      cases hrightName : right.name with
      | none => exact htexts
      | some name => exact (hmixed hright hleft (Ne.symm htexts) hrightName).symm
  | some leftName =>
      cases hrightName : right.name with
      | none => exact hmixed hleft hright htexts hleftName
      | some rightName =>
          rintro rfl
          exact hne (handle_eq_of_name hnames hleft hright hleftName hrightName)

/-- The entry of a chunk. -/
def entryOf (idOf : ChunkHandle → RenderId) (chunk : Chunk) : RenderId × String :=
  (idOf chunk.handle, chunk.name.getD (idOf chunk.handle).toText ++ ".js")

theorem chunkFilenames (h : GivenIds context moduleGraph chunkGraph idOf)
    (hplanned : chunkGraph.Planned) :
    (assignChunkRenderIds context moduleGraph chunkGraph).chunkFilenames =
      some (chunkGraph.chunks.map (entryOf idOf)) := by
  have hchunks : (assignChunkRenderIds context moduleGraph chunkGraph).chunks =
      chunkGraph.chunks.map fun chunk => { chunk with renderId := some (idOf chunk.handle) } := by
    refine List.ext_getElem? fun index => ?_
    rw [List.getElem?_map]
    refine (h.chunk index).trans ?_
    rw [ChunkGraph.chunk]
    cases hchunk : chunkGraph.chunks[index]? with
    | none => rfl
    | some chunk => rw [Option.map_some, Option.map_some, hplanned.handles index chunk hchunk]
  have hrun : ∀ chunks : List Chunk, (∀ chunk ∈ chunks, chunk.filenameOverride = none) →
      (chunks.map fun chunk => { chunk with renderId := some (idOf chunk.handle) }).mapM
        (fun chunk : Chunk => chunk.renderId.bind fun renderId =>
          (resolveChunkFilename chunk).map fun filename => (renderId, filename)) =
        some (chunks.map (entryOf idOf)) := by
    intro chunks hchunks
    induction chunks with
    | nil => rfl
    | cons chunk chunks ih =>
        have hhead : resolveChunkFilename { chunk with renderId := some (idOf chunk.handle) } =
            some (chunk.name.getD (idOf chunk.handle).toText ++ ".js") := by
          rw [resolveChunkFilename]
          simp only [hchunks chunk List.mem_cons_self]
          cases chunk.name <;> rfl
        rw [List.map_cons, List.mapM_cons,
          ih fun other hother => hchunks other (List.mem_cons_of_mem _ hother)]
        simp only [hhead]
        rfl
  rw [ChunkGraph.chunkFilenames, hchunks]
  exact hrun chunkGraph.chunks hplanned.filenameOverride

theorem order_injective : Function.Injective RenderId.order := by
  intro left right heq
  cases left with
  | string left =>
      cases right with
      | string right => exact congrArg RenderId.string (Sum.inl.inj heq)
      | number right => cases heq
  | number left =>
      cases right with
      | string right => cases heq
      | number right => exact congrArg RenderId.number (UInt32.toNat_inj.mp (Sum.inr.inj heq))

/-- With texts that are apart, the map has the file name of each id but `__proto__`. -/
theorem chunkFilenameOf_collect {entries : List (RenderId × String)}
    (hnodup : (entries.map (·.1.toText)).Nodup) {entry : RenderId × String} (hentry : entry ∈ entries)
    (hproto : entry.1.toText ≠ "__proto__") :
    chunkFilenameOf (KeyedList.collect (fun entry => entry.1.order) entries) entry.1 =
      some entry.2 := by
  have hinj := List.inj_on_of_nodup_map hnodup
  have hcollected : entry ∈ KeyedList.collect (fun entry => entry.1.order) entries := by
    obtain ⟨last, hlast, horder⟩ := KeyedList.exists_isLast (fun entry => entry.1.order) hentry
    have hsame : last = entry :=
      hinj hlast.mem hentry (congrArg RenderId.toText (order_injective horder))
    exact (KeyedList.mem_collect_iff _).mpr (hsame ▸ hlast)
  rw [chunkFilenameOf, if_neg hproto]
  cases hfind : (KeyedList.collect (fun entry => entry.1.order) entries).reverse.find?
      fun other => other.1.toText = entry.1.toText with
  | none =>
      have hnever := List.find?_eq_none.mp hfind entry (List.mem_reverse.mpr hcollected)
      exact absurd (decide_eq_true rfl) hnever
  | some other =>
      have hfound := List.find?_some (p := fun other : RenderId × String =>
        decide (other.1.toText = entry.1.toText)) hfind
      have htext := of_decide_eq_true hfound
      have hother := KeyedList.mem_of_mem_collect _ (List.mem_reverse.mp (List.mem_of_find?_eq_some hfind))
      rw [hinj hother hentry htext]
      rfl

/-- The chunk behind a named candidate. -/
theorem exists_named_of_lone {name : String} {candidate : NamedIdCandidate}
    (hfilter : chunkGraph.namedCandidates.filter (·.shortName = name) = [candidate]) :
    ∃ chunk ∈ chunkGraph.chunks, chunk.name = some name ∧ chunk.handle = candidate.item := by
  have hmem : candidate ∈ chunkGraph.namedCandidates.filter (·.shortName = name) := by
    rw [hfilter]
    exact List.mem_singleton_self candidate
  obtain ⟨hcandidate, hshort⟩ := List.mem_filter.mp hmem
  obtain ⟨chunk, hchunk, hmap⟩ := List.mem_filterMap.mp hcandidate
  obtain ⟨own, hown, rfl⟩ := Option.map_eq_some_iff.mp hmap
  exact ⟨chunk, hchunk, hown.trans (congrArg some (of_decide_eq_true hshort)), rfl⟩

theorem exists_named_of_reserved
    (hreserved : "__proto__" ∈ (chunkGraph.namedIds context).map (·.2.toText)) :
    ∃ chunk ∈ chunkGraph.chunks, chunk.name = some "__proto__" := by
  obtain ⟨⟨item, id⟩, hgiven, htext⟩ := List.mem_map.mp hreserved
  cases id with
  | number number => exact absurd htext (toString_ne_proto number.toNat)
  | string text =>
      obtain rfl : text = "__proto__" := htext
      rcases lone_of_mem_assignNamedIdsWithReserved hgiven with hhyphen | ⟨-, -, candidate, -, hfilter⟩
      · exact absurd hhyphen (by decide)
      · obtain ⟨chunk, hchunk, hname, -⟩ := exists_named_of_lone hfilter
        exact ⟨chunk, hchunk, hname⟩

/-- An async chunk that has the id `__proto__` has the name, or is alone with the short name. -/
theorem toText_ne_proto (h : GivenIds context moduleGraph chunkGraph idOf)
    (hplanned : chunkGraph.Planned) (hnames : (chunkGraph.chunks.filterMap (·.name)).Nodup)
    (hfree : chunkGraph.ProtoFree context moduleGraph) {chunk : Chunk}
    (hchunk : chunk ∈ chunkGraph.chunks) (hasync : chunk.handle ∈ chunkGraph.asyncChunks) :
    (idOf chunk.handle).toText ≠ "__proto__" := by
  intro htext
  cases hid : idOf chunk.handle with
  | number number =>
      rw [hid] at htext
      exact toString_ne_proto number.toNat htext
  | string text =>
      obtain rfl : text = "__proto__" := by rwa [hid] at htext
      cases hname : chunk.name with
      | some name =>
          have hgiven := h.named chunk hchunk (by rw [hname]; rfl)
          rw [hid] at hgiven
          rcases lone_of_mem_assignNamedIdsWithReserved hgiven with
            hhyphen | ⟨-, -, candidate, hitem, hfilter⟩
          · exact absurd hhyphen (by decide)
          · obtain ⟨other, hother, hproto, hhandle⟩ := exists_named_of_lone hfilter
            rw [hplanned.eq_of_handle hother hchunk (hhandle.trans hitem)] at hproto
            exact hfree.named chunk hchunk hasync hproto
      | none =>
          have hgiven := h.unnamed chunk hchunk hname
          rw [hid] at hgiven
          rcases lone_of_mem_assignNamedIdsWithReserved hgiven with
            hhyphen | ⟨-, hunreserved, candidate, hitem, hfilter⟩
          · exact absurd hhyphen (by decide)
          · have hmem : candidate ∈ (chunkGraph.unnamedCandidates context moduleGraph).filter
                (·.shortName = "__proto__") := by
              rw [hfilter]
              exact List.mem_singleton_self candidate
            obtain ⟨hcandidate, hshort⟩ := List.mem_filter.mp hmem
            obtain ⟨own, hown, rfl⟩ := List.mem_map.mp hcandidate
            obtain rfl := hplanned.eq_of_handle (List.mem_filter.mp hown).1 hchunk hitem
            obtain ⟨other, hother, hnamed | ⟨hunnamed, hne, hotherShort⟩⟩ :=
              hfree.unnamed own hchunk hasync hname (of_decide_eq_true hshort)
            · have hreserved := h.named other hother (by rw [hnamed]; rfl)
              rw [h.id_of_name hplanned hnames hother hnamed (by decide)] at hreserved
              exact hunreserved (List.mem_map.mpr ⟨_, hreserved, rfl⟩)
            · have hin : asyncIdCandidate context moduleGraph other ∈
                  (chunkGraph.unnamedCandidates context moduleGraph).filter
                    (·.shortName = "__proto__") :=
                List.mem_filter.mpr ⟨mem_unnamedCandidates hother hunnamed, decide_eq_true hotherShort⟩
              rw [hfilter, List.mem_singleton] at hin
              exact hne (congrArg NamedIdCandidate.item hin)

/-- Chunks that are not free of it give an async chunk the id. -/
theorem protoFree_of_toText_ne (h : GivenIds context moduleGraph chunkGraph idOf)
    (hplanned : chunkGraph.Planned) (hnames : (chunkGraph.chunks.filterMap (·.name)).Nodup)
    (hall : ∀ chunk ∈ chunkGraph.chunks, chunk.handle ∈ chunkGraph.asyncChunks →
      (idOf chunk.handle).toText ≠ "__proto__") : chunkGraph.ProtoFree context moduleGraph := by
  refine ⟨fun chunk hchunk hasync hname => ?_, fun chunk hchunk hasync hname hshort => ?_⟩
  · refine hall chunk hchunk hasync ?_
    rw [h.id_of_name hplanned hnames hchunk hname (by decide)]
    rfl
  · by_contra hnone
    push Not at hnone
    have hunreserved : "__proto__" ∉ (chunkGraph.namedIds context).map (·.2.toText) := by
      intro hreserved
      obtain ⟨other, hother, hproto⟩ := exists_named_of_reserved hreserved
      exact (hnone other hother).1 hproto
    have hnodup : (chunkGraph.unnamedCandidates context moduleGraph).Nodup := by
      have hitems := @nodup_items_ids context moduleGraph _ hplanned
      rw [List.map_append] at hitems
      have hunnamed := (List.nodup_append.mp hitems).2.1
      rw [unnamedIds, (items_assignNamedIdsWithReserved _ _).nodup_iff] at hunnamed
      exact List.Nodup.of_map _ hunnamed
    have hlone : (chunkGraph.unnamedCandidates context moduleGraph).filter
        (·.shortName = "__proto__") = [asyncIdCandidate context moduleGraph chunk] := by
      refine filter_eq_singleton hnodup (mem_unnamedCandidates hchunk hname) (decide_eq_true hshort)
        fun candidate hcandidate hproto => ?_
      obtain ⟨other, hother, rfl⟩ := List.mem_map.mp hcandidate
      obtain ⟨hin, hunnamed⟩ := List.mem_filter.mp hother
      have hhandle : other.handle = chunk.handle := by
        by_contra hne
        exact (hnone other hin).2 (Option.isNone_iff_eq_none.mp hunnamed) hne
          (of_decide_eq_true hproto)
      rw [hplanned.eq_of_handle hin hchunk hhandle]
    have hgiven : (chunk.handle, RenderId.string "__proto__") ∈
        chunkGraph.unnamedIds context moduleGraph :=
      mem_assignNamedIdsWithReserved_lone (by decide) (by decide) hunreserved hlone
    have hid := congrArg Prod.snd (List.inj_on_of_nodup_map (nodup_items_ids hplanned)
      (List.mem_append_right _ (h.unnamed chunk hchunk hname)) (List.mem_append_right _ hgiven) rfl)
    exact hall chunk hchunk hasync (by rw [show idOf chunk.handle = _ from hid]; rfl)

end GivenIds

/-- The async chunks are told by groups alone. -/
theorem asyncChunks_congr {before after : ChunkGraph}
    (hchunks : after.chunks.map (fun chunk => (chunk.handle, chunk.groups)) =
      before.chunks.map fun chunk => (chunk.handle, chunk.groups))
    (hgroups : after.chunkGroups = before.chunkGroups) : after.asyncChunks = before.asyncChunks := by
  have hpairs : ∀ chunkGraph : ChunkGraph, chunkGraph.asyncChunks =
      ((chunkGraph.chunks.map fun chunk => (chunk.handle, chunk.groups)).filter fun pair =>
        !pair.2.isEmpty && pair.2.all fun group =>
          (chunkGraph.chunkGroups[group]?).elim false (·.kind = .async)).map (·.1) := by
    intro chunkGraph
    rw [List.filter_map, List.map_map]
    rfl
  rw [hpairs after, hpairs before, hchunks, hgroups]

theorem asyncChunks_assignChunkRenderIds (context : RenderPathContext) (moduleGraph : ModuleGraph)
    (chunkGraph : ChunkGraph) :
    (assignChunkRenderIds context moduleGraph chunkGraph).asyncChunks = chunkGraph.asyncChunks := by
  have hstep : ∀ (start : ChunkGraph) (assignment : Nat × RenderId),
      (start.setChunkRenderId assignment.1 assignment.2).asyncChunks = start.asyncChunks :=
    fun start assignment => asyncChunks_congr (map_modify_of_same start.chunks assignment.1
      (fun chunk => { chunk with renderId := some assignment.2 })
      (fun chunk => (chunk.handle, chunk.groups)) fun _ => rfl) rfl
  have hrun : ∀ (assignments : List (Nat × RenderId)) (start : ChunkGraph),
      (assignments.foldl (fun chunkGraph assignment =>
        chunkGraph.setChunkRenderId assignment.1 assignment.2) start).asyncChunks =
          start.asyncChunks := by
    intro assignments start
    induction assignments generalizing start with
    | nil => rfl
    | cons assignment assignments ih => exact (ih _).trans (hstep start assignment)
  exact hrun _ chunkGraph

variable (context moduleGraph) in
/-- The files are apart when names are and no async chunk is called `__proto__`; numbers are enough for
fewer than `2 ^ 32` chunks. -/
theorem filenamesApart_of_planned (hplanned : chunkGraph.Planned)
    (hcount : chunkGraph.chunks.length < 2 ^ 32)
    (hnames : (chunkGraph.chunks.filterMap (·.name)).Nodup)
    (hproto : chunkGraph.ProtoFree context moduleGraph) :
    (assignChunkRenderIds context moduleGraph chunkGraph).FilenamesApart := by
  obtain ⟨idOf, h⟩ := @exists_givenIds context moduleGraph _ hplanned
  have hhandle : ∀ {chunk : ChunkHandle} {found : Chunk}, chunkGraph.chunk chunk = some found →
      found ∈ chunkGraph.chunks ∧ found.handle = chunk := fun hfound =>
    ⟨List.mem_of_getElem? hfound, hplanned.handles _ _ hfound⟩
  refine ⟨fun chunk hchunk => ?_, fun left right leftChunk rightChunk hleft hright hne => ?_,
    _, congrArg (Option.map _) (h.chunkFilenames hplanned), fun chunk hasync found renderId hfound
      hid => ?_⟩
  · obtain ⟨index, hindex⟩ := List.mem_iff_getElem?.mp hchunk
    rw [h.filename hplanned hindex]
    rfl
  · rw [h.filename hplanned hleft, h.filename hplanned hright]
    obtain ⟨leftBefore, hleftBefore, rfl⟩ := h.exists_before hleft
    obtain ⟨rightBefore, hrightBefore, rfl⟩ := h.exists_before hright
    obtain ⟨hleftMem, rfl⟩ := hhandle hleftBefore
    obtain ⟨hrightMem, rfl⟩ := hhandle hrightBefore
    have happart := h.apart_filenames hplanned hcount hnames hleftMem hrightMem hne
    intro heq
    exact happart (String.append_left_inj ".js" |>.mp (Option.some.inj heq))
  · rw [h.filename hplanned hfound]
    obtain ⟨before, hbefore, rfl⟩ := h.exists_before hfound
    obtain ⟨hmem, rfl⟩ := hhandle hbefore
    obtain rfl : idOf before.handle = renderId := Option.some.inj hid
    rw [asyncChunks_assignChunkRenderIds] at hasync
    have hnodup : ((chunkGraph.chunks.map (GivenIds.entryOf idOf)).map (·.1.toText)).Nodup := by
      rw [List.map_map]
      refine (List.nodup_map_iff_inj_on ?_).mpr fun first hfirst second hsecond heq => ?_
      · refine List.Nodup.of_map (·.handle) ?_
        rw [map_handle hplanned.handles]
        exact List.nodup_range
      · by_contra hne
        exact h.apart_texts hcount hfirst hsecond
          (fun hsame => hne (hplanned.eq_of_handle hfirst hsecond hsame)) heq
    exact GivenIds.chunkFilenameOf_collect hnodup (List.mem_map_of_mem hmem)
      (h.toText_ne_proto hplanned hnames hproto hmem hasync)

/-- Chunks whose files are apart have names that are. -/
theorem nodup_names_of_filenamesApart (hplanned : chunkGraph.Planned)
    (hapart : (assignChunkRenderIds context moduleGraph chunkGraph).FilenamesApart) :
    (chunkGraph.chunks.filterMap (·.name)).Nodup := by
  obtain ⟨idOf, h⟩ := @exists_givenIds context moduleGraph _ hplanned
  rw [List.Nodup, List.pairwise_filterMap, List.pairwise_iff_getElem]
  intro left right hleft hright hlt name hname other hother heq
  subst heq
  have hchunk : ∀ {index : Nat} (hindex : index < chunkGraph.chunks.length),
      (assignChunkRenderIds context moduleGraph chunkGraph).chunk index =
        some { chunkGraph.chunks[index] with renderId := some (idOf index) } := by
    intro index hindex
    rw [h.chunk, ChunkGraph.chunk, List.getElem?_eq_getElem hindex]
    rfl
  refine hapart.apart left right _ _ (hchunk hleft) (hchunk hright) (Nat.ne_of_lt hlt) ?_
  rw [h.filename hplanned (hchunk hleft), h.filename hplanned (hchunk hright)]
  simp only [hname, hother]
  rfl

theorem protoFree_of_filenamesApart (hplanned : chunkGraph.Planned)
    (hapart : (assignChunkRenderIds context moduleGraph chunkGraph).FilenamesApart) :
    chunkGraph.ProtoFree context moduleGraph := by
  obtain ⟨idOf, h⟩ := @exists_givenIds context moduleGraph _ hplanned
  refine h.protoFree_of_toText_ne hplanned (nodup_names_of_filenamesApart hplanned hapart)
    fun chunk hchunk hasync htext => ?_
  obtain ⟨properties, -, hfound⟩ := hapart.found
  obtain ⟨index, hindex⟩ := List.mem_iff_getElem?.mp hchunk
  obtain rfl := hplanned.handles index chunk hindex
  have hafter : (assignChunkRenderIds context moduleGraph chunkGraph).chunk chunk.handle =
      some { chunk with renderId := some (idOf chunk.handle) } := by
    rw [h.chunk, ChunkGraph.chunk, hindex]
    rfl
  have hlookup := hfound chunk.handle (by rwa [asyncChunks_assignChunkRenderIds]) _ _ hafter rfl
  rw [chunkFilenameOf, if_pos htext, h.filename hplanned hafter] at hlookup
  cases hlookup

end ChunkGraph

namespace Compilation

variable (compilation : Compilation) (context : RenderPathContext)

/-- The module ids leave the chunks. -/
theorem assignModuleRenderIds_keeps (moduleGraph : ModuleGraph) (chunkGraph : ChunkGraph) :
    (assignModuleRenderIds context moduleGraph chunkGraph).chunks = chunkGraph.chunks ∧
      (assignModuleRenderIds context moduleGraph chunkGraph).chunkGroups = chunkGraph.chunkGroups := by
  have hrun : ∀ (assignments : List (Nat × RenderId)) (start : ChunkGraph),
      (assignments.foldl (fun chunkGraph assignment =>
        chunkGraph.setModuleRenderId assignment.1 assignment.2) start).chunks = start.chunks ∧
      (assignments.foldl (fun chunkGraph assignment =>
        chunkGraph.setModuleRenderId assignment.1 assignment.2) start).chunkGroups =
          start.chunkGroups := by
    intro assignments start
    induction assignments generalizing start with
    | nil => exact ⟨rfl, rfl⟩
    | cons assignment assignments ih => exact ih _
  exact hrun _ chunkGraph

theorem handles_chunkGraph : ∀ (index : Nat) (chunk : Chunk),
    compilation.optimizedChunkGraph.chunks[index]? = some chunk → chunk.handle = index := by
  rw [chunks_optimizedChunkGraph]
  exact (registered_buildChunkGraphFrom compilation.moduleGraph
    compilation.moduleGraph.collectStaticReachable compilation.options compilation.entries).handles

/-- What the chunk ids are assigned on. -/
theorem planned_assignModuleRenderIds : (assignModuleRenderIds context compilation.moduleGraph
    compilation.optimizedChunkGraph).Planned := by
  obtain ⟨hchunks, -⟩ := assignModuleRenderIds_keeps context compilation.moduleGraph
    compilation.optimizedChunkGraph
  refine ⟨?_, ?_⟩
  · rw [hchunks]
    exact compilation.handles_chunkGraph
  · rw [hchunks]
    exact compilation.filenameOverride_optimizedChunkGraph

theorem protoFree_assignModuleRenderIds_iff :
    (assignModuleRenderIds context compilation.moduleGraph
        compilation.optimizedChunkGraph).ProtoFree context compilation.moduleGraph ↔
      compilation.optimizedChunkGraph.ProtoFree context compilation.moduleGraph := by
  obtain ⟨hchunks, hgroups⟩ := assignModuleRenderIds_keeps context compilation.moduleGraph
    compilation.optimizedChunkGraph
  have hasync := ChunkGraph.asyncChunks_congr (congrArg (List.map fun chunk : Chunk =>
    (chunk.handle, chunk.groups)) hchunks) hgroups
  constructor
  · rintro ⟨hnamed, hunnamed⟩
    rw [hchunks, hasync] at hnamed hunnamed
    exact ⟨hnamed, hunnamed⟩
  · rintro ⟨hnamed, hunnamed⟩
    rw [← hchunks, ← hasync] at hnamed hunnamed
    exact ⟨hnamed, hunnamed⟩

theorem distinctNames_of_filenamesApart
    (hapart : (compilation.sealedChunkGraph context).FilenamesApart) : compilation.DistinctNames := by
  have hnames := ChunkGraph.nodup_names_of_filenamesApart
    (compilation.planned_assignModuleRenderIds context) hapart
  rwa [(assignModuleRenderIds_keeps context compilation.moduleGraph
    compilation.optimizedChunkGraph).1, nodup_names_iff] at hnames

/-- **The files of the chunks.** They are apart, and found by the runtime, when entry names are
distinct, none is the name of a chunk that is split off, no async chunk has the id `__proto__`, and the
chunks are fewer than the numbers; and they are only then, except for the number of chunks. -/
theorem sealedChunkGraph_filenamesApart :
    (compilation.DistinctNames ∧ compilation.optimizedChunkGraph.ProtoFree context
          compilation.moduleGraph ∧ compilation.optimizedChunkGraph.chunks.length < 2 ^ 32 →
        (compilation.sealedChunkGraph context).FilenamesApart) ∧
      ((compilation.sealedChunkGraph context).FilenamesApart → compilation.DistinctNames ∧
        compilation.optimizedChunkGraph.ProtoFree context compilation.moduleGraph) := by
  have hplanned := compilation.planned_assignModuleRenderIds context
  constructor
  · rintro ⟨hnames, hproto, hcount⟩
    refine ChunkGraph.filenamesApart_of_planned context compilation.moduleGraph hplanned ?_ ?_
      ((compilation.protoFree_assignModuleRenderIds_iff context).mpr hproto)
    · rwa [(assignModuleRenderIds_keeps context _ _).1]
    · rwa [(assignModuleRenderIds_keeps context _ _).1, nodup_names_iff]
  · intro hapart
    refine ⟨compilation.distinctNames_of_filenamesApart context hapart, ?_⟩
    exact (compilation.protoFree_assignModuleRenderIds_iff context).mp
      (ChunkGraph.protoFree_of_filenamesApart hplanned hapart)

end Compilation

/-- The entry is called `main`, and so is the chunk that the target of its dynamic import moves to. -/
def sameNameCompilation : Compilation where
  options := { entryNames := ["main"], splitChunks := some ⟨1, some "main"⟩ }
  moduleGraph := .ofModules [.javaScript "a" [] [.dynamicImport "b"], .javaScript "b" [] []] [0]
  entries := [0]
  indexed := by decide
  entries_lt := by decide

/-- Both chunks are written to `main.js`. -/
theorem sameName_not_filenamesApart :
    ¬ ∀ (compilation : Compilation) (context : RenderPathContext),
      (compilation.sealedChunkGraph context).FilenamesApart := by
  intro hall
  have hdistinct := sameNameCompilation.distinctNames_of_filenamesApart plainPaths
    (hall sameNameCompilation plainPaths)
  rw [← Compilation.nodup_names_iff] at hdistinct
  exact absurd hdistinct (by decide)

end Unpack
