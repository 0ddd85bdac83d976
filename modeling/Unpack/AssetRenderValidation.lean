import Unpack.AssetRender
import Unpack.PackFileEncoder
import Unpack.Lib.Fallible

/-! Validation of cached renderings. What a module feeds to the hasher ends with its runtime requirements,
and no count stands before them. Where they end is told by what follows: another module, the count of the
runtime modules or the id of the chunk is never read as further requirements, as no id and no text of a
runtime module starts with the bytes of a small number. -/

namespace Unpack

open HashStream

theorem utf8EncodeChar_ne (character : Char) : (0xFF : UInt8) ∉ String.utf8EncodeChar character := by
  intro h
  rw [String.utf8EncodeChar] at h
  split_ifs at h <;>
    simp only [List.mem_cons, List.not_mem_nil, or_false, ← UInt8.toNat_inj, UInt8.toNat_ofNat',
      UInt8.reduceToNat] at h <;> omega

theorem utf8Bytes_ofList (characters : List Char) :
    utf8Bytes (String.ofList characters) = characters.flatMap String.utf8EncodeChar := by
  rw [utf8Bytes, String.toByteArray_ofList, List.utf8Encode]
  simp

theorem mark_notMem_utf8Bytes (text : String) : (0xFF : UInt8) ∉ utf8Bytes text := by
  intro h
  rw [← String.ofList_toList (s := text), utf8Bytes_ofList, List.mem_flatMap] at h
  obtain ⟨character, -, hmem⟩ := h
  exact utf8EncodeChar_ne character hmem

theorem utf8Bytes_injective : Function.Injective utf8Bytes := by
  intro left right h
  have hsome := fromUtf8_utf8Bytes left
  rw [h, fromUtf8_utf8Bytes] at hsome
  exact (Option.some.inj hsome).symm

theorem utf8Bytes_append (left right : String) :
    utf8Bytes (left ++ right) = utf8Bytes left ++ utf8Bytes right := by
  simp [utf8Bytes, String.toByteArray_append]

/-- No control character followed by a NUL stands at the start of the text. -/
def Legible (text : String) : Prop :=
  ∀ byte rest, utf8Bytes text = byte :: 0 :: rest → 11 ≤ byte.toNat

theorem hashUsize_of_lt {value : Nat} (h : value < 256) :
    hashUsize value = UInt8.ofNat value :: List.replicate 7 0 := by
  have hzero : value / 256 = 0 := Nat.div_eq_of_lt h
  simp [hashUsize, Codec.littleEndian, hzero, List.replicate]

theorem hashUsize_append_inj {value value' : Nat} {tail tail' : List UInt8} (h : value < 2 ^ 64)
    (h' : value' < 2 ^ 64) (heq : hashUsize value ++ tail = hashUsize value' ++ tail') :
    value = value' ∧ tail = tail' := by
  obtain ⟨hbytes, htail⟩ := List.append_inj heq (by simp [hashUsize])
  have hvalue := congrArg Codec.ofLittleEndian hbytes
  rw [hashUsize, hashUsize, Codec.ofLittleEndian_littleEndian h,
    Codec.ofLittleEndian_littleEndian h'] at hvalue
  exact ⟨hvalue, htail⟩

theorem mark_notMem_hashUsize {value : Nat} (h : value < 255) : (0xFF : UInt8) ∉ hashUsize value := by
  rw [hashUsize_of_lt (by omega)]
  simp only [List.mem_cons, List.mem_replicate, not_or, ← UInt8.toNat_inj, UInt8.toNat_ofNat',
    UInt8.reduceToNat]
  omega

theorem selfDelimiting_hashString : SelfDelimiting hashString := by
  refine (Delimited.terminated mark_notMem_utf8Bytes).selfDelimiting fun left right h => ?_
  exact utf8Bytes_injective (List.append_cancel_right h)

theorem RuntimeRequirement.discriminant_lt (requirement : RuntimeRequirement) :
    requirement.discriminant < 11 := by
  cases requirement <;> decide

theorem RuntimeRequirement.discriminant_injective :
    Function.Injective RuntimeRequirement.discriminant := by
  intro left right h
  cases left <;> cases right <;> first | rfl | cases h

theorem RuntimeModule.discriminant_lt (module : RuntimeModule) : module.discriminant < 7 := by
  cases module <;> decide

theorem RuntimeModule.discriminant_injective : Function.Injective RuntimeModule.discriminant := by
  intro left right h
  cases left <;> cases right <;> first | rfl | cases h

theorem selfDelimiting_requirement : SelfDelimiting RuntimeRequirement.hash := by
  intro left right tail tail' h
  have hleft := left.discriminant_lt
  have hright := right.discriminant_lt
  obtain ⟨hvalue, htail⟩ := hashUsize_append_inj (by omega) (by omega) h
  exact ⟨RuntimeRequirement.discriminant_injective hvalue, htail⟩

theorem selfDelimiting_runtimeModule : SelfDelimiting RenderedRuntimeModule.hash := by
  rintro ⟨left, source⟩ ⟨right, source'⟩ tail tail' h
  have hleft := left.discriminant_lt
  have hright := right.discriminant_lt
  simp only [RenderedRuntimeModule.hash, List.append_assoc] at h
  obtain ⟨hvalue, hrest⟩ := hashUsize_append_inj (by omega) (by omega) h
  obtain ⟨rfl, htail⟩ := selfDelimiting_hashString hrest
  cases RuntimeModule.discriminant_injective hvalue
  exact ⟨rfl, htail⟩

theorem selfDelimiting_renderId : SelfDelimiting RenderId.hash := by
  intro left right tail tail' h
  cases left with
  | string left =>
    cases right with
    | string right =>
      simp only [RenderId.hash, List.append_assoc] at h
      obtain ⟨rfl, htail⟩ := selfDelimiting_hashString (List.append_cancel_left h)
      exact ⟨rfl, htail⟩
    | number right =>
      simp only [RenderId.hash, List.append_assoc] at h
      cases (hashUsize_append_inj (by decide) (by decide) h).1
  | number left =>
    cases right with
    | string right =>
      simp only [RenderId.hash, List.append_assoc] at h
      cases (hashUsize_append_inj (by decide) (by decide) h).1
    | number right =>
      simp only [RenderId.hash, List.append_assoc] at h
      obtain ⟨hbytes, htail⟩ := List.append_inj (List.append_cancel_left h) (by simp)
      have hvalue := congrArg Codec.ofLittleEndian hbytes
      rw [Codec.ofLittleEndian_littleEndian left.toNat_lt,
        Codec.ofLittleEndian_littleEndian right.toNat_lt] at hvalue
      exact ⟨congrArg RenderId.number (UInt32.toNat.inj hvalue), htail⟩

/-- An id starts with the eight bytes of its kind. -/
theorem RenderId.hash_start (id : RenderId) :
    ∃ kind rest, kind < 2 ∧ id.hash = hashUsize kind ++ rest := by
  cases id with
  | string value => exact ⟨0, _, by decide, rfl⟩
  | number value => exact ⟨1, _, by decide, rfl⟩

/-- What the text of a string id or of a runtime module feeds is not read as a small number. -/
theorem Legible.hashString_ne {text : String} (h : Legible text) {value : Nat} (hvalue : value < 11)
    (tail rest : List UInt8) : hashString text ++ tail ≠ hashUsize value ++ rest := by
  have hmark : (0xFF : UInt8) ≠ UInt8.ofNat value := fun heq =>
    @mark_notMem_hashUsize value (by omega)
      (heq ▸ @hashUsize_of_lt value (by omega) ▸ List.mem_cons_self)
  intro heq
  rw [hashString, hashUsize_of_lt (by omega), List.append_assoc] at heq
  cases hbytes : utf8Bytes text with
  | nil =>
    rw [hbytes] at heq
    exact hmark (List.cons.inj heq).1
  | cons byte bytes =>
    rw [hbytes] at heq
    obtain ⟨hbyte, hrest⟩ := List.cons.inj heq
    cases bytes with
    | nil => exact absurd (List.cons.inj hrest).1 (by decide)
    | cons second others =>
      obtain rfl : second = 0 := (List.cons.inj hrest).1
      have hlarge := h byte others hbytes
      rw [hbyte, UInt8.toNat_ofNat'] at hlarge
      omega

/-- What follows the requirements on one side is not what further requirements feed on the other. -/
def Apart (tail tail' : List UInt8) : Prop :=
  ∀ (next : RuntimeRequirement) (rest : List RuntimeRequirement),
    tail' ≠ next.hash ++ (rest.flatMap RuntimeRequirement.hash ++ tail)

/-- What follows the requirements of a module, and further requirements before it. -/
def StartsSmall (tail : List UInt8) : Prop :=
  ∃ value rest, value < 11 ∧ tail = hashUsize value ++ rest

theorem StartsSmall.getElem {tail : List UInt8} (h : StartsSmall tail) : tail[4]? = some 0 := by
  obtain ⟨value, rest, hvalue, rfl⟩ := h
  rw [hashUsize_of_lt (by omega)]
  rfl

theorem StartsSmall.requirements {tail : List UInt8} (h : StartsSmall tail)
    (requirements : List RuntimeRequirement) :
    StartsSmall (requirements.flatMap RuntimeRequirement.hash ++ tail) := by
  cases requirements with
  | nil => exact h
  | cons requirement requirements =>
    exact ⟨requirement.discriminant, requirements.flatMap RuntimeRequirement.hash ++ tail,
      requirement.discriminant_lt,
      by rw [List.flatMap_cons, List.append_assoc, RuntimeRequirement.hash]⟩

theorem RenderId.startsSmall (id : RenderId) (tail : List UInt8) : StartsSmall (id.hash ++ tail) := by
  obtain ⟨kind, bytes, hkind, hstart⟩ := id.hash_start
  exact ⟨kind, bytes ++ tail, by omega, by rw [hstart, List.append_assoc]⟩

theorem requirements_end {left right : List RuntimeRequirement} {tail tail' : List UInt8}
    (hapart : Apart tail tail') (hapart' : Apart tail' tail)
    (heq : left.flatMap RuntimeRequirement.hash ++ tail =
      right.flatMap RuntimeRequirement.hash ++ tail') : tail = tail' := by
  rcases selfDelimiting_requirement.flatMap_or heq with
    ⟨-, htail⟩ | ⟨next, rest, -, htail⟩ | ⟨next, rest, -, htail⟩
  · exact htail
  · exact absurd htail (hapart next rest)
  · exact absurd htail (hapart' next rest)

/-- The same bytes. -/
theorem Apart.refl (tail : List UInt8) : Apart tail tail := by
  intro next rest h
  have hlength := congrArg List.length h
  simp [RuntimeRequirement.hash, hashUsize] at hlength
  omega

def RenderId.Legible : RenderId → Prop
  | .string value => Unpack.Legible value
  | .number _ => True

/-- A module follows on both sides: its source tells a numbered id from a requirement. -/
theorem Apart.of_module {id id' : RenderId} (hid' : id'.Legible) {source : List UInt8} {byte : UInt8}
    {tail tail' : List UInt8} (hbyte : byte ≠ 0) :
    Apart (id.hash ++ tail) (id'.hash ++ (byte :: source ++ tail')) := by
  intro next rest h
  have hsmall := (id.startsSmall tail).requirements rest
  have hnext := next.discriminant_lt
  rw [RuntimeRequirement.hash] at h
  cases id' with
  | string value =>
    rw [RenderId.hash, List.append_assoc] at h
    obtain ⟨-, hrest⟩ := hashUsize_append_inj (by decide) (by omega) h
    obtain ⟨small, others, hvalue, hstart⟩ := hsmall
    exact hid'.hashString_ne hvalue _ _ (hrest.trans hstart)
  | number value =>
    rw [RenderId.hash, List.append_assoc] at h
    obtain ⟨-, hrest⟩ := hashUsize_append_inj (by decide) (by omega) h
    have hzero := hsmall.getElem
    rw [← hrest] at hzero
    exact hbyte (Option.some.inj hzero)

theorem startsSmall_runtimeModules (runtimeModules : List RenderedRuntimeModule) (id : RenderId)
    (tail : List UInt8) :
    StartsSmall (runtimeModules.flatMap RenderedRuntimeModule.hash ++ (id.hash ++ tail)) := by
  cases runtimeModules with
  | nil => exact id.startsSmall tail
  | cons first others =>
    have hfirst := first.module.discriminant_lt
    rw [List.flatMap_cons, RenderedRuntimeModule.hash, List.append_assoc, List.append_assoc]
    exact ⟨_, _, by omega, rfl⟩

/-- The runtime modules and the ids of an initial chunk follow on both sides. -/
theorem Apart.of_runtimeModules {runtimeModules runtimeModules' : List RenderedRuntimeModule}
    {entryId entryId' chunkId : RenderId} (hcount : runtimeModules.length < 11)
    (hcount' : runtimeModules'.length < 11)
    (hlegible' : ∀ runtimeModule ∈ runtimeModules', Legible runtimeModule.source)
    (hentry' : entryId'.Legible) :
    Apart (hashRuntimeModules runtimeModules ++ (entryId.hash ++ chunkId.hash))
      (hashRuntimeModules runtimeModules' ++ (entryId'.hash ++ chunkId.hash)) := by
  intro next rest h
  have hnext := next.discriminant_lt
  -- the stream after the requirement, and the stream after the number it goes on with
  obtain ⟨small, stream, hvalue, hstart, hstream⟩ : ∃ small stream, small < 11 ∧
      rest.flatMap RuntimeRequirement.hash ++ (hashRuntimeModules runtimeModules ++
        (entryId.hash ++ chunkId.hash)) = hashUsize small ++ stream ∧ StartsSmall stream := by
    have hruntime := startsSmall_runtimeModules runtimeModules entryId chunkId.hash
    have hcounted : StartsSmall (hashRuntimeModules runtimeModules ++ (entryId.hash ++ chunkId.hash)) :=
      ⟨_, _, hcount, List.append_assoc _ _ _⟩
    cases rest with
    | nil => exact ⟨_, _, hcount, List.append_assoc _ _ _, hruntime⟩
    | cons requirement rest =>
      refine ⟨requirement.discriminant, _, requirement.discriminant_lt, ?_, hcounted.requirements rest⟩
      rw [List.flatMap_cons, RuntimeRequirement.hash, List.append_assoc]
  obtain ⟨value, others, hsmall, hothers⟩ := hstream
  cases runtimeModules' with
  | nil =>
    cases entryId' with
    | string text =>
      rw [hstart, hothers] at h
      simp only [hashRuntimeModules, RenderId.hash, RuntimeRequirement.hash, List.flatMap_nil,
        List.append_nil, List.append_assoc] at h
      obtain ⟨-, hrest⟩ := hashUsize_append_inj (by decide) (by omega) h
      obtain ⟨-, htext⟩ := hashUsize_append_inj (by decide) (by omega) hrest
      exact hentry'.hashString_ne hsmall _ _ htext
    | number number =>
      have hlength := congrArg List.length h
      cases entryId <;>
        simp [hashRuntimeModules, RuntimeRequirement.hash, RenderId.hash, hashUsize, hashString] at hlength <;>
        omega
  | cons first others' =>
    have hfirst := first.module.discriminant_lt
    rw [hstart, hothers] at h
    simp only [hashRuntimeModules, RuntimeRequirement.hash, List.flatMap_cons, RenderedRuntimeModule.hash,
      List.append_assoc] at h
    obtain ⟨-, hrest⟩ := hashUsize_append_inj (by omega) (by omega) h
    obtain ⟨-, htext⟩ := hashUsize_append_inj (by omega) (by omega) hrest
    exact (hlegible' first List.mem_cons_self).hashString_ne hsmall _ _ htext

section

variable {library : SourceLibrary}

/-- What a rendering sees of a module. -/
def SourceLibrary.Agree (library : SourceLibrary) (left right : ModuleRenderInput) : Prop :=
  left.renderId = right.renderId ∧
    library.hashInput left.result.source = library.hashInput right.result.source

/-- The ids of the modules are legible. -/
def LegibleIds (inputs : List ModuleRenderInput) : Prop :=
  ∀ input ∈ inputs, input.renderId.Legible

/-- The rest of a stream after a module starts with the next module, or is the tail. -/
theorem apart_rest (hname : library.StartsWithName) {left right : List ModuleRenderInput}
    (hright : LegibleIds right) {tail tail' : List UInt8} (hlength : left.length = right.length)
    (hapart : Apart tail tail') :
    Apart (left.flatMap (ModuleRenderInput.hash library) ++ tail)
      (right.flatMap (ModuleRenderInput.hash library) ++ tail') := by
  cases left with
  | nil =>
    cases List.length_eq_zero_iff.mp hlength.symm
    exact hapart
  | cons input left =>
    cases right with
    | nil => cases hlength
    | cons input' right =>
      obtain ⟨byte, bytes, hbytes, hbyte⟩ := hname input'.result.source
      simp only [List.flatMap_cons, ModuleRenderInput.hash, List.append_assoc, hbytes]
      exact Apart.of_module (hright input' List.mem_cons_self) hbyte

/-- **Unique reading.** Streams of as many modules are equal only module by module. -/
theorem agree_of_flatMap (hself : library.SelfDelimiting) (hname : library.StartsWithName)
    {left right : List ModuleRenderInput} (hleft : LegibleIds left) (hright : LegibleIds right)
    {tail tail' : List UInt8} (hlength : left.length = right.length)
    (hapart : Apart tail tail') (hapart' : Apart tail' tail)
    (heq : left.flatMap (ModuleRenderInput.hash library) ++ tail =
      right.flatMap (ModuleRenderInput.hash library) ++ tail') :
    List.Forall₂ library.Agree left right ∧ tail = tail' := by
  induction left generalizing right with
  | nil =>
    cases List.length_eq_zero_iff.mp hlength.symm
    exact ⟨.nil, heq⟩
  | cons input left ih =>
    cases right with
    | nil => cases hlength
    | cons input' right =>
      simp only [List.flatMap_cons, ModuleRenderInput.hash, List.append_assoc] at heq
      obtain ⟨hid, hsources⟩ := selfDelimiting_renderId heq
      obtain ⟨hsource, hrequirements⟩ := hself hsources
      have hcount : left.length = right.length := Nat.succ.inj hlength
      have hothers : LegibleIds left := fun other hother => hleft other (List.mem_cons_of_mem _ hother)
      have hothers' : LegibleIds right := fun other hother => hright other (List.mem_cons_of_mem _ hother)
      have hrest := requirements_end (apart_rest hname hothers' hcount hapart)
        (apart_rest hname hothers hcount.symm hapart') hrequirements
      obtain ⟨hagree, htail⟩ := ih hothers hothers' hcount hrest
      exact ⟨.cons ⟨hid, hsource⟩ hagree, htail⟩

theorem agree_of_hashModuleRenderInputs (hself : library.SelfDelimiting)
    (hname : library.StartsWithName) {left right : List ModuleRenderInput} (hids : LegibleIds left)
    (hids' : LegibleIds right) {tail tail' : List UInt8} (hleft : left.length < 2 ^ 64)
    (hright : right.length < 2 ^ 64) (hapart : Apart tail tail') (hapart' : Apart tail' tail)
    (heq : hashModuleRenderInputs library left ++ tail = hashModuleRenderInputs library right ++ tail') :
    List.Forall₂ library.Agree left right ∧ tail = tail' := by
  simp only [hashModuleRenderInputs, List.append_assoc] at heq
  obtain ⟨hlength, hrest⟩ := hashUsize_append_inj hleft hright heq
  exact agree_of_flatMap hself hname hids hids' hlength hapart hapart' hrest

theorem hashRuntimeModules_append_inj {left right : List RenderedRuntimeModule}
    {tail tail' : List UInt8} (hleft : left.length < 2 ^ 64) (hright : right.length < 2 ^ 64)
    (heq : hashRuntimeModules left ++ tail = hashRuntimeModules right ++ tail') :
    left = right ∧ tail = tail' := by
  simp only [hashRuntimeModules, List.append_assoc] at heq
  obtain ⟨hlength, hrest⟩ := hashUsize_append_inj hleft hright heq
  exact selfDelimiting_runtimeModule.flatMap hlength hrest

/-- What the rendered source is made from. -/
def SourceLibrary.view (library : SourceLibrary) (piece : RenderPiece) : String × Option String :=
  (library.pieceSource piece, library.pieceMap piece)

theorem renderedSource_congr {pieces pieces' : List RenderPiece}
    (h : pieces.map library.view = pieces'.map library.view) :
    renderedSource library pieces = renderedSource library pieces' := by
  have hsource := congrArg (List.map Prod.fst) h
  simp only [List.map_map] at hsource
  have hmap := congrArg (· ++ [library.view (.raw sourceMapFooterTemplate)]) h
  simp only [renderedSource, Cache.RenderedSource.mk.injEq, List.map_append, List.map_cons, List.map_nil]
  exact ⟨congrArg String.join hsource, congrArg library.joinMaps hmap⟩

theorem map_intercalate {α β : Type} (f : α → β) (separator : List α) (lists : List (List α)) :
    (separator.intercalate lists).map f = (separator.map f).intercalate (lists.map (List.map f)) := by
  induction lists with
  | nil => rfl
  | cons list lists ih =>
    cases lists with
    | nil => simp
    | cons next lists =>
      rw [List.intercalate_cons_cons, List.map_append, List.map_append, ih]
      simp only [List.map_cons, List.intercalate_cons_cons]

theorem view_pieces (hdetermines : library.Determines) {left right : ModuleRenderInput}
    (h : library.Agree left right) :
    left.pieces.map library.view = right.pieces.map library.view := by
  obtain ⟨hsource, hmap⟩ := hdetermines _ _ h.2
  simp only [ModuleRenderInput.pieces, List.map_cons, List.map_nil, SourceLibrary.view,
    SourceLibrary.pieceSource, SourceLibrary.pieceMap, h.1, hsource, hmap]

theorem view_renderModuleTable (hdetermines : library.Determines) {left right : List ModuleRenderInput}
    (h : List.Forall₂ library.Agree left right) :
    (renderModuleTable left).map library.view = (renderModuleTable right).map library.view := by
  have hpieces : (left.map ModuleRenderInput.pieces).map (List.map library.view) =
      (right.map ModuleRenderInput.pieces).map (List.map library.view) := by
    induction h with
    | nil => rfl
    | cons hagree _ ih =>
      simp only [List.map_cons]
      rw [view_pieces hdetermines hagree, ih]
  rw [renderModuleTable, renderModuleTable, map_intercalate, map_intercalate, hpieces]

/-- The ids of the modules and the texts of the runtime modules are legible, and the runtime modules are not
more than there are kinds of them. -/
structure JavascriptRenderManifest.Legible (manifest : JavascriptRenderManifest) : Prop where
  ids : ∀ module ∈ manifest.modules, module.renderId.Legible
  entryId : ∀ entryId ∈ manifest.entryId, entryId.Legible
  runtimeModules : ∀ runtimeModule ∈ manifest.runtimeModules, Unpack.Legible runtimeModule.source
  count : manifest.runtimeModules.length ≤ RuntimeModule.all.length

theorem length_ofManifest {results : CodeGenerationResults} {modules : List ModuleRenderManifest}
    {inputs : List ModuleRenderInput} (h : results.ofManifest modules = some inputs) :
    inputs.length = modules.length :=
  (Fallible.forall₂_of_mapM_some h).length_eq.symm

theorem JavascriptRenderManifest.Legible.inputs {manifest : JavascriptRenderManifest}
    (h : manifest.Legible) {results : CodeGenerationResults} {inputs : List ModuleRenderInput}
    (hinputs : results.ofManifest manifest.modules = some inputs) : LegibleIds inputs := by
  intro input hinput
  obtain ⟨module, hmodule, hresult⟩ :=
    Fallible.exists_of_mem_right (Fallible.forall₂_of_mapM_some hinputs) hinput
  obtain ⟨result, -, rfl⟩ := Option.map_eq_some_iff.mp hresult
  exact h.ids module hmodule

/-- Legible manifests that are hashed alike are rendered alike. -/
theorem renderAsset_eq_of_etagInput (hself : library.SelfDelimiting) (hdetermines : library.Determines)
    (hname : library.StartsWithName) {manifest manifest' : JavascriptRenderManifest}
    (hlegible : manifest.Legible) (hlegible' : manifest'.Legible) (haddress : manifest.Addressable)
    (haddress' : manifest'.Addressable) (hkey : manifest.cacheKey = manifest'.cacheKey)
    {results results' : CodeGenerationResults} {bytes : List UInt8}
    (hbytes : manifest.etagInput library results = some bytes)
    (hbytes' : manifest'.etagInput library results' = some bytes) :
    renderAsset library manifest results = renderAsset library manifest' results' := by
  obtain ⟨inputs, hinputs, hstream⟩ := Option.map_eq_some_iff.mp hbytes
  obtain ⟨inputs', hinputs', hstream'⟩ := Option.map_eq_some_iff.mp hbytes'
  have hids := hlegible.inputs hinputs
  have hids' := hlegible'.inputs hinputs'
  have hkinds : RuntimeModule.all.length < 11 := by decide
  have hcount := hlegible.count.trans_lt hkinds
  have hcount' := hlegible'.count.trans_lt hkinds
  have hlength : inputs.length < 2 ^ 64 := (length_ofManifest hinputs).trans_lt haddress
  have hlength' : inputs'.length < 2 ^ 64 := (length_ofManifest hinputs').trans_lt haddress'
  have heq := List.append_cancel_left (hstream.trans hstream'.symm)
  rw [renderAsset, renderAsset, hinputs, hinputs', Option.map_some, Option.map_some, Option.some_inj]
  apply renderedSource_congr
  cases manifest with
  | initialChunk modules runtimeModules entryId chunkId =>
    cases manifest' with
    | initialChunk modules' runtimeModules' entryId' chunkId' =>
      cases hkey
      obtain ⟨hagree, hrest⟩ := agree_of_hashModuleRenderInputs hself hname hids hids' hlength hlength'
        (Apart.of_runtimeModules hcount hcount' hlegible'.runtimeModules (hlegible'.entryId _ rfl))
        (Apart.of_runtimeModules hcount' hcount hlegible.runtimeModules (hlegible.entryId _ rfl))
        (List.cons.inj heq).2
      obtain ⟨hruntime, hentries⟩ : runtimeModules = runtimeModules' ∧ _ :=
        hashRuntimeModules_append_inj (hcount.trans (by decide)) (hcount'.trans (by decide)) hrest
      obtain ⟨hentry, -⟩ := selfDelimiting_renderId hentries
      simp only [hruntime, hentry, JavascriptRenderManifest.pieces, renderInitialAsset, List.map_cons,
        List.map_append, view_renderModuleTable hdetermines hagree]
    | asyncChunk modules' chunkId' => cases hkey
  | asyncChunk modules chunkId =>
    cases manifest' with
    | initialChunk modules' runtimeModules' entryId' chunkId' => cases hkey
    | asyncChunk modules' chunkId' =>
      cases hkey
      obtain ⟨hagree, -⟩ := agree_of_hashModuleRenderInputs hself hname hids hids' hlength hlength'
        (Apart.refl _) (Apart.refl _) (List.cons.inj heq).2
      simp only [JavascriptRenderManifest.pieces, renderAsyncChunkAsset, List.map_cons, List.map_append,
        view_renderModuleTable hdetermines hagree]

end

/-- Joined texts without source maps. -/
def plainSources : SourceLibrary where
  hashInput parts := hashString "ConcatSource" ++ hashString (plainText parts)
  source := plainText
  map _ := none
  joinMaps _ := none
where
  plainText (parts : List SourcePart) : String :=
    String.join (parts.map fun
      | .raw text => text
      | .replaced original _ _ => original)

theorem plainSources_selfDelimiting : plainSources.SelfDelimiting := by
  intro left right tail tail' h
  simp only [plainSources, List.append_assoc] at h
  obtain ⟨htext, htail⟩ := selfDelimiting_hashString (List.append_cancel_left h)
  exact ⟨by simp only [plainSources, htext], htail⟩

theorem plainSources_determines : plainSources.Determines := by
  intro left right h
  have htext := List.append_cancel_left h
  exact ⟨utf8Bytes_injective (List.append_cancel_right htext), rfl⟩

theorem plainSources_startsWithName : plainSources.StartsWithName := by
  intro parts
  exact ⟨0x43, _, rfl, by decide⟩

end Unpack
