import Unpack.AssetRenderValidation
import Unpack.CacheItems
import Unpack.Lib.SelfDelimiting

/-! Cache identifiers. The parts of a key are written one after the other, each behind its length, so that the
parts can be told from the bytes; the parts of a key tell its fields. A vector or string is never longer than
half the addresses. -/

namespace Unpack.CacheItem

open HashStream

/-- A byte string whose length is a 64-bit number. -/
abbrev Part := {bytes : List UInt8 // bytes.length < 2 ^ 64}

structure CacheIdentifier where
  bytes : List UInt8
  deriving DecidableEq

namespace CacheIdentifier

def fromParts (parts : List (List UInt8)) : CacheIdentifier :=
  ⟨parts.foldl (fun bytes part => bytes ++ Codec.littleEndian 8 part.length ++ part) []⟩

/-- The capacity is reserved beforehand; the bytes are the same. -/
def fromBorrowedParts (parts : List (List UInt8)) : CacheIdentifier :=
  ⟨parts.foldl (fun bytes part => bytes ++ Codec.littleEndian 8 part.length ++ part) []⟩

end CacheIdentifier

structure ResolveRequest where
  context : PathBuf
  request : String
  deriving DecidableEq

def Fits (bytes : List UInt8) : Prop := bytes.length < 2 ^ 63

structure ResolveRequest.Sized (request : ResolveRequest) : Prop where
  context : Fits request.context.bytes
  request : Fits (utf8Bytes request.request)

structure ModuleIdentity.Sized (identity : ModuleIdentity) : Prop where
  resource : Fits identity.resource.bytes
  query : ∀ query ∈ identity.query, Fits (utf8Bytes query)
  fragment : ∀ fragment ∈ identity.fragment, Fits (utf8Bytes fragment)
  layer : ∀ layer ∈ identity.layer, Fits (utf8Bytes layer)
  loaders : ∀ loader ∈ identity.loaders, Fits (utf8Bytes loader)

/-- A key that a process can hold. -/
abbrev HeldRequest := {request : ResolveRequest // request.Sized}

abbrev HeldIdentity := {identity : ModuleIdentity // identity.Sized}

def ResolveRequest.parts (request : ResolveRequest) : List (List UInt8) :=
  [request.context.bytes, utf8Bytes request.request]

def ResolveRequest.cacheIdentifier (request : ResolveRequest) : CacheIdentifier :=
  .fromBorrowedParts request.parts

def optionalIdentifierPart : Option String → List UInt8
  | some value => 1 :: utf8Bytes value
  | none => [0]

def identifierPart : ModuleType → String
  | .javaScriptAuto => "javascript/auto"
  | .json => "json"
  | .asset => "asset"
  | .assetResource => "asset/resource"
  | .assetInline => "asset/inline"
  | .assetSource => "asset/source"

namespace ModuleIdentity

def parts (identity : ModuleIdentity) : List (List UInt8) :=
  [utf8Bytes (identifierPart identity.moduleType), identity.resource.bytes, optionalIdentifierPart identity.query,
    optionalIdentifierPart identity.fragment, optionalIdentifierPart identity.layer,
    Codec.littleEndian 8 identity.loaders.length] ++ identity.loaders.map utf8Bytes

def cacheIdentifier (identity : ModuleIdentity) : CacheIdentifier := .fromBorrowedParts identity.parts

end ModuleIdentity

def assetRenderParts (key : AssetRenderKey) : List (List UInt8) :=
  [match key.kind with
    | .initial => utf8Bytes "initial"
    | .async => utf8Bytes "async", utf8Bytes key.chunkId.toText]

def assetRenderIdentifier (key : AssetRenderKey) : CacheIdentifier := .fromParts (assetRenderParts key)

abbrev HeldAssetRenderKey := {key : AssetRenderKey // Fits (utf8Bytes key.chunkId.toText)}

/-- An item with one of these keys. -/
inductive KeyedItem where
  | resolve (request : HeldRequest)
  | moduleBuild (identity : HeldIdentity)
  | codeGeneration (identity : HeldIdentity)
  | assetRender (key : HeldAssetRenderKey)

structure CacheAddress where
  «namespace» : String
  identifier : CacheIdentifier
  deriving DecidableEq

def KeyedItem.address : KeyedItem → CacheAddress
  | resolve request => ⟨"unpack/resolve", request.1.cacheIdentifier⟩
  | moduleBuild identity => ⟨"unpack/module-build", identity.1.cacheIdentifier⟩
  | codeGeneration identity => ⟨"unpack/code-generation", identity.1.cacheIdentifier⟩
  | assetRender key => ⟨"unpack/asset-render", assetRenderIdentifier key.1⟩

/-- Renderings of chunks of one kind whose ids are printed alike, as `String("0")` and `Number(0)` are. -/
def KeyedItem.PrintedAlike : KeyedItem → KeyedItem → Prop
  | assetRender left, assetRender right =>
      left.1.kind = right.1.kind ∧ left.1.chunkId.toText = right.1.chunkId.toText
  | _, _ => False

def writePart (part : Part) : List UInt8 := Codec.littleEndian 8 part.1.length ++ part.1

theorem selfDelimiting_writePart : SelfDelimiting writePart := by
  intro left right tail tail' heq
  rw [writePart, writePart, List.append_assoc, List.append_assoc] at heq
  obtain ⟨hwidth, hrest⟩ := List.append_inj heq (by rw [Codec.length_littleEndian, Codec.length_littleEndian])
  have hlength : left.1.length = right.1.length := by
    have hvalue := congrArg Codec.ofLittleEndian hwidth
    rwa [Codec.ofLittleEndian_littleEndian left.2, Codec.ofLittleEndian_littleEndian right.2] at hvalue
  obtain ⟨hpart, htail⟩ := List.append_inj hrest hlength
  exact ⟨Subtype.ext hpart, htail⟩

theorem writePart_ne_nil (part : Part) : writePart part ≠ [] := by
  intro hnil
  have hlength := congrArg List.length hnil
  rw [writePart, List.length_append, Codec.length_littleEndian, List.length_nil] at hlength
  omega

theorem fromParts_bytes (parts : List Part) :
    (CacheIdentifier.fromParts (parts.map Subtype.val)).bytes = parts.flatMap writePart := by
  have hfold : ∀ (parts : List Part) (bytes : List UInt8),
      (parts.map Subtype.val).foldl (fun bytes part => bytes ++ Codec.littleEndian 8 part.length ++ part) bytes =
        bytes ++ parts.flatMap writePart := by
    intro parts
    induction parts with
    | nil => exact fun bytes => (List.append_nil bytes).symm
    | cons part parts ih =>
        intro bytes
        rw [List.map_cons, List.foldl_cons, ih, List.flatMap_cons, writePart, List.append_assoc, List.append_assoc,
          List.append_assoc]
  exact hfold parts []

theorem fromParts_injective :
    Function.Injective fun parts : List Part => CacheIdentifier.fromParts (parts.map Subtype.val) := by
  intro left right heq
  have hbytes : left.flatMap writePart = right.flatMap writePart := by
    rw [← fromParts_bytes, ← fromParts_bytes]
    exact congrArg CacheIdentifier.bytes heq
  exact selfDelimiting_writePart.flatMap_injective writePart_ne_nil hbytes

/-- On parts short enough the bytes tell the parts. -/
theorem eq_of_fromBorrowedParts_eq {left right : List (List UInt8)} (hleft : ∀ part ∈ left, part.length < 2 ^ 64)
    (hright : ∀ part ∈ right, part.length < 2 ^ 64)
    (heq : CacheIdentifier.fromBorrowedParts left = .fromBorrowedParts right) : left = right := by
  obtain ⟨left, rfl⟩ : ∃ parts : List Part, parts.map Subtype.val = left := ⟨left.attachWith _ hleft, by simp⟩
  obtain ⟨right, rfl⟩ : ∃ parts : List Part, parts.map Subtype.val = right := ⟨right.attachWith _ hright, by simp⟩
  rw [fromParts_injective heq]

theorem Fits.lt {bytes : List UInt8} (h : Fits bytes) : bytes.length < 2 ^ 64 := by
  rw [Fits] at h
  omega

theorem ResolveRequest.length_parts {request : ResolveRequest} (h : request.Sized) :
    ∀ part ∈ request.parts, part.length < 2 ^ 64 := by
  intro part hpart
  rw [parts, List.mem_cons, List.mem_singleton] at hpart
  rcases hpart with rfl | rfl
  · exact h.context.lt
  · exact h.request.lt

theorem ResolveRequest.cacheIdentifier_injective :
    Function.Injective fun request : HeldRequest => request.1.cacheIdentifier := by
  intro left right heq
  have hparts := eq_of_fromBorrowedParts_eq (length_parts left.2) (length_parts right.2) heq
  rw [parts, parts, List.cons.injEq, List.cons.injEq] at hparts
  obtain ⟨hcontext, hrequest, _⟩ := hparts
  apply Subtype.ext
  calc
    left.1 = ⟨⟨left.1.context.bytes⟩, left.1.request⟩ := rfl
    _ = ⟨⟨right.1.context.bytes⟩, right.1.request⟩ := by rw [hcontext, utf8Bytes_injective hrequest]
    _ = right.1 := rfl

theorem optionalIdentifierPart_injective : Function.Injective optionalIdentifierPart := by
  intro left right heq
  cases left with
  | none =>
      cases right with
      | none => rfl
      | some value => cases (List.cons.inj heq).1
  | some value =>
      cases right with
      | none => cases (List.cons.inj heq).1
      | some other => rw [utf8Bytes_injective (List.cons.inj heq).2]

theorem length_optionalIdentifierPart {value : Option String} (h : ∀ text ∈ value, Fits (utf8Bytes text)) :
    (optionalIdentifierPart value).length < 2 ^ 64 := by
  cases value with
  | none => exact (by decide : 1 < 2 ^ 64)
  | some text =>
      have hfits := h text rfl
      rw [Fits] at hfits
      rw [optionalIdentifierPart, List.length_cons]
      omega

theorem identifierPart_injective : Function.Injective identifierPart := by
  intro left right heq
  cases left <;> cases right <;> first | rfl | exact absurd heq (by decide)

namespace ModuleIdentity

theorem length_parts {identity : ModuleIdentity} (h : identity.Sized) :
    ∀ part ∈ identity.parts, part.length < 2 ^ 64 := by
  intro part hpart
  rcases List.mem_append.mp hpart with hfield | hloader
  · simp only [List.mem_cons, List.not_mem_nil, or_false] at hfield
    rcases hfield with rfl | rfl | rfl | rfl | rfl | rfl
    · cases identity.moduleType <;> decide +kernel
    · exact h.resource.lt
    · exact length_optionalIdentifierPart h.query
    · exact length_optionalIdentifierPart h.fragment
    · exact length_optionalIdentifierPart h.layer
    · rw [Codec.length_littleEndian]
      decide
  · obtain ⟨loader, hmem, rfl⟩ := List.mem_map.mp hloader
    exact (h.loaders loader hmem).lt

theorem parts_injective : Function.Injective parts := by
  intro left right heq
  obtain ⟨hfields, hloaders⟩ := List.append_inj heq rfl
  simp only [List.cons.injEq, and_true] at hfields
  obtain ⟨htype, hresource, hquery, hfragment, hlayer, _⟩ := hfields
  have hloaders := utf8Bytes_injective.list_map hloaders
  cases left
  cases right
  rw [ModuleIdentity.mk.injEq]
  refine ⟨?_, ?_, ?_, ?_, ?_, hloaders⟩
  · exact identifierPart_injective (utf8Bytes_injective htype)
  · exact congrArg PathBuf.mk hresource
  · exact optionalIdentifierPart_injective hquery
  · exact optionalIdentifierPart_injective hfragment
  · exact optionalIdentifierPart_injective hlayer

theorem cacheIdentifier_injective : Function.Injective fun identity : HeldIdentity => identity.1.cacheIdentifier := by
  intro left right heq
  exact Subtype.ext (parts_injective (eq_of_fromBorrowedParts_eq (length_parts left.2) (length_parts right.2) heq))

end ModuleIdentity

theorem assetRenderIdentifier_eq_iff (left right : HeldAssetRenderKey) :
    assetRenderIdentifier left.1 = assetRenderIdentifier right.1 ↔
      left.1.kind = right.1.kind ∧ left.1.chunkId.toText = right.1.chunkId.toText := by
  have hlength : ∀ key : HeldAssetRenderKey, ∀ part ∈ assetRenderParts key.1, part.length < 2 ^ 64 := by
    intro key part hpart
    rw [assetRenderParts, List.mem_cons, List.mem_singleton] at hpart
    rcases hpart with rfl | rfl
    · cases key.1.kind <;> decide +kernel
    · exact key.2.lt
  constructor
  · intro heq
    have hparts := eq_of_fromBorrowedParts_eq (hlength left) (hlength right) heq
    rw [assetRenderParts, assetRenderParts, List.cons.injEq, List.cons.injEq] at hparts
    obtain ⟨hkind, htext, -⟩ := hparts
    refine ⟨?_, utf8Bytes_injective htext⟩
    generalize left.1.kind = kind at hkind
    generalize right.1.kind = kind' at hkind
    cases kind <;> cases kind' <;> first | rfl | exact absurd hkind (by decide +kernel)
  · rintro ⟨hkind, htext⟩
    rw [assetRenderIdentifier, assetRenderIdentifier, assetRenderParts, assetRenderParts, hkind, htext]

/-- Items of two families, or of one family with two keys, are apart, but for renderings printed alike. -/
theorem KeyedItem.address_eq_iff (left right : KeyedItem) :
    left.address = right.address ↔ left = right ∨ left.PrintedAlike right := by
  constructor
  · intro heq
    have hspace := congrArg CacheAddress.«namespace» heq
    have hidentifier := congrArg CacheAddress.identifier heq
    cases left with
    | resolve request =>
        cases right with
        | resolve other => exact .inl (congrArg resolve (ResolveRequest.cacheIdentifier_injective hidentifier))
        | moduleBuild | codeGeneration | assetRender => simp [address] at hspace
    | moduleBuild identity =>
        cases right with
        | moduleBuild other =>
            exact .inl (congrArg moduleBuild (ModuleIdentity.cacheIdentifier_injective hidentifier))
        | resolve | codeGeneration | assetRender => simp [address] at hspace
    | codeGeneration identity =>
        cases right with
        | codeGeneration other =>
            exact .inl (congrArg codeGeneration (ModuleIdentity.cacheIdentifier_injective hidentifier))
        | resolve | moduleBuild | assetRender => simp [address] at hspace
    | assetRender key =>
        cases right with
        | assetRender other => exact .inr ((assetRenderIdentifier_eq_iff key other).mp hidentifier)
        | resolve | moduleBuild | codeGeneration => simp [address] at hspace
  · rintro (rfl | halike)
    · rfl
    · cases left with
      | assetRender key =>
          cases right with
          | assetRender other =>
              rw [address, address, (assetRenderIdentifier_eq_iff key other).mpr halike]
          | resolve | moduleBuild | codeGeneration => exact halike.elim
      | resolve | moduleBuild | codeGeneration => exact halike.elim

/-- The bytes of an identifier tell its parts, these the key of a record of a module, and of a rendered asset
the kind and the text of its chunk. -/
theorem cacheIdentifiers_injective :
    (∀ parts, CacheIdentifier.fromParts parts = CacheIdentifier.fromBorrowedParts parts) ∧
      (Function.Injective fun parts : List Part => CacheIdentifier.fromParts (parts.map Subtype.val)) ∧
      (Function.Injective fun request : HeldRequest => request.1.cacheIdentifier) ∧
      (Function.Injective fun identity : HeldIdentity => identity.1.cacheIdentifier) ∧
      ∀ left right : KeyedItem, left.address = right.address ↔ left = right ∨ left.PrintedAlike right :=
  ⟨fun _ => rfl, fromParts_injective, ResolveRequest.cacheIdentifier_injective,
    ModuleIdentity.cacheIdentifier_injective, KeyedItem.address_eq_iff⟩

/-- The chunks `"0"` and `0`. -/
theorem chunkIds_share_address : ¬ Function.Injective KeyedItem.address := by
  intro hinjective
  let named : HeldAssetRenderKey := ⟨⟨.async, .string "0"⟩, by unfold Fits; decide +kernel⟩
  let numbered : HeldAssetRenderKey := ⟨⟨.async, .number 0⟩, by unfold Fits; decide +kernel⟩
  have hsame : (KeyedItem.assetRender named).address = (KeyedItem.assetRender numbered).address := by
    decide +kernel
  have hkeys := KeyedItem.assetRender.inj (hinjective hsame)
  cases congrArg (fun key : HeldAssetRenderKey => key.1.chunkId) hkeys

end Unpack.CacheItem
