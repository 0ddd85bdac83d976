import Unpack.CacheIdentifiers
import Unpack.CodeGeneration
import Unpack.MemoryCache

/-! Generated code as an item of the cache. An identity has its path written out there, the requirements are a mask,
and positions are counted with 32 bits. What is in memory under an address is read back from there. -/

namespace Unpack

instance (bytes : List UInt8) : Decidable (CacheItem.Fits bytes) := inferInstanceAs (Decidable (_ < _))

instance (identity : CacheItem.ModuleIdentity) : Decidable identity.Sized :=
  decidable_of_iff (CacheItem.Fits identity.resource.bytes ∧
      (∀ query ∈ identity.query, CacheItem.Fits (utf8Bytes query)) ∧
      (∀ fragment ∈ identity.fragment, CacheItem.Fits (utf8Bytes fragment)) ∧
      (∀ layer ∈ identity.layer, CacheItem.Fits (utf8Bytes layer)) ∧
        ∀ loader ∈ identity.loaders, CacheItem.Fits (utf8Bytes loader))
    ⟨fun h => ⟨h.1, h.2.1, h.2.2.1, h.2.2.2.1, h.2.2.2.2⟩, fun h => ⟨h.1, h.2, h.3, h.4, h.5⟩⟩

namespace ModuleIdentity

/-- The identity with its path written out. -/
def item (identity : ModuleIdentity) : CacheItem.ModuleIdentity where
  moduleType := identity.moduleType
  resource := ⟨utf8Bytes (pathText identity.resource)⟩
  query := identity.query
  fragment := identity.fragment
  layer := identity.layer
  loaders := identity.loaders

/-- The path has a component and none with a separator in it, and a process can hold the identity. -/
structure IsItem (identity : ModuleIdentity) : Prop where
  ne_nil : identity.resource ≠ []
  separator : ∀ name ∈ identity.resource, '/' ∉ name.toList
  sized : identity.item.Sized

instance (identity : ModuleIdentity) : Decidable identity.IsItem :=
  decidable_of_iff (identity.resource ≠ [] ∧ (∀ name ∈ identity.resource, '/' ∉ name.toList) ∧ identity.item.Sized)
    ⟨fun h => ⟨h.1, h.2.1, h.2.2⟩, fun h => ⟨h.1, h.2, h.3⟩⟩

theorem pathText_injOn {left right : PathBuf} (hleft : left ≠ []) (hright : right ≠ [])
    (hnames : ∀ name ∈ left, '/' ∉ name.toList) (hnames' : ∀ name ∈ right, '/' ∉ name.toList)
    (heq : pathText left = pathText right) : left = right := by
  have hpieces : ∀ {path : PathBuf}, path ≠ [] → (∀ name ∈ path, '/' ∉ name.toList) →
      (pathText path).toList.splitOn '/' = path.map String.toList := by
    intro path hne hseparator
    rw [pathText, String.toList_intercalate]
    apply List.splitOn_intercalate
    · intro piece hpiece
      obtain ⟨name, hname, rfl⟩ := List.mem_map.mp hpiece
      exact hseparator name hname
    · simpa using hne
  have hsame : left.map String.toList = right.map String.toList := by
    rw [← hpieces hleft hnames, heq, hpieces hright hnames']
  exact List.map_injective_iff.mpr (fun _ _ => String.toList_inj.mp) hsame

theorem eq_of_item_eq {left right : ModuleIdentity} (hleft : left.IsItem) (hright : right.IsItem)
    (heq : left.item = right.item) : left = right := by
  obtain ⟨moduleType, resource, query, fragment, layer, loaders⟩ := left
  obtain ⟨moduleType', resource', query', fragment', layer', loaders'⟩ := right
  obtain ⟨rfl, hresource, rfl, rfl, rfl, rfl⟩ := CacheItem.ModuleIdentity.mk.inj heq
  have htext := utf8Bytes_injective (CacheItem.PathBuf.mk.inj hresource)
  obtain rfl := pathText_injOn hleft.ne_nil hright.ne_nil hleft.separator hright.separator htext
  rfl

/-- The address of the code that is generated for the module. -/
def codeGenerationAddress (identity : ModuleIdentity) : Cache.CacheAddress :=
  ⟨Cache.codeGenerationCacheNamespace, identity.item.cacheIdentifier.bytes⟩

theorem eq_of_codeGenerationAddress_eq {left right : ModuleIdentity} (hleft : left.IsItem) (hright : right.IsItem)
    (heq : left.codeGenerationAddress = right.codeGenerationAddress) : left = right := by
  rw [codeGenerationAddress, codeGenerationAddress, Cache.CacheAddress.mk.injEq] at heq
  have hbytes : ∀ {identifier identifier' : CacheItem.CacheIdentifier},
      identifier.bytes = identifier'.bytes → identifier = identifier' := by
    rintro ⟨_⟩ ⟨_⟩ rfl
    rfl
  have hidentifier : left.item.cacheIdentifier = right.item.cacheIdentifier := hbytes heq.2
  have hitem := @CacheItem.ModuleIdentity.cacheIdentifier_injective ⟨left.item, hleft.sized⟩
    ⟨right.item, hright.sized⟩ hidentifier
  exact eq_of_item_eq hleft hright (Subtype.mk.inj hitem)

end ModuleIdentity

namespace RuntimeRequirements

/-- The bits of the requirements. -/
def mask (requirements : RuntimeRequirements) : UInt16 :=
  (RuntimeRequirement.all.filter (· ∈ requirements)).foldl (fun mask requirement => mask ||| requirement.mask) 0

/-- The requirements of a mask. -/
def ofMask (mask : UInt16) : RuntimeRequirements :=
  (RuntimeRequirement.all.filter fun requirement => mask &&& requirement.mask ≠ 0).toFinset

theorem or_and_ne_zero (left right mask : UInt16) :
    (left ||| right) &&& mask ≠ 0 ↔ left &&& mask ≠ 0 ∨ right &&& mask ≠ 0 := by
  have hdistrib : (left ||| right) &&& mask = left &&& mask ||| right &&& mask := by
    apply UInt16.toBitVec_inj.mp
    exact BitVec.and_or_distrib_right
  rw [hdistrib, Ne, UInt16.or_eq_zero_iff, not_and_or]

theorem foldl_and_ne_zero (mask : UInt16) (requirements : List RuntimeRequirement) (start : UInt16) :
    requirements.foldl (fun mask requirement => mask ||| requirement.mask) start &&& mask ≠ 0 ↔
      start &&& mask ≠ 0 ∨ ∃ requirement ∈ requirements, requirement.mask &&& mask ≠ 0 := by
  induction requirements generalizing start with
  | nil => simp
  | cons first requirements ih =>
      rw [List.foldl_cons, ih, or_and_ne_zero, List.exists_mem_cons_iff, or_assoc]

theorem mask_known (requirements : RuntimeRequirements) : mask requirements &&& ~~~runtimeRequirementsMask = 0 := by
  by_contra hne
  rcases (foldl_and_ne_zero _ _ _).mp hne with hzero | ⟨requirement, -, hmask⟩
  · exact hzero (by decide)
  · cases requirement <;> exact hmask (by decide)

theorem ofMask_mask (requirements : RuntimeRequirements) : ofMask requirements.mask = requirements := by
  have hmask : ∀ requirement other : RuntimeRequirement, other.mask &&& requirement.mask ≠ 0 ↔ other = requirement := by
    intro requirement other
    cases requirement <;> cases other <;> decide
  ext requirement
  rw [ofMask, List.mem_toFinset, List.mem_filter, and_iff_right (RuntimeRequirement.mem_all requirement),
    decide_eq_true_iff, mask, foldl_and_ne_zero]
  simp [hmask, RuntimeRequirement.mem_all]

end RuntimeRequirements

/-- Positions are counted with 32 bits. -/
abbrev CodeGenerationReplacement.IsItem (replacement : CodeGenerationReplacement) : Prop :=
  replacement.start < 2 ^ 32 ∧ replacement.stop < 2 ^ 32

/-- The templates name no replacement and leave each at its place among the others. -/
def CodeGenerationReplacement.item (replacement : CodeGenerationReplacement) : CacheItem.CodeGenerationReplacement where
  start := UInt32.ofNat replacement.start
  stop := UInt32.ofNat replacement.stop
  content := replacement.content
  name := none
  enforce := .normal

def CodeGenerationReplacement.ofItem (item : CacheItem.CodeGenerationReplacement) : CodeGenerationReplacement where
  start := item.start.toNat
  stop := item.stop.toNat
  content := item.content

theorem CodeGenerationReplacement.ofItem_item {replacement : CodeGenerationReplacement} (h : replacement.IsItem) :
    ofItem replacement.item = replacement := by
  obtain ⟨hstart, hstop⟩ := h
  rw [ofItem, item, UInt32.toNat_ofNat_of_lt' hstart, UInt32.toNat_ofNat_of_lt' hstop]

namespace CodeGenerationSource

def IsItem : CodeGenerationSource → Prop
  | .raw _ => True
  | .originalWithReplacements _ originalSourceLen _ replacements _ =>
      originalSourceLen < 2 ^ 32 ∧ ∀ replacement ∈ replacements, replacement.IsItem

instance : (source : CodeGenerationSource) → Decidable source.IsItem
  | .raw _ => isTrue trivial
  | .originalWithReplacements .. => inferInstanceAs (Decidable (_ ∧ _))

def item : CodeGenerationSource → CacheItem.CodeGenerationSource
  | .raw source => .raw source
  | .originalWithReplacements prefixText originalSourceLen originalName replacements suffix =>
      .originalWithReplacements prefixText (UInt32.ofNat originalSourceLen) originalName
        (replacements.map CodeGenerationReplacement.item) suffix

def ofItem : CacheItem.CodeGenerationSource → CodeGenerationSource
  | .raw source => .raw source
  | .originalWithReplacements prefixText originalSourceLen originalName replacements suffix =>
      .originalWithReplacements prefixText originalSourceLen.toNat originalName
        (replacements.map CodeGenerationReplacement.ofItem) suffix

theorem ofItem_item {source : CodeGenerationSource} (h : source.IsItem) : ofItem source.item = source := by
  cases source with
  | raw source => rfl
  | originalWithReplacements prefixText originalSourceLen originalName replacements suffix =>
      have hreplacements : (replacements.map CodeGenerationReplacement.item).map CodeGenerationReplacement.ofItem =
          replacements := by
        rw [List.map_map]
        exact (List.map_congr_left fun replacement hreplacement =>
          CodeGenerationReplacement.ofItem_item (h.2 replacement hreplacement)).trans (List.map_id _)
      rw [item, ofItem, UInt32.toNat_ofNat_of_lt' h.1, hreplacements]

end CodeGenerationSource

namespace CodeGenerationRecord

def item (record : CodeGenerationRecord) : CacheItem.CodeGenerationRecord where
  source := record.source.item
  runtimeRequirements := ⟨_, RuntimeRequirements.mask_known record.runtimeRequirements⟩

def ofItem (item : CacheItem.CodeGenerationRecord) : CodeGenerationRecord where
  source := .ofItem item.source
  runtimeRequirements := .ofMask item.runtimeRequirements.bits

theorem ofItem_item {record : CodeGenerationRecord} (h : record.source.IsItem) : ofItem record.item = record := by
  rw [ofItem, item, CodeGenerationSource.ofItem_item h, RuntimeRequirements.ofMask_mask]

end CodeGenerationRecord

/-- The generated code that an entry holds. -/
def Cache.CacheEntry.generatedCode {Json : Type} (entry : Cache.CacheEntry Json) : Option CodeGenerationRecord :=
  match entry.valueAs .codeGeneration with
  | some (.codeGeneration item) => some (.ofItem item)
  | _ => none

end Unpack
