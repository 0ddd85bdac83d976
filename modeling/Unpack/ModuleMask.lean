import Unpack.ModuleGraph
import Mathlib.Data.Finset.Card

/-! The available-module masks of chunk planning: one bit for each dense module handle, in words of
64 bits. -/

namespace Unpack

structure ModuleMask where
  words : List (BitVec 64)
  deriving DecidableEq

namespace ModuleMask

def modulesPerMaskWord : Nat := 64

def new (moduleCount : Nat) : ModuleMask :=
  ⟨List.replicate ((moduleCount + modulesPerMaskWord - 1) / modulesPerMaskWord) 0#64⟩

def insert (mask : ModuleMask) (module : ModuleHandle) : ModuleMask :=
  ⟨mask.words.modify (module / modulesPerMaskWord) fun word =>
    word ||| 1#64 <<< (module % modulesPerMaskWord)⟩

def contains (mask : ModuleMask) (module : ModuleHandle) : Bool :=
  mask.words[module / modulesPerMaskWord]?.any fun word =>
    word &&& 1#64 <<< (module % modulesPerMaskWord) ≠ 0#64

def intersectWith (mask other : ModuleMask) : ModuleMask :=
  ⟨List.zipWith (· &&& ·) mask.words other.words⟩

def insertAll (mask : ModuleMask) (modules : List ModuleHandle) : ModuleMask :=
  modules.foldl insert mask

def fromModules (moduleCount : Nat) (modules : List ModuleHandle) : ModuleMask :=
  (new moduleCount).insertAll modules

/-- The mask has the words of a graph with this many modules. -/
def SizedFor (mask : ModuleMask) (moduleCount : Nat) : Prop :=
  mask.words.length = (moduleCount + modulesPerMaskWord - 1) / modulesPerMaskWord

theorem and_bit_ne_zero (word : BitVec 64) {bit : Nat} (hbit : bit < 64) :
    word &&& 1#64 <<< bit ≠ 0#64 ↔ word.getLsbD bit = true := by
  rw [← BitVec.twoPow_eq, BitVec.and_twoPow]
  split_ifs with h
  · simp only [h, iff_true]
    intro hzero
    have := congrArg (fun word => word.getLsbD bit) hzero
    simp [hbit] at this
  · simp [h]

theorem contains_iff (mask : ModuleMask) (module : Nat) :
    mask.contains module = true ↔
      ∃ word, mask.words[module / 64]? = some word ∧ word.getLsbD (module % 64) = true := by
  have hbit : module % 64 < 64 := Nat.mod_lt _ (by decide)
  simp only [contains, modulesPerMaskWord, Option.any_eq_true, decide_eq_true_eq,
    and_bit_ne_zero _ hbit]

@[simp] theorem contains_new (moduleCount : Nat) (module : Nat) :
    (new moduleCount).contains module = false := by
  rw [Bool.eq_false_iff, Ne, contains_iff]
  rintro ⟨word, hword, hbit⟩
  rw [new, List.getElem?_replicate] at hword
  split_ifs at hword
  simp [← Option.some.inj hword] at hbit

theorem word_lt {mask : ModuleMask} {moduleCount : Nat} (hmask : mask.SizedFor moduleCount)
    {module : Nat} (hlt : module < moduleCount) : module / 64 < mask.words.length := by
  rw [SizedFor, modulesPerMaskWord] at hmask
  rw [hmask]
  exact Nat.div_lt_of_lt_mul (by omega)

theorem contains_insert {mask : ModuleMask} {moduleCount : Nat} (hmask : mask.SizedFor moduleCount)
    {module : Nat} (hlt : module < moduleCount) (other : Nat) :
    (mask.insert module).contains other = true ↔ other = module ∨ mask.contains other = true := by
  rw [contains_iff, contains_iff, insert, modulesPerMaskWord, List.getElem?_modify]
  have hword := word_lt hmask hlt
  by_cases hslot : module / 64 = other / 64
  · rw [← hslot, List.getElem?_eq_getElem hword]
    simp only [if_true, Option.map_eq_map, Option.map_some, Option.some.injEq, exists_eq_left',
      BitVec.getLsbD_or, Bool.or_eq_true]
    have hbit : (1#64 <<< (module % 64)).getLsbD (other % 64) = true ↔ other = module := by
      rw [← BitVec.twoPow_eq, BitVec.getLsbD_twoPow]
      simp only [Bool.and_eq_true, decide_eq_true_eq]
      omega
    rw [hbit, or_comm]
  · have hne : other ≠ module := fun h => hslot (by rw [h])
    simp [hslot, hne]

theorem contains_intersectWith {mask other : ModuleMask} {moduleCount : Nat}
    (hmask : mask.SizedFor moduleCount) (hother : other.SizedFor moduleCount)
    (module : Nat) :
    (mask.intersectWith other).contains module = true ↔
      mask.contains module = true ∧ other.contains module = true := by
  rw [contains_iff, contains_iff, contains_iff, intersectWith]
  by_cases hlt : module / 64 < mask.words.length
  · have hlt' : module / 64 < other.words.length := by
      rw [hother]
      rwa [hmask] at hlt
    simp [List.getElem?_zipWith, List.getElem?_eq_getElem hlt, List.getElem?_eq_getElem hlt']
  · simp [List.getElem?_zipWith, List.getElem?_eq_none (Nat.le_of_not_lt hlt)]

theorem sizedFor_new (moduleCount : Nat) : (new moduleCount).SizedFor moduleCount := by
  rw [SizedFor, new, List.length_replicate]

theorem SizedFor.insert {mask : ModuleMask} {moduleCount : Nat} (hmask : mask.SizedFor moduleCount)
    (module : Nat) : (mask.insert module).SizedFor moduleCount := by
  rw [SizedFor, ModuleMask.insert, List.length_modify]
  exact hmask

theorem SizedFor.intersectWith {mask other : ModuleMask} {moduleCount : Nat}
    (hmask : mask.SizedFor moduleCount) (hother : other.SizedFor moduleCount) :
    (mask.intersectWith other).SizedFor moduleCount := by
  rw [SizedFor] at hmask hother ⊢
  rw [ModuleMask.intersectWith, List.length_zipWith, hmask, hother, Nat.min_self]

theorem SizedFor.insertAll {mask : ModuleMask} {moduleCount : Nat}
    (hmask : mask.SizedFor moduleCount) (modules : List Nat) :
    (mask.insertAll modules).SizedFor moduleCount := by
  induction modules generalizing mask with
  | nil => exact hmask
  | cons module modules ih => exact ih (hmask.insert module)

theorem contains_insertAll {mask : ModuleMask} {moduleCount : Nat}
    (hmask : mask.SizedFor moduleCount) {modules : List Nat}
    (hlt : ∀ module ∈ modules, module < moduleCount) (other : Nat) :
    (mask.insertAll modules).contains other = true ↔
      mask.contains other = true ∨ other ∈ modules := by
  induction modules generalizing mask with
  | nil => simp [insertAll]
  | cons module modules ih =>
      have hrest : ∀ module ∈ modules, module < moduleCount := fun module hmodule =>
        hlt module (List.mem_cons_of_mem _ hmodule)
      rw [insertAll, List.foldl_cons]
      have hih := ih (hmask.insert module) hrest
      rw [insertAll] at hih
      rw [hih, contains_insert hmask (hlt module List.mem_cons_self), List.mem_cons, or_comm (a := _ = _),
        or_assoc]

theorem contains_fromModules {moduleCount : Nat} {modules : List Nat}
    (hlt : ∀ module ∈ modules, module < moduleCount) (other : Nat) :
    (fromModules moduleCount modules).contains other = true ↔ other ∈ modules := by
  rw [fromModules, contains_insertAll (sizedFor_new moduleCount) hlt]
  simp

/-- Masks of one size are the sets of modules they contain. -/
theorem eq_of_contains_eq {mask other : ModuleMask} {moduleCount : Nat}
    (hmask : mask.SizedFor moduleCount) (hother : other.SizedFor moduleCount)
    (heq : ∀ module, mask.contains module = other.contains module) : mask = other := by
  have hwords : mask.words = other.words := by
    apply List.ext_getElem (hmask.trans hother.symm)
    intro index hindex hindex'
    apply BitVec.eq_of_getLsbD_eq
    intro bit hbit
    have hslot : (index * 64 + bit) / 64 = index := by omega
    have hoff : (index * 64 + bit) % 64 = bit := by omega
    have hcontains := heq (index * 64 + bit)
    rw [Bool.eq_iff_iff, contains_iff, contains_iff, hslot, hoff, List.getElem?_eq_getElem hindex,
      List.getElem?_eq_getElem hindex'] at hcontains
    simp only [Option.some.injEq, exists_eq_left'] at hcontains
    rw [Bool.eq_iff_iff]
    exact hcontains
  cases mask
  cases other
  exact congrArg ModuleMask.mk hwords

/-- The number of modules in the mask. -/
def count (mask : ModuleMask) (moduleCount : Nat) : Nat :=
  ((Finset.range moduleCount).filter fun module => mask.contains module = true).card

theorem count_le (mask : ModuleMask) (moduleCount : Nat) : mask.count moduleCount ≤ moduleCount :=
  (Finset.card_filter_le _ _).trans (by rw [Finset.card_range])

theorem count_le_count {mask other : ModuleMask} (moduleCount : Nat)
    (hsub : ∀ module, mask.contains module = true → other.contains module = true) :
    mask.count moduleCount ≤ other.count moduleCount :=
  Finset.card_le_card (Finset.monotone_filter_right _ fun module _ hmodule => hsub module hmodule)

/-- A mask holds only modules of the graph. -/
def InRange (mask : ModuleMask) (moduleCount : Nat) : Prop :=
  ∀ module, mask.contains module = true → module < moduleCount

theorem count_lt_count {mask other : ModuleMask} {moduleCount : Nat}
    (hmask : mask.SizedFor moduleCount) (hother : other.SizedFor moduleCount)
    (hrange : other.InRange moduleCount)
    (hsub : ∀ module, mask.contains module = true → other.contains module = true)
    (hne : mask ≠ other) : mask.count moduleCount < other.count moduleCount := by
  have hex : ∃ module, other.contains module = true ∧ mask.contains module = false := by
    by_contra hnone
    push Not at hnone
    refine hne (eq_of_contains_eq hmask hother fun module => ?_)
    rw [Bool.eq_iff_iff]
    exact ⟨hsub module, fun h => by simpa using hnone module h⟩
  obtain ⟨module, hin, hout⟩ := hex
  apply Finset.card_lt_card
  refine Finset.ssubset_iff_subset_ne.mpr
    ⟨Finset.monotone_filter_right _ fun module _ hmodule => hsub module hmodule, fun heq => ?_⟩
  have hmem : module ∈ (Finset.range moduleCount).filter fun module => other.contains module = true :=
    Finset.mem_filter.mpr ⟨Finset.mem_range.mpr (hrange module hin), hin⟩
  rw [← heq, Finset.mem_filter, hout] at hmem
  exact Bool.false_ne_true hmem.2

end ModuleMask

end Unpack
