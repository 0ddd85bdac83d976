import Mathlib.Data.Finset.Card

/-! Modules that evaluate one another. A loader evaluates a module when it is asked for the first time, and
remembers it from the start of its evaluation on, also when that fails. A bundle has loaded its members by itself:
its root is known to the loader, and each member has a slot with an initializer of its own. As long as no module
outside of a bundle asks for a member that is not the root, both evaluate the same modules in the same order. -/

namespace ModuleLoading

variable {M Effect Answer Error H σ τ : Type}

/-- What a module does when it is evaluated. -/
inductive Code (M Effect Answer Error : Type) where
  | done
  | throws (error : Error)
  | perform (effect : Effect) (next : Answer → Code M Effect Answer Error)
  | evaluate (target : M) (next : Code M Effect Answer Error)

/-- How an evaluation ends; `undefined` is the call of what is no function. -/
inductive Outcome (Error : Type) where
  | returned
  | thrown (error : Error)
  | undefined
  | exhausted

namespace Code

/-- All modules that the code may ask for are allowed. -/
def Within (allowed : M → Prop) : Code M Effect Answer Error → Prop
  | done | throws _ => True
  | perform _ next => ∀ answer, (next answer).Within allowed
  | evaluate target next => allowed target ∧ next.Within allowed

theorem Within.imp {allowed other : M → Prop} (h : ∀ target, allowed target → other target)
    {code : Code M Effect Answer Error} (hcode : code.Within allowed) : code.Within other := by
  induction code with
  | done => trivial
  | throws error => trivial
  | perform effect next ih => exact fun answer => ih answer (hcode answer)
  | evaluate target next ih => exact ⟨h target hcode.1, ih hcode.2⟩

/-- An error of a module that is asked for is not caught. -/
def run (perform : Effect → σ → Answer × σ) (call : M → σ → Outcome Error × σ) :
    Code M Effect Answer Error → σ → Outcome Error × σ
  | done, state => (.returned, state)
  | throws error, state => (.thrown error, state)
  | .perform effect next, state =>
      let (answer, state) := perform effect state
      (next answer).run perform call state
  | evaluate target next, state =>
      match call target state with
      | (.returned, state) => next.run perform call state
      | (outcome, state) => (outcome, state)

/-- Related calls make related runs. -/
theorem run_related {R : σ → τ → Prop} {perform : Effect → σ → Answer × σ} {perform' : Effect → τ → Answer × τ}
    {call : M → σ → Outcome Error × σ} {call' : M → τ → Outcome Error × τ} {allowed : M → Prop}
    (hperform : ∀ effect state other, R state other →
      (perform effect state).1 = (perform' effect other).1 ∧ R (perform effect state).2 (perform' effect other).2)
    (hcall : ∀ target state other, allowed target → R state other →
      (call target state).1 = (call' target other).1 ∧ R (call target state).2 (call' target other).2)
    {code : Code M Effect Answer Error} (hcode : code.Within allowed) {state : σ} {other : τ} (h : R state other) :
    (code.run perform call state).1 = (code.run perform' call' other).1 ∧
      R (code.run perform call state).2 (code.run perform' call' other).2 := by
  induction code generalizing state other with
  | done => exact ⟨rfl, h⟩
  | throws error => exact ⟨rfl, h⟩
  | perform effect next ih =>
      obtain ⟨hanswer, hnext⟩ := hperform effect state other h
      rcases hleft : perform effect state with ⟨answer, left⟩
      rcases hright : perform' effect other with ⟨answer', right⟩
      rw [hleft, hright] at hanswer hnext
      obtain rfl : answer = answer' := hanswer
      rw [run, run, hleft, hright]
      exact ih answer (hcode answer) hnext
  | evaluate target next ih =>
      obtain ⟨houtcome, hnext⟩ := hcall target state other hcode.1 h
      rw [run, run]
      rcases hleft : call target state with ⟨outcome, left⟩
      rcases hright : call' target other with ⟨outcome', right⟩
      rw [hleft, hright] at houtcome hnext
      obtain rfl : outcome = outcome' := houtcome
      cases outcome with
      | returned => exact ih hcode.2 hnext
      | thrown error => exact ⟨rfl, hnext⟩
      | undefined => exact ⟨rfl, hnext⟩
      | exhausted => exact ⟨rfl, hnext⟩

/-- What every call leaves, the run leaves. -/
theorem run_kept {P : σ → Prop} {Q : Outcome Error → Prop} {perform : Effect → σ → Answer × σ}
    {call : M → σ → Outcome Error × σ} {allowed : M → Prop}
    (hperform : ∀ effect state, P state → P (perform effect state).2)
    (hcall : ∀ target state, allowed target → P state → Q (call target state).1 ∧ P (call target state).2)
    (hreturned : Q .returned) (hthrown : ∀ error, Q (.thrown error)) {code : Code M Effect Answer Error}
    (hcode : code.Within allowed) {state : σ} (h : P state) :
    Q (code.run perform call state).1 ∧ P (code.run perform call state).2 := by
  induction code generalizing state with
  | done => exact ⟨hreturned, h⟩
  | throws error => exact ⟨hthrown error, h⟩
  | perform effect next ih => exact ih _ (hcode _) (hperform effect state h)
  | evaluate target next ih =>
      obtain ⟨houtcome, hnext⟩ := hcall target state hcode.1 h
      rw [run]
      rcases hstep : call target state with ⟨outcome, later⟩
      rw [hstep] at houtcome hnext
      cases outcome with
      | returned => exact ih hcode.2 hnext
      | thrown error => exact ⟨houtcome, hnext⟩
      | undefined => exact ⟨houtcome, hnext⟩
      | exhausted => exact ⟨houtcome, hnext⟩

end Code

/-- Where a member of a bundle has its initializer, and the members that the slots of a bundle have. -/
structure Layout (M : Type) where
  slot : M → Option (M × Nat)
  member : M → Nat → Option M

/-- What the code of a bundle asks for. -/
inductive Call (M : Type) where
  | initializer (slot : Nat)
  | require (target : M)

section

variable (layout : Layout M) (emit : M → M → Option (Call M)) (present : M → Bool)

/-- The slots of a bundle are those of its members, and the root of a bundle is in it. -/
structure Layout.Sound : Prop where
  member : ∀ module bundle slot, layout.slot module = some (bundle, slot) ↔
    layout.member bundle slot = some module
  root : ∀ module bundle slot, layout.slot module = some (bundle, slot) →
    ∃ slot, layout.slot bundle = some (bundle, slot)

/-- The bundle in which the code of a module runs. -/
def Layout.bundle (module : M) : M := ((layout.slot module).map (·.1)).getD module

/-- A module that the loader may be asked for. -/
def Layout.IsRoot (module : M) : Prop := layout.bundle module = module

/-- Emitted is the initializer of a module of the same bundle and a request for any other module that is there. No
member of another bundle but its root is asked for. -/
structure EmitsSoundly (module target : M) : Prop where
  absent : present target = false → emit module target = none
  inside : present target = true → ∀ slot, layout.slot target = some (layout.bundle module, slot) →
    emit module target = some (.initializer slot)
  outside : present target = true → (∀ slot, layout.slot target ≠ some (layout.bundle module, slot)) →
    layout.IsRoot target ∧ emit module target = some (.require target)

variable {layout}

theorem Layout.bundle_of_slot {module bundle : M} {slot : Nat} (h : layout.slot module = some (bundle, slot)) :
    layout.bundle module = bundle := by
  rw [Layout.bundle, h]
  rfl

theorem Layout.bundle_of_alone {module : M} (h : layout.slot module = none) : layout.bundle module = module := by
  rw [Layout.bundle, h]
  rfl

end

variable [DecidableEq M] (perform : Effect → H → Answer × H) (code : M → Code M Effect Answer Error)

structure Loaded (M H : Type) where
  heap : H
  cached : Finset M

def Loaded.onHeap (effect : Effect) (state : Loaded M H) : Answer × Loaded M H :=
  let (answer, heap) := perform effect state.heap
  (answer, { state with heap })

section

variable (present : M → Bool)

/-- A module that is not there is not asked for. -/
def load : Nat → M → Loaded M H → Outcome Error × Loaded M H
  | 0, _, state => (.exhausted, state)
  | fuel + 1, target, state =>
      if target ∈ state.cached then (.returned, state)
      else
        (code target).run (Loaded.onHeap perform)
          (fun next state => if present next then load fuel next state else (.returned, state))
          { state with cached := insert target state.cached }

/-- Modules that are asked for one after the other, whatever comes of them. -/
def loadAll (fuel : Nat) : List M → Loaded M H → List (Outcome Error) × Loaded M H
  | [], state => ([], state)
  | target :: targets, state =>
      let (outcome, state) := load perform code present fuel target state
      let (outcomes, state) := loadAll fuel targets state
      (outcome :: outcomes, state)

end

structure Bundled (M H : Type) where
  heap : H
  cached : Finset M
  initialized : Finset (M × Nat)

def Bundled.onHeap (effect : Effect) (state : Bundled M H) : Answer × Bundled M H :=
  let (answer, heap) := perform effect state.heap
  (answer, { state with heap })

section

variable (layout : Layout M) (emit : M → M → Option (Call M))

/-- What a module of a bundle asks for, as far as something is emitted for it. -/
def callFrom (call : M → Call M → Bundled M H → Outcome Error × Bundled M H) (bundle module target : M)
    (state : Bundled M H) : Outcome Error × Bundled M H :=
  match emit module target with
  | none => (.returned, state)
  | some next => call bundle next state

/-- An initializer runs once. -/
def startMember (call : M → Call M → Bundled M H → Outcome Error × Bundled M H) (bundle : M) (slot : Nat)
    (state : Bundled M H) : Outcome Error × Bundled M H :=
  if (bundle, slot) ∈ state.initialized then (.returned, state)
  else
    match layout.member bundle slot with
    | none => (.undefined, state)
    | some module =>
        (code module).run (Bundled.onHeap perform) (callFrom emit call bundle module)
          { state with initialized := insert (bundle, slot) state.initialized }

/-- The factory of a bundle runs the initializer of its root. -/
def require (call : M → Call M → Bundled M H → Outcome Error × Bundled M H) (target : M) (state : Bundled M H) :
    Outcome Error × Bundled M H :=
  if target ∈ state.cached then (.returned, state)
  else
    let state := { state with cached := insert target state.cached }
    match layout.slot target with
    | some (_, slot) => startMember perform code layout emit call target slot state
    | none => (code target).run (Bundled.onHeap perform) (callFrom emit call target target) state

def bundled : Nat → M → Call M → Bundled M H → Outcome Error × Bundled M H
  | 0, _, _, state => (.exhausted, state)
  | fuel + 1, bundle, .initializer slot, state =>
      startMember perform code layout emit (bundled fuel) bundle slot state
  | fuel + 1, _, .require target, state => require perform code layout emit (bundled fuel) target state

def bundledAll (fuel : Nat) : List M → Bundled M H → List (Outcome Error) × Bundled M H
  | [], state => ([], state)
  | target :: targets, state =>
      let (outcome, state) := bundled perform code layout emit fuel target (.require target) state
      let (outcomes, state) := bundledAll fuel targets state
      (outcome :: outcomes, state)

end

section

variable {perform code} {present : M → Bool} {targets : Finset M}

theorem card_sdiff_insert_lt {cached : Finset M} {target : M} (htarget : target ∈ targets) (hcached : target ∉ cached) :
    (targets \ insert target cached).card < (targets \ cached).card := by
  apply Finset.card_lt_card
  have hsubset : targets \ insert target cached ⊆ targets \ cached :=
    Finset.sdiff_subset_sdiff (Finset.Subset.refl _) (Finset.subset_insert _ _)
  rw [Finset.ssubset_iff_of_subset hsubset]
  refine ⟨target, Finset.mem_sdiff.mpr ⟨htarget, hcached⟩, fun hleft => ?_⟩
  exact (Finset.mem_sdiff.mp hleft).2 (Finset.mem_insert_self _ _)

/-- With one level more than there are modules to evaluate, every evaluation comes to an end. -/
theorem load_ne_exhausted (hcode : ∀ module ∈ targets, (code module).Within (· ∈ targets)) :
    ∀ (fuel : Nat) (target : M) (state : Loaded M H), target ∈ targets → (targets \ state.cached).card < fuel →
      (load perform code present fuel target state).1 ≠ .exhausted ∧
        state.cached ⊆ (load perform code present fuel target state).2.cached := by
  intro fuel
  induction fuel with
  | zero =>
      intro target state _ hfuel
      omega
  | succ fuel ih =>
      intro target state htarget hfuel
      rw [load]
      split_ifs with hcached
      · exact ⟨nofun, Finset.Subset.refl _⟩
      · have hlt := card_sdiff_insert_lt htarget hcached
        have hrun := @Code.run_kept M Effect Answer Error (Loaded M H)
          (fun later => insert target state.cached ⊆ later.cached) (· ≠ .exhausted) (Loaded.onHeap perform)
          (fun next later => if present next then load perform code present fuel next later else (.returned, later))
          (· ∈ targets) (fun _ _ hsubset => hsubset) ?_ nofun (fun _ => nofun) _ (hcode target htarget)
          { state with cached := insert target state.cached } (Finset.Subset.refl _)
        · exact ⟨hrun.1, (Finset.subset_insert _ _).trans hrun.2⟩
        · intro next later hnext hsubset
          split_ifs
          · have hless : (targets \ later.cached).card < fuel := by
              have hle := Finset.card_le_card (Finset.sdiff_subset_sdiff (Finset.Subset.refl targets) hsubset)
              omega
            obtain ⟨houtcome, hgrown⟩ := ih next later hnext hless
            exact ⟨houtcome, hsubset.trans hgrown⟩
          · exact ⟨nofun, hsubset⟩

theorem loadAll_ne_exhausted (hcode : ∀ module ∈ targets, (code module).Within (· ∈ targets)) {fuel : Nat}
    (hfuel : targets.card < fuel) {requests : List M} (hrequests : ∀ target ∈ requests, target ∈ targets)
    (state : Loaded M H) : ∀ outcome ∈ (loadAll perform code present fuel requests state).1, outcome ≠ .exhausted := by
  induction requests generalizing state with
  | nil => exact fun outcome houtcome => by cases houtcome
  | cons target requests ih =>
      intro outcome houtcome
      rw [loadAll] at houtcome
      rcases List.mem_cons.mp houtcome with hfirst | hlater
      · have hcard : (targets \ state.cached).card < fuel :=
          lt_of_le_of_lt (Finset.card_le_card Finset.sdiff_subset) hfuel
        rw [hfirst]
        exact (load_ne_exhausted hcode fuel target state (hrequests target List.mem_cons_self) hcard).1
      · exact ih (fun later hmem => hrequests later (List.mem_cons_of_mem _ hmem)) _ outcome hlater

end

section

variable (layout : Layout M) (emit : M → M → Option (Call M)) (present : M → Bool)

/-- A member of a bundle is evaluated when its initializer has run, and any other module when it is cached. The
initializer of a root has run when the root is cached. -/
structure Agree (state : Loaded M H) (other : Bundled M H) : Prop where
  heap : state.heap = other.heap
  member : ∀ module place, layout.slot module = some place → (module ∈ state.cached ↔ place ∈ other.initialized)
  alone : ∀ module, layout.slot module = none → (module ∈ state.cached ↔ module ∈ other.cached)
  root : ∀ module slot, layout.slot module = some (module, slot) →
    (module ∈ other.cached ↔ (module, slot) ∈ other.initialized)

variable {perform code layout emit present}

namespace Agree

variable {state : Loaded M H} {other : Bundled M H}

omit [DecidableEq M] in
theorem onHeap (h : Agree layout state other) (effect : Effect) :
    (Loaded.onHeap perform effect state).1 = (Bundled.onHeap perform effect other).1 ∧
      Agree layout (Loaded.onHeap perform effect state).2 (Bundled.onHeap perform effect other).2 := by
  rw [Loaded.onHeap, Bundled.onHeap, ← h.heap]
  exact ⟨rfl, rfl, h.member, h.alone, h.root⟩

/-- A module alone is cached. -/
theorem cache_alone (h : Agree layout state other) {module : M} (halone : layout.slot module = none) :
    Agree layout { state with cached := insert module state.cached }
      { other with cached := insert module other.cached } where
  heap := h.heap
  member := fun found place hplace => by
    have hne : found ≠ module := by
      rintro rfl
      rw [halone] at hplace
      cases hplace
    rw [Finset.mem_insert, or_iff_right hne]
    exact h.member found place hplace
  alone := fun found hfound => by
    rw [Finset.mem_insert, Finset.mem_insert, h.alone found hfound]
  root := fun found slot hslot => by
    have hne : found ≠ module := by
      rintro rfl
      rw [halone] at hslot
      cases hslot
    rw [Finset.mem_insert, or_iff_right hne]
    exact h.root found slot hslot

/-- The initializer of a member that is no root is started. -/
theorem start_member (h : Agree layout state other) (hsound : layout.Sound) {module bundle : M} {slot : Nat}
    (hslot : layout.slot module = some (bundle, slot)) (hne : module ≠ bundle) :
    Agree layout { state with cached := insert module state.cached }
      { other with initialized := insert (bundle, slot) other.initialized } where
  heap := h.heap
  member := fun found place hplace => by
    have hsame : found = module ↔ place = (bundle, slot) := by
      constructor
      · rintro rfl
        exact Option.some.inj (hplace.symm.trans hslot)
      · rintro rfl
        exact Option.some.inj (((hsound.member _ _ _).mp hplace).symm.trans ((hsound.member _ _ _).mp hslot))
    rw [Finset.mem_insert, Finset.mem_insert, hsame, h.member found place hplace]
  alone := fun found hfound => by
    have hother : found ≠ module := by
      rintro rfl
      rw [hslot] at hfound
      cases hfound
    rw [Finset.mem_insert, or_iff_right hother]
    exact h.alone found hfound
  root := fun found other' hfound => by
    have hother : (found, other') ≠ (bundle, slot) := by
      intro heq
      rw [heq] at hfound
      have hsame := ((hsound.member _ _ _).mp hfound).symm.trans ((hsound.member _ _ _).mp hslot)
      exact hne ((Option.some.inj hsame).symm.trans (Prod.mk.inj heq).1)
    rw [Finset.mem_insert, or_iff_right hother]
    exact h.root found other' hfound

/-- The factory of a bundle starts the initializer of its root. -/
theorem start_root (h : Agree layout state other) (hsound : layout.Sound) {module : M} {slot : Nat}
    (hslot : layout.slot module = some (module, slot)) :
    Agree layout { state with cached := insert module state.cached }
      { other with
        cached := insert module other.cached
        initialized := insert (module, slot) other.initialized } where
  heap := h.heap
  member := fun found place hplace => by
    have hsame : found = module ↔ place = (module, slot) := by
      constructor
      · rintro rfl
        exact Option.some.inj (hplace.symm.trans hslot)
      · rintro rfl
        exact Option.some.inj (((hsound.member _ _ _).mp hplace).symm.trans ((hsound.member _ _ _).mp hslot))
    rw [Finset.mem_insert, Finset.mem_insert, hsame, h.member found place hplace]
  alone := fun found hfound => by
    have hother : found ≠ module := by
      rintro rfl
      rw [hslot] at hfound
      cases hfound
    rw [Finset.mem_insert, Finset.mem_insert, or_iff_right hother, or_iff_right hother]
    exact h.alone found hfound
  root := fun found other' hfound => by
    have hsame : found = module ↔ (found, other') = (module, slot) := by
      constructor
      · rintro rfl
        rw [Option.some.inj (hfound.symm.trans hslot)]
      · intro heq
        exact (Prod.mk.inj heq).1
    rw [Finset.mem_insert, Finset.mem_insert, hsame, h.root found other' hfound]

end Agree

/-- The request that stands for an evaluation of the target. -/
inductive Asks (layout : Layout M) (cached : Finset M) (bundle target : M) : Call M → Prop
  | require (h : layout.IsRoot target) : Asks layout cached bundle target (.require target)
  | initializer {slot : Nat} (h : layout.slot target = some (bundle, slot)) (hbundle : bundle ∈ cached) :
      Asks layout cached bundle target (.initializer slot)

variable (perform code layout emit present) in
/-- The evaluations of the target, by itself and in a bundle, end alike. -/
def EndsAlike (fuel : Nat) (target : M) (state : Loaded M H) (bundle : M) (call : Call M) (other : Bundled M H) :
    Prop :=
  (load perform code present fuel target state).1 = (bundled perform code layout emit fuel bundle call other).1 ∧
    Agree layout (load perform code present fuel target state).2
      (bundled perform code layout emit fuel bundle call other).2 ∧
      other.cached ⊆ (bundled perform code layout emit fuel bundle call other).2.cached

/-- The code of a module of a cached bundle. -/
theorem run_endsAlike {fuel : Nat}
    (hcalls : ∀ target state bundle call (other : Bundled M H), present target = true → Agree layout state other →
      Asks layout other.cached bundle target call →
        EndsAlike perform code layout emit present fuel target state bundle call other)
    {module : M} (hcode : (code module).Within (EmitsSoundly layout emit present module)) {state : Loaded M H}
    {other : Bundled M H} (h : Agree layout state other) (hbundle : layout.bundle module ∈ other.cached) :
    let alone := (code module).run (Loaded.onHeap perform)
      (fun next state => if present next then load perform code present fuel next state else (.returned, state)) state
    let inside := (code module).run (Bundled.onHeap perform)
      (callFrom emit (bundled perform code layout emit fuel) (layout.bundle module) module) other
    alone.1 = inside.1 ∧ Agree layout alone.2 inside.2 ∧ other.cached ⊆ inside.2.cached := by
  refine Code.run_related
    (R := fun (left : Loaded M H) (right : Bundled M H) => Agree layout left right ∧ other.cached ⊆ right.cached)
    ?_ ?_ hcode ⟨h, Finset.Subset.refl _⟩
  · rintro effect left right ⟨hagree, hsubset⟩
    obtain ⟨hanswer, hnext⟩ : (Loaded.onHeap perform effect left).1 = (Bundled.onHeap perform effect right).1 ∧
        Agree layout (Loaded.onHeap perform effect left).2 (Bundled.onHeap perform effect right).2 :=
      hagree.onHeap effect
    exact ⟨hanswer, hnext, hsubset⟩
  · rintro target left right hemits ⟨hagree, hsubset⟩
    rw [callFrom]
    cases hpresent : present target with
    | false =>
        rw [hemits.absent hpresent]
        exact ⟨rfl, hagree, hsubset⟩
    | true =>
        rw [if_pos rfl]
        by_cases hinside : ∃ slot, layout.slot target = some (layout.bundle module, slot)
        · obtain ⟨slot, hslot⟩ := hinside
          rw [hemits.inside hpresent slot hslot]
          obtain ⟨houtcome, hnext, hgrown⟩ :=
            hcalls target left _ _ right hpresent hagree (.initializer hslot (hsubset hbundle))
          exact ⟨houtcome, hnext, hsubset.trans hgrown⟩
        · obtain ⟨hroot, hemitted⟩ := hemits.outside hpresent (not_exists.mp hinside)
          rw [hemitted]
          obtain ⟨houtcome, hnext, hgrown⟩ :=
            hcalls target left (layout.bundle module) _ right hpresent hagree (.require hroot)
          exact ⟨houtcome, hnext, hsubset.trans hgrown⟩

/-- Every evaluation ends in a bundle as it ends by itself. -/
theorem load_endsAlike (hsound : layout.Sound)
    (hcode : ∀ module, present module = true → (code module).Within (EmitsSoundly layout emit present module)) :
    ∀ fuel target state bundle call (other : Bundled M H), present target = true → Agree layout state other →
      Asks layout other.cached bundle target call →
        EndsAlike perform code layout emit present fuel target state bundle call other := by
  intro fuel
  induction fuel with
  | zero =>
      intro target state bundle call other _ h _
      exact ⟨rfl, h, Finset.Subset.refl _⟩
  | succ fuel ih =>
      intro target state bundle call other hpresent h hasks
      cases hasks with
      | @initializer slot hslot hbundle =>
          rw [EndsAlike, load, bundled, startMember]
          by_cases hcached : target ∈ state.cached
          · rw [if_pos hcached, if_pos ((h.member target _ hslot).mp hcached)]
            exact ⟨rfl, h, Finset.Subset.refl _⟩
          · have hstarted : (bundle, slot) ∉ other.initialized :=
              fun hmem => hcached ((h.member target _ hslot).mpr hmem)
            have hne : target ≠ bundle := by
              rintro rfl
              exact hstarted ((h.root target slot hslot).mp hbundle)
            rw [if_neg hcached, if_neg hstarted, (hsound.member _ _ _).mp hslot]
            have hsame := Layout.bundle_of_slot hslot
            rw [← hsame] at hbundle
            have hrun := run_endsAlike ih (hcode target hpresent) (h.start_member hsound hslot hne) hbundle
            rw [hsame] at hrun
            exact hrun
      | require hroot =>
          rw [EndsAlike, load, bundled, require]
          cases hslot : layout.slot target with
          | none =>
              by_cases hcached : target ∈ state.cached
              · rw [if_pos hcached, if_pos ((h.alone target hslot).mp hcached)]
                exact ⟨rfl, h, Finset.Subset.refl _⟩
              · rw [if_neg hcached, if_neg fun hmem => hcached ((h.alone target hslot).mpr hmem)]
                have hbundle : layout.bundle target ∈ insert target other.cached := by
                  rw [Layout.bundle_of_alone hslot]
                  exact Finset.mem_insert_self _ _
                obtain ⟨houtcome, hnext, hgrown⟩ :=
                  run_endsAlike ih (hcode target hpresent) (h.cache_alone hslot) hbundle
                rw [Layout.bundle_of_alone hslot] at houtcome hnext hgrown
                exact ⟨houtcome, hnext, (Finset.subset_insert _ _).trans hgrown⟩
          | some place =>
              obtain ⟨found, slot⟩ := place
              obtain rfl : found = target := (Layout.bundle_of_slot hslot).symm.trans hroot
              by_cases hcached : found ∈ state.cached
              · have hknown := (h.root found slot hslot).mpr ((h.member found _ hslot).mp hcached)
                rw [if_pos hcached, if_pos hknown]
                exact ⟨rfl, h, Finset.Subset.refl _⟩
              · have hstarted : (found, slot) ∉ other.initialized :=
                  fun hmem => hcached ((h.member found _ hslot).mpr hmem)
                have hunknown : found ∉ other.cached := fun hmem => hstarted ((h.root found slot hslot).mp hmem)
                rw [if_neg hcached, if_neg hunknown]
                dsimp only
                rw [startMember, if_neg hstarted, (hsound.member _ _ _).mp hslot]
                have hbundle : layout.bundle found ∈ insert found other.cached := by
                  rw [Layout.bundle_of_slot hslot]
                  exact Finset.mem_insert_self _ _
                obtain ⟨houtcome, hnext, hgrown⟩ :=
                  run_endsAlike ih (hcode found hpresent) (h.start_root hsound hslot) hbundle
                rw [Layout.bundle_of_slot hslot] at houtcome hnext hgrown
                exact ⟨houtcome, hnext, (Finset.subset_insert _ _).trans hgrown⟩

/-- Requests for roots, one after the other, end alike and leave the same heap. -/
theorem loadAll_eq_bundledAll (hsound : layout.Sound)
    (hcode : ∀ module, present module = true → (code module).Within (EmitsSoundly layout emit present module))
    (fuel : Nat) {targets : List M} (htargets : ∀ target ∈ targets, present target = true ∧ layout.IsRoot target)
    {state : Loaded M H} {other : Bundled M H} (h : Agree layout state other) :
    (loadAll perform code present fuel targets state).1 = (bundledAll perform code layout emit fuel targets other).1 ∧
      Agree layout (loadAll perform code present fuel targets state).2
        (bundledAll perform code layout emit fuel targets other).2 := by
  induction targets generalizing state other with
  | nil => exact ⟨rfl, h⟩
  | cons target targets ih =>
      obtain ⟨hpresent, hroot⟩ := htargets target List.mem_cons_self
      obtain ⟨houtcome, hnext, -⟩ :=
        load_endsAlike hsound hcode fuel target state target _ other hpresent h (.require hroot)
      obtain ⟨houtcomes, hlast⟩ := ih (fun later hlater => htargets later (List.mem_cons_of_mem _ hlater)) hnext
      rw [loadAll, bundledAll]
      exact ⟨congrArg₂ List.cons houtcome houtcomes, hlast⟩

omit [DecidableEq M] in
theorem agree_start (heap : H) : Agree layout (⟨heap, ∅⟩ : Loaded M H) ⟨heap, ∅, ∅⟩ where
  heap := rfl
  member := fun module place _ => by simp
  alone := fun module _ => by simp
  root := fun module slot _ => by simp

end

end ModuleLoading
