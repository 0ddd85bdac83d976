import Mathlib.Data.List.Forall2

/-! Computations that may fail: what a sequence of them did when it succeeded, and values that come back from
a conversion and its converse. -/

namespace Fallible

variable {α β ε : Type}

theorem of_bind_ok {action : Except ε α} {next : α → Except ε β} {result : β}
    (h : (action >>= next) = .ok result) : ∃ value, action = .ok value ∧ next value = .ok result := by
  cases action with
  | error error => cases h
  | ok value => exact ⟨value, rfl, h⟩

theorem eq_ok_of_toOption {result : Except ε α} {value : α} (h : result.toOption = some value) :
    result = .ok value := by
  cases result with
  | error _ => cases h
  | ok _ => exact congrArg Except.ok (Option.some.inj h)

theorem of_map_ok {f : α → β} {action : Except ε α} {result : β} (h : f <$> action = .ok result) :
    ∃ value, action = .ok value ∧ f value = result := by
  cases action with
  | error error => cases h
  | ok value =>
    cases h
    exact ⟨value, rfl, rfl⟩

theorem forall₂_of_mapM {f : α → Except ε β} {items : List α} {results : List β}
    (h : items.mapM f = .ok results) : List.Forall₂ (fun item result => f item = .ok result) items results := by
  induction items generalizing results with
  | nil =>
    cases h
    exact .nil
  | cons item items ih =>
    rw [List.mapM_cons] at h
    obtain ⟨result, hresult, h⟩ := of_bind_ok h
    obtain ⟨others, hothers, h⟩ := of_bind_ok h
    cases h
    exact .cons hresult (ih hothers)

theorem map_eq_of_mapM {γ : Type} {f : α → Except ε β} {key : β → γ} {source : α → γ}
    (hkey : ∀ item result, f item = .ok result → key result = source item) {items : List α} {results : List β}
    (h : items.mapM f = .ok results) : results.map key = items.map source := by
  have hall := forall₂_of_mapM h
  clear h
  induction hall with
  | nil => rfl
  | cons hresult _ ih => rw [List.map_cons, List.map_cons, hkey _ _ hresult, ih]

theorem of_mapM {f : α → Except ε β} {items : List α} {results : List β} (h : items.mapM f = .ok results) :
    (∀ result ∈ results, ∃ item ∈ items, f item = .ok result) ∧
      ∀ item ∈ items, ∃ result ∈ results, f item = .ok result := by
  induction items generalizing results with
  | nil =>
    cases h
    exact ⟨by simp, by simp⟩
  | cons item items ih =>
    rw [List.mapM_cons] at h
    obtain ⟨result, hresult, hrest⟩ := of_bind_ok h
    obtain ⟨others, hothers, hpure⟩ := of_bind_ok hrest
    cases hpure
    obtain ⟨hback, hforth⟩ := ih hothers
    constructor
    · intro other hother
      rcases List.mem_cons.mp hother with rfl | hother
      · exact ⟨item, List.mem_cons_self, hresult⟩
      · obtain ⟨source, hsource, hsame⟩ := hback other hother
        exact ⟨source, List.mem_cons_of_mem _ hsource, hsame⟩
    · intro other hother
      rcases List.mem_cons.mp hother with rfl | hother
      · exact ⟨result, List.mem_cons_self, hresult⟩
      · obtain ⟨target, htarget, hsame⟩ := hforth other hother
        exact ⟨target, List.mem_cons_of_mem _ htarget, hsame⟩

/-- What holds of all results is a condition on the items. -/
theorem forall_iff_of_mapM {f : α → Except ε β} {holds : β → Prop} {condition : α → Prop} {items : List α}
    {results : List β} (hitem : ∀ item result, f item = .ok result → (holds result ↔ condition item))
    (h : items.mapM f = .ok results) : (∀ result ∈ results, holds result) ↔ ∀ item ∈ items, condition item := by
  obtain ⟨hback, hforth⟩ := of_mapM h
  constructor
  · intro hall item hmem
    obtain ⟨result, hresult, hitemResult⟩ := hforth item hmem
    exact (hitem item result hitemResult).mp (hall result hresult)
  · intro hall result hmem
    obtain ⟨item, hitemMem, hitemResult⟩ := hback result hmem
    exact (hitem item result hitemResult).mpr (hall item hitemMem)

theorem exists_mapM_ok {f : α → Except ε β} {items : List α} :
    (∃ results, items.mapM f = .ok results) ↔ ∀ item ∈ items, ∃ result, f item = .ok result := by
  induction items with
  | nil => exact ⟨fun _ item hitem => absurd hitem List.not_mem_nil, fun _ => ⟨[], rfl⟩⟩
  | cons item rest ih =>
    rw [List.forall_mem_cons, ← ih]
    constructor
    · rintro ⟨results, h⟩
      rw [List.mapM_cons] at h
      obtain ⟨result, hresult, h⟩ := of_bind_ok h
      obtain ⟨others, hothers, -⟩ := of_bind_ok h
      exact ⟨⟨result, hresult⟩, others, hothers⟩
    · rintro ⟨⟨result, hresult⟩, others, hothers⟩
      refine ⟨result :: others, ?_⟩
      rw [List.mapM_cons, hresult, hothers]
      rfl

theorem exists_map_ok_iff {f : α → β} {action : Except ε α} :
    (∃ result, f <$> action = .ok result) ↔ ∃ value, action = .ok value := by
  constructor
  · rintro ⟨result, h⟩
    obtain ⟨value, hvalue, -⟩ := of_map_ok h
    exact ⟨value, hvalue⟩
  · rintro ⟨value, rfl⟩
    exact ⟨f value, rfl⟩

/-- A computation whose rest succeeds on a condition that does not depend on what came before. -/
theorem exists_bind_ok_iff {action : Except ε α} {next : α → Except ε β} {condition : Prop}
    (hnext : ∀ value, (∃ result, next value = .ok result) ↔ condition) :
    (∃ result, (action >>= next) = .ok result) ↔ (∃ value, action = .ok value) ∧ condition := by
  constructor
  · rintro ⟨result, h⟩
    obtain ⟨value, hvalue, h⟩ := of_bind_ok h
    exact ⟨⟨value, hvalue⟩, (hnext value).mp ⟨result, h⟩⟩
  · rintro ⟨⟨value, rfl⟩, hcondition⟩
    exact (hnext value).mpr hcondition

theorem exists_bind_ok_iff_of_forall {action : Except ε α} {next : α → Except ε β}
    (hnext : ∀ value, ∃ result, next value = .ok result) :
    (∃ result, (action >>= next) = .ok result) ↔ ∃ value, action = .ok value :=
  (exists_bind_ok_iff fun value => iff_true_intro (hnext value)).trans (and_iff_left trivial)

theorem exists_foldlM_ok_iff {σ : Type} {f : σ → α → Except ε σ} {condition : α → Prop}
    (hf : ∀ item state, (∃ after, f state item = .ok after) ↔ condition item) {items : List α} {start : σ} :
    (∃ after, items.foldlM f start = .ok after) ↔ ∀ item ∈ items, condition item := by
  induction items generalizing start with
  | nil => exact ⟨fun _ _ hmem => absurd hmem List.not_mem_nil, fun _ => ⟨start, rfl⟩⟩
  | cons item items ih =>
      rw [List.foldlM_cons, List.forall_mem_cons, ← hf item start]
      exact exists_bind_ok_iff fun after => ih

/-- A loop over what the items give is a loop over all results. -/
theorem foldlM_eq_foldl_mapM {σ : Type} {f : α → Except ε β} {next : σ → β → σ} (items : List α) (start : σ) :
    (items.foldlM (fun state item => do
      let result ← f item
      return next state result) start : Except ε σ) =
      (fun results => results.foldl next start) <$> items.mapM f := by
  induction items generalizing start with
  | nil => rfl
  | cons item rest ih =>
    rw [List.foldlM_cons, List.mapM_cons]
    cases f item with
    | error error => rfl
    | ok result =>
      change rest.foldlM _ (next start result) = _
      rw [ih]
      cases rest.mapM f <;> rfl

/-- A fold whose every step appends its item's part has appended the parts of all items. -/
theorem foldlM_collects {σ : Type} {f : σ → α → Except ε σ} {collected : σ → List β} {part : α → List β}
    (hf : ∀ state item after, f state item = .ok after → collected after = collected state ++ part item)
    {items : List α} {start after : σ} (h : items.foldlM f start = .ok after) :
    collected after = collected start ++ items.flatMap part := by
  induction items generalizing start with
  | nil =>
      cases h
      exact (List.append_nil _).symm
  | cons item items ih =>
      rw [List.foldlM_cons] at h
      obtain ⟨middle, hmiddle, hrest⟩ := of_bind_ok h
      rw [ih hrest, hf start item middle hmiddle, List.append_assoc, List.flatMap_cons]

/-- A fold whose steps keep a property, when it has a result. -/
theorem of_foldlM_some {σ : Type} {f : σ → α → Option σ} {P : σ → Prop}
    (hf : ∀ {state item state'}, f state item = some state' → P state → P state') {items : List α}
    {start after : σ} (h : items.foldlM f start = some after) (hstart : P start) : P after := by
  induction items generalizing start with
  | nil =>
    cases h
    exact hstart
  | cons item items ih =>
    rw [List.foldlM_cons] at h
    obtain ⟨middle, hstep, hrest⟩ := Option.bind_eq_some_iff.mp h
    exact ih hrest (hf hstep hstart)

theorem forall₂_of_mapM_some {f : α → Option β} {items : List α} {results : List β}
    (h : items.mapM f = some results) :
    List.Forall₂ (fun item result => f item = some result) items results := by
  induction items generalizing results with
  | nil =>
    cases h
    exact .nil
  | cons item items ih =>
    rw [List.mapM_cons] at h
    obtain ⟨result, hresult, h⟩ := Option.bind_eq_some_iff.mp h
    obtain ⟨others, hothers, h⟩ := Option.bind_eq_some_iff.mp h
    cases h
    exact .cons hresult (ih hothers)

theorem exists_of_mem_right {R : α → β → Prop} {items : List α} {results : List β} {result : β}
    (h : List.Forall₂ R items results) (hresult : result ∈ results) :
    ∃ item ∈ items, R item result := by
  induction h with
  | nil => cases hresult
  | cons hhead _ ih =>
    rcases List.mem_cons.mp hresult with rfl | htail
    · exact ⟨_, List.mem_cons_self, hhead⟩
    · obtain ⟨item, hitem, hrelated⟩ := ih htail
      exact ⟨item, List.mem_cons_of_mem _ hitem, hrelated⟩

/-- The value is converted, and the result back to it. -/
def RoundTrips (convert : α → Except ε β) (back : β → Except ε α) (value : α) : Prop :=
  (convert value >>= back) = .ok value

/-- Whatever is converted comes back. -/
def Inverts (convert : α → Except ε β) (back : β → Except ε α) : Prop :=
  ∀ value result, convert value = .ok result → back result = .ok value

variable {convert : α → Except ε β} {back : β → Except ε α}

theorem roundTrips_iff {value : α} :
    RoundTrips convert back value ↔ ∃ result, convert value = .ok result ∧ back result = .ok value := by
  constructor
  · exact of_bind_ok
  · rintro ⟨result, hresult, hback⟩
    rw [RoundTrips, hresult]
    exact hback

theorem Inverts.mapM (h : Inverts convert back) :
    Inverts (fun items : List α => items.mapM convert) fun items : List β => items.mapM back := by
  intro items results hresults
  induction items generalizing results with
  | nil =>
    cases hresults
    rfl
  | cons item rest ih =>
    simp only [List.mapM_cons] at hresults
    obtain ⟨result, hresult, hresults⟩ := of_bind_ok hresults
    obtain ⟨others, hothers, hresults⟩ := of_bind_ok hresults
    cases hresults
    have hothers' : others.mapM back = .ok rest := ih others hothers
    simp only [List.mapM_cons, h item result hresult, hothers']
    rfl

end Fallible
