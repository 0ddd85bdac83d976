/-! Computations with a memo. As long as the memo is sound, a computation yields what it yields without one and
leaves a sound memo; so it is compared with its plain form step by step. -/

namespace Memo

variable {σ α β ε : Type}

/-- What is remembered, or else what is computed. It is remembered then, unless the computation failed. -/
def memoized (find : σ → Option α) (keep : α → σ → σ) (compute : ExceptT ε (StateM σ) α) :
    ExceptT ε (StateM σ) α :=
  ExceptT.mk fun memo =>
    match find memo with
    | some answer => (.ok answer, memo)
    | none =>
        match compute.run memo with
        | (.ok answer, memo) => (.ok answer, keep answer memo)
        | (.error error, memo) => (.error error, memo)

/-- An outcome that is known. -/
def known (outcome : Except ε α) : ExceptT ε (StateM σ) α := ExceptT.mk (pure outcome)

/-- The computation, whatever comes of it. -/
def attempted (computation : ExceptT ε (StateM σ) α) : ExceptT ε (StateM σ) (Except ε α) :=
  ExceptT.mk (Except.ok <$> computation.run)

variable (Sound : σ → Prop)

/-- From every sound memo the computation yields the value and leaves a sound memo. -/
def Yields (computation : StateM σ α) (value : α) : Prop :=
  ∀ memo, Sound memo → (computation memo).1 = value ∧ Sound (computation memo).2

variable {Sound}

namespace Yields

theorem eq {computation : StateM σ α} {value : α} (h : Yields Sound computation value) {memo : σ}
    (hmemo : Sound memo) : (computation memo).1 = value := (h memo hmemo).1

theorem pure (value : α) : Yields Sound (Pure.pure value) value := fun _ hmemo => ⟨rfl, hmemo⟩

theorem bind {computation : StateM σ α} {value : α} {next : α → StateM σ β} {result : β}
    (h : Yields Sound computation value) (hnext : Yields Sound (next value) result) :
    Yields Sound (computation >>= next) result := by
  intro memo hmemo
  obtain ⟨hvalue, hsound⟩ := h memo hmemo
  have hresult := hnext _ hsound
  rw [← hvalue] at hresult
  exact hresult

theorem map (f : α → β) {computation : StateM σ α} {value : α} (h : Yields Sound computation value) :
    Yields Sound (f <$> computation) (f value) := fun memo hmemo => by
  obtain ⟨hvalue, hsound⟩ := h memo hmemo
  exact ⟨congrArg f hvalue, hsound⟩

/-- A loop that stops at the first item that fails the test. -/
theorem allM {items : List α} {test : α → StateM σ Bool} {passes : α → Bool}
    (h : ∀ item ∈ items, Yields Sound (test item) (passes item)) :
    Yields Sound (items.allM test) (items.all passes) := by
  induction items with
  | nil => exact pure true
  | cons item items ih =>
      rw [List.allM, List.all_cons]
      refine (h item List.mem_cons_self).bind ?_
      cases passes item with
      | true => exact ih fun other hother => h other (List.mem_cons_of_mem item hother)
      | false => exact pure false

theorem bindExcept {computation : ExceptT ε (StateM σ) α} {value : Except ε α}
    {next : α → ExceptT ε (StateM σ) β} {result : α → Except ε β} (h : Yields Sound computation.run value)
    (hnext : ∀ answer, value = .ok answer → Yields Sound (next answer).run (result answer)) :
    Yields Sound (computation >>= next).run (value >>= result) := by
  refine @Yields.bind _ _ _ _ _ _ (ExceptT.bindCont next) _ h ?_
  cases value with
  | error error => exact pure _
  | ok answer => exact hnext answer rfl

theorem bindOk {computation : ExceptT ε (StateM σ) α} {value : α} {next : α → ExceptT ε (StateM σ) β}
    {result : Except ε β} (h : Yields Sound computation.run (.ok value))
    (hnext : Yields Sound (next value).run result) :
    Yields Sound (computation >>= next).run result := by
  have hbind := @bindExcept _ _ _ _ _ computation (.ok value) next (fun _ => result) h fun answer hanswer => by
    rwa [← Except.ok.inj hanswer]
  exact hbind

theorem mapExcept (f : α → β) {computation : ExceptT ε (StateM σ) α} {value : Except ε α}
    (h : Yields Sound computation.run value) : Yields Sound (f <$> computation).run (f <$> value) := by
  intro memo hmemo
  obtain ⟨hvalue, hsound⟩ := h memo hmemo
  subst hvalue
  have hrun : (f <$> computation).run memo =
      (f <$> (computation.run memo).1, (computation.run memo).2) := by
    rw [ExceptT.run_map]
    rfl
  rw [hrun]
  exact ⟨rfl, hsound⟩

theorem known (outcome : Except ε α) : Yields Sound (known outcome).run outcome := pure outcome

theorem attempted {computation : ExceptT ε (StateM σ) α} {value : Except ε α}
    (h : Yields Sound computation.run value) : Yields Sound (attempted computation).run (.ok value) :=
  h.map Except.ok

theorem mapM {items : List α} {f : α → ExceptT ε (StateM σ) β} {g : α → Except ε β}
    (h : ∀ item ∈ items, Yields Sound (f item).run (g item)) : Yields Sound (items.mapM f).run (items.mapM g) := by
  induction items with
  | nil => exact pure _
  | cons item items ih =>
      rw [List.mapM_cons, List.mapM_cons]
      refine (h item List.mem_cons_self).bindExcept fun _ _ => ?_
      refine (ih fun other hother => h other (List.mem_cons_of_mem item hother)).bindExcept fun _ _ => ?_
      exact pure _

theorem mapM_ok {items : List α} {f : α → ExceptT ε (StateM σ) β} {g : α → β}
    (h : ∀ item ∈ items, Yields Sound (f item).run (.ok (g item))) :
    Yields Sound (items.mapM f).run (.ok (items.map g)) := by
  induction items with
  | nil => exact pure _
  | cons item items ih =>
      rw [List.mapM_cons, List.map_cons]
      refine (h item List.mem_cons_self).bindOk ?_
      exact (ih fun other hother => h other (List.mem_cons_of_mem item hother)).bindOk (pure _)

theorem foldlM {step : β → α → ExceptT ε (StateM σ) β} {plain : β → α → β} {items : List α}
    (h : ∀ item ∈ items, ∀ b, Yields Sound (step b item).run (.ok (plain b item))) (b : β) :
    Yields Sound (items.foldlM step b).run (.ok (items.foldl plain b)) := by
  induction items generalizing b with
  | nil => exact pure _
  | cons item items ih =>
      rw [List.foldlM_cons, List.foldl_cons]
      refine (h item List.mem_cons_self b).bindOk ?_
      exact ih (fun other hother => h other (List.mem_cons_of_mem _ hother)) _

/-- What is remembered must be what would be computed. -/
theorem memoized {find : σ → Option α} {keep : α → σ → σ} {compute : ExceptT ε (StateM σ) α} {value : Except ε α}
    (hfind : ∀ memo answer, Sound memo → find memo = some answer → value = .ok answer)
    (hkeep : ∀ memo answer, Sound memo → value = .ok answer → Sound (keep answer memo))
    (hcompute : Yields Sound compute.run value) : Yields Sound (memoized find keep compute).run value := by
  intro memo hmemo
  rw [Memo.memoized, ExceptT.run_mk]
  cases hfound : find memo with
  | some answer => exact ⟨(hfind memo answer hmemo hfound).symm, hmemo⟩
  | none =>
      obtain ⟨hvalue, hsound⟩ := hcompute memo hmemo
      rcases hcomputed : compute.run memo with ⟨result, later⟩
      rw [hcomputed] at hvalue hsound
      cases result with
      | error error => exact ⟨hvalue, hsound⟩
      | ok answer => exact ⟨hvalue, hkeep later answer hsound hvalue.symm⟩

end Yields

variable (Sound) in
/-- What the computation yields does not depend on the memo. -/
def Stable (computation : StateM σ α) : Prop := ∃ value, Yields Sound computation value

namespace Stable

theorem yields {computation : StateM σ α} (h : Stable Sound computation) {memo : σ} (hmemo : Sound memo) :
    Yields Sound computation (computation memo).1 := by
  obtain ⟨value, hvalue⟩ := h
  rwa [hvalue.eq hmemo]

theorem bindExcept {computation : ExceptT ε (StateM σ) α} {next : α → ExceptT ε (StateM σ) β}
    (h : Stable Sound computation.run) (hnext : ∀ answer, Stable Sound (next answer).run) :
    Stable Sound (computation >>= next).run := by
  obtain ⟨value, hvalue⟩ := h
  obtain ⟨result, hresult⟩ := Classical.skolem.mp hnext
  exact ⟨value >>= result, hvalue.bindExcept fun answer _ => hresult answer⟩

end Stable

end Memo
