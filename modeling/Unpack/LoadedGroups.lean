import Unpack.SettledPlanning

/-! Every planned group is loaded along some path from an entrypoint: a plan is made while one of its
parents is visited, and no recorded import is ever taken back. -/

namespace Unpack

section

variable {graph : ModuleGraph} {reachable : ModuleHandle → List ModuleHandle}
variable {entries : List ModuleHandle}

namespace AsyncPlanning

def Loads (planning : AsyncPlanning) (parent child : LogicalChunkGroup) : Prop :=
  ∃ origin target, child = .asyncChunk target ∧ planning.Recorded parent (origin, target)

/-- Every group that has a plan is at the end of a loading path. -/
def Rooted (planning : AsyncPlanning) : Prop :=
  ∀ target, (planning.plans.lookup target).isSome → ∃ path,
    Availability.LoadingPath LogicalChunkGroup.IsEntrypoint planning.Loads path (.asyncChunk target)

end AsyncPlanning

theorem visitImport_written (reachable : ModuleHandle → List ModuleHandle)
    (visiting : LogicalChunkGroup) (mask : ModuleMask) (planning : AsyncPlanning)
    {item : AsyncBlockOrigin × ModuleHandle}
    (hlacks : mask.contains item.2 = false) :
    ∃ plan, Written planning (visitImport reachable visiting mask planning item) visiting mask item
      plan := by
  obtain ⟨origin, target⟩ := item
  rw [visitImport, if_neg (by simp [hlacks])]
  cases hlookup : planning.plans.lookup target with
  | none =>
      refine ⟨AsyncChunkPlan.new target (reachable target) visiting mask origin, rfl, ?_⟩
      simp only [AsyncPlanning.parentsOf, hlookup, Option.elim_none, AList.lookup_empty,
        AList.insert_empty]
      rfl
  | some plan =>
      refine ⟨(plan.addParent visiting mask origin).1, rfl, ?_⟩
      rw [parentsOf_of_lookup hlookup]
      rfl

/-- Visiting an import of a group at the end of a path leaves every plan at the end of one. -/
theorem rooted_visitImport {visiting : LogicalChunkGroup} {mask : ModuleMask}
    {planning : AsyncPlanning} (h : planning.Rooted) (item : AsyncBlockOrigin × ModuleHandle)
    (hvisiting : ∃ path, Availability.LoadingPath LogicalChunkGroup.IsEntrypoint planning.Loads path
      visiting) :
    (visitImport reachable visiting mask planning item).Rooted ∧
      ∃ path, Availability.LoadingPath LogicalChunkGroup.IsEntrypoint
        (visitImport reachable visiting mask planning item).Loads path visiting := by
  by_cases hcontains : mask.contains item.2 = true
  · have hsame : visitImport reachable visiting mask planning item = planning := by
      obtain ⟨origin, target⟩ := item
      exact if_pos hcontains
    rw [hsame]
    exact ⟨h, hvisiting⟩
  · obtain ⟨plan, hwritten⟩ := visitImport_written reachable visiting mask planning
      (Bool.not_eq_true _ ▸ hcontains)
    have hmono : ∀ parent child, planning.Loads parent child →
        (visitImport reachable visiting mask planning item).Loads parent child := by
      rintro parent child ⟨origin, target, rfl, hrecorded⟩
      exact ⟨origin, target, rfl, hwritten.recorded_mono hrecorded⟩
    obtain ⟨path, hpath⟩ := hvisiting
    have hpath' := hpath.mono hmono
    refine ⟨fun target htarget => ?_, path, hpath'⟩
    by_cases hsame : target = item.2
    · exact ⟨_, .load hpath' ⟨item.1, target, rfl, hsame ▸ hwritten.recorded⟩⟩
    · rw [hwritten.plans_eq, AList.lookup_insert_ne hsame] at htarget
      obtain ⟨path, hpath⟩ := h target htarget
      exact ⟨path, hpath.mono hmono⟩

theorem rooted_foldl_visitImport {visiting : LogicalChunkGroup} {mask : ModuleMask}
    (items : List (AsyncBlockOrigin × ModuleHandle)) {planning : AsyncPlanning} (h : planning.Rooted)
    (hvisiting : ∃ path, Availability.LoadingPath LogicalChunkGroup.IsEntrypoint planning.Loads path
      visiting) :
    (items.foldl (visitImport reachable visiting mask) planning).Rooted := by
  induction items generalizing planning with
  | nil => exact h
  | cons item items ih =>
      obtain ⟨hrooted, hpath⟩ := rooted_visitImport h item hvisiting
      exact ih hrooted hpath

theorem rooted_planParent {entrypoints : List EntrypointAsyncPlan} {planning next : AsyncPlanning}
    (h : planning.Rooted) (hstep : planParent graph reachable entrypoints planning = some next) :
    next.Rooted := by
  unfold planParent at hstep
  split at hstep
  · exact absurd hstep (Option.some_ne_none next).symm
  next parent pending _ =>
    obtain rfl := Option.some.inj hstep
    cases hparent : ({ planning with pending } : AsyncPlanning).parentModules entrypoints parent with
    | none => exact h
    | some content =>
        refine rooted_foldl_visitImport _ h ?_
        cases parent with
        | entrypoint index => exact ⟨[.entrypoint index], .root ⟨index, rfl⟩⟩
        | asyncChunk target =>
            refine h target ?_
            obtain ⟨plan, hplan, -⟩ := Option.map_eq_some_iff.mp hparent
            exact Option.isSome_of_eq_some hplan

theorem rooted_planAsyncChunks : (planAsyncChunks graph reachable entries).Rooted :=
  Fixpoint.iterate_inv _ (fun _ _ h hstep => rooted_planParent h hstep) _ _ fun _ hnone =>
    absurd hnone (by simp)

namespace LogicalChunkGroup

/-- Every group of the finished plans is loaded along some path. -/
theorem Exists.loaded {group : LogicalChunkGroup} (h : group.Exists graph reachable entries) :
    ∃ path, Availability.LoadingPath IsEntrypoint (Loads graph reachable entries) path group := by
  cases group with
  | entrypoint index => exact ⟨[.entrypoint index], .root ⟨index, rfl⟩⟩
  | asyncChunk target =>
      refine rooted_planAsyncChunks target ?_
      obtain ⟨plan, hplan⟩ := Option.isSome_iff_exists.mp h
      obtain ⟨found, hfound, -⟩ := Option.map_eq_some_iff.mp hplan
      exact Option.isSome_of_eq_some hfound

variable (hgraph : graph.Indexed) (hreach : ReachesExactly graph reachable)
variable (hentries : ∀ entry ∈ entries, entry < graph.modules.length)

include hgraph hreach hentries

/-- What is available anywhere is carried somewhere. -/
theorem Available.exists_carrier {group : LogicalChunkGroup} {module : ModuleHandle}
    (h : group.Available graph reachable entries module) :
    ∃ carrier : LogicalChunkGroup, carrier.Carries graph reachable entries module := by
  obtain ⟨modules, mask, hplan, hcontains⟩ := h
  have hexists : group.Exists graph reachable entries := Option.isSome_of_eq_some hplan
  obtain ⟨path, hpath⟩ := hexists.loaded
  obtain ⟨carrier, -, hcarries⟩ := (justified hgraph hreach hentries).carried_on_path hpath
    ⟨modules, mask, hplan, hcontains⟩
  exact ⟨carrier, hcarries⟩

/-- The target of an import that a group carries is carried somewhere. -/
theorem Carries.exists_target_carrier {group : LogicalChunkGroup} {origin : AsyncBlockOrigin}
    {target : ModuleHandle} (h : group.Carries graph reachable entries origin.module)
    (himport : graph.ImportsFrom origin target) :
    ∃ carrier : LogicalChunkGroup, carrier.Carries graph reachable entries target := by
  rcases h.import_settled hgraph hreach hentries himport with havailable | hload
  · exact havailable.exists_carrier hgraph hreach hentries
  · obtain ⟨-, -, -, hexists⟩ := hload.spec hgraph hreach hentries
    exact ⟨_, carries_target hgraph hreach hentries hexists⟩

end LogicalChunkGroup

end

end Unpack
