import Unpack.OptimizeDependencies
import Unpack.Lib.Delegation

/-! Re-exports that are followed through side-effect-free modules, against the resolution of exports: a
module's own export comes first, then its re-exports of the name, then its stars, which leave out the
default export. -/

namespace Unpack

open Delegation

/-- What an export comes to in the end. -/
inductive ExportBinding where
  | local (module : ModuleHandle) (name : String)
  | namespace (module : ModuleHandle)
  deriving DecidableEq

namespace ModuleGraph

/-- A module and the name of one of its exports. -/
abbrev ExportName := ModuleHandle × String

variable (graph : ModuleGraph)

def Dependency.exportsLocally (name : String) : Dependency → Bool
  | .harmonyExportSpecifier dependency => dependency.name = name
  | .harmonyExportExpression _ => name = "default"
  | _ => false

/-- The module declares the export itself. -/
def ExportsLocally (export_ : ExportName) : Prop :=
  ∃ module, graph.module export_.1 = some module ∧
    ∃ dependency ∈ module.dependencies, Dependency.exportsLocally export_.2 dependency = true

/-- The re-exports of a name, with the first id of each. -/
def namedReexports (export_ : ExportName) : List (ModuleGraphConnection × Option String) :=
  (graph.outgoingConnections export_.1).filterMap fun connection =>
    match connection.dependency with
    | .harmonyExportImportedSpecifier dependency =>
        if dependency.name = some export_.2 then some (connection, dependency.ids.head?) else none
    | _ => none

def starReexports (export_ : ExportName) : List (ModuleGraphConnection × Option String) :=
  (graph.outgoingConnections export_.1).filterMap fun connection =>
    match connection.dependency with
    | .harmonyExportImportedSpecifier dependency =>
        if dependency.isStar then some (connection, some export_.2) else none
    | _ => none

/-- `export { first as name } from`, or `export * as name from` when there is no first. -/
def ReexportsName (export_ : ExportName) (target : ModuleHandle) (first : Option String) : Prop :=
  ∃ connection, (connection, first) ∈ graph.namedReexports export_ ∧ connection.module = target

/-- `export * from` -/
def ReexportsAll (export_ : ExportName) (target : ModuleHandle) : Prop :=
  ∃ connection first, (connection, first) ∈ graph.starReexports export_ ∧ connection.module = target

inductive HoldsExport (export_ : ExportName) : ExportBinding → Prop where
  | local (h : graph.ExportsLocally export_) : HoldsExport export_ (.local export_.1 export_.2)
  | namespace {target : ModuleHandle} (hlocal : ¬ graph.ExportsLocally export_)
      (h : graph.ReexportsName export_ target none) : HoldsExport export_ (.namespace target)

inductive PassesExport (export_ : ExportName) : ExportName → Prop where
  | name {target : ModuleHandle} {first : String} (hlocal : ¬ graph.ExportsLocally export_)
      (h : graph.ReexportsName export_ target (some first)) : PassesExport export_ (target, first)
  | star {target : ModuleHandle} (hlocal : ¬ graph.ExportsLocally export_)
      (hnamed : ∀ other first, ¬ graph.ReexportsName export_ other first)
      (hdefault : export_.2 ≠ "default") (h : graph.ReexportsAll export_ target) :
      PassesExport export_ (target, export_.2)

/-- The binding that an export resolves to, when there is exactly one. -/
def ResolvesTo : ExportName → ExportBinding → Prop := Resolves graph.PassesExport graph.HoldsExport

/-- Resolution does not leave the module by a single re-export with a name or by a star: the module declares
the export itself, re-exports the name as a namespace or re-exports it more than once. -/
def Strays (export_ : ExportName) : Prop :=
  graph.ExportsLocally export_ ∨ (∃ target, graph.ReexportsName export_ target none) ∨
    1 < (graph.namedReexports export_).length

variable {graph} {export_ next : ExportName}

theorem nextReexport_eq : graph.nextReexport export_.1 export_.2 =
    if (graph.namedReexports export_).length = 1 then (graph.namedReexports export_).head?
    else if export_.2 ≠ "default" then
      if (graph.starReexports export_).length = 1 then (graph.starReexports export_).head? else none
    else none := rfl

theorem eq_singleton_of_head {α : Type} {items : List α} {item : α} (hlength : items.length = 1)
    (hhead : items.head? = some item) : items = [item] := by
  obtain ⟨only, rfl⟩ := List.length_eq_one_iff.mp hlength
  rw [Option.some.inj hhead]

theorem snd_of_mem_starReexports {connection : ModuleGraphConnection} {first : Option String}
    (h : (connection, first) ∈ graph.starReexports export_) : first = some export_.2 := by
  obtain ⟨other, -, hpair⟩ := List.mem_filterMap.mp h
  split at hpair
  · split_ifs at hpair
    cases hpair
    rfl
  · cases hpair

/-- A turn that does not stray is a step of resolution, and the only one. -/
theorem passesOnlyTo_of_reexports (hturn : graph.Reexports export_ next) (hstray : ¬ graph.Strays export_) :
    PassesOnlyTo graph.PassesExport graph.HoldsExport export_ next := by
  obtain ⟨hlocal, hstray⟩ := not_or.mp hstray
  obtain ⟨hnamespace, hmany⟩ := not_or.mp hstray
  obtain ⟨-, connection, nextExport, hnext, rfl⟩ := hturn
  have hholds : ∀ binding, ¬ graph.HoldsExport export_ binding := by
    intro binding hbinding
    cases hbinding with
    | «local» h => exact hlocal h
    | «namespace» _ h => exact hnamespace ⟨_, h⟩
  rw [nextReexport_eq] at hnext
  by_cases hone : (graph.namedReexports export_).length = 1
  · rw [if_pos hone] at hnext
    have hnamed := eq_singleton_of_head hone hnext
    cases nextExport with
    | none => exact absurd ⟨_, connection, by rw [hnamed]; exact List.mem_singleton_self _, rfl⟩ hnamespace
    | some first =>
        refine ⟨hholds, fun other => ⟨fun hpasses => ?_, ?_⟩⟩
        · cases hpasses with
          | name _ h =>
              obtain ⟨found, hfound, rfl⟩ := h
              rw [hnamed] at hfound
              cases List.mem_singleton.mp hfound
              rfl
          | star _ hnone _ _ =>
              exact absurd ⟨connection, by rw [hnamed]; exact List.mem_singleton_self _, rfl⟩
                (hnone connection.module (some first))
        · rintro rfl
          exact .name hlocal ⟨connection, by rw [hnamed]; exact List.mem_singleton_self _, rfl⟩
  · have hempty : graph.namedReexports export_ = [] :=
      List.eq_nil_of_length_eq_zero (by omega)
    have hnone : ∀ other first, ¬ graph.ReexportsName export_ other first := by
      rintro other first ⟨found, hfound, -⟩
      rw [hempty] at hfound
      cases hfound
    rw [if_neg hone] at hnext
    split_ifs at hnext with hdefault hstar
    have hstars := eq_singleton_of_head hstar hnext
    obtain rfl : nextExport = some export_.2 :=
      @snd_of_mem_starReexports _ _ connection _ (by rw [hstars]; exact List.mem_singleton_self _)
    refine ⟨hholds, fun other => ⟨fun hpasses => ?_, ?_⟩⟩
    · cases hpasses with
      | name _ h => exact absurd h (hnone _ _)
      | star _ _ _ h =>
          obtain ⟨found, first, hfound, rfl⟩ := h
          rw [hstars] at hfound
          cases List.mem_singleton.mp hfound
          rfl
    · rintro rfl
      exact .star hlocal hnone hdefault
        ⟨connection, _, by rw [hstars]; exact List.mem_singleton_self _, rfl⟩

variable (graph) in
/-- The turns from an export to one where none is left, each to a module that was not visited. -/
inductive Walks : List ModuleHandle → ExportName → List ExportName → ExportName → Prop where
  | ends {visited : List ModuleHandle} {current : ExportName}
      (hends : ∀ next, ¬ graph.Reexports current next) : Walks visited current [] current
  | turn {visited : List ModuleHandle} {current next last : ExportName} {left : List ExportName}
      (hturn : graph.Reexports current next) (hnew : next.1 ∉ current.1 :: visited)
      (hrest : Walks (current.1 :: visited) next left last) : Walks visited current (current :: left) last

theorem Walks.run {visited : List ModuleHandle} {current last : ExportName} {left : List ExportName}
    (h : graph.Walks visited current left last) : Run graph.Reexports current left last := by
  induction h with
  | ends _ => exact .refl _
  | turn hturn _ _ ih => exact .head hturn ih

theorem Reexports.unique {other : ExportName} (h : graph.Reexports export_ next)
    (hother : graph.Reexports export_ other) : other = next := by
  obtain ⟨-, connection, nextExport, hnext, rfl⟩ := h
  obtain ⟨-, connection', nextExport', hnext', rfl⟩ := hother
  cases hnext.symm.trans hnext'
  rfl

theorem lt_of_moduleIsSideEffectFree {module : ModuleHandle}
    (h : graph.moduleIsSideEffectFree module = true) : module < graph.modules.length := by
  have hflag : graph.isFlaggedSideEffectFree module = true :=
    PathSearch.good_of_allGood _ _ [] h _ (.of_reach (.refl _))
  obtain ⟨found, hfound, -⟩ := (Option.any_eq_true _ _).mp hflag
  exact Indexed.module_lt hfound

/-- The loop answers with the last export of the walk, when it has moved. -/
theorem resolveReexport_eq_some_iff {fuel : Nat} {module : ModuleHandle} {exportName : String}
    {moved : Bool} {visited : List ModuleHandle} {target : ExportName}
    (hfuel : graph.modules.length < fuel + visited.length) (hnodup : visited.Nodup)
    (hlt : ∀ earlier ∈ visited, earlier < graph.modules.length) (hfresh : module ∉ visited) :
    graph.resolveReexport fuel module exportName moved visited = some target ↔
      ∃ left, graph.Walks visited (module, exportName) left target ∧ (moved = true ∨ left ≠ []) := by
  induction fuel generalizing module exportName moved visited with
  | zero =>
    have hle : visited.length ≤ (List.range graph.modules.length).length :=
      (hnodup.subperm fun earlier hearlier => List.mem_range.mpr (hlt earlier hearlier)).length_le
    rw [List.length_range] at hle
    omega
  | succ fuel ih =>
    -- without a turn the walk ends where it starts
    have hstop : (∀ next, ¬ graph.Reexports (module, exportName) next) →
        ((if moved then some (module, exportName) else none) = some target ↔
          ∃ left, graph.Walks visited (module, exportName) left target ∧ (moved = true ∨ left ≠ [])) := by
      intro hends
      constructor
      · intro hsome
        split_ifs at hsome with hmoved
        obtain rfl := Option.some.inj hsome
        exact ⟨[], .ends hends, .inl hmoved⟩
      · rintro ⟨left, hwalks, hmoved⟩
        cases hwalks with
        | ends _ => rw [if_pos (hmoved.resolve_right fun hne => hne rfl)]
        | turn hturn _ _ => exact absurd hturn (hends _)
    simp only [resolveReexport]
    by_cases hfree : graph.moduleIsSideEffectFree module = true
    · rw [if_neg (by simp [hfresh, hfree])]
      cases hnext : graph.nextReexport module exportName with
      | none =>
        refine hstop fun next hturn => ?_
        obtain ⟨-, connection, nextExport, hsome, -⟩ := hturn
        exact absurd (hnext.symm.trans hsome) (Option.some_ne_none _).symm
      | some next =>
        obtain ⟨connection, nextExport⟩ := next
        have hturn : graph.Reexports (module, exportName) (connection.module, nextExport.getD exportName) :=
          ⟨hfree, connection, nextExport, hnext, rfl⟩
        by_cases hseen : connection.module ∈ module :: visited
        · simp only [if_pos hseen]
          refine ⟨fun hnone => absurd hnone (Option.some_ne_none target).symm, ?_⟩
          rintro ⟨left, hwalks, -⟩
          cases hwalks with
          | ends hends => exact absurd hturn (hends _)
          | turn hother hnew _ =>
            rw [hturn.unique hother] at hnew
            exact absurd hseen hnew
        · simp only [if_neg hseen]
          rw [ih (by rw [List.length_cons]; omega) (List.nodup_cons.mpr ⟨hfresh, hnodup⟩)
            (List.forall_mem_cons.mpr ⟨lt_of_moduleIsSideEffectFree hfree, hlt⟩) hseen]
          constructor
          · rintro ⟨left, hwalks, -⟩
            exact ⟨_, .turn hturn hseen hwalks, .inr (List.cons_ne_nil _ _)⟩
          · rintro ⟨left, hwalks, -⟩
            cases hwalks with
            | ends hends => exact absurd hturn (hends _)
            | turn hother _ hrest =>
              rw [hturn.unique hother] at hrest
              exact ⟨_, hrest, .inl rfl⟩
    · rw [if_pos (.inr (Bool.not_eq_true _ ▸ hfree))]
      exact hstop fun next hturn => hfree hturn.1

theorem resolveReexportTarget_eq_some_iff {module : ModuleHandle} {name : String} {target : ExportName} :
    graph.resolveReexportTarget module name = some target ↔
      ∃ left, graph.Walks [] (module, name) left target ∧ left ≠ [] := by
  refine (resolveReexport_eq_some_iff (by simp) List.nodup_nil (by simp) List.not_mem_nil).trans ?_
  simp only [Bool.false_eq_true, false_or]

variable (graph) in
/-- A module that is skipped, and where the way goes on. -/
def SkipsFree (export_ next : ExportName) : Prop :=
  (∃ connection nextExport, graph.nextReexport export_.1 export_.2 = some (connection, nextExport) ∧
    next = (connection.module, nextExport.getD export_.2)) ∧
  ∀ module, Worklist.Reach graph.sideEffectTargets export_.1 module →
    graph.isFlaggedSideEffectFree module = true

theorem skipsFree_of_reexports (h : graph.Reexports export_ next) : graph.SkipsFree export_ next :=
  ⟨h.2, fun _ hreach => PathSearch.good_of_allGood _ _ [] h.1 _ (.of_reach hreach)⟩

theorem resolvesTo_iff_of_run {left : List ExportName} (h : Run graph.Reexports export_ left next)
    (hkeep : ∀ passed ∈ left, ¬ graph.Strays passed) (binding : ExportBinding) :
    graph.ResolvesTo export_ binding ↔ graph.ResolvesTo next binding :=
  h.same (fun passed hpassed _ hturn => passesOnlyTo_of_reexports hturn (hkeep passed hpassed)) binding

variable (graph) in
/-- The re-export that the last turn to stray takes. -/
def LastAstray (left : List ExportName) (next : ExportName) : Prop :=
  ∃ before stray after, left = before ++ stray :: after ∧ graph.Strays stray ∧
    (∀ passed ∈ after, ¬ graph.Strays passed) ∧ graph.Reexports stray next

theorem resolves_local (h : graph.ExportsLocally export_) :
    graph.ResolvesTo export_ (.local export_.1 export_.2) := by
  have hpasses : ∀ other, ¬ graph.PassesExport export_ other := by
    intro other hpasses
    cases hpasses with
    | name hlocal _ => exact hlocal h
    | star hlocal _ _ _ => exact hlocal h
  have hholds : ∀ binding, graph.HoldsExport export_ binding → binding = .local export_.1 export_.2 := by
    intro binding hbinding
    cases hbinding with
    | «local» _ => rfl
    | «namespace» hlocal _ => exact absurd h hlocal
  exact resolves_of_holds_only (.local h) hholds hpasses

/-- `barrel.js` with `export const a` and `export * from "impl.js"`, and `impl.js` with `export const a`. -/
def barrelGraph : ModuleGraph := .ofModules
  [{ Module.javaScript "barrel.js"
      [.harmonyExportSpecifier ⟨"a", "a"⟩,
        .harmonyImportSideEffect ⟨{ request := "impl.js", sourceOrder := some 0 }⟩,
        .harmonyExportImportedSpecifier ⟨{ request := "impl.js", sourceOrder := some 0 }, [], none, true⟩] []
      with factorySideEffectFree := some true },
    { Module.javaScript "impl.js" [.harmonyExportSpecifier ⟨"a", "a"⟩] []
      with factorySideEffectFree := some true }] [0]

theorem resolveReexportTarget_barrelGraph :
    barrelGraph.resolveReexportTarget 0 "a" = some (1, "a") := by
  decide

end ModuleGraph

end Unpack
