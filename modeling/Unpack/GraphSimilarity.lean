import Unpack.Lib.Similarity
import Unpack.SideEffectPreservation

/-! Module graphs that look alike from some of their modules, whose handles may differ. What the static walk and the
side effects phase make of such modules depends on nothing else, so it looks alike as well. -/

namespace Unpack

open Worklist Similarity

/-- Connections of paired modules to paired modules, made for the same dependency. -/
structure SameConnection (R : ModuleHandle → ModuleHandle → Prop) (left right : ModuleGraphConnection) : Prop where
  origin : ∃ a b, left.originModule = some a ∧ right.originModule = some b ∧ R a b
  originBlock : left.originBlock = right.originBlock
  dependency : left.dependency = right.dependency
  module : R left.module right.module
  state : left.state = right.state

/-- The modules are paired one to one, and the connections of paired modules are the same in order. -/
structure GraphsAlike (left right : ModuleGraph) (R : ModuleHandle → ModuleHandle → Prop) : Prop where
  indexed : left.Indexed
  indexed' : right.Indexed
  unique : Relator.BiUnique R
  lt : ∀ {a b}, R a b → a < left.modules.length ∧ b < right.modules.length
  outgoing : ∀ {a b}, R a b →
    List.Forall₂ (SameConnection R) (left.outgoingConnections a) (right.outgoingConnections b)

/-- Paired modules also have the same flag, and the same of their exports is used. -/
structure SameUsage (left right : ModuleGraph) (R : ModuleHandle → ModuleHandle → Prop) : Prop where
  free : ∀ {a b}, R a b → left.isFlaggedSideEffectFree a = right.isFlaggedSideEffectFree b
  exportsInfo : ∀ {a b}, R a b → left.exportsInfo a = right.exportsInfo b

namespace GraphsAlike

variable {left right : ModuleGraph} {R : ModuleHandle → ModuleHandle → Prop}

/-- Targets of the connections that some test selects. -/
theorem targets (h : GraphsAlike left right R) {p : ModuleGraphConnection → Bool}
    (hp : ∀ c d, SameConnection R c d → p c = p d) {a b : ModuleHandle} (hab : R a b) :
    List.Forall₂ R (((left.outgoingConnections a).filter p).map (·.module))
      (((right.outgoingConnections b).filter p).map (·.module)) :=
  List.rel_map (fun _ _ hcd => hcd.module)
    (List.rel_filter (fun c d hcd => Bool.eq_iff_iff.mp (hp c d hcd)) (h.outgoing hab))

theorem isStatic_eq {c d : ModuleGraphConnection} (h : SameConnection R c d) : c.isStatic = d.isStatic := by
  rw [ModuleGraphConnection.isStatic, ModuleGraphConnection.isStatic, ModuleGraphConnection.isActive,
    ModuleGraphConnection.isActive, h.originBlock, h.dependency, h.state]

theorem staticSuccessors (h : GraphsAlike left right R) :
    Alike left.staticSuccessors right.staticSuccessors R :=
  ⟨h.unique, h.targets fun _ _ hcd => isStatic_eq hcd⟩

theorem sideEffectTargets (h : GraphsAlike left right R) :
    Alike left.sideEffectTargets right.sideEffectTargets R :=
  ⟨h.unique, h.targets fun _ _ hcd => by rw [hcd.dependency]⟩

/-- The static walks from paired modules collect paired modules, in the same order. -/
theorem collectStaticReachable (h : GraphsAlike left right R) {a b : ModuleHandle} (hab : R a b) :
    List.Forall₂ R (left.collectStaticReachable a) (right.collectStaticReachable b) := by
  have hcost : ∀ {graph : ModuleGraph}, graph.Indexed → ∀ start : ModuleHandle,
      cost graph.staticSuccessors (List.range graph.modules.length) [start] [] ≤ graph.connections.length + 1 := by
    intro graph hindexed start
    have hsum := ModuleGraph.sum_staticSuccessors_le hindexed
    simp only [cost, List.length_cons, List.length_nil, List.not_mem_nil, not_false_eq_true, decide_true,
      List.filter_true]
    omega
  refine h.staticSuccessors.collect (List.range left.modules.length) (List.range right.modules.length) ?_ ?_ _ _
    [a] [] [b] [] (.cons hab .nil) .nil ?_ ?_ (hcost h.indexed a) (hcost h.indexed' b)
  · exact fun _ _ target htarget => List.mem_range.mpr (ModuleGraph.staticSuccessors_lt h.indexed htarget)
  · exact fun _ _ target htarget => List.mem_range.mpr (ModuleGraph.staticSuccessors_lt h.indexed' htarget)
  · exact fun c hc => List.mem_range.mpr (List.mem_singleton.mp hc ▸ (h.lt hab).1)
  · exact fun d hd => List.mem_range.mpr (List.mem_singleton.mp hd ▸ (h.lt hab).2)

theorem leadsToSideEffect (h : GraphsAlike left right R) (husage : SameUsage left right R) {a b : ModuleHandle}
    (hab : R a b) (hleads : left.LeadsToSideEffect a) : right.LeadsToSideEffect b := by
  obtain ⟨impure, hreach, hflag⟩ := hleads
  obtain ⟨impure', hreach', hR⟩ := h.sideEffectTargets.reach hab hreach
  exact ⟨impure', hreach', (husage.free hR).symm.trans hflag⟩

theorem symm (h : GraphsAlike left right R) : GraphsAlike right left fun b a => R a b where
  indexed := h.indexed'
  indexed' := h.indexed
  unique := ⟨fun _ _ _ hb hb' => h.unique.2 hb hb', fun _ _ _ ha ha' => h.unique.1 ha ha'⟩
  lt hab := (h.lt hab).symm
  outgoing hab := by
    refine (List.Forall₂.flip ((h.outgoing hab).imp fun c d hcd => ?_))
    obtain ⟨⟨origin, origin', horigin, horigin', hR⟩, hblock, hdependency, hmodule, hstate⟩ := hcd
    exact ⟨⟨origin', origin, horigin', horigin, hR⟩, hblock.symm, hdependency.symm, hmodule, hstate.symm⟩

theorem moduleHasSideEffects (h : GraphsAlike left right R) (husage : SameUsage left right R) {a b : ModuleHandle}
    (hab : R a b) : left.moduleHasSideEffects a = right.moduleHasSideEffects b := by
  rw [Bool.eq_iff_iff, ModuleGraph.moduleHasSideEffects_iff h.indexed (h.lt hab).1,
    ModuleGraph.moduleHasSideEffects_iff h.indexed' (h.lt hab).2]
  constructor
  · exact h.leadsToSideEffect husage hab
  · exact h.symm.leadsToSideEffect ⟨fun hba => (husage.free hba).symm, fun hba => (husage.exportsInfo hba).symm⟩ hab

theorem head?_rel {α β : Type} {P : α → β → Prop} {items : List α} {items' : List β} (h : List.Forall₂ P items items') :
    Option.Rel P items.head? items'.head? := by
  cases h with
  | nil => exact .none
  | cons hP _ => exact .some hP

/-- The connections that a filter picks, each with something that depends on its dependency only. -/
theorem picked (h : GraphsAlike left right R) {γ : Type} (pick : Dependency → Option γ) {a b : ModuleHandle}
    (hab : R a b) :
    List.Forall₂ (fun s t : ModuleGraphConnection × γ => SameConnection R s.1 t.1 ∧ s.2 = t.2)
      ((left.outgoingConnections a).filterMap fun connection => (pick connection.dependency).map (connection, ·))
      ((right.outgoingConnections b).filterMap fun connection => (pick connection.dependency).map (connection, ·)) := by
  refine List.rel_filterMap (fun c d hcd => ?_) (h.outgoing hab)
  show Option.Rel _ ((pick c.dependency).map (c, ·)) ((pick d.dependency).map (d, ·))
  rw [hcd.dependency]
  cases pick d.dependency with
  | none => exact .none
  | some picked => exact .some ⟨hcd, rfl⟩

/-- The first id of a re-export under this name. -/
def namedReexport (exportName : String) : Dependency → Option (Option String)
  | .harmonyExportImportedSpecifier dependency =>
      if dependency.name = some exportName then some dependency.ids.head? else none
  | _ => none

def starReexport (exportName : String) : Dependency → Option (Option String)
  | .harmonyExportImportedSpecifier dependency => if dependency.isStar then some (some exportName) else none
  | _ => none

theorem nextReexport_eq (graph : ModuleGraph) (module : ModuleHandle) (exportName : String) :
    graph.nextReexport module exportName =
      (let outgoing := (graph.outgoingConnections module).filterMap fun connection =>
        (namedReexport exportName connection.dependency).map (connection, ·)
      if outgoing.length = 1 then outgoing.head?
      else if exportName ≠ "default" then
        let stars := (graph.outgoingConnections module).filterMap fun connection =>
          (starReexport exportName connection.dependency).map (connection, ·)
        if stars.length = 1 then stars.head? else none
      else none) := by
  have hnamed : (fun connection : ModuleGraphConnection =>
      match connection.dependency with
      | .harmonyExportImportedSpecifier dependency =>
          if dependency.name = some exportName then some (connection, dependency.ids.head?) else none
      | _ => none) = fun connection => (namedReexport exportName connection.dependency).map (connection, ·) := by
    funext connection
    cases connection.dependency <;> try rfl
    simp only [namedReexport]
    split_ifs <;> rfl
  have hstar : (fun connection : ModuleGraphConnection =>
      match connection.dependency with
      | .harmonyExportImportedSpecifier dependency =>
          if dependency.isStar then some (connection, some exportName) else none
      | _ => none) = fun connection => (starReexport exportName connection.dependency).map (connection, ·) := by
    funext connection
    cases connection.dependency <;> try rfl
    simp only [starReexport]
    split_ifs <;> rfl
  rw [← hnamed, ← hstar]
  rfl

theorem nextReexport (h : GraphsAlike left right R) {a b : ModuleHandle} (hab : R a b) (exportName : String) :
    Option.Rel (fun s t : ModuleGraphConnection × Option String => SameConnection R s.1 t.1 ∧ s.2 = t.2)
      (left.nextReexport a exportName) (right.nextReexport b exportName) := by
  rw [nextReexport_eq, nextReexport_eq]
  have hnamed := h.picked (namedReexport exportName) hab
  have hstars := h.picked (starReexport exportName) hab
  dsimp only
  rw [hnamed.length_eq, hstars.length_eq]
  split_ifs
  · exact head?_rel hnamed
  · exact head?_rel hstars
  · exact .none
  · exact .none

theorem resolveReexport (h : GraphsAlike left right R) (husage : SameUsage left right R) (fuel fuel' : Nat)
    {a b : ModuleHandle} (hab : R a b) (exportName : String) (moved : Bool) {visited visited' : List ModuleHandle}
    (hvisited : List.Forall₂ R visited visited') (hnodup : visited.Nodup) (hnodup' : visited'.Nodup)
    (hin : ∀ c ∈ visited, c < left.modules.length) (hin' : ∀ d ∈ visited', d < right.modules.length)
    (hfuel : left.modules.length + 1 ≤ fuel + visited.length)
    (hfuel' : right.modules.length + 1 ≤ fuel' + visited'.length) :
    Option.Rel (fun s t : ModuleHandle × String => R s.1 t.1 ∧ s.2 = t.2)
      (left.resolveReexport fuel a exportName moved visited)
        (right.resolveReexport fuel' b exportName moved visited') := by
  have hle := (hnodup.subperm fun c hc => List.mem_range.mpr (hin c hc)).length_le
  have hle' := (hnodup'.subperm fun d hd => List.mem_range.mpr (hin' d hd)).length_le
  rw [List.length_range] at hle hle'
  induction fuel generalizing fuel' a b exportName moved visited visited' with
  | zero => omega
  | succ fuel ih =>
      cases fuel' with
      | zero => omega
      | succ fuel' =>
          have hresult : Option.Rel (fun s t : ModuleHandle × String => R s.1 t.1 ∧ s.2 = t.2)
              (if moved then some (a, exportName) else none) (if moved then some (b, exportName) else none) := by
            split_ifs
            · exact .some ⟨hab, rfl⟩
            · exact .none
          have hmem : a ∈ visited ↔ b ∈ visited' := List.rel_mem h.unique hab hvisited
          have hfree : left.moduleIsSideEffectFree a = right.moduleIsSideEffectFree b :=
            Bool.not_inj (h.moduleHasSideEffects husage hab)
          have hends : (a ∈ visited ∨ left.moduleIsSideEffectFree a = false) ↔
              (b ∈ visited' ∨ right.moduleIsSideEffectFree b = false) := by rw [hmem, hfree]
          rw [ModuleGraph.resolveReexport, ModuleGraph.resolveReexport]
          by_cases hstop : b ∈ visited' ∨ right.moduleIsSideEffectFree b = false
          · rw [if_pos (hends.mpr hstop), if_pos hstop]
            exact hresult
          · rw [if_neg fun hleft => hstop (hends.mp hleft), if_neg hstop]
            have hseen := (not_or.mp hstop).1
            have hnext := h.nextReexport hab exportName
            revert hnext
            generalize left.nextReexport a exportName = next
            generalize right.nextReexport b exportName = next'
            intro hnext
            cases hnext with
            | none => exact hresult
            | @some s t hst =>
                obtain ⟨connection, name⟩ := s
                obtain ⟨connection', name'⟩ := t
                obtain ⟨hconnection, rfl⟩ := hst
                have hvisited' : List.Forall₂ R (a :: visited) (b :: visited') := .cons hab hvisited
                have hmem' : connection.module ∈ a :: visited ↔ connection'.module ∈ b :: visited' :=
                  List.rel_mem h.unique hconnection.module hvisited'
                dsimp only
                by_cases hcycle : connection'.module ∈ b :: visited'
                · rw [if_pos (hmem'.mpr hcycle), if_pos hcycle]
                  exact .none
                · rw [if_neg fun hleft => hcycle (hmem'.mp hleft), if_neg hcycle]
                  have hnodupA : (a :: visited).Nodup := List.nodup_cons.mpr ⟨fun ha => hseen (hmem.mp ha), hnodup⟩
                  have hnodupB : (b :: visited').Nodup := List.nodup_cons.mpr ⟨hseen, hnodup'⟩
                  have hinA : ∀ c ∈ a :: visited, c < left.modules.length :=
                    List.forall_mem_cons.mpr ⟨(h.lt hab).1, hin⟩
                  have hinB : ∀ d ∈ b :: visited', d < right.modules.length :=
                    List.forall_mem_cons.mpr ⟨(h.lt hab).2, hin'⟩
                  have hleA := (hnodupA.subperm fun c hc => List.mem_range.mpr (hinA c hc)).length_le
                  have hleB := (hnodupB.subperm fun d hd => List.mem_range.mpr (hinB d hd)).length_le
                  rw [List.length_range, List.length_cons] at hleA hleB
                  exact ih fuel' hconnection.module _ true hvisited' hnodupA hnodupB hinA hinB
                    (by rw [List.length_cons]; omega) (by rw [List.length_cons]; omega) hleA hleB

theorem resolveReexportTarget (h : GraphsAlike left right R) (husage : SameUsage left right R) {a b : ModuleHandle}
    (hab : R a b) (exportName : String) :
    Option.Rel (fun s t : ModuleHandle × String => R s.1 t.1 ∧ s.2 = t.2)
      (left.resolveReexportTarget a exportName) (right.resolveReexportTarget b exportName) :=
  h.resolveReexport husage _ _ hab exportName false .nil .nil .nil (by simp) (by simp) (by simp) (by simp)

theorem specifiersBeside (h : GraphsAlike left right R) {c d : ModuleGraphConnection} (hcd : R c.module d.module)
    {a b : ModuleHandle} (hab : R a b) :
    List.Forall₂ (SameConnection R) (left.specifiersBeside a c) (right.specifiersBeside b d) := by
  refine List.rel_filter (fun candidate candidate' hcandidate => ?_) (h.outgoing hab)
  have hmodule : candidate.module = c.module ↔ candidate'.module = d.module := by
    constructor
    · intro heq
      exact h.unique.2 (heq ▸ hcandidate.module) hcd
    · intro heq
      exact h.unique.1 (heq ▸ hcandidate.module) hcd
  show (_ && _) = true ↔ (_ && _) = true
  rw [hcandidate.dependency, Bool.and_eq_true, Bool.and_eq_true, decide_eq_true_eq, decide_eq_true_eq, hmodule]

/-- What the named imports beside a connection resolve to. -/
theorem resolvedBeside (h : GraphsAlike left right R) (husage : SameUsage left right R)
    {imports imports' : List ModuleGraphConnection} (himports : List.Forall₂ (SameConnection R) imports imports') :
    List.Forall₂ (fun s t : ModuleHandle × String => R s.1 t.1 ∧ s.2 = t.2)
      (imports.filterMap fun candidate =>
        (ModuleGraph.specifierName candidate).bind fun name => left.resolveReexportTarget candidate.module name)
      (imports'.filterMap fun candidate =>
        (ModuleGraph.specifierName candidate).bind fun name => right.resolveReexportTarget candidate.module name) := by
  refine List.rel_filterMap (fun candidate candidate' hcandidate => ?_) himports
  have hname : ModuleGraph.specifierName candidate = ModuleGraph.specifierName candidate' := by
    rw [ModuleGraph.specifierName, ModuleGraph.specifierName, hcandidate.dependency]
  rw [hname]
  cases ModuleGraph.specifierName candidate' with
  | none => exact .none
  | some name => exact h.resolveReexportTarget husage hcandidate.module name

theorem specifierNames {imports imports' : List ModuleGraphConnection}
    (himports : List.Forall₂ (SameConnection R) imports imports') :
    imports.filterMap ModuleGraph.specifierName = imports'.filterMap ModuleGraph.specifierName := by
  induction himports with
  | nil => rfl
  | cons hcd _ ih =>
      have hname : ∀ c d : ModuleGraphConnection, SameConnection R c d →
          ModuleGraph.specifierName c = ModuleGraph.specifierName d := by
        intro c d hcd
        rw [ModuleGraph.specifierName, ModuleGraph.specifierName, hcd.dependency]
      rw [List.filterMap_cons, List.filterMap_cons, hname _ _ hcd, ih]

theorem connectionRewrite (h : GraphsAlike left right R) (husage : SameUsage left right R)
    {c d : ModuleGraphConnection} (hcd : SameConnection R c d) :
    Option.Rel (fun s t : ModuleGraphConnectionHandle × ModuleHandle × String => R s.2.1 t.2.1 ∧ s.2.2 = t.2.2)
      (left.connectionRewrite c) (right.connectionRewrite d) := by
  obtain ⟨a, b, ha, hb, hab⟩ := hcd.origin
  have hbeside := h.specifiersBeside hcd.module hab
  -- A name that is resolved from the target gives the rewrite of the connection.
  have hresolved : ∀ name : Option String,
      Option.Rel (fun s t : ModuleGraphConnectionHandle × ModuleHandle × String => R s.2.1 t.2.1 ∧ s.2.2 = t.2.2)
        (name.bind fun name => (left.resolveReexportTarget c.module name).bind fun target =>
          some (c.handle, target.1, target.2))
        (name.bind fun name => (right.resolveReexportTarget d.module name).bind fun target =>
          some (d.handle, target.1, target.2)) := by
    intro name
    cases name with
    | none => exact .none
    | some name =>
        have htarget := h.resolveReexportTarget husage hcd.module name
        show Option.Rel _ ((left.resolveReexportTarget c.module name).bind _)
          ((right.resolveReexportTarget d.module name).bind _)
        revert htarget
        generalize left.resolveReexportTarget c.module name = target
        generalize right.resolveReexportTarget d.module name = target'
        intro htarget
        cases htarget with
        | none => exact .none
        | some hst => exact .some hst
  rw [ModuleGraph.connectionRewrite, ModuleGraph.connectionRewrite, hcd.dependency, ha, hb]
  cases d.dependency with
  | harmonyImportSideEffect _ =>
      have htargets := h.resolvedBeside husage hbeside
      simp only [Option.bind_eq_bind, Option.bind_some]
      rw [htargets.length_eq, hbeside.length_eq]
      split_ifs
      · exact .none
      · revert htargets
        generalize (left.specifiersBeside a c).filterMap _ = targets
        generalize (right.specifiersBeside b d).filterMap _ = targets'
        intro htargets
        cases htargets with
        | nil => exact .none
        | @cons s t rest rest' hst hrest =>
            have hall : List.Forall₂ (fun s t : ModuleHandle × String => R s.1 t.1 ∧ s.2 = t.2) (s :: rest)
              (t :: rest') :=
              .cons hst hrest
            have hflip : List.Forall₂ (fun t s : ModuleHandle × String => R s.1 t.1 ∧ s.2 = t.2) (t :: rest')
              (s :: rest) :=
              hall.flip
            have hany : ((s :: rest).any fun target => decide (target.1 ≠ s.1)) =
                (t :: rest').any fun target => decide (target.1 ≠ t.1) := by
              rw [Bool.eq_iff_iff, List.any_eq_true, List.any_eq_true]
              have hne : ∀ {u v : ModuleHandle × String}, R u.1 v.1 → (u.1 ≠ s.1 ↔ v.1 ≠ t.1) := by
                intro u v huv
                refine not_congr ⟨fun heq => ?_, fun heq => ?_⟩
                · exact h.unique.2 (heq ▸ huv) hst.1
                · exact h.unique.1 (heq ▸ huv) hst.1
              constructor
              · rintro ⟨u, hu, hdiffers⟩
                obtain ⟨v, hv, huv⟩ := exists_right hall hu
                exact ⟨v, hv, by simpa [hne huv.1] using hdiffers⟩
              · rintro ⟨v, hv, hdiffers⟩
                obtain ⟨u, hu, huv⟩ := exists_right hflip hv
                exact ⟨u, hu, by simpa [hne huv.1] using hdiffers⟩
            simp only [List.head?_cons, Option.bind_some]
            rw [hany]
            split_ifs
            · exact .none
            · exact .some hst
  | harmonyImportSpecifier dependency =>
      simp only [Option.bind_eq_bind, Option.bind_some]
      rw [specifierNames hbeside]
      split_ifs
      · exact .none
      · exact hresolved dependency.ids.head?
  | harmonyExportImportedSpecifier dependency =>
      simp only [Option.bind_eq_bind]
      split_ifs
      · exact .none
      · exact hresolved dependency.ids.head?
  | _ => exact .none

theorem rewritten (h : GraphsAlike left right R) (husage : SameUsage left right R) {c d : ModuleGraphConnection}
    (hcd : SameConnection R c d) : SameConnection R (left.rewritten c) (right.rewritten d) := by
  have hrewrite := h.connectionRewrite husage hcd
  rw [ModuleGraph.rewritten, ModuleGraph.rewritten]
  revert hrewrite
  generalize left.connectionRewrite c = rewrite
  generalize right.connectionRewrite d = rewrite'
  intro hrewrite
  cases hrewrite with
  | none => exact hcd
  | @some s t hst =>
      obtain ⟨handle, module, name⟩ := s
      obtain ⟨handle', module', name'⟩ := t
      obtain ⟨hmodule, hname⟩ := hst
      have hname' : name = name' := hname
      exact ⟨hcd.origin, hcd.originBlock, by rw [hcd.dependency, hname'], hmodule, hcd.state⟩

/-- The connections of a module after a change of every connection. -/
theorem outgoingConnections_map {graph changed : ModuleGraph} {f : ModuleGraphConnection → ModuleGraphConnection}
    (hindexed : graph.Indexed) (hchanged : changed.Indexed)
    (hconnections : changed.connections = graph.connections.map f)
    (horigin : ∀ connection, (f connection).originModule = connection.originModule) (module : ModuleHandle) :
    changed.outgoingConnections module = (graph.outgoingConnections module).map f := by
  rw [hchanged.outgoingConnections_eq, hindexed.outgoingConnections_eq, hconnections, List.filter_map]
  have hfilter : (fun connection : ModuleGraphConnection => decide (connection.originModule = some module)) ∘ f =
      fun connection => decide (connection.originModule = some module) := by
    funext connection
    exact congrArg (fun origin => decide (origin = some module)) (horigin connection)
  rw [hfilter]

theorem rewriteConnections (h : GraphsAlike left right R) (husage : SameUsage left right R) :
    GraphsAlike left.rewriteConnections right.rewriteConnections R := by
  obtain ⟨hindexed, hmodules, -, hconnections⟩ := ModuleGraph.rewriteConnections_spec h.indexed
  obtain ⟨hindexed', hmodules', -, hconnections'⟩ := ModuleGraph.rewriteConnections_spec h.indexed'
  refine ⟨hindexed, hindexed', h.unique, ?_, ?_⟩
  · rw [hmodules, hmodules']
    exact h.lt
  · intro a b hab
    rw [outgoingConnections_map h.indexed hindexed hconnections ModuleGraph.originModule_rewritten,
      outgoingConnections_map h.indexed' hindexed' hconnections' ModuleGraph.originModule_rewritten]
    exact List.rel_map (fun _ _ hcd => h.rewritten husage hcd) (h.outgoing hab)

theorem exportsInfo_congr {graph changed : ModuleGraph} (hinfos : changed.exportsInfos = graph.exportsInfos)
    (handle : ModuleHandle) : changed.exportsInfo handle = graph.exportsInfo handle := by
  rw [ModuleGraph.exportsInfo, ModuleGraph.exportsInfo, hinfos]

theorem isFlaggedSideEffectFree_congr {graph changed : ModuleGraph} (hmodules : changed.modules = graph.modules)
    (handle : ModuleHandle) : changed.isFlaggedSideEffectFree handle = graph.isFlaggedSideEffectFree handle := by
  rw [ModuleGraph.isFlaggedSideEffectFree, ModuleGraph.isFlaggedSideEffectFree, ModuleGraph.module, ModuleGraph.module,
    hmodules]

theorem usage_rewriteConnections (h : GraphsAlike left right R) (husage : SameUsage left right R) :
    SameUsage left.rewriteConnections right.rewriteConnections R := by
  obtain ⟨-, hmodules, hinfos, -⟩ := ModuleGraph.rewriteConnections_spec h.indexed
  obtain ⟨-, hmodules', hinfos', -⟩ := ModuleGraph.rewriteConnections_spec h.indexed'
  refine ⟨?_, ?_⟩
  · intro a b hab
    rw [isFlaggedSideEffectFree_congr hmodules, isFlaggedSideEffectFree_congr hmodules']
    exact husage.free hab
  · intro a b hab
    rw [exportsInfo_congr hinfos, exportsInfo_congr hinfos']
    exact husage.exportsInfo hab

theorem connectionIsActive (h : GraphsAlike left right R) (husage : SameUsage left right R)
    {c d : ModuleGraphConnection} (hcd : SameConnection R c d) :
    left.connectionIsActive c = right.connectionIsActive d := by
  obtain ⟨a, b, ha, hb, hab⟩ := hcd.origin
  rw [ModuleGraph.connectionIsActive, ModuleGraph.connectionIsActive, hcd.dependency, ha, hb]
  cases d.dependency with
  | harmonyImportSideEffect _ =>
      have hbeside := (h.specifiersBeside hcd.module hab).length_eq
      have hempty : (left.specifiersBeside a c).isEmpty = (right.specifiersBeside b d).isEmpty := by
        rw [Bool.eq_iff_iff, List.isEmpty_iff_length_eq_zero, List.isEmpty_iff_length_eq_zero, hbeside]
      simp only [h.moduleHasSideEffects husage hcd.module, Option.any_some, hempty]
  | harmonyExportImportedSpecifier dependency =>
      simp only [Option.any_some, husage.exportsInfo hab, ModuleGraph.moduleExportsAreUsed,
        husage.exportsInfo hcd.module]
  | _ => rfl

/-- The optimised graphs look alike. -/
theorem optimizeDependencies (h : GraphsAlike left right R) (husage : SameUsage left right R) :
    GraphsAlike left.optimizeDependencies right.optimizeDependencies R := by
  obtain ⟨hindexed, hmodules, -, hconnections⟩ := ModuleGraph.optimizeDependencies_spec h.indexed
  obtain ⟨hindexed', hmodules', -, hconnections'⟩ := ModuleGraph.optimizeDependencies_spec h.indexed'
  refine ⟨hindexed, hindexed', h.unique, ?_, ?_⟩
  · rw [hmodules, hmodules']
    exact h.lt
  · intro a b hab
    rw [outgoingConnections_map h.indexed hindexed hconnections ModuleGraph.originModule_rewritten,
      outgoingConnections_map h.indexed' hindexed' hconnections' ModuleGraph.originModule_rewritten]
    refine List.rel_map (fun c d hcd => ?_) (h.outgoing hab)
    obtain ⟨horigin, hblock, hdependency, hmodule, -⟩ := h.rewritten husage hcd
    refine ⟨horigin, hblock, hdependency, hmodule, ?_⟩
    have hactive := (h.rewriteConnections husage).connectionIsActive (h.usage_rewriteConnections husage)
      (h.rewritten husage hcd)
    show (if _ then _ else _) = if _ then _ else _
    rw [hactive]

end GraphsAlike

end Unpack
