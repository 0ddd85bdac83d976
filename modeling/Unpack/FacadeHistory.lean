import Unpack.ModuleGraphFacade

/-! What the module graph facade answers after a history of reads and rebinds. Its maps agree with each other at
any time and with the native graph between two events; the order of a set is that of the native graph when
what was known of it before it was loaded is an initial part. -/

namespace Unpack.Facade

/-- The object that is made of a connection. -/
def NativeModuleGraphConnection.materialized (native : NativeModuleGraphConnection) : ModuleGraphConnection where
  originModule := native.originModuleHandle
  dependency := native.dependency
  resolvedModule := native.resolvedModuleHandle
  weak := native.weak
  module := native.moduleHandle

namespace NativeCompilation

variable {compilation : NativeCompilation} {native other : NativeModuleGraphConnection}

theorem getElem?_handle (h : native ∈ compilation.connections) :
    compilation.connections[native.handle]? = some native := by
  obtain ⟨index, hindex⟩ := List.getElem?_of_mem h
  rwa [compilation.handles index native hindex]

theorem eq_of_handle_eq (h : native ∈ compilation.connections) (hother : other ∈ compilation.connections)
    (hhandle : native.handle = other.handle) : native = other := by
  have hsame := getElem?_handle h
  rw [hhandle, getElem?_handle hother] at hsame
  exact (Option.some.inj hsame).symm

theorem nodup_handles {natives : List NativeModuleGraphConnection} (hnodup : natives.Nodup)
    (hmem : ∀ native ∈ natives, native ∈ compilation.connections) : (natives.map (·.handle)).Nodup :=
  hnodup.map_on fun left hleft right hright => eq_of_handle_eq (hmem left hleft) (hmem right hright)

theorem mem_of_incoming {module : Handle} (h : native ∈ compilation.incomingConnections module) :
    native ∈ compilation.connections := ((compilation.incoming module native).mp h).1

theorem mem_of_outgoing {module : Handle} (h : native ∈ compilation.outgoingConnections module) :
    native ∈ compilation.connections := ((compilation.outgoing module native).mp h).1

theorem mem_connectionsByHandle {handles : List Handle} (h : native ∈ compilation.connectionsByHandle handles) :
    native ∈ compilation.connections := by
  obtain ⟨handle, _, hfound⟩ := List.mem_filterMap.mp h
  exact List.mem_of_getElem? hfound

def incomingHandles (compilation : NativeCompilation) (module : Handle) : List Handle :=
  (compilation.incomingConnections module).map (·.handle)

def outgoingHandles (compilation : NativeCompilation) (module : Handle) : List Handle :=
  (compilation.outgoingConnections module).map (·.handle)

def originOf (compilation : NativeCompilation) (connection : Handle) : Option Handle :=
  (compilation.connections[connection]?).bind (·.originModuleHandle)

def targetOf (compilation : NativeCompilation) (connection : Handle) : Handle :=
  ((compilation.connections[connection]?).map (·.moduleHandle)).getD 0

def firstOrigin (compilation : NativeCompilation) (connections : List Handle) : Option Handle :=
  (connections.find? fun connection => (compilation.originOf connection).isSome).bind compilation.originOf

def view (compilation : NativeCompilation) (connections : List Handle) : List ModuleGraphFacade.View :=
  connections.map fun connection =>
    (connection, (compilation.connections[connection]?).map (·.materialized))

def viewGroups {κ : Type} (compilation : NativeCompilation) (groups : List (κ × List Handle)) :
    List (κ × List ModuleGraphFacade.View) := groups.map fun group => (group.1, compilation.view group.2)

/-- What the graph itself has to say. -/
def answer (compilation : NativeCompilation) : ModuleGraphFacade.Query → ModuleGraphFacade.Answer
  | .incomingConnections module => .connections (compilation.view (compilation.incomingHandles module))
  | .outgoingConnections module => .connections (compilation.view (compilation.outgoingHandles module))
  | .incomingConnectionsByOriginModule module =>
      .byOrigin (compilation.viewGroups
        (groupConnections compilation.originOf (compilation.incomingHandles module)))
  | .outgoingConnectionsByModule module =>
      .byModule (if compilation.outgoingHandles module = [] then none
        else some (compilation.viewGroups
          (groupConnections compilation.targetOf (compilation.outgoingHandles module))))
  | .issuer module =>
      .issuer (if compilation.incomingHandles module = [] then none
        else some (compilation.firstOrigin (compilation.incomingHandles module)))

end NativeCompilation

namespace ModuleGraphFacade

variable {facade : ModuleGraphFacade} {native : NativeModuleGraphConnection} {module : Handle}

theorem addToSetMap_eq_append {map : Handle → List Handle} {key value : Handle} (h : value ∉ map key) :
    addToSetMap map key value = Function.update map key (map key ++ [value]) := by
  rw [addToSetMap, pushNew, if_neg h]

theorem mem_addToSetMap {map : Handle → List Handle} {key value other member : Handle} :
    member ∈ addToSetMap map key value other ↔ member ∈ map other ∨ other = key ∧ member = value := by
  rw [addToSetMap]
  by_cases hkey : other = key
  · subst hkey
    rw [Function.update_self, mem_pushNew]
    exact or_congr Iff.rfl ⟨fun h => ⟨rfl, h⟩, And.right⟩
  · rw [Function.update_of_ne hkey]
    exact ⟨Or.inl, fun h => h.elim id fun hand => absurd hand.1 hkey⟩

theorem mem_removeFromSetMap {map : Handle → List Handle} {key value other member : Handle} :
    member ∈ removeFromSetMap map key value other ↔ member ∈ map other ∧ ¬ (other = key ∧ member = value) := by
  rw [removeFromSetMap]
  by_cases hkey : other = key
  · subst hkey
    rw [Function.update_self, List.mem_filter, decide_eq_true_eq]
    exact and_congr Iff.rfl ⟨fun h hand => h hand.2, fun h heq => h ⟨rfl, heq⟩⟩
  · rw [Function.update_of_ne hkey]
    exact ⟨fun h => ⟨h, fun hand => hkey hand.1⟩, And.left⟩

theorem nodup_addToSetMap {map : Handle → List Handle} {key value : Handle} (h : ∀ other, (map other).Nodup)
    (other : Handle) : (addToSetMap map key value other).Nodup := by
  rw [addToSetMap]
  by_cases hkey : other = key
  · subst hkey
    rw [Function.update_self]
    exact nodup_pushNew (h other) value
  · rw [Function.update_of_ne hkey]
    exact h other

theorem nodup_removeFromSetMap {map : Handle → List Handle} {key value : Handle} (h : ∀ other, (map other).Nodup)
    (other : Handle) : (removeFromSetMap map key value other).Nodup := by
  rw [removeFromSetMap]
  by_cases hkey : other = key
  · subst hkey
    rw [Function.update_self]
    exact (h other).filter _
  · rw [Function.update_of_ne hkey]
    exact h other

/-- The maps of a facade agree with each other. -/
structure Wired (facade : ModuleGraphFacade) : Prop where
  handles : ∀ handle, handle ∈ facade.materializedHandles ↔ (facade.connectionByHandle handle).isSome
  incoming : ∀ module handle, handle ∈ facade.incoming module ↔
    ∃ connection, facade.connectionByHandle handle = some connection ∧ connection.module = module
  outgoing : ∀ module handle, handle ∈ facade.outgoing module ↔
    ∃ connection, facade.connectionByHandle handle = some connection ∧ connection.originModule = some module
  nodupIncoming : ∀ module, (facade.incoming module).Nodup
  nodupOutgoing : ∀ module, (facade.outgoing module).Nodup

theorem Wired.clear (h : Wired facade) : Wired facade.clearGroups :=
  ⟨h.handles, h.incoming, h.outgoing, h.nodupIncoming, h.nodupOutgoing⟩

/-- What is materialized is of a connection of the graph, but for its target. -/
structure Covered (facade : ModuleGraphFacade) (compilation : NativeCompilation) : Prop where
  modules : ∀ module ∈ compilation.modules, module ∈ facade.modulesByHandle
  stored : ∀ handle connection, facade.connectionByHandle handle = some connection →
    ∃ native ∈ compilation.connections, native.handle = handle ∧
      connection.updateModule native.moduleHandle = native.materialized

/-- What a materialization leaves. -/
structure SameBinding (before after : ModuleGraphFacade) : Prop where
  compilation : after.compilation = before.compilation
  modulesByHandle : after.modulesByHandle = before.modulesByHandle
  loadedIncoming : after.loadedIncoming = before.loadedIncoming
  loadedOutgoing : after.loadedOutgoing = before.loadedOutgoing

variable {compilation : NativeCompilation}

theorem Covered.stored_handle (h : Covered facade compilation) (hnative : native ∈ compilation.connections)
    {existing : ModuleGraphConnection} (hexisting : facade.connectionByHandle native.handle = some existing) :
    existing.updateModule native.moduleHandle = native.materialized := by
  obtain ⟨other, hother, hhandle, hsame⟩ := h.stored native.handle existing hexisting
  rwa [NativeCompilation.eq_of_handle_eq hother hnative hhandle] at hsame

/-- A connection that is there already and has its target. -/
theorem materialize_of_same (hnative : native ∈ compilation.connections) (h : Covered facade compilation)
    (hstored : facade.connectionByHandle native.handle = some native.materialized) :
    facade.materializeConnection native = facade := by
  have hmodule := h.modules _ (compilation.modulesExist native hnative).1
  rw [materializeConnection, if_neg (not_not_intro hmodule), hstored]
  exact if_pos rfl

/-- A connection that is not there. -/
theorem materialize_of_new (hnative : native ∈ compilation.connections) (h : Covered facade compilation)
    (hnone : facade.connectionByHandle native.handle = none) :
    facade.materializeConnection native = { facade with
      connectionByHandle := Function.update facade.connectionByHandle native.handle (some native.materialized)
      materializedHandles := facade.materializedHandles ++ [native.handle]
      incoming := addToSetMap facade.incoming native.moduleHandle native.handle
      outgoing := match native.originModuleHandle with
        | some origin => addToSetMap facade.outgoing origin native.handle
        | none => facade.outgoing } := by
  obtain ⟨hmodule, hresolved, horigin⟩ := compilation.modulesExist native hnative
  have hkeeps : native.originModuleHandle.filter (· ∈ facade.modulesByHandle) = native.originModuleHandle := by
    cases hcase : native.originModuleHandle with
    | none => rfl
    | some origin => exact Option.filter_some_pos (decide_eq_true (h.modules _ (horigin origin hcase)))
  rw [materializeConnection, if_neg (not_not_intro (h.modules _ hmodule)), hnone]
  dsimp only
  rw [if_neg (not_not_intro (h.modules _ hresolved)), hkeeps]
  rfl

/-- Where the connection of a handle has changed, the rest is as it was. -/
theorem Covered.update (h : Covered facade compilation) (hnative : native ∈ compilation.connections)
    {after : ModuleGraphFacade} (hmodules : after.modulesByHandle = facade.modulesByHandle)
    (hstore : after.connectionByHandle =
      Function.update facade.connectionByHandle native.handle (some native.materialized)) :
    Covered after compilation := by
  refine ⟨hmodules ▸ h.modules, fun handle connection hconnection => ?_⟩
  rw [hstore] at hconnection
  by_cases hsame : handle = native.handle
  · subst hsame
    rw [Function.update_self] at hconnection
    cases hconnection
    exact ⟨native, hnative, rfl, rfl⟩
  · rw [Function.update_of_ne hsame] at hconnection
    exact h.stored handle connection hconnection

theorem Wired.new (h : Wired facade) (hnone : facade.connectionByHandle native.handle = none)
    {after : ModuleGraphFacade}
    (hstore : after.connectionByHandle =
      Function.update facade.connectionByHandle native.handle (some native.materialized))
    (hhandles : after.materializedHandles = facade.materializedHandles ++ [native.handle])
    (hincoming : after.incoming = addToSetMap facade.incoming native.moduleHandle native.handle)
    (houtgoing : after.outgoing = match native.originModuleHandle with
      | some origin => addToSetMap facade.outgoing origin native.handle
      | none => facade.outgoing) : Wired after := by
  have hstored : ∀ handle connection, after.connectionByHandle handle = some connection ↔
      facade.connectionByHandle handle = some connection ∨
        handle = native.handle ∧ connection = native.materialized := by
    intro handle connection
    rw [hstore]
    by_cases hsame : handle = native.handle
    · subst hsame
      rw [Function.update_self, hnone]
      exact ⟨fun heq => Or.inr ⟨rfl, (Option.some.inj heq).symm⟩, fun hor => hor.elim nofun fun hand => by rw [hand.2]⟩
    · rw [Function.update_of_ne hsame]
      exact ⟨Or.inl, fun hor => hor.elim id fun hand => absurd hand.1 hsame⟩
  refine ⟨fun handle => ?_, fun target handle => ?_, fun origin handle => ?_, ?_, ?_⟩
  · rw [hhandles, List.mem_append, List.mem_singleton, h.handles, Option.isSome_iff_exists, Option.isSome_iff_exists]
    constructor
    · rintro (⟨connection, hold⟩ | rfl)
      · exact ⟨connection, (hstored _ _).mpr (Or.inl hold)⟩
      · exact ⟨native.materialized, (hstored _ _).mpr (Or.inr ⟨rfl, rfl⟩)⟩
    · rintro ⟨connection, hnew⟩
      exact ((hstored _ _).mp hnew).imp (fun hold => ⟨connection, hold⟩) And.left
  · rw [hincoming, mem_addToSetMap, h.incoming]
    constructor
    · rintro (⟨connection, hold, htarget⟩ | ⟨rfl, rfl⟩)
      · exact ⟨connection, (hstored _ _).mpr (Or.inl hold), htarget⟩
      · exact ⟨native.materialized, (hstored _ _).mpr (Or.inr ⟨rfl, rfl⟩), rfl⟩
    · rintro ⟨connection, hnew, htarget⟩
      rcases (hstored _ _).mp hnew with hold | ⟨rfl, rfl⟩
      · exact Or.inl ⟨connection, hold, htarget⟩
      · exact Or.inr ⟨htarget.symm, rfl⟩
  · have hpushed : handle ∈ after.outgoing origin ↔
        handle ∈ facade.outgoing origin ∨ native.originModuleHandle = some origin ∧ handle = native.handle := by
      rw [houtgoing]
      cases native.originModuleHandle with
      | none => exact ⟨Or.inl, fun hor => hor.elim id fun hand => nomatch hand.1⟩
      | some from' =>
          dsimp only
          rw [mem_addToSetMap]
          exact or_congr Iff.rfl (and_congr ⟨fun heq => by rw [heq], fun heq => (Option.some.inj heq).symm⟩ Iff.rfl)
    rw [hpushed, h.outgoing]
    constructor
    · rintro (⟨connection, hold, horigin⟩ | ⟨horigin, rfl⟩)
      · exact ⟨connection, (hstored _ _).mpr (Or.inl hold), horigin⟩
      · exact ⟨native.materialized, (hstored _ _).mpr (Or.inr ⟨rfl, rfl⟩), horigin⟩
    · rintro ⟨connection, hnew, horigin⟩
      rcases (hstored _ _).mp hnew with hold | ⟨rfl, rfl⟩
      · exact Or.inl ⟨connection, hold, horigin⟩
      · exact Or.inr ⟨horigin, rfl⟩
  · rw [hincoming]
    exact nodup_addToSetMap h.nodupIncoming
  · rw [houtgoing]
    cases native.originModuleHandle with
    | none => exact h.nodupOutgoing
    | some origin => exact nodup_addToSetMap h.nodupOutgoing

/-- A connection whose target changes moves between the sets of the two targets. -/
theorem Wired.moved (h : Wired facade) {existing : ModuleGraphConnection} {target handle : Handle}
    (hexisting : facade.connectionByHandle handle = some existing) :
    Wired { facade with
      incoming := addToSetMap (removeFromSetMap facade.incoming existing.module handle) target handle
      connectionByHandle := Function.update facade.connectionByHandle handle
        (some (existing.updateModule target)) } := by
  have hstored : ∀ other connection,
      Function.update facade.connectionByHandle handle (some (existing.updateModule target)) other = some connection ↔
        facade.connectionByHandle other = some connection ∧ other ≠ handle ∨
          other = handle ∧ connection = existing.updateModule target := by
    intro other connection
    by_cases hsame : other = handle
    · subst hsame
      rw [Function.update_self]
      exact ⟨fun heq => Or.inr ⟨rfl, (Option.some.inj heq).symm⟩,
        fun hor => hor.elim (fun hand => absurd rfl hand.2) fun hand => by rw [hand.2]⟩
    · rw [Function.update_of_ne hsame]
      exact ⟨fun heq => Or.inl ⟨heq, hsame⟩, fun hor => hor.elim And.left fun hand => absurd hand.1 hsame⟩
  refine ⟨fun other => ?_, fun module other => ?_, fun origin other => ?_, ?_, h.nodupOutgoing⟩
  · rw [h.handles]
    by_cases hsame : other = handle
    · subst hsame
      show _ ↔ (Function.update facade.connectionByHandle other _ other).isSome = true
      rw [hexisting, Function.update_self]
      exact Iff.rfl
    · show _ ↔ (Function.update facade.connectionByHandle handle _ other).isSome = true
      rw [Function.update_of_ne hsame]
  · show other ∈ addToSetMap _ _ _ module ↔ _
    rw [mem_addToSetMap, mem_removeFromSetMap, h.incoming]
    constructor
    · rintro (⟨⟨connection, hold, hmodule⟩, hkept⟩ | ⟨rfl, rfl⟩)
      · refine ⟨connection, (hstored _ _).mpr (Or.inl ⟨hold, fun hsame => hkept ⟨?_, hsame⟩⟩), hmodule⟩
        rw [hsame, hexisting] at hold
        rw [← hmodule, Option.some.inj hold]
      · exact ⟨_, (hstored _ _).mpr (Or.inr ⟨rfl, rfl⟩), rfl⟩
    · rintro ⟨connection, hnew, hmodule⟩
      rcases (hstored _ _).mp hnew with ⟨hold, hother⟩ | ⟨rfl, rfl⟩
      · exact Or.inl ⟨⟨connection, hold, hmodule⟩, fun hand => hother hand.2⟩
      · exact Or.inr ⟨hmodule.symm, rfl⟩
  · show other ∈ facade.outgoing origin ↔ _
    rw [h.outgoing]
    constructor
    · rintro ⟨connection, hold, horigin⟩
      by_cases hsame : other = handle
      · subst hsame
        rw [hexisting] at hold
        cases hold
        exact ⟨_, (hstored _ _).mpr (Or.inr ⟨rfl, rfl⟩), horigin⟩
      · exact ⟨connection, (hstored _ _).mpr (Or.inl ⟨hold, hsame⟩), horigin⟩
    · rintro ⟨connection, hnew, horigin⟩
      rcases (hstored _ _).mp hnew with ⟨hold, _⟩ | ⟨rfl, rfl⟩
      · exact ⟨connection, hold, horigin⟩
      · exact ⟨existing, hexisting, horigin⟩
  · exact nodup_addToSetMap (nodup_removeFromSetMap h.nodupIncoming)

/-- A materialization stores the connection with the target it has now. -/
theorem materialize_spec (hnative : native ∈ compilation.connections) (hcovered : Covered facade compilation)
    (hwired : Wired facade) :
    Wired (facade.materializeConnection native) ∧
      (facade.materializeConnection native).connectionByHandle =
        Function.update facade.connectionByHandle native.handle (some native.materialized) ∧
      SameBinding facade (facade.materializeConnection native) := by
  cases hstored : facade.connectionByHandle native.handle with
  | none =>
      rw [materialize_of_new hnative hcovered hstored]
      exact ⟨hwired.new hstored rfl rfl rfl rfl, rfl, rfl, rfl, rfl, rfl⟩
  | some existing =>
      have hupdated := hcovered.stored_handle hnative hstored
      by_cases hmodule : existing.module = native.moduleHandle
      · have hexact : existing = native.materialized := by
          rw [← hupdated, ← hmodule]
          rfl
        rw [hexact] at hstored
        rw [materialize_of_same hnative hcovered hstored]
        refine ⟨hwired, ?_, rfl, rfl, rfl, rfl⟩
        rw [← hstored, Function.update_eq_self]
      · have hregistered := hcovered.modules _ (compilation.modulesExist native hnative).1
        rw [materializeConnection, if_neg (not_not_intro hregistered), hstored]
        dsimp only
        rw [if_neg hmodule]
        refine ⟨hwired.moved hstored, ?_, rfl, rfl, rfl, rfl⟩
        rw [hupdated]

theorem SameBinding.trans {first second third : ModuleGraphFacade} (h : SameBinding first second)
    (hnext : SameBinding second third) : SameBinding first third :=
  ⟨hnext.compilation.trans h.compilation, hnext.modulesByHandle.trans h.modulesByHandle,
    hnext.loadedIncoming.trans h.loadedIncoming, hnext.loadedOutgoing.trans h.loadedOutgoing⟩

/-- After a list has been materialized each of it is stored as it is now, and the others are as before. -/
theorem foldl_materialize_spec {natives : List NativeModuleGraphConnection}
    (hnatives : ∀ native ∈ natives, native ∈ compilation.connections) (hcovered : Covered facade compilation)
    (hwired : Wired facade) :
    let after := natives.foldl materializeConnection facade
    Wired after ∧ Covered after compilation ∧ SameBinding facade after ∧
      (∀ native ∈ natives, after.connectionByHandle native.handle = some native.materialized) ∧
      ∀ handle, (∀ native ∈ natives, native.handle ≠ handle) →
        after.connectionByHandle handle = facade.connectionByHandle handle := by
  induction natives generalizing facade with
  | nil => exact ⟨hwired, hcovered, ⟨rfl, rfl, rfl, rfl⟩, nofun, fun _ _ => rfl⟩
  | cons first natives ih =>
      have hfirst := hnatives first List.mem_cons_self
      obtain ⟨hwiredFirst, hstoreFirst, hsameFirst⟩ := materialize_spec hfirst hcovered hwired
      have hcoveredFirst := hcovered.update hfirst hsameFirst.modulesByHandle hstoreFirst
      obtain ⟨hwiredAll, hcoveredAll, hsameAll, hstored, hothers⟩ :=
        ih (fun native hnative => hnatives native (List.mem_cons_of_mem first hnative)) hcoveredFirst hwiredFirst
      refine ⟨hwiredAll, hcoveredAll, hsameFirst.trans hsameAll, ?_, ?_⟩
      · intro native hnative
        rcases List.mem_cons.mp hnative with rfl | hlater
        · by_cases hagain : ∃ other ∈ natives, other.handle = native.handle
          · obtain ⟨other, hother, hhandle⟩ := hagain
            have hsame := NativeCompilation.eq_of_handle_eq (hnatives other (List.mem_cons_of_mem native hother))
              hfirst hhandle
            have hlast := hstored other hother
            rw [hsame] at hlast
            exact hlast
          · rw [List.foldl_cons, hothers native.handle fun other hother hhandle => hagain ⟨other, hother, hhandle⟩,
              hstoreFirst, Function.update_self]
        · exact hstored native hlater
      · intro handle hne
        rw [List.foldl_cons, hothers handle fun native hnative => hne native (List.mem_cons_of_mem first hnative),
          hstoreFirst, Function.update_of_ne (hne first List.mem_cons_self).symm]

/-- What is materialized is as the graph has it. -/
def Precise (facade : ModuleGraphFacade) (compilation : NativeCompilation) : Prop :=
  ∀ handle connection, facade.connectionByHandle handle = some connection →
    ∃ native ∈ compilation.connections, native.handle = handle ∧ connection = native.materialized

theorem Precise.covered (h : Precise facade compilation)
    (hmodules : ∀ module ∈ compilation.modules, module ∈ facade.modulesByHandle) : Covered facade compilation := by
  refine ⟨hmodules, fun handle connection hconnection => ?_⟩
  obtain ⟨native, hnative, hhandle, rfl⟩ := h handle connection hconnection
  exact ⟨native, hnative, hhandle, rfl⟩

theorem Precise.stored (h : Precise facade compilation) (hnative : native ∈ compilation.connections) :
    facade.connectionByHandle native.handle = none ∨
      facade.connectionByHandle native.handle = some native.materialized := by
  cases hstored : facade.connectionByHandle native.handle with
  | none => exact Or.inl rfl
  | some connection =>
      obtain ⟨other, hother, hhandle, rfl⟩ := h native.handle connection hstored
      rw [NativeCompilation.eq_of_handle_eq hother hnative hhandle]
      exact Or.inr rfl

theorem Precise.update (h : Precise facade compilation) (hnative : native ∈ compilation.connections)
    {after : ModuleGraphFacade}
    (hstore : after.connectionByHandle =
      Function.update facade.connectionByHandle native.handle (some native.materialized)) :
    Precise after compilation := by
  intro handle connection hconnection
  rw [hstore] at hconnection
  by_cases hsame : handle = native.handle
  · subst hsame
    rw [Function.update_self] at hconnection
    cases hconnection
    exact ⟨native, hnative, rfl, rfl⟩
  · rw [Function.update_of_ne hsame] at hconnection
    exact h handle connection hconnection

/-- The connections of a list that are not materialized. -/
def missing (facade : ModuleGraphFacade) (natives : List NativeModuleGraphConnection) :
    List NativeModuleGraphConnection := natives.filter fun native => (facade.connectionByHandle native.handle).isNone

theorem missing_cons_of_some {natives : List NativeModuleGraphConnection}
    (h : facade.connectionByHandle native.handle = some native.materialized) :
    facade.missing (native :: natives) = facade.missing natives := by
  rw [missing, List.filter_cons_of_neg (by rw [h]; exact nofun), missing]

theorem missing_cons_of_none {natives : List NativeModuleGraphConnection}
    (h : facade.connectionByHandle native.handle = none) :
    facade.missing (native :: natives) = native :: facade.missing natives := by
  rw [missing, List.filter_cons_of_pos (by rw [h]; rfl), missing]

/-- Loading appends to each set the connections that were missing, in the order of the list. -/
theorem foldl_materialize_sets {natives : List NativeModuleGraphConnection}
    (hnatives : ∀ native ∈ natives, native ∈ compilation.connections) (hnodup : (natives.map (·.handle)).Nodup)
    (hmodules : ∀ module ∈ compilation.modules, module ∈ facade.modulesByHandle)
    (hprecise : Precise facade compilation) (hwired : Wired facade) (module : Handle) :
    (natives.foldl materializeConnection facade).incoming module = facade.incoming module ++
        ((facade.missing natives).filter (·.moduleHandle = module)).map (·.handle) ∧
      (natives.foldl materializeConnection facade).outgoing module = facade.outgoing module ++
        ((facade.missing natives).filter (·.originModuleHandle = some module)).map (·.handle) := by
  induction natives generalizing facade with
  | nil => exact ⟨(List.append_nil _).symm, (List.append_nil _).symm⟩
  | cons first natives ih =>
      have hfirst := hnatives first List.mem_cons_self
      have hrest : ∀ native ∈ natives, native ∈ compilation.connections := fun native hnative =>
        hnatives native (List.mem_cons_of_mem first hnative)
      obtain ⟨hfresh, hnodupRest⟩ := List.nodup_cons.mp hnodup
      have hcovered := hprecise.covered hmodules
      rw [List.foldl_cons]
      rcases hprecise.stored hfirst with hnone | hsome
      · obtain ⟨hwiredFirst, hstoreFirst, hsameFirst⟩ := materialize_spec hfirst hcovered hwired
        have hmissing : (facade.materializeConnection first).missing natives = facade.missing natives := by
          refine List.filter_congr fun native hnative => ?_
          have hother : native.handle ≠ first.handle := fun hsame => by
            have hmem : native.handle ∈ natives.map (·.handle) := List.mem_map_of_mem hnative
            rw [hsame] at hmem
            exact hfresh hmem
          rw [hstoreFirst, Function.update_of_ne hother]
        obtain ⟨hincoming, houtgoing⟩ := ih hrest hnodupRest (hsameFirst.modulesByHandle ▸ hmodules)
          (hprecise.update hfirst hstoreFirst) hwiredFirst
        rw [hincoming, houtgoing, hmissing, missing_cons_of_none hnone, materialize_of_new hfirst hcovered hnone]
        have habsent : ∀ target, first.handle ∉ facade.incoming target := by
          intro target hmem
          obtain ⟨connection, hstored, _⟩ := (hwired.incoming target first.handle).mp hmem
          rw [hnone] at hstored
          cases hstored
        have habsentOut : ∀ origin, first.handle ∉ facade.outgoing origin := by
          intro origin hmem
          obtain ⟨connection, hstored, _⟩ := (hwired.outgoing origin first.handle).mp hmem
          rw [hnone] at hstored
          cases hstored
        refine ⟨?_, ?_⟩
        · dsimp only
          rw [addToSetMap_eq_append (habsent _)]
          by_cases htarget : first.moduleHandle = module
          · rw [List.filter_cons, if_pos (decide_eq_true htarget), htarget, Function.update_self, List.map_cons,
              List.append_assoc, List.singleton_append]
          · rw [List.filter_cons, if_neg (mt of_decide_eq_true htarget),
              Function.update_of_ne (Ne.symm htarget)]
        · dsimp only
          cases horigin : first.originModuleHandle with
          | none => rw [List.filter_cons, if_neg (by rw [horigin]; exact nofun)]
          | some origin =>
              dsimp only
              rw [addToSetMap_eq_append (habsentOut _)]
              by_cases hsame : origin = module
              · subst hsame
                rw [List.filter_cons, if_pos (decide_eq_true horigin), Function.update_self, List.map_cons,
                  List.append_assoc, List.singleton_append]
              · have hother : ¬ first.originModuleHandle = some module := by
                  rw [horigin]
                  exact fun heq => hsame (Option.some.inj heq)
                rw [List.filter_cons, if_neg (mt of_decide_eq_true hother),
                  Function.update_of_ne (Ne.symm hsame)]
      · rw [materialize_of_same hfirst hcovered hsome, missing_cons_of_some hsome]
        exact ih hrest hnodupRest hmodules hprecise hwired

/-- A list without repetitions, of which an initial part is there, is completed in its order. -/
theorem prefix_append_rest {known full : List Handle} (hinitial : known <+: full) (hnodup : full.Nodup) :
    known ++ full.filter (· ∉ known) = full := by
  obtain ⟨rest, rfl⟩ := hinitial
  obtain ⟨_, _, hapart⟩ := List.nodup_append.mp hnodup
  have hknown : known.filter (· ∉ known) = [] := by
    refine List.filter_eq_nil_iff.mpr fun item hitem => ?_
    rw [decide_eq_true_eq]
    exact not_not_intro hitem
  have hrest : rest.filter (· ∉ known) = rest := by
    refine List.filter_eq_self.mpr fun item hitem => decide_eq_true fun hmem => ?_
    exact hapart item hmem item hitem rfl
  rw [List.filter_append, hknown, hrest, List.nil_append]

/-- A set is complete, in the order of the graph, when what was known of it is an initial part. -/
theorem completed {natives : List NativeModuleGraphConnection} {known : List Handle}
    (hnodup : (natives.map (·.handle)).Nodup) (hinitial : known <+: natives.map (·.handle))
    (hknown : ∀ native ∈ natives, native.handle ∈ known ↔ (facade.connectionByHandle native.handle).isSome) :
    known ++ (facade.missing natives).map (·.handle) = natives.map (·.handle) := by
  have hmissing : (facade.missing natives).map (·.handle) = (natives.map (·.handle)).filter (· ∉ known) := by
    rw [missing, List.filter_map]
    refine congrArg _ (List.filter_congr fun native hnative => ?_)
    have hiff := hknown native hnative
    show _ = decide (native.handle ∉ known)
    cases hstored : facade.connectionByHandle native.handle with
    | none =>
        rw [hstored] at hiff
        have habsent : native.handle ∉ known := fun hmem => by cases hiff.mp hmem
        exact (decide_eq_true habsent).symm
    | some connection =>
        rw [hstored] at hiff
        exact (decide_eq_false (not_not_intro (hiff.mpr rfl))).symm
  rw [hmissing, prefix_append_rest hinitial hnodup]

def AllStored (facade : ModuleGraphFacade) (natives : List NativeModuleGraphConnection) : Prop :=
  ∀ native ∈ natives, facade.connectionByHandle native.handle = some native.materialized

/-- What holds between two events. -/
structure Agrees (facade : ModuleGraphFacade) : Prop where
  wired : Wired facade
  modules : ∀ module ∈ facade.compilation.modules, module ∈ facade.modulesByHandle
  precise : Precise facade facade.compilation
  loadedIncoming : ∀ module, facade.loadedIncoming module = true →
    facade.incoming module = facade.compilation.incomingHandles module
  loadedOutgoing : ∀ module, facade.loadedOutgoing module = true →
    facade.outgoing module = facade.compilation.outgoingHandles module
  byOrigin : ∀ module groups, facade.incomingByOrigin module = some groups →
    groups = groupConnections facade.compilation.originOf (facade.compilation.incomingHandles module) ∧
      facade.AllStored (facade.compilation.incomingConnections module)
  byModule : ∀ module groups, facade.outgoingByModule module = some groups →
    groups = groupConnections facade.compilation.targetOf (facade.compilation.outgoingHandles module) ∧
      facade.AllStored (facade.compilation.outgoingConnections module) ∧
      facade.compilation.outgoingConnections module ≠ []
  issuers : ∀ module issuer, facade.issuers module = some issuer →
    issuer = facade.compilation.firstOrigin (facade.compilation.incomingHandles module) ∧
      facade.AllStored (facade.compilation.incomingConnections module) ∧
      facade.compilation.incomingConnections module ≠ []

theorem Agrees.covered (h : Agrees facade) : Covered facade facade.compilation := h.precise.covered h.modules

theorem Agrees.mem_incoming (h : Agrees facade) (hnative : native ∈ facade.compilation.connections) :
    native.handle ∈ facade.incoming native.moduleHandle ↔ (facade.connectionByHandle native.handle).isSome := by
  rw [h.wired.incoming]
  rcases h.precise.stored hnative with hnone | hsome
  · rw [hnone]
    exact Iff.intro (fun ⟨_, hstored, _⟩ => by cases hstored) nofun
  · rw [hsome]
    exact ⟨fun _ => rfl, fun _ => ⟨_, rfl, rfl⟩⟩

theorem Agrees.mem_outgoing (h : Agrees facade) (hnative : native ∈ facade.compilation.connections) {origin : Handle}
    (horigin : native.originModuleHandle = some origin) :
    native.handle ∈ facade.outgoing origin ↔ (facade.connectionByHandle native.handle).isSome := by
  rw [h.wired.outgoing]
  rcases h.precise.stored hnative with hnone | hsome
  · rw [hnone]
    exact Iff.intro (fun ⟨_, hstored, _⟩ => by cases hstored) nofun
  · rw [hsome]
    exact ⟨fun _ => rfl, fun _ => ⟨_, rfl, horigin⟩⟩

/-- Loading some connections of the graph keeps the agreement. -/
theorem Agrees.synchronize (h : Agrees facade) {natives : List NativeModuleGraphConnection}
    (hnatives : ∀ native ∈ natives, native ∈ facade.compilation.connections) (hnodup : natives.Nodup) :
    Agrees (facade.synchronizeConnections natives) ∧ (facade.synchronizeConnections natives).AllStored natives ∧
      (facade.synchronizeConnections natives).compilation = facade.compilation ∧
      (∀ module, (facade.synchronizeConnections natives).incoming module = facade.incoming module ++
        ((facade.missing natives).filter (·.moduleHandle = module)).map (·.handle)) ∧
      ∀ module, (facade.synchronizeConnections natives).outgoing module = facade.outgoing module ++
        ((facade.missing natives).filter (·.originModuleHandle = some module)).map (·.handle) := by
  obtain ⟨hwired, hcovered, hbinding, hstored, hothers⟩ := foldl_materialize_spec hnatives h.covered h.wired
  have hhandles := NativeCompilation.nodup_handles hnodup hnatives
  have hsets := foldl_materialize_sets hnatives hhandles h.modules h.precise h.wired
  have hprecise : Precise (facade.synchronizeConnections natives) facade.compilation := by
    intro handle connection hconnection
    by_cases hlisted : ∃ native ∈ natives, native.handle = handle
    · obtain ⟨native, hnative, rfl⟩ := hlisted
      have hsame := hconnection.symm.trans (hstored native hnative)
      exact ⟨native, hnatives native hnative, rfl, Option.some.inj hsame⟩
    · refine h.precise handle connection ?_
      rw [← hconnection]
      exact (hothers handle fun native hnative hhandle => hlisted ⟨native, hnative, hhandle⟩).symm
  have hmissing : ∀ native ∈ facade.missing natives,
      native ∈ facade.compilation.connections ∧ ¬ (facade.connectionByHandle native.handle).isSome := by
    intro native hmem
    obtain ⟨hnative, hnone⟩ := List.mem_filter.mp hmem
    exact ⟨hnatives native hnative, Option.not_isSome_iff_eq_none.mpr (Option.isNone_iff_eq_none.mp hnone)⟩
  refine ⟨⟨hwired.clear, ?_, ?_, ?_, ?_, nofun, nofun, nofun⟩, hstored, hbinding.compilation,
    fun module => (hsets module).1, fun module => (hsets module).2⟩
  · show ∀ module ∈ (natives.foldl materializeConnection facade).compilation.modules, _
    rw [hbinding.compilation]
    exact hcovered.modules
  · show Precise _ (natives.foldl materializeConnection facade).compilation
    rw [hbinding.compilation]
    exact hprecise
  · intro module hloaded
    have hbefore := h.loadedIncoming module (by rw [← hbinding.loadedIncoming]; exact hloaded)
    have hnothing : (facade.missing natives).filter (·.moduleHandle = module) = [] := by
      refine List.filter_eq_nil_iff.mpr fun native hmem htarget => ?_
      obtain ⟨hnative, hnone⟩ := hmissing native hmem
      have htarget : native.moduleHandle = module := of_decide_eq_true htarget
      refine hnone ((h.mem_incoming hnative).mp ?_)
      rw [htarget, hbefore]
      exact List.mem_map_of_mem ((facade.compilation.incoming module native).mpr ⟨hnative, htarget⟩)
    show (natives.foldl materializeConnection facade).incoming module =
      (natives.foldl materializeConnection facade).compilation.incomingHandles module
    rw [(hsets module).1, hnothing, hbinding.compilation, ← hbefore]
    exact List.append_nil _
  · intro module hloaded
    have hbefore := h.loadedOutgoing module (by rw [← hbinding.loadedOutgoing]; exact hloaded)
    have hnothing : (facade.missing natives).filter (·.originModuleHandle = some module) = [] := by
      refine List.filter_eq_nil_iff.mpr fun native hmem horigin => ?_
      obtain ⟨hnative, hnone⟩ := hmissing native hmem
      have horigin : native.originModuleHandle = some module := of_decide_eq_true horigin
      refine hnone ((h.mem_outgoing hnative horigin).mp ?_)
      rw [hbefore]
      exact List.mem_map_of_mem ((facade.compilation.outgoing module native).mpr ⟨hnative, horigin⟩)
    show (natives.foldl materializeConnection facade).outgoing module =
      (natives.foldl materializeConnection facade).compilation.outgoingHandles module
    rw [(hsets module).2, hnothing, hbinding.compilation, ← hbefore]
    exact List.append_nil _

/-- What is known of the set before it is loaded is an initial part of what the graph lists. -/
def KnownIncoming (facade : ModuleGraphFacade) (module : Handle) : Prop :=
  facade.loadedIncoming module = true ∨ facade.incoming module <+: facade.compilation.incomingHandles module

def KnownOutgoing (facade : ModuleGraphFacade) (module : Handle) : Prop :=
  facade.loadedOutgoing module = true ∨ facade.outgoing module <+: facade.compilation.outgoingHandles module

theorem Agrees.allStored (h : Agrees facade) {natives : List NativeModuleGraphConnection}
    (hnatives : ∀ native ∈ natives, native ∈ facade.compilation.connections)
    (hsome : ∀ native ∈ natives, (facade.connectionByHandle native.handle).isSome) : facade.AllStored natives := by
  intro native hnative
  rcases h.precise.stored (hnatives native hnative) with hnone | hstored
  · have hfound := hsome native hnative
    rw [hnone] at hfound
    cases hfound
  · exact hstored

theorem Agrees.markIncoming (h : Agrees facade)
    (hfull : facade.incoming module = facade.compilation.incomingHandles module) :
    Agrees { facade with loadedIncoming := Function.update facade.loadedIncoming module true } := by
  have hloaded : ∀ other, Function.update facade.loadedIncoming module true other = true →
      facade.incoming other = facade.compilation.incomingHandles other := by
    intro other hother
    by_cases hsame : other = module
    · rw [hsame, hfull]
    · rw [Function.update_of_ne hsame] at hother
      exact h.loadedIncoming other hother
  exact ⟨⟨h.wired.handles, h.wired.incoming, h.wired.outgoing, h.wired.nodupIncoming, h.wired.nodupOutgoing⟩,
    h.modules, h.precise, hloaded, h.loadedOutgoing, h.byOrigin, h.byModule, h.issuers⟩

theorem Agrees.getIncomingConnections (h : Agrees facade) (hknown : facade.KnownIncoming module) :
    Agrees (facade.getIncomingConnections module).1 ∧
      (facade.getIncomingConnections module).1.compilation = facade.compilation ∧
      (facade.getIncomingConnections module).1.AllStored (facade.compilation.incomingConnections module) ∧
      (facade.getIncomingConnections module).2 = facade.compilation.incomingHandles module := by
  have hnatives : ∀ native ∈ facade.compilation.incomingConnections module,
      native ∈ facade.compilation.connections := fun native => NativeCompilation.mem_of_incoming
  have htarget : ∀ native ∈ facade.compilation.incomingConnections module, native.moduleHandle = module :=
    fun native hnative => ((facade.compilation.incoming module native).mp hnative).2
  have hmem : ∀ native ∈ facade.compilation.incomingConnections module,
      native.handle ∈ facade.incoming module ↔ (facade.connectionByHandle native.handle).isSome := by
    intro native hnative
    rw [← htarget native hnative]
    exact h.mem_incoming (hnatives native hnative)
  rw [ModuleGraphFacade.getIncomingConnections]
  by_cases hloaded : facade.loadedIncoming module = true
  · rw [if_pos hloaded]
    have hfull := h.loadedIncoming module hloaded
    refine ⟨h, rfl, h.allStored hnatives fun native hnative => (hmem native hnative).mp ?_, hfull⟩
    rw [hfull]
    exact List.mem_map_of_mem hnative
  · rw [if_neg hloaded]
    have hnodup := facade.compilation.nodupIncoming module
    obtain ⟨hagrees, hstored, hcompilation, hincoming, _⟩ := h.synchronize hnatives hnodup
    have hall : (facade.missing (facade.compilation.incomingConnections module)).filter (·.moduleHandle = module) =
        facade.missing (facade.compilation.incomingConnections module) :=
      List.filter_eq_self.mpr fun native hnative =>
        decide_eq_true (htarget native (List.mem_filter.mp hnative).1)
    have hfull : (facade.synchronizeConnections (facade.compilation.incomingConnections module)).incoming module =
        facade.compilation.incomingHandles module := by
      rw [hincoming, hall]
      exact completed (NativeCompilation.nodup_handles hnodup hnatives) (hknown.resolve_left hloaded) hmem
    exact ⟨hagrees.markIncoming (hfull.trans (by rw [hcompilation])), hcompilation, hstored, hfull⟩

theorem Agrees.markOutgoing (h : Agrees facade)
    (hfull : facade.outgoing module = facade.compilation.outgoingHandles module) :
    Agrees { facade with loadedOutgoing := Function.update facade.loadedOutgoing module true } := by
  have hloaded : ∀ other, Function.update facade.loadedOutgoing module true other = true →
      facade.outgoing other = facade.compilation.outgoingHandles other := by
    intro other hother
    by_cases hsame : other = module
    · rw [hsame, hfull]
    · rw [Function.update_of_ne hsame] at hother
      exact h.loadedOutgoing other hother
  exact ⟨⟨h.wired.handles, h.wired.incoming, h.wired.outgoing, h.wired.nodupIncoming, h.wired.nodupOutgoing⟩,
    h.modules, h.precise, h.loadedIncoming, hloaded, h.byOrigin, h.byModule, h.issuers⟩

theorem Agrees.getOutgoingConnections (h : Agrees facade) (hknown : facade.KnownOutgoing module) :
    Agrees (facade.getOutgoingConnections module).1 ∧
      (facade.getOutgoingConnections module).1.compilation = facade.compilation ∧
      (facade.getOutgoingConnections module).1.AllStored (facade.compilation.outgoingConnections module) ∧
      (facade.getOutgoingConnections module).2 = facade.compilation.outgoingHandles module := by
  have hnatives : ∀ native ∈ facade.compilation.outgoingConnections module,
      native ∈ facade.compilation.connections := fun native => NativeCompilation.mem_of_outgoing
  have horigin : ∀ native ∈ facade.compilation.outgoingConnections module,
      native.originModuleHandle = some module :=
    fun native hnative => ((facade.compilation.outgoing module native).mp hnative).2
  have hmem : ∀ native ∈ facade.compilation.outgoingConnections module,
      native.handle ∈ facade.outgoing module ↔ (facade.connectionByHandle native.handle).isSome :=
    fun native hnative => h.mem_outgoing (hnatives native hnative) (horigin native hnative)
  rw [ModuleGraphFacade.getOutgoingConnections]
  by_cases hloaded : facade.loadedOutgoing module = true
  · rw [if_pos hloaded]
    have hfull := h.loadedOutgoing module hloaded
    refine ⟨h, rfl, h.allStored hnatives fun native hnative => (hmem native hnative).mp ?_, hfull⟩
    rw [hfull]
    exact List.mem_map_of_mem hnative
  · rw [if_neg hloaded]
    have hnodup := facade.compilation.nodupOutgoing module
    obtain ⟨hagrees, hstored, hcompilation, _, houtgoing⟩ := h.synchronize hnatives hnodup
    have hall : (facade.missing (facade.compilation.outgoingConnections module)).filter
          (·.originModuleHandle = some module) =
        facade.missing (facade.compilation.outgoingConnections module) :=
      List.filter_eq_self.mpr fun native hnative =>
        decide_eq_true (horigin native (List.mem_filter.mp hnative).1)
    have hfull : (facade.synchronizeConnections (facade.compilation.outgoingConnections module)).outgoing module =
        facade.compilation.outgoingHandles module := by
      rw [houtgoing, hall]
      exact completed (NativeCompilation.nodup_handles hnodup hnatives) (hknown.resolve_left hloaded) hmem
    exact ⟨hagrees.markOutgoing (hfull.trans (by rw [hcompilation])), hcompilation, hstored, hfull⟩

theorem groupConnections_congr {κ : Type} [DecidableEq κ] {getKey otherKey : Handle → κ} {connections : List Handle}
    (h : ∀ connection ∈ connections, getKey connection = otherKey connection) :
    groupConnections getKey connections = groupConnections otherKey connections := by
  refine List.foldl_ext _ _ _ fun groups connection hconnection => ?_
  rw [h connection hconnection]

theorem mem_of_groupConnections {κ : Type} [DecidableEq κ] {getKey : Handle → κ} {connections : List Handle}
    {group : κ × List Handle} {member : Handle} (hgroup : group ∈ groupConnections getKey connections)
    (hmember : member ∈ group.2) : member ∈ connections := by
  induction connections using List.reverseRecOn generalizing group with
  | nil => cases hgroup
  | append_singleton connections last ih =>
      rw [groupConnections, List.foldl_append, List.foldl_cons, List.foldl_nil] at hgroup
      rw [List.mem_append, List.mem_singleton]
      split at hgroup
      · obtain ⟨before, hbefore, rfl⟩ := List.mem_map.mp hgroup
        split at hmember
        · exact (List.mem_append.mp hmember).imp (ih hbefore) List.mem_singleton.mp
        · exact Or.inl (ih hbefore hmember)
      · rcases List.mem_append.mp hgroup with hbefore | hlast
        · exact Or.inl (ih hbefore hmember)
        · rw [List.mem_singleton.mp hlast] at hmember
          exact Or.inr (List.mem_singleton.mp hmember)

section Stored

variable {natives : List NativeModuleGraphConnection} (hstored : facade.AllStored natives)
  (hnatives : ∀ native ∈ natives, native ∈ compilation.connections)

include hstored hnatives

theorem connectionByHandle_of_stored {connection : Handle} (h : connection ∈ natives.map (·.handle)) :
    facade.connectionByHandle connection = (compilation.connections[connection]?).map (·.materialized) := by
  obtain ⟨native, hnative, rfl⟩ := List.mem_map.mp h
  rw [hstored native hnative, NativeCompilation.getElem?_handle (hnatives native hnative), Option.map_some]

theorem originOf_of_stored {connection : Handle} (h : connection ∈ natives.map (·.handle)) :
    facade.originOf connection = compilation.originOf connection := by
  rw [originOf, connectionByHandle_of_stored hstored hnatives h, NativeCompilation.originOf, Option.bind_map]
  rfl

theorem targetOf_of_stored {connection : Handle} (h : connection ∈ natives.map (·.handle)) :
    facade.targetOf connection = compilation.targetOf connection := by
  rw [targetOf, connectionByHandle_of_stored hstored hnatives h, NativeCompilation.targetOf, Option.map_map]
  rfl

theorem view_of_stored {connections : List Handle} (h : connections ⊆ natives.map (·.handle)) :
    facade.view connections = compilation.view connections := by
  refine List.map_congr_left fun connection hconnection => ?_
  rw [connectionByHandle_of_stored hstored hnatives (h hconnection)]

theorem viewGroups_of_stored {κ : Type} [DecidableEq κ] {getKey : Handle → κ} :
    facade.viewGroups (groupConnections getKey (natives.map (·.handle))) =
      compilation.viewGroups (groupConnections getKey (natives.map (·.handle))) := by
  refine List.map_congr_left fun group hgroup => ?_
  rw [view_of_stored hstored hnatives fun member hmember => mem_of_groupConnections hgroup hmember]

theorem firstOrigin_of_stored {connections : List Handle} (h : connections ⊆ natives.map (·.handle)) :
    facade.firstOrigin connections = compilation.firstOrigin connections := by
  induction connections with
  | nil => rfl
  | cons first connections ih =>
      have hfirst := originOf_of_stored hstored hnatives (h List.mem_cons_self)
      have hrest := ih fun connection hconnection => h (List.mem_cons_of_mem first hconnection)
      rw [firstOrigin, NativeCompilation.firstOrigin, List.find?_cons, List.find?_cons, hfirst]
      cases hsome : (compilation.originOf first).isSome with
      | false => exact hrest
      | true => exact hfirst

end Stored

/-- What the query reads is kept already, or is loaded in the order of the graph. -/
def Ready (facade : ModuleGraphFacade) : Query → Prop
  | .incomingConnections module => facade.KnownIncoming module
  | .outgoingConnections module => facade.KnownOutgoing module
  | .incomingConnectionsByOriginModule module =>
      (facade.incomingByOrigin module).isSome ∨ facade.KnownIncoming module
  | .outgoingConnectionsByModule module => facade.KnownOutgoing module
  | .issuer module => (facade.issuers module).isSome ∨ facade.KnownIncoming module

theorem answer_incomingConnections (h : Agrees facade) (hready : facade.KnownIncoming module) :
    Agrees (facade.ask (.incomingConnections module)).1 ∧
      (facade.ask (.incomingConnections module)).2 = facade.compilation.answer (.incomingConnections module) := by
  obtain ⟨hagrees, _, hstored, hfull⟩ := h.getIncomingConnections hready
  have hview : (facade.getIncomingConnections module).1.view (facade.getIncomingConnections module).2 =
      facade.compilation.view (facade.compilation.incomingHandles module) := by
    rw [hfull]
    exact view_of_stored hstored (fun native => NativeCompilation.mem_of_incoming) (List.Subset.refl _)
  exact ⟨hagrees, congrArg Answer.connections hview⟩

theorem answer_outgoingConnections (h : Agrees facade) (hready : facade.KnownOutgoing module) :
    Agrees (facade.ask (.outgoingConnections module)).1 ∧
      (facade.ask (.outgoingConnections module)).2 = facade.compilation.answer (.outgoingConnections module) := by
  obtain ⟨hagrees, _, hstored, hfull⟩ := h.getOutgoingConnections hready
  have hview : (facade.getOutgoingConnections module).1.view (facade.getOutgoingConnections module).2 =
      facade.compilation.view (facade.compilation.outgoingHandles module) := by
    rw [hfull]
    exact view_of_stored hstored (fun native => NativeCompilation.mem_of_outgoing) (List.Subset.refl _)
  exact ⟨hagrees, congrArg Answer.connections hview⟩

theorem answer_byOrigin (h : Agrees facade)
    (hready : (facade.incomingByOrigin module).isSome ∨ facade.KnownIncoming module) :
    Agrees (facade.ask (.incomingConnectionsByOriginModule module)).1 ∧
      (facade.ask (.incomingConnectionsByOriginModule module)).2 =
        facade.compilation.answer (.incomingConnectionsByOriginModule module) := by
  have hnatives : ∀ native ∈ facade.compilation.incomingConnections module,
      native ∈ facade.compilation.connections := fun native => NativeCompilation.mem_of_incoming
  simp only [ask, getIncomingConnectionsByOriginModule]
  cases hcached : facade.incomingByOrigin module with
  | some groups =>
      obtain ⟨hgroups, hstored⟩ := h.byOrigin module groups hcached
      refine ⟨h, congrArg Answer.byOrigin ?_⟩
      rw [hgroups]
      exact viewGroups_of_stored hstored hnatives
  | none =>
      rw [hcached] at hready
      obtain ⟨hagrees, hcompilation, hstored, hfull⟩ := h.getIncomingConnections (hready.resolve_left nofun)
      have hgroups : groupConnections (facade.getIncomingConnections module).1.originOf
            (facade.getIncomingConnections module).2 =
          groupConnections facade.compilation.originOf (facade.compilation.incomingHandles module) := by
        rw [hfull]
        exact groupConnections_congr fun connection hconnection => originOf_of_stored hstored hnatives hconnection
      dsimp only
      rw [hgroups]
      refine ⟨?_, congrArg Answer.byOrigin (viewGroups_of_stored hstored hnatives)⟩
      refine ⟨⟨hagrees.wired.handles, hagrees.wired.incoming, hagrees.wired.outgoing, hagrees.wired.nodupIncoming,
        hagrees.wired.nodupOutgoing⟩, hagrees.modules, hagrees.precise, hagrees.loadedIncoming,
        hagrees.loadedOutgoing, fun other groups hother => ?_, hagrees.byModule, hagrees.issuers⟩
      by_cases hsame : other = module
      · subst hsame
        dsimp only at hother ⊢
        rw [Function.update_self] at hother
        rw [← Option.some.inj hother, hcompilation]
        exact ⟨rfl, hstored⟩
      · dsimp only at hother
        rw [Function.update_of_ne hsame] at hother
        exact hagrees.byOrigin other groups hother

theorem answer_byModule (h : Agrees facade) (hready : facade.KnownOutgoing module) :
    Agrees (facade.ask (.outgoingConnectionsByModule module)).1 ∧
      (facade.ask (.outgoingConnectionsByModule module)).2 =
        facade.compilation.answer (.outgoingConnectionsByModule module) := by
  have hnatives : ∀ native ∈ facade.compilation.outgoingConnections module,
      native ∈ facade.compilation.connections := fun native => NativeCompilation.mem_of_outgoing
  obtain ⟨hagrees, hcompilation, hstored, hfull⟩ := h.getOutgoingConnections hready
  simp only [ask, getOutgoingConnectionsByModule, NativeCompilation.answer]
  rw [hfull]
  by_cases hempty : facade.compilation.outgoingHandles module = []
  · rw [if_pos hempty, if_pos hempty]
    exact ⟨hagrees, rfl⟩
  · rw [if_neg hempty, if_neg hempty]
    cases hcached : (facade.getOutgoingConnections module).1.outgoingByModule module with
    | some groups =>
        obtain ⟨hgroups, _, _⟩ := hagrees.byModule module groups hcached
        rw [hcompilation] at hgroups
        refine ⟨hagrees, congrArg (fun groups => Answer.byModule (some groups)) ?_⟩
        rw [hgroups]
        exact viewGroups_of_stored hstored hnatives
    | none =>
        have hgroups : groupConnections (facade.getOutgoingConnections module).1.targetOf
              (facade.compilation.outgoingHandles module) =
            groupConnections facade.compilation.targetOf (facade.compilation.outgoingHandles module) :=
          groupConnections_congr fun connection hconnection => targetOf_of_stored hstored hnatives hconnection
        dsimp only
        rw [hgroups]
        refine ⟨?_, congrArg (fun groups => Answer.byModule (some groups))
          (viewGroups_of_stored hstored hnatives)⟩
        refine ⟨⟨hagrees.wired.handles, hagrees.wired.incoming, hagrees.wired.outgoing,
          hagrees.wired.nodupIncoming, hagrees.wired.nodupOutgoing⟩, hagrees.modules, hagrees.precise,
          hagrees.loadedIncoming, hagrees.loadedOutgoing, hagrees.byOrigin, fun other groups hother => ?_,
          hagrees.issuers⟩
        by_cases hsame : other = module
        · subst hsame
          dsimp only at hother ⊢
          rw [Function.update_self] at hother
          rw [← Option.some.inj hother, hcompilation]
          exact ⟨rfl, hstored, mt List.map_eq_nil_iff.mpr hempty⟩
        · dsimp only at hother
          rw [Function.update_of_ne hsame] at hother
          exact hagrees.byModule other groups hother

theorem answer_issuer (h : Agrees facade)
    (hready : (facade.issuers module).isSome ∨ facade.KnownIncoming module) :
    Agrees (facade.ask (.issuer module)).1 ∧
      (facade.ask (.issuer module)).2 = facade.compilation.answer (.issuer module) := by
  have hnatives : ∀ native ∈ facade.compilation.incomingConnections module,
      native ∈ facade.compilation.connections := fun native => NativeCompilation.mem_of_incoming
  simp only [ask, getIssuer, NativeCompilation.answer]
  cases hcached : facade.issuers module with
  | some issuer =>
      obtain ⟨hissuer, _, hsome⟩ := h.issuers module issuer hcached
      have hlisted : facade.compilation.incomingHandles module ≠ [] := mt List.map_eq_nil_iff.mp hsome
      dsimp only
      rw [if_neg hlisted, hissuer]
      exact ⟨h, rfl⟩
  | none =>
      rw [hcached] at hready
      obtain ⟨hagrees, hcompilation, hstored, hfull⟩ := h.getIncomingConnections
        (hready.resolve_left Bool.false_ne_true)
      dsimp only
      rw [hfull]
      by_cases hempty : facade.compilation.incomingHandles module = []
      · rw [if_pos hempty, if_pos hempty]
        exact ⟨hagrees, rfl⟩
      · have hfirst : (facade.getIncomingConnections module).1.firstOrigin
              (facade.compilation.incomingHandles module) =
            facade.compilation.firstOrigin (facade.compilation.incomingHandles module) :=
          firstOrigin_of_stored hstored hnatives (List.Subset.refl _)
        rw [if_neg hempty, if_neg hempty, hfirst]
        refine ⟨?_, rfl⟩
        refine ⟨⟨hagrees.wired.handles, hagrees.wired.incoming, hagrees.wired.outgoing,
          hagrees.wired.nodupIncoming, hagrees.wired.nodupOutgoing⟩, hagrees.modules, hagrees.precise,
          hagrees.loadedIncoming, hagrees.loadedOutgoing, hagrees.byOrigin, hagrees.byModule,
          fun other issuer hother => ?_⟩
        by_cases hsame : other = module
        · subst hsame
          dsimp only at hother ⊢
          rw [Function.update_self] at hother
          rw [← Option.some.inj hother, hcompilation]
          exact ⟨rfl, hstored, mt List.map_eq_nil_iff.mpr hempty⟩
        · dsimp only at hother
          rw [Function.update_of_ne hsame] at hother
          exact hagrees.issuers other issuer hother

/-- A query that is ready is answered from the graph. -/
theorem Agrees.ask (h : Agrees facade) {query : Query} (hready : facade.Ready query) :
    Agrees (facade.ask query).1 ∧ (facade.ask query).2 = facade.compilation.answer query := by
  cases query with
  | incomingConnections module => exact answer_incomingConnections h hready
  | outgoingConnections module => exact answer_outgoingConnections h hready
  | incomingConnectionsByOriginModule module => exact answer_byOrigin h hready
  | outgoingConnectionsByModule module => exact answer_byModule h hready
  | issuer module => exact answer_issuer h hready

theorem agrees_bound (modules : List Handle) (hmodules : ∀ module ∈ compilation.modules, module ∈ modules) :
    Agrees { compilation, modulesByHandle := modules } := by
  refine ⟨⟨fun _ => ?_, fun _ _ => ?_, fun _ _ => ?_, fun _ => List.nodup_nil, fun _ => List.nodup_nil⟩,
    hmodules, nofun, nofun, nofun, nofun, nofun, nofun⟩
  · exact Iff.intro nofun nofun
  · exact Iff.intro nofun fun ⟨_, hstored, _⟩ => by cases hstored
  · exact Iff.intro nofun fun ⟨_, hstored, _⟩ => by cases hstored

theorem ready_fresh (query : Query) : facade.fresh.Ready query := by
  cases query with
  | incomingConnections module => exact Or.inr List.nil_prefix
  | outgoingConnections module => exact Or.inr List.nil_prefix
  | incomingConnectionsByOriginModule module => exact Or.inr (Or.inr List.nil_prefix)
  | outgoingConnectionsByModule module => exact Or.inr List.nil_prefix
  | issuer module => exact Or.inr (Or.inr List.nil_prefix)

theorem fresh_answer (query : Query) : (facade.fresh.ask query).2 = facade.compilation.answer query :=
  ((agrees_bound facade.compilation.modules fun _ => id).ask (ready_fresh query)).2

/-- Groups are cleared with the connections that are brought up to date; where none is materialized, only empty
groups can be kept. -/
def Rebindable (facade : ModuleGraphFacade) (compilation : NativeCompilation) : Prop :=
  facade.materializedHandles = [] → ∀ module, (facade.incomingByOrigin module).isSome →
    compilation.incomingConnections module = []

theorem Covered.rebound (h : Precise facade facade.compilation) (hsucceeds : Succeeds facade.compilation compilation)
    {modules : List Handle} (hmodules : ∀ module ∈ compilation.modules, module ∈ modules) :
    Covered { facade with compilation, modulesByHandle := modules } compilation := by
  refine ⟨hmodules, fun handle connection hstored => ?_⟩
  obtain ⟨native, hnative, rfl, rfl⟩ := h handle connection hstored
  obtain ⟨module, hafter⟩ := hsucceeds.connections native hnative
  exact ⟨_, hafter, rfl, rfl⟩

/-- After all that is materialized has been brought up to date. -/
theorem agrees_updated (hcovered : Covered facade facade.compilation) (hwired : Wired facade) :
    Agrees { facade.synchronizeConnections (facade.compilation.connectionsByHandle facade.materializedHandles) with
      loadedIncoming := fun _ => false, loadedOutgoing := fun _ => false } := by
  have hnatives : ∀ native ∈ facade.compilation.connectionsByHandle facade.materializedHandles,
      native ∈ facade.compilation.connections := fun native => NativeCompilation.mem_connectionsByHandle
  obtain ⟨hafter, hcoveredAfter, hbinding, hstored, hothers⟩ := foldl_materialize_spec hnatives hcovered hwired
  refine ⟨⟨hafter.handles, hafter.incoming, hafter.outgoing, hafter.nodupIncoming, hafter.nodupOutgoing⟩,
    fun module hmodule => ?_, fun handle connection hconnection => ?_, nofun, nofun, nofun, nofun, nofun⟩
  · have hmodule : module ∈ facade.compilation.modules := by rwa [← hbinding.compilation]
    exact hcoveredAfter.modules module hmodule
  · show ∃ native ∈ NativeCompilation.connections (ModuleGraphFacade.compilation _), _
    dsimp only [synchronizeConnections, clearGroups]
    rw [hbinding.compilation]
    by_cases hlisted : ∃ native ∈ facade.compilation.connectionsByHandle facade.materializedHandles,
        native.handle = handle
    · obtain ⟨native, hnative, rfl⟩ := hlisted
      have hsame := hconnection.symm.trans (hstored native hnative)
      exact ⟨native, hnatives native hnative, rfl, Option.some.inj hsame⟩
    · -- a connection that was there before is there still, so it has been brought up to date
      have hbefore : facade.connectionByHandle handle = some connection := by
        rw [← hothers handle fun native hnative hhandle => hlisted ⟨native, hnative, hhandle⟩]
        exact hconnection
      obtain ⟨native, hnative, rfl, _⟩ := hcovered.stored handle connection hbefore
      have hknown := (hwired.handles native.handle).mpr (Option.isSome_of_eq_some hbefore)
      have hfound := NativeCompilation.getElem?_handle hnative
      exact absurd ⟨native, List.mem_filterMap.mpr ⟨_, hknown, hfound⟩, rfl⟩ hlisted

theorem mem_foldl_pushNew {modules known : List Handle} (h : module ∈ known ∨ module ∈ modules) :
    module ∈ modules.foldl pushNew known := by
  induction modules generalizing known with
  | nil => exact h.resolve_right nofun
  | cons first modules ih =>
      refine ih ?_
      rw [mem_pushNew]
      rcases h with hknown | hmem
      · exact Or.inl (Or.inl hknown)
      · exact (List.mem_cons.mp hmem).imp Or.inr id

theorem mem_registerModules {modules : List Handle} (hmodule : module ∈ modules) :
    module ∈ (facade.registerModules modules).modulesByHandle := mem_foldl_pushNew (Or.inr hmodule)

theorem Agrees.rebind (h : Agrees facade) (hsucceeds : Succeeds facade.compilation compilation)
    (hrebindable : facade.Rebindable compilation) :
    Agrees ((facade.registerModules compilation.modules).updateNativeCompilation compilation) := by
  have hregistered : ∀ module ∈ compilation.modules,
      module ∈ (facade.registerModules compilation.modules).modulesByHandle := fun module => mem_registerModules
  have hcovered := Covered.rebound h.precise hsucceeds hregistered
  rw [updateNativeCompilation]
  by_cases hempty : facade.materializedHandles = []
  · have hnone : ∀ handle, facade.connectionByHandle handle = none := by
      intro handle
      have hiff := h.wired.handles handle
      rw [hempty] at hiff
      exact Option.not_isSome_iff_eq_none.mp fun hsome => nomatch hiff.mpr hsome
    have hnothing : ∀ natives, facade.AllStored natives → natives = [] := by
      intro natives hstored
      cases natives with
      | nil => rfl
      | cons first natives =>
          have hfirst := hstored first List.mem_cons_self
          rw [hnone] at hfirst
          cases hfirst
    have hkept : (facade.registerModules compilation.modules).materializedHandles = [] := hempty
    dsimp only
    rw [if_pos hkept]
    refine ⟨⟨h.wired.handles, h.wired.incoming, h.wired.outgoing, h.wired.nodupIncoming, h.wired.nodupOutgoing⟩,
      hregistered, ?_, nofun, nofun, ?_, ?_, ?_⟩
    · intro handle connection hstored
      have hstored : facade.connectionByHandle handle = some connection := hstored
      rw [hnone] at hstored
      cases hstored
    · intro module groups hgroups
      obtain ⟨hbefore, hstored⟩ := h.byOrigin module groups hgroups
      have hnew := hrebindable hempty module (Option.isSome_of_eq_some hgroups)
      have hold := hnothing _ hstored
      dsimp only
      rw [NativeCompilation.incomingHandles, hold] at hbefore
      rw [NativeCompilation.incomingHandles, hnew]
      exact ⟨hbefore, nofun⟩
    · intro module groups hgroups
      obtain ⟨_, hstored, hsome⟩ := h.byModule module groups hgroups
      exact absurd (hnothing _ hstored) hsome
    · intro module issuer hissuer
      obtain ⟨_, hstored, hsome⟩ := h.issuers module issuer hissuer
      exact absurd (hnothing _ hstored) hsome
  · have hkept : ¬ (facade.registerModules compilation.modules).materializedHandles = [] := hempty
    dsimp only
    rw [if_neg hkept]
    have hwired : Wired { facade.registerModules compilation.modules with compilation } :=
      ⟨h.wired.handles, h.wired.incoming, h.wired.outgoing, h.wired.nodupIncoming, h.wired.nodupOutgoing⟩
    exact agrees_updated hcovered hwired

/-- A read finds an initial part of what it loads, a rebind leaves no group that has members now. -/
def Undisturbed (facade : ModuleGraphFacade) : FacadeEvent → Prop
  | .read query => facade.Ready query
  | .rebind compilation => facade.Rebindable compilation

theorem FacadeRun.agrees {trace : List (ModuleGraphFacade × FacadeEvent)} (h : FacadeRun trace facade)
    (hundisturbed : ∀ passed ∈ trace, passed.1.Undisturbed passed.2) : Agrees facade := by
  have hkept := @Interleaving.Run.kept _ _ FacadeStart FacadeStep Undisturbed fun _ facade => Agrees facade
  refine hkept ?_ ?_ h hundisturbed
  · rintro _ ⟨compilation, rfl⟩
    exact agrees_bound compilation.modules fun _ => id
  · rintro _ facade _ _ hagrees hallowed (⟨query⟩ | ⟨compilation, hsucceeds⟩)
    · exact (hagrees.ask hallowed).1
    · exact hagrees.rebind hsucceeds hallowed

theorem view_injective {left right : List Handle} (h : facade.view left = compilation.view right) : left = right := by
  have hleft : (facade.view left).map Prod.fst = left := by
    rw [view, List.map_map]
    exact List.map_id left
  have hright : (compilation.view right).map Prod.fst = right := by
    rw [NativeCompilation.view, List.map_map]
    exact List.map_id right
  rw [← hleft, h, hright]

theorem Agrees.knownIncoming (h : Agrees facade)
    (hsame : (facade.ask (.incomingConnections module)).2 = facade.compilation.answer (.incomingConnections module)) :
    facade.KnownIncoming module := by
  by_cases hloaded : facade.loadedIncoming module = true
  · exact Or.inl hloaded
  · have hlist : (facade.getIncomingConnections module).2 = facade.compilation.incomingHandles module :=
      view_injective (Answer.connections.inj hsame)
    rw [ModuleGraphFacade.getIncomingConnections, if_neg hloaded] at hlist
    obtain ⟨_, _, _, hincoming, _⟩ := h.synchronize (fun native => NativeCompilation.mem_of_incoming)
      (facade.compilation.nodupIncoming module)
    exact Or.inr ⟨_, (hincoming module).symm.trans hlist⟩

theorem Agrees.knownOutgoing (h : Agrees facade)
    (hsame : (facade.ask (.outgoingConnections module)).2 = facade.compilation.answer (.outgoingConnections module)) :
    facade.KnownOutgoing module := by
  by_cases hloaded : facade.loadedOutgoing module = true
  · exact Or.inl hloaded
  · have hlist : (facade.getOutgoingConnections module).2 = facade.compilation.outgoingHandles module :=
      view_injective (Answer.connections.inj hsame)
    rw [ModuleGraphFacade.getOutgoingConnections, if_neg hloaded] at hlist
    obtain ⟨_, _, _, _, houtgoing⟩ := h.synchronize (fun native => NativeCompilation.mem_of_outgoing)
      (facade.compilation.nodupOutgoing module)
    exact Or.inr ⟨_, (houtgoing module).symm.trans hlist⟩

/-- After an undisturbed history each query that finds an initial part is answered as if it were the first; where
the connections of a module themselves are asked for, only then. -/
theorem FacadeRun.sameAsFresh {trace : List (ModuleGraphFacade × FacadeEvent)} (h : FacadeRun trace facade)
    (hundisturbed : ∀ passed ∈ trace, passed.1.Undisturbed passed.2) :
    (∀ query, facade.Ready query → (facade.ask query).2 = (facade.fresh.ask query).2) ∧
      ∀ module,
        ((facade.ask (.incomingConnections module)).2 = (facade.fresh.ask (.incomingConnections module)).2 ↔
          facade.KnownIncoming module) ∧
        ((facade.ask (.outgoingConnections module)).2 = (facade.fresh.ask (.outgoingConnections module)).2 ↔
          facade.KnownOutgoing module) := by
  have hagrees := h.agrees hundisturbed
  have hready : ∀ query, facade.Ready query → (facade.ask query).2 = (facade.fresh.ask query).2 := by
    intro query hquery
    rw [(hagrees.ask hquery).2, fresh_answer]
  refine ⟨hready, fun module => ⟨⟨fun hsame => hagrees.knownIncoming ?_, hready (.incomingConnections module)⟩,
    ⟨fun hsame => hagrees.knownOutgoing ?_, hready (.outgoingConnections module)⟩⟩⟩
  · rw [hsame, fresh_answer]
  · rw [hsame, fresh_answer]

def imported (handle origin target : Handle) : NativeModuleGraphConnection where
  handle := handle
  originModuleHandle := some origin
  dependency := ⟨"esm import", some "./shared", false, -1⟩
  moduleHandle := target
  resolvedModuleHandle := 2
  weak := false

/-- Modules 1 and 0 import module 2, in this order; the first of the connections leads to `target`. -/
def twoImporters (target : Fin 3) : NativeCompilation where
  modules := [0, 1, 2]
  connections := [imported 0 1 target, imported 1 0 2]
  incomingConnections module := [imported 0 1 target, imported 1 0 2].filter (·.moduleHandle = module)
  outgoingConnections module := [imported 0 1 target, imported 1 0 2].filter (·.originModuleHandle = some module)
  handles := by
    intro index connection h
    match index with
    | 0 => cases h; rfl
    | 1 => cases h; rfl
    | index + 2 => cases h
  modulesExist := by
    revert target
    decide
  incoming _ _ := by rw [List.mem_filter, decide_eq_true_eq]
  outgoing _ _ := by rw [List.mem_filter, decide_eq_true_eq]
  nodupIncoming _ := List.Nodup.filter _ (by revert target; decide)
  nodupOutgoing _ := List.Nodup.filter _ (by revert target; decide)

def boundToImporters : ModuleGraphFacade := { compilation := twoImporters 2, modulesByHandle := [0, 1, 2] }

def readIncoming : ModuleGraphFacade := (boundToImporters.ask (.incomingConnections 2)).1

def redirected : ModuleGraphFacade :=
  (readIncoming.registerModules [0, 1, 2]).updateNativeCompilation (twoImporters 0)

/-- The first connection has been read and then leads elsewhere. -/
theorem FacadeRun.sameAsFresh_redirected : (redirected.ask (.issuer 2)).2 = (redirected.fresh.ask (.issuer 2)).2 := by
  have hfirst : FacadeRun [(boundToImporters, .read (.incomingConnections 2))] readIncoming :=
    Interleaving.Run.step (Interleaving.Run.start ⟨twoImporters 2, rfl⟩) (.read (.incomingConnections 2))
  have hsecond : FacadeRun [(boundToImporters, .read (.incomingConnections 2)), (readIncoming,
      .rebind (twoImporters 0))] redirected := by
    refine Interleaving.Run.step hfirst (.rebind (twoImporters 0) ⟨by decide, fun connection hconnection => ?_⟩)
    have hlisted : connection ∈ [imported 0 1 2, imported 1 0 2] := hconnection
    rcases List.mem_pair.mp hlisted with rfl | rfl
    · exact ⟨0, List.mem_cons_self⟩
    · exact ⟨2, List.mem_cons_of_mem _ List.mem_cons_self⟩
  refine (FacadeRun.sameAsFresh hsecond ?_).1 _ (Or.inr (Or.inr ⟨[], by decide⟩))
  intro passed hpassed
  rcases List.mem_pair.mp hpassed with rfl | rfl
  · exact Or.inr List.nil_prefix
  · intro hnothing
    exact absurd hnothing (by decide)

/-- When what module 0 imports has been read before, its connection comes first among those into module 2. -/
theorem FacadeRun.not_sameAsFresh : ∃ trace facade query, FacadeRun trace facade ∧
    (facade.ask query).2 ≠ (facade.fresh.ask query).2 := by
  refine ⟨_, _, .incomingConnections 2, Interleaving.Run.step (Interleaving.Run.start ⟨twoImporters 2, rfl⟩)
    (.read (.outgoingConnections 0)), ?_⟩
  decide

end ModuleGraphFacade

end Unpack.Facade
