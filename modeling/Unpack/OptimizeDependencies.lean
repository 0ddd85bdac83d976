import Unpack.SideEffectsFlagPlugin

/-! The optimised graph, connection by connection: each keeps its place and origin, a rewritten one gets
its new module and first id, and every one gets its state. Optimising keeps a graph well formed. -/

namespace Unpack

namespace ModuleGraph

variable {graph : ModuleGraph}

/-- A change of the connections that keeps handles and origins keeps the tables right, when the rows list the
connections at their new modules. -/
theorem Indexed.redirectConnections (h : graph.Indexed) (f : ModuleGraphConnection → ModuleGraphConnection)
    (incoming : List (List ModuleGraphConnectionHandle))
    (hhandle : ∀ connection, (f connection).handle = connection.handle)
    (horigin : ∀ connection, (f connection).originModule = connection.originModule)
    (hblock : ∀ connection, (f connection).originBlock = connection.originBlock)
    (hindex : ∀ connection,
      (f connection).originDependencyIndex = connection.originDependencyIndex)
    (htarget : ∀ connection ∈ graph.connections, (f connection).module < graph.modules.length)
    (hlength : incoming.length = graph.modules.length)
    (hsound : ∀ row < graph.modules.length, ∀ handle ∈ incoming.getD row [],
      ∃ connection ∈ graph.connections, connection.handle = handle ∧ (f connection).module = row)
    (hcomplete : ∀ connection ∈ graph.connections,
      connection.handle ∈ incoming.getD (f connection).module []) :
    ModuleGraph.Indexed { graph with connections := graph.connections.map f, incoming } where
  module_handles := h.module_handles
  connection_handles := by
    show (graph.connections.map f).map (·.handle) = List.range (graph.connections.map f).length
    rw [List.map_map, List.length_map, ← h.connection_handles]
    exact List.map_congr_left fun connection _ => hhandle connection
  target_lt := by
    intro connection hconnection
    obtain ⟨before, hbefore, rfl⟩ := List.mem_map.mp hconnection
    exact htarget before hbefore
  origin_lt := by
    intro connection hconnection
    obtain ⟨before, hbefore, rfl⟩ := List.mem_map.mp hconnection
    rw [horigin]
    exact h.origin_lt before hbefore
  outgoing_eq := by
    refine h.outgoing_eq.trans (List.map_congr_left fun module _ => ?_)
    rw [List.filter_map, List.map_map]
    have hfilter : (fun connection : ModuleGraphConnection =>
        decide (connection.originModule = some module)) ∘ f =
        fun connection => decide (connection.originModule = some module) := by
      funext connection
      exact congrArg (fun origin => decide (origin = some module)) (horigin connection)
    rw [hfilter]
    exact List.map_congr_left fun connection _ => (hhandle connection).symm
  incoming_length := hlength
  incoming_sound := by
    intro row hlt handle hin
    obtain ⟨connection, hconnection, heq, hto⟩ := hsound row hlt handle hin
    exact ⟨f connection, List.mem_map_of_mem hconnection, (hhandle connection).trans heq, hto⟩
  incoming_complete := by
    intro connection hconnection
    obtain ⟨before, hbefore, rfl⟩ := List.mem_map.mp hconnection
    rw [hhandle]
    exact hcomplete before hbefore
  locations_length := h.locations_length
  location_complete := by
    intro connection hconnection
    obtain ⟨before, hbefore, rfl⟩ := List.mem_map.mp hconnection
    rw [horigin, hindex, hblock, hhandle]
    exact h.location_complete before hbefore
  location_sound := by
    intro module hlt entry hentry
    obtain ⟨connection, hconnection, heq, hat⟩ := h.location_sound module hlt entry hentry
    refine ⟨f connection, List.mem_map_of_mem hconnection, (hhandle connection).trans heq, ?_⟩
    exact ⟨(horigin connection).trans hat.1, (hblock connection).trans hat.2.1,
      (hindex connection).trans hat.2.2⟩
  exportsInfos_length := h.exportsInfos_length

/-- A change of the connections that keeps the modules as well needs no other rows. -/
theorem Indexed.mapConnections (h : graph.Indexed) (f : ModuleGraphConnection → ModuleGraphConnection)
    (hhandle : ∀ connection, (f connection).handle = connection.handle)
    (horigin : ∀ connection, (f connection).originModule = connection.originModule)
    (hblock : ∀ connection, (f connection).originBlock = connection.originBlock)
    (hindex : ∀ connection,
      (f connection).originDependencyIndex = connection.originDependencyIndex)
    (hmodule : ∀ connection, (f connection).module = connection.module) :
    ModuleGraph.Indexed { graph with connections := graph.connections.map f } := by
  refine h.redirectConnections f graph.incoming hhandle horigin hblock hindex ?_ h.incoming_length ?_ ?_
  · intro connection hconnection
    rw [hmodule]
    exact h.target_lt connection hconnection
  · intro row hlt handle hin
    obtain ⟨connection, hconnection, heq, hto⟩ := h.incoming_sound row hlt handle hin
    exact ⟨connection, hconnection, heq, (hmodule connection).trans hto⟩
  · intro connection hconnection
    rw [hmodule]
    exact h.incoming_complete connection hconnection

theorem handle_eq_of_getElem? {connections : List ModuleGraphConnection}
    (hhandles : connections.map (·.handle) = List.range connections.length)
    {handle : ModuleGraphConnectionHandle} {connection : ModuleGraphConnection}
    (hget : connections[handle]? = some connection) : connection.handle = handle := by
  have hmap : (connections.map (·.handle))[handle]? = some connection.handle := by
    rw [List.getElem?_map, hget]
    rfl
  rw [hhandles] at hmap
  obtain ⟨hlt, hvalue⟩ := List.getElem?_eq_some_iff.mp hmap
  rw [List.getElem_range] at hvalue
  exact hvalue.symm

theorem modify_eq_map {connections : List ModuleGraphConnection}
    (hhandles : connections.map (·.handle) = List.range connections.length)
    (handle : ModuleGraphConnectionHandle) (f : ModuleGraphConnection → ModuleGraphConnection) :
    connections.modify handle f =
      connections.map fun connection => if connection.handle = handle then f connection
        else connection := by
  apply List.ext_getElem?
  intro index
  rw [List.getElem?_modify, List.getElem?_map]
  cases hget : connections[index]? with
  | none => rfl
  | some connection =>
      have heq : connection.handle = index := handle_eq_of_getElem? hhandles hget
      show some (if handle = index then f connection else connection) =
        some (if connection.handle = handle then f connection else connection)
      rw [heq, if_congr (eq_comm (a := handle)) rfl rfl]

/-- The row of a module after a connection has been moved from one module to another. -/
theorem Indexed.getD_moved (h : graph.Indexed) {source module : ModuleHandle}
    (hsource : source < graph.modules.length) (hmodule : module < graph.modules.length) (hne : source ≠ module)
    (handle : ModuleGraphConnectionHandle) (row : ModuleHandle) :
    ((graph.incoming.modify source (·.filter (· ≠ handle))).modify module (· ++ [handle])).getD row [] =
      if module = row then graph.incoming.getD row [] ++ [handle]
      else if source = row then (graph.incoming.getD row []).filter (· ≠ handle)
      else graph.incoming.getD row [] := by
  simp only [List.getD_eq_getElem?_getD, List.getElem?_modify]
  rw [← h.incoming_length] at hsource hmodule
  by_cases hto : module = row <;> by_cases hfrom : source = row
  · exact absurd (hfrom.trans hto.symm) hne
  · subst hto
    simp [hfrom, List.getElem?_eq_getElem hmodule]
  · subst hfrom
    simp [hto, List.getElem?_eq_getElem hsource]
  · simp [hto, hfrom]

/-- Moving a connection to another module keeps the tables right. -/
theorem Indexed.updateConnectionModule (h : graph.Indexed) (handle : ModuleGraphConnectionHandle)
    {module : ModuleHandle} (hmodule : module < graph.modules.length) :
    (graph.updateConnectionModule handle module).Indexed := by
  rw [ModuleGraph.updateConnectionModule]
  cases hget : graph.connections[handle]? with
  | none => exact h
  | some connection =>
      dsimp only
      split_ifs with hsame
      · exact h
      · have hmoved : connection ∈ graph.connections := List.mem_of_getElem? hget
        have hhandle : connection.handle = handle := handle_eq_of_getElem? h.connection_handles hget
        have hrow := h.getD_moved (h.target_lt connection hmoved) hmodule hsame handle
        have hself : ∀ other ∈ graph.connections, other.handle = handle → other = connection :=
          fun other hother heq => h.handle_injective hother hmoved (heq.trans hhandle.symm)
        rw [modify_eq_map h.connection_handles]
        refine h.redirectConnections _ _ ?_ ?_ ?_ ?_ ?_ ?_ ?_ ?_
        · intro other
          split_ifs <;> rfl
        · intro other
          split_ifs <;> rfl
        · intro other
          split_ifs <;> rfl
        · intro other
          split_ifs <;> rfl
        · intro other hother
          split_ifs
          · exact hmodule
          · exact h.target_lt other hother
        · rw [List.length_modify, List.length_modify]
          exact h.incoming_length
        · intro row hlt found hfound
          rw [hrow] at hfound
          by_cases hmove : found = handle
          · -- The moved connection is listed at its new module only.
            refine ⟨connection, hmoved, hhandle.trans hmove.symm, ?_⟩
            rw [if_pos hhandle]
            by_contra hto
            rw [if_neg hto] at hfound
            split_ifs at hfound with hfrom
            · exact absurd hmove (of_decide_eq_true (List.mem_filter.mp hfound).2)
            · obtain ⟨other, hother, heq, hotherModule⟩ := h.incoming_sound row hlt found hfound
              rw [hself other hother (heq.trans hmove)] at hotherModule
              exact hfrom hotherModule
          · have hold : found ∈ graph.incoming.getD row [] := by
              split_ifs at hfound
              · exact (List.mem_append.mp hfound).resolve_right fun hnew => hmove (List.mem_singleton.mp hnew)
              · exact (List.mem_filter.mp hfound).1
              · exact hfound
            obtain ⟨other, hother, heq, hotherModule⟩ := h.incoming_sound row hlt found hold
            refine ⟨other, hother, heq, ?_⟩
            rw [if_neg (heq ▸ hmove)]
            exact hotherModule
        · intro other hother
          have hin := h.incoming_complete other hother
          by_cases hmove : other.handle = handle
          · rw [if_pos hmove, hrow, if_pos rfl]
            exact List.mem_append_right _ (List.mem_singleton.mpr hmove)
          · rw [if_neg hmove, hrow]
            split_ifs with hto hfrom
            · exact List.mem_append_left _ hin
            · exact List.mem_filter.mpr ⟨hin, by simpa using hmove⟩
            · exact hin

theorem connections_updateConnectionModule (h : graph.Indexed) (handle : ModuleGraphConnectionHandle)
    (module : ModuleHandle) :
    (graph.updateConnectionModule handle module).connections =
      graph.connections.map fun connection => if connection.handle = handle
        then { connection with module } else connection := by
  have hsame : ∀ found, graph.connections[handle]? = some found → found.module = module →
      graph.connections = graph.connections.map fun connection => if connection.handle = handle
        then { connection with module } else connection := by
    intro found hfound hmodule
    refine (List.map_id _).symm.trans (List.map_congr_left fun connection hconnection => ?_)
    split_ifs with hhandle
    · have hself := h.getElem_handle hconnection
      rw [hhandle, hfound] at hself
      rw [← Option.some.inj hself, ← hmodule]
      rfl
    · rfl
  rw [updateConnectionModule]
  cases hget : graph.connections[handle]? with
  | none =>
      refine (List.map_id _).symm.trans (List.map_congr_left fun connection hconnection => ?_)
      split_ifs with hhandle
      · have hself := h.getElem_handle hconnection
        rw [hhandle, hget] at hself
        exact absurd hself (Option.some_ne_none connection).symm
      · rfl
  | some found =>
      dsimp only
      split_ifs with hmodule
      · exact hsame found hget hmodule
      · exact modify_eq_map h.connection_handles _ _

/-- What one rewrite does to each connection. -/
def moveTo (rewrite : ModuleGraphConnectionHandle × ModuleHandle × String)
    (connection : ModuleGraphConnection) : ModuleGraphConnection :=
  if connection.handle = rewrite.1 then
    { connection with
      module := rewrite.2.1, dependency := connection.dependency.setFirstId rewrite.2.2 }
  else connection

@[simp] theorem handle_moveTo (rewrite : ModuleGraphConnectionHandle × ModuleHandle × String)
    (connection : ModuleGraphConnection) : (moveTo rewrite connection).handle = connection.handle := by
  rw [moveTo]
  split_ifs <;> rfl

theorem connections_applyRewrite (h : graph.Indexed)
    (rewrite : ModuleGraphConnectionHandle × ModuleHandle × String) :
    (graph.applyRewrite rewrite).connections = graph.connections.map (moveTo rewrite) := by
  obtain ⟨handle, module, exportName⟩ := rewrite
  show (graph.updateConnectionModule handle module).connections.modify handle _ = _
  have hhandles : (graph.updateConnectionModule handle module).connections.map (·.handle) =
      List.range (graph.updateConnectionModule handle module).connections.length := by
    rw [connections_updateConnectionModule h, List.map_map, List.length_map, ← h.connection_handles]
    refine List.map_congr_left fun connection _ => ?_
    show (if connection.handle = handle then _ else connection).handle = connection.handle
    split_ifs <;> rfl
  rw [modify_eq_map hhandles, connections_updateConnectionModule h, List.map_map]
  refine List.map_congr_left fun connection _ => ?_
  by_cases hhandle : connection.handle = handle <;> simp [moveTo, hhandle]

@[simp] theorem modules_updateConnectionModule (handle : ModuleGraphConnectionHandle)
    (module : ModuleHandle) : (graph.updateConnectionModule handle module).modules = graph.modules := by
  unfold updateConnectionModule
  split
  · rfl
  · split_ifs <;> rfl

@[simp] theorem modules_applyRewrite
    (rewrite : ModuleGraphConnectionHandle × ModuleHandle × String) :
    (graph.applyRewrite rewrite).modules = graph.modules :=
  modules_updateConnectionModule _ _

@[simp] theorem exportsInfos_updateConnectionModule (handle : ModuleGraphConnectionHandle)
    (module : ModuleHandle) :
    (graph.updateConnectionModule handle module).exportsInfos = graph.exportsInfos := by
  unfold updateConnectionModule
  split
  · rfl
  · split_ifs <;> rfl

@[simp] theorem exportsInfos_applyRewrite
    (rewrite : ModuleGraphConnectionHandle × ModuleHandle × String) :
    (graph.applyRewrite rewrite).exportsInfos = graph.exportsInfos :=
  exportsInfos_updateConnectionModule _ _

theorem Indexed.applyRewrite (h : graph.Indexed)
    {rewrite : ModuleGraphConnectionHandle × ModuleHandle × String}
    (hmodule : rewrite.2.1 < graph.modules.length) : (graph.applyRewrite rewrite).Indexed := by
  obtain ⟨handle, module, exportName⟩ := rewrite
  have hmoved := h.updateConnectionModule handle hmodule
  show ModuleGraph.Indexed { graph.updateConnectionModule handle module with connections := _ }
  rw [modify_eq_map hmoved.connection_handles]
  refine hmoved.mapConnections _ ?_ ?_ ?_ ?_ ?_ <;>
  · intro connection
    split_ifs <;> rfl

theorem nextReexport_mem (h : graph.Indexed) {module : ModuleHandle} {exportName : String}
    {connection : ModuleGraphConnection} {next : Option String}
    (hnext : graph.nextReexport module exportName = some (connection, next)) :
    connection ∈ graph.connections ∧ connection.originModule = some module := by
  have hhead : ∀ f : ModuleGraphConnection → Option (ModuleGraphConnection × Option String),
      (∀ other pair, f other = some pair → pair.1 = other) →
      ((graph.outgoingConnections module).filterMap f).head? = some (connection, next) →
      connection ∈ graph.connections ∧ connection.originModule = some module := by
    intro f hf hfirst
    obtain ⟨other, hother, hpair⟩ := List.mem_filterMap.mp (List.mem_of_head? hfirst)
    rw [← show connection = other from hf other _ hpair] at hother
    exact h.mem_outgoingConnections.mp hother
  simp only [nextReexport] at hnext
  split_ifs at hnext
  all_goals
    refine hhead _ ?_ hnext
    intro other pair hpair
    split at hpair
    · split_ifs at hpair
      exact (Option.some.inj hpair) ▸ rfl
    · exact absurd hpair (Option.some_ne_none pair).symm

/-- One turn of `resolve_reexport_target`. -/
def Reexports (graph : ModuleGraph) (current next : ModuleHandle × String) : Prop :=
  graph.moduleIsSideEffectFree current.1 = true ∧ ∃ connection nextExport,
    graph.nextReexport current.1 current.2 = some (connection, nextExport) ∧
      next = (connection.module, nextExport.getD current.2)

theorem resolveReexport_reexports {fuel : Nat} {module : ModuleHandle} {exportName : String}
    {moved : Bool} {visited : List ModuleHandle} {target : ModuleHandle × String}
    (hresolve : graph.resolveReexport fuel module exportName moved visited = some target) :
    (moved = true ∧ target = (module, exportName)) ∨
      Relation.TransGen graph.Reexports (module, exportName) target := by
  induction fuel generalizing module exportName moved visited with
  | zero => exact absurd hresolve (Option.some_ne_none target).symm
  | succ fuel ih =>
      have hresult : (if moved then some (module, exportName) else none) = some target →
          moved = true ∧ target = (module, exportName) := by
        intro hsome
        split_ifs at hsome with hmoved
        exact ⟨hmoved, (Option.some.inj hsome).symm⟩
      simp only [resolveReexport] at hresolve
      by_cases hstop : module ∈ visited ∨ graph.moduleIsSideEffectFree module = false
      · rw [if_pos hstop] at hresolve
        exact Or.inl (hresult hresolve)
      · rw [if_neg hstop] at hresolve
        cases hnext : graph.nextReexport module exportName with
        | none =>
            rw [hnext] at hresolve
            exact Or.inl (hresult hresolve)
        | some next =>
            obtain ⟨connection, nextExport⟩ := next
            simp only [hnext] at hresolve
            split_ifs at hresolve
            have hturn : graph.Reexports (module, exportName)
                (connection.module, nextExport.getD exportName) := by
              have hfree := (not_or.mp hstop).2
              rw [Bool.not_eq_false] at hfree
              exact ⟨hfree, connection, nextExport, hnext, rfl⟩
            rcases ih hresolve with ⟨-, rfl⟩ | hrest
            · exact Or.inr (.single hturn)
            · exact Or.inr (.head hturn hrest)

/-- A resolved re-export was followed at least one turn. -/
theorem resolveReexportTarget_reexports {module : ModuleHandle} {exportName : String}
    {target : ModuleHandle × String}
    (hresolve : graph.resolveReexportTarget module exportName = some target) :
    Relation.TransGen graph.Reexports (module, exportName) target :=
  (resolveReexport_reexports hresolve).resolve_left fun hand => Bool.noConfusion hand.1

theorem Reexports.lt (h : graph.Indexed) {current next : ModuleHandle × String}
    (hturn : graph.Reexports current next) : next.1 < graph.modules.length := by
  obtain ⟨-, connection, nextExport, hnext, rfl⟩ := hturn
  exact h.target_lt connection (nextReexport_mem h hnext).1

theorem resolveReexportTarget_lt (h : graph.Indexed) {module : ModuleHandle} {exportName : String}
    {target : ModuleHandle × String}
    (hresolve : graph.resolveReexportTarget module exportName = some target) :
    target.1 < graph.modules.length := by
  cases resolveReexportTarget_reexports hresolve with
  | single hturn => exact hturn.lt h
  | tail _ hturn => exact hturn.lt h

/-- Only a side-effect-free module is followed through. -/
theorem resolveReexportTarget_free {module : ModuleHandle} {exportName : String}
    {target : ModuleHandle × String}
    (hresolve : graph.resolveReexportTarget module exportName = some target) :
    graph.moduleIsSideEffectFree module = true := by
  obtain ⟨_, hturn, -⟩ := Relation.TransGen.head'_iff.mp (resolveReexportTarget_reexports hresolve)
  exact hturn.1

/-- Every rewrite is of the connection itself, to what one of the imports of its module resolves to. -/
theorem connectionRewrite_spec {connection : ModuleGraphConnection}
    {rewrite : ModuleGraphConnectionHandle × ModuleHandle × String}
    (hrewrite : graph.connectionRewrite connection = some rewrite) :
    rewrite.1 = connection.handle ∧
      ∃ exportName, graph.resolveReexportTarget connection.module exportName = some rewrite.2 := by
  have hbind : ∀ {α β : Type} {value : Option α} {f : α → Option β} {result : β},
      (value >>= f) = some result → ∃ found, value = some found ∧ f found = some result :=
    fun hsome => Option.bind_eq_some_iff.mp hsome
  unfold connectionRewrite at hrewrite
  split at hrewrite
  · obtain ⟨origin, -, hrest⟩ := hbind hrewrite
    dsimp only at hrest
    split_ifs at hrest
    obtain ⟨first, hfirst, hrest⟩ := hbind hrest
    split_ifs at hrest
    obtain rfl := Option.some.inj hrest
    obtain ⟨candidate, hcandidate, hresolve⟩ := List.mem_filterMap.mp (List.mem_of_head? hfirst)
    obtain ⟨exportName, -, hresolve⟩ := Option.bind_eq_some_iff.mp hresolve
    rw [specifiersBeside, List.mem_filter, Bool.and_eq_true, decide_eq_true_eq] at hcandidate
    rw [hcandidate.2.1] at hresolve
    exact ⟨rfl, exportName, hresolve⟩
  · obtain ⟨origin, -, hrest⟩ := hbind hrewrite
    dsimp only at hrest
    split_ifs at hrest
    obtain ⟨exportName, -, hrest⟩ := hbind hrest
    obtain ⟨target, hresolve, hrest⟩ := hbind hrest
    obtain rfl := Option.some.inj hrest
    exact ⟨rfl, exportName, hresolve⟩
  · split_ifs at hrewrite
    obtain ⟨exportName, -, hrest⟩ := hbind hrewrite
    obtain ⟨target, hresolve, hrest⟩ := hbind hrest
    obtain rfl := Option.some.inj hrest
    exact ⟨rfl, exportName, hresolve⟩
  · exact absurd hrewrite (Option.some_ne_none rewrite).symm

/-- The connection after the rewrites. -/
def rewritten (graph : ModuleGraph) (connection : ModuleGraphConnection) : ModuleGraphConnection :=
  match graph.connectionRewrite connection with
  | some (_, module, exportName) =>
      { connection with module, dependency := connection.dependency.setFirstId exportName }
  | none => connection

theorem foldl_moveTo_of_fresh
    {rewrites : List (ModuleGraphConnectionHandle × ModuleHandle × String)}
    {connection : ModuleGraphConnection}
    (hfresh : ∀ rewrite ∈ rewrites, rewrite.1 ≠ connection.handle) :
    rewrites.foldl (fun connection rewrite => moveTo rewrite connection) connection = connection := by
  induction rewrites with
  | nil => rfl
  | cons rewrite rewrites ih =>
      rw [List.foldl_cons, moveTo, if_neg fun heq => hfresh rewrite List.mem_cons_self heq.symm]
      exact ih fun other hother => hfresh other (List.mem_cons_of_mem _ hother)

theorem foldl_moveTo (h : graph.Indexed) {connection : ModuleGraphConnection}
    (hconnection : connection ∈ graph.connections) :
    (graph.connections.filterMap graph.connectionRewrite).foldl
      (fun connection rewrite => moveTo rewrite connection) connection =
        graph.rewritten connection := by
  obtain ⟨before, after, hsplit⟩ := List.append_of_mem hconnection
  have hnodup : (graph.connections.map (·.handle)).Nodup :=
    h.connection_handles ▸ List.nodup_range
  rw [hsplit, List.map_append, List.map_cons] at hnodup
  obtain ⟨-, htail, hdisjoint⟩ := List.nodup_append.mp hnodup
  have hother : ∀ others : List ModuleGraphConnection,
      (∀ other ∈ others, other.handle ≠ connection.handle) →
      ∀ rewrite ∈ others.filterMap graph.connectionRewrite, rewrite.1 ≠ connection.handle := by
    intro others hne rewrite hmem
    obtain ⟨other, hmem, hrewrite⟩ := List.mem_filterMap.mp hmem
    rw [(connectionRewrite_spec hrewrite).1]
    exact hne other hmem
  have hbefore := hother before fun other hmem =>
    hdisjoint _ (List.mem_map_of_mem hmem) _ List.mem_cons_self
  have hafter := hother after fun other hmem heq =>
    (List.nodup_cons.mp htail).1 (heq ▸ List.mem_map_of_mem hmem)
  rw [hsplit, List.filterMap_append, List.foldl_append, foldl_moveTo_of_fresh hbefore,
    List.filterMap_cons, rewritten]
  cases hrewrite : graph.connectionRewrite connection with
  | none => exact foldl_moveTo_of_fresh hafter
  | some rewrite =>
      have hmove : moveTo rewrite connection = { connection with
          module := rewrite.2.1, dependency := connection.dependency.setFirstId rewrite.2.2 } :=
        if_pos (connectionRewrite_spec hrewrite).1.symm
      rw [List.foldl_cons]
      refine (foldl_moveTo_of_fresh fun other hmem => ?_).trans hmove
      rw [handle_moveTo]
      exact hafter other hmem

/-- The rewrites come one after the other, and each keeps the tables right. -/
theorem foldl_applyRewrite (h : graph.Indexed)
    {rewrites : List (ModuleGraphConnectionHandle × ModuleHandle × String)}
    (hlt : ∀ rewrite ∈ rewrites, rewrite.2.1 < graph.modules.length) :
    (rewrites.foldl applyRewrite graph).Indexed ∧
      (rewrites.foldl applyRewrite graph).modules = graph.modules ∧
      (rewrites.foldl applyRewrite graph).exportsInfos = graph.exportsInfos ∧
      (rewrites.foldl applyRewrite graph).connections = graph.connections.map fun connection =>
        rewrites.foldl (fun connection rewrite => moveTo rewrite connection) connection := by
  induction rewrites generalizing graph with
  | nil => exact ⟨h, rfl, rfl, (List.map_id _).symm⟩
  | cons rewrite rewrites ih =>
      have hstep := h.applyRewrite (hlt rewrite List.mem_cons_self)
      obtain ⟨hindexed, hmodules, hinfos, hconnections⟩ := ih hstep fun other hother => by
        rw [modules_applyRewrite]
        exact hlt other (List.mem_cons_of_mem _ hother)
      refine ⟨hindexed, hmodules.trans (modules_applyRewrite _),
        hinfos.trans (exportsInfos_applyRewrite _), ?_⟩
      rw [List.foldl_cons, hconnections, connections_applyRewrite h, List.map_map]
      rfl

theorem rewriteConnections_spec (h : graph.Indexed) :
    graph.rewriteConnections.Indexed ∧ graph.rewriteConnections.modules = graph.modules ∧
      graph.rewriteConnections.exportsInfos = graph.exportsInfos ∧
      graph.rewriteConnections.connections = graph.connections.map graph.rewritten := by
  have hlt : ∀ rewrite ∈ graph.connections.filterMap graph.connectionRewrite,
      rewrite.2.1 < graph.modules.length := by
    intro rewrite hmem
    obtain ⟨connection, -, hrewrite⟩ := List.mem_filterMap.mp hmem
    obtain ⟨-, exportName, hresolve⟩ := connectionRewrite_spec hrewrite
    exact resolveReexportTarget_lt h hresolve
  obtain ⟨hindexed, hmodules, hinfos, hconnections⟩ := foldl_applyRewrite h hlt
  refine ⟨hindexed, hmodules, hinfos, hconnections.trans ?_⟩
  exact List.map_congr_left fun connection hconnection => foldl_moveTo h hconnection

theorem setFirstId_setFirstId (left right : String) (dependency : Dependency) :
    (dependency.setFirstId left).setFirstId right = dependency.setFirstId right := by
  cases dependency with
  | harmonyImportSpecifier dep =>
      obtain ⟨module, ids, name, range, shorthand⟩ := dep
      cases ids <;> rfl
  | harmonyExportImportedSpecifier dep =>
      obtain ⟨module, ids, name, isStar⟩ := dep
      cases ids <;> rfl
  | _ => rfl

/-- A connection after the whole phase: rewritten, with its state on the rewritten graph. -/
def optimized (graph : ModuleGraph) (connection : ModuleGraphConnection) : ModuleGraphConnection :=
  { graph.rewritten connection with
    state := if graph.rewriteConnections.connectionIsActive (graph.rewritten connection)
      then .active else .inactive }

theorem optimizeDependencies_spec (h : graph.Indexed) :
    graph.optimizeDependencies.Indexed ∧ graph.optimizeDependencies.modules = graph.modules ∧
      graph.optimizeDependencies.exportsInfos = graph.exportsInfos ∧
      graph.optimizeDependencies.connections = graph.connections.map graph.optimized := by
  obtain ⟨hindexed, hmodules, hinfos, hconnections⟩ := rewriteConnections_spec h
  refine ⟨hindexed.mapConnections _ ?_ ?_ ?_ ?_ ?_, hmodules, hinfos, ?_⟩
  iterate 5 exact fun _ => rfl
  show graph.rewriteConnections.connections.map _ = _
  rw [hconnections, List.map_map]
  rfl

section Rewritten

variable (connection : ModuleGraphConnection)

@[simp] theorem originModule_rewritten :
    (graph.rewritten connection).originModule = connection.originModule := by
  unfold rewritten
  split <;> rfl

@[simp] theorem originBlock_rewritten :
    (graph.rewritten connection).originBlock = connection.originBlock := by
  unfold rewritten
  split <;> rfl

@[simp] theorem originDependencyIndex_rewritten :
    (graph.rewritten connection).originDependencyIndex = connection.originDependencyIndex := by
  unfold rewritten
  split <;> rfl

@[simp] theorem setFirstId_rewritten (name : String) :
    (graph.rewritten connection).dependency.setFirstId name =
      connection.dependency.setFirstId name := by
  unfold rewritten
  split
  · exact setFirstId_setFirstId _ _ _
  · rfl

@[simp] theorem isStaticModuleDependency_rewritten :
    (graph.rewritten connection).dependency.isStaticModuleDependency =
      connection.dependency.isStaticModuleDependency := by
  unfold rewritten
  split
  · exact Dependency.isStaticModuleDependency_setFirstId _ _
  · rfl

@[simp] theorem isActive_optimized :
    (graph.optimized connection).isActive =
      graph.rewriteConnections.connectionIsActive (graph.rewritten connection) := by
  unfold optimized ModuleGraphConnection.isActive
  cases graph.rewriteConnections.connectionIsActive (graph.rewritten connection) <;> rfl

end Rewritten

/-- Only side-effect imports and re-exports are ever made inactive. -/
theorem connectionIsActive_of_not_static {connection : ModuleGraphConnection}
    (hstatic : connection.dependency.isStaticModuleDependency = false) :
    graph.connectionIsActive connection = true := by
  unfold connectionIsActive
  cases hdep : connection.dependency <;>
    simp_all [Dependency.isStaticModuleDependency]

/-- The phase leaves every connection where it was made. -/
theorem at_optimized {connection : ModuleGraphConnection} {module : ModuleHandle}
    {location : DependencyLocation} :
    (graph.optimized connection).At module location ↔ connection.At module location := by
  show (graph.rewritten connection).originModule = _ ∧ (graph.rewritten connection).originBlock = _ ∧
    (graph.rewritten connection).originDependencyIndex = _ ↔ _
  rw [originModule_rewritten, originBlock_rewritten, originDependencyIndex_rewritten]
  rfl

/-- Whatever graph it is given, the phase makes only static connections inactive. -/
theorem Indexed.sealable_optimizeDependencies (h : graph.Indexed) : graph.optimizeDependencies.Sealable := by
  obtain ⟨hindexed, -, -, hconnections⟩ := optimizeDependencies_spec h
  refine ⟨hindexed, ?_⟩
  rw [hconnections]
  intro connection hconnection hstatic
  obtain ⟨before, hbefore, rfl⟩ := List.mem_map.mp hconnection
  rw [isActive_optimized]
  exact connectionIsActive_of_not_static hstatic

theorem Made.wellFormed (h : graph.Made) : graph.WellFormed where
  toIndexed := h.toIndexed
  nonstatic_active connection hconnection _ := by
    rw [ModuleGraphConnection.isActive, h.active connection hconnection]
    rfl
  located connection hconnection module hmodule hbuilt horigin := by
    obtain ⟨located, hlocated, hat, hdep⟩ := h.located connection hconnection module hmodule hbuilt horigin
    exact ⟨located, hlocated, hat, congrArg _ hdep⟩
  failed_empty := h.failed_empty
  block_imports := h.block_imports

/-- Optimising keeps a graph well formed. -/
theorem WellFormed.optimizeDependencies (h : graph.WellFormed) :
    graph.optimizeDependencies.WellFormed := by
  obtain ⟨-, hmodules, -, hconnections⟩ := optimizeDependencies_spec h.toIndexed
  refine { toSealable := h.toIndexed.sealable_optimizeDependencies, located := ?_, failed_empty := ?_,
           block_imports := ?_ }
  · intro connection hconnection module hmodule hbuilt horigin
    rw [hconnections] at hconnection
    rw [hmodules] at hmodule
    obtain ⟨before, hbefore, rfl⟩ := List.mem_map.mp hconnection
    obtain ⟨located, hlocated, hat, hdep⟩ := h.located before hbefore module hmodule hbuilt
      ((originModule_rewritten before).symm.trans horigin)
    exact ⟨located, hlocated, at_optimized.mpr hat, (setFirstId_rewritten before "").trans hdep⟩
  · rw [hmodules]
    exact h.failed_empty
  · rw [hmodules]
    exact h.block_imports

/-- Optimising keeps the connections at their places. -/
theorem Connected.optimizeDependencies (h : graph.Connected) (hindexed : graph.Indexed) :
    graph.optimizeDependencies.Connected := by
  obtain ⟨-, hmodules, -, hconnections⟩ := optimizeDependencies_spec hindexed
  rw [Connected, hmodules, hconnections]
  intro module hmodule located hlocated hdep
  obtain ⟨before, hbefore, hat⟩ := h module hmodule located hlocated hdep
  exact ⟨graph.optimized before, List.mem_map_of_mem hbefore, at_optimized.mpr hat⟩

end ModuleGraph

/-- The compilation whose graph the side effects phase has optimised. -/
def Compilation.optimizeDependencies (compilation : Compilation) : OptimizedCompilation where
  options := compilation.options
  moduleGraph := compilation.moduleGraph.optimizeDependencies
  entries := compilation.entries
  indexed := compilation.indexed.sealable_optimizeDependencies.toIndexed
  entries_lt := by
    rw [(ModuleGraph.optimizeDependencies_spec compilation.indexed).2.1]
    exact compilation.entries_lt
  nonstatic_active := compilation.indexed.sealable_optimizeDependencies.nonstatic_active

end Unpack
