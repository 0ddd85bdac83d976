import Unpack.ChunkGraph

/-! The index tables of the module graph while it is built: they agree with the connections after a module or a
connection has been added and after a module has been replaced, as long as no location is connected twice. -/

namespace Unpack.ModuleGraph

variable {graph : ModuleGraph}

theorem module_addModule {module : ModuleHandle → Module} {handle : ModuleHandle}
    {found : Module} :
    (graph.addModule module).module handle = some found ↔
      graph.module handle = some found ∨ handle = graph.modules.length ∧ found = module graph.modules.length := by
  change (graph.modules ++ [_])[handle]? = some found ↔ _
  rcases Nat.lt_trichotomy handle graph.modules.length with hlt | heq | hgt
  · rw [List.getElem?_append_left hlt]
    exact (or_iff_left fun h => hlt.ne h.1).symm
  · rw [heq, List.getElem?_concat_length]
    constructor
    · exact fun h => .inr ⟨rfl, (Option.some.inj h).symm⟩
    · rintro (h | ⟨-, rfl⟩)
      · exact absurd (Indexed.module_lt h) (lt_irrefl _)
      · rfl
  · rw [List.getElem?_eq_none (by simpa using Nat.succ_le_of_lt hgt)]
    constructor
    · exact fun h => absurd h (by simp)
    · rintro (h | ⟨heq, -⟩)
      · exact absurd (Indexed.module_lt h) hgt.not_gt
      · exact absurd heq hgt.ne'

namespace Indexed

theorem empty : ModuleGraph.empty.Indexed := by decide

theorem getD_append_default {α : Type} (rows : List α) (default : α) (index : Nat) :
    (rows ++ [default]).getD index default = rows.getD index default := by
  by_cases hlt : index < rows.length
  · exact List.getD_append _ _ _ _ hlt
  · have hle := Nat.le_of_not_lt hlt
    rw [List.getD_append_right _ _ _ _ hle, List.getD_eq_default rows _ hle]
    cases index - rows.length <;> rfl

theorem addModule (h : graph.Indexed) {module : ModuleHandle → Module}
    (hhandle : (module graph.modules.length).handle = graph.modules.length) :
    (graph.addModule module).Indexed := by
  have hlength : (graph.addModule module).modules.length = graph.modules.length + 1 :=
    List.length_append
  refine
    { module_handles := ?_
      connection_handles := h.connection_handles
      target_lt := fun connection hconnection => ?_
      origin_lt := fun connection hconnection origin horigin => ?_
      outgoing_eq := ?_
      incoming_length := ?_
      incoming_sound := fun target htarget handle hmem => ?_
      incoming_complete := fun connection hconnection => ?_
      locations_length := ?_
      location_complete := fun connection hconnection origin horigin index hindex => ?_
      location_sound := fun origin horigin entry hentry => ?_
      exportsInfos_length := ?_ }
  · rw [hlength, List.range_succ, ← h.module_handles]
    simp [ModuleGraph.addModule, hhandle]
  · rw [hlength]
    exact Nat.lt_succ_of_lt (h.target_lt connection hconnection)
  · rw [hlength]
    exact Nat.lt_succ_of_lt (h.origin_lt connection hconnection origin horigin)
  · have hnew : (graph.connections.filter fun connection =>
        connection.originModule = some graph.modules.length) = [] := by
      refine List.filter_eq_nil_iff.mpr fun connection hconnection horigin => ?_
      have := h.origin_lt connection hconnection graph.modules.length (by simpa using horigin)
      exact absurd this (lt_irrefl _)
    rw [hlength, List.range_succ, List.map_append, List.map_singleton]
    change graph.outgoing ++ [[]] = _
    rw [h.outgoing_eq]
    change _ = _ ++ [(graph.connections.filter fun connection =>
      connection.originModule = some graph.modules.length).map (·.handle)]
    rw [hnew]
    rfl
  · rw [hlength, ← h.incoming_length]
    exact List.length_append
  · change handle ∈ (graph.incoming ++ [[]]).getD target [] at hmem
    rw [getD_append_default] at hmem
    rw [hlength] at htarget
    rcases Nat.lt_succ_iff_lt_or_eq.mp htarget with hlt | heq
    · exact h.incoming_sound target hlt handle hmem
    · rw [List.getD_eq_default _ _ (by rw [h.incoming_length, heq])] at hmem
      exact absurd hmem List.not_mem_nil
  · change _ ∈ (graph.incoming ++ [[]]).getD _ []
    rw [getD_append_default]
    exact h.incoming_complete connection hconnection
  · rw [hlength, ← h.locations_length]
    exact List.length_append
  · change ((graph.outgoingByLocation ++ [∅]).getD origin ∅).lookup _ = _
    rw [getD_append_default]
    exact h.location_complete connection hconnection origin horigin index hindex
  · change entry ∈ ((graph.outgoingByLocation ++ [∅]).getD origin ∅).entries at hentry
    rw [getD_append_default] at hentry
    rw [hlength] at horigin
    rcases Nat.lt_succ_iff_lt_or_eq.mp horigin with hlt | heq
    · exact h.location_sound origin hlt entry hentry
    · rw [List.getD_eq_default _ _ (by rw [h.locations_length, heq])] at hentry
      cases hentry
  · rw [hlength, ← h.exportsInfos_length]
    exact List.length_append

/-- A module is replaced by one with the same handle. -/
theorem modifyModule (h : graph.Indexed) (handle : ModuleHandle) {f : Module → Module}
    (hf : ∀ module, (f module).handle = module.handle) :
    ({ graph with modules := graph.modules.modify handle f } : ModuleGraph).Indexed := by
  have hlength : (graph.modules.modify handle f).length = graph.modules.length := List.length_modify ..
  have hhandles : (graph.modules.modify handle f).map (·.handle) = graph.modules.map (·.handle) := by
    refine List.ext_getElem? fun index => ?_
    rw [List.getElem?_map, List.getElem?_map, List.getElem?_modify]
    cases graph.modules[index]? with
    | none => rfl
    | some module =>
      by_cases heq : handle = index
      · simp [heq, hf]
      · simp [heq]
  exact
    { module_handles := by rw [hhandles, hlength, h.module_handles]
      connection_handles := h.connection_handles
      target_lt := by rw [hlength]; exact h.target_lt
      origin_lt := by rw [hlength]; exact h.origin_lt
      outgoing_eq := by rw [hlength]; exact h.outgoing_eq
      incoming_length := by rw [hlength]; exact h.incoming_length
      incoming_sound := by rw [hlength]; exact h.incoming_sound
      incoming_complete := h.incoming_complete
      locations_length := by rw [hlength]; exact h.locations_length
      location_complete := h.location_complete
      location_sound := by rw [hlength]; exact h.location_sound
      exportsInfos_length := by rw [hlength]; exact h.exportsInfos_length }

section

variable {originModule : Option ModuleHandle} {originBlock : Option AsyncDependenciesBlockIndex}
  {originDependencyIndex : Option DependencyIndex} {dependency : Dependency} {target : ModuleHandle}

theorem connections_connect :
    (graph.connect originModule originBlock originDependencyIndex dependency target).connections =
      graph.connections ++
        [{ handle := graph.connections.length, originModule, originBlock, originDependencyIndex,
           dependency, resolvedModule := target, module := target }] := rfl

theorem modules_connect :
    (graph.connect originModule originBlock originDependencyIndex dependency target).modules =
      graph.modules := rfl

theorem mem_connections_connect {connection : ModuleGraphConnection} :
    connection ∈ (graph.connect originModule originBlock originDependencyIndex dependency target).connections ↔
      connection ∈ graph.connections ∨
        connection = { handle := graph.connections.length, originModule, originBlock, originDependencyIndex,
                       dependency, resolvedModule := target, module := target } := by
  rw [connections_connect, List.mem_append, List.mem_singleton]

theorem mem_incoming_connect {module handle : Nat} :
    handle ∈ (graph.connect originModule originBlock originDependencyIndex dependency target).incoming.getD
        module [] ↔
      handle ∈ graph.incoming.getD module [] ∨
        handle = graph.connections.length ∧ target = module ∧ module < graph.incoming.length := by
  change handle ∈ (graph.incoming.modify target (· ++ [graph.connections.length])).getD module [] ↔ _
  rw [ChunkGraph.getD_modify]
  split_ifs with heq
  · rw [List.mem_append, List.mem_singleton]
    exact or_congr_right (iff_self_and.mpr fun _ => heq)
  · exact (or_iff_left fun hnew => heq hnew.2).symm

/-- A location of the graph after a connection is the one connected, or was there before. -/
theorem lookup_connect {module : ModuleHandle} {location : DependencyLocation} :
    ((graph.connect originModule originBlock originDependencyIndex dependency target).outgoingByLocation.getD
        module ∅).lookup location =
      if (originModule = some module ∧ originBlock = location.block ∧
          originDependencyIndex = some location.dependencyIndex) ∧
          module < graph.outgoingByLocation.length then
        some graph.connections.length
      else (graph.outgoingByLocation.getD module ∅).lookup location := by
  cases originModule with
  | none =>
    change (graph.outgoingByLocation.getD module ∅).lookup location = _
    simp
  | some origin =>
    cases originDependencyIndex with
    | none =>
      change (graph.outgoingByLocation.getD module ∅).lookup location = _
      simp
    | some index =>
      change ((graph.outgoingByLocation.modify origin
        (·.insert ⟨originBlock, index⟩ graph.connections.length)).getD module ∅).lookup location = _
      rw [ChunkGraph.getD_modify]
      obtain ⟨block, dependencyIndex⟩ := location
      by_cases hmodule : origin = module ∧ module < graph.outgoingByLocation.length
      · rw [if_pos hmodule]
        by_cases hlocation : originBlock = block ∧ index = dependencyIndex
        · obtain ⟨rfl, rfl⟩ := hlocation
          rw [AList.lookup_insert, if_pos ⟨⟨congrArg some hmodule.1, rfl, rfl⟩, hmodule.2⟩]
        · rw [AList.lookup_insert_ne, if_neg]
          · rintro ⟨⟨-, hblock, hindex⟩, -⟩
            exact hlocation ⟨hblock, Option.some.inj hindex⟩
          · intro heq
            cases heq
            exact hlocation ⟨rfl, rfl⟩
      · rw [if_neg hmodule, if_neg]
        rintro ⟨⟨horigin, -⟩, hlt⟩
        exact hmodule ⟨Option.some.inj horigin, hlt⟩

/-- A connection at a location that has none yet. -/
theorem connect (h : graph.Indexed) (htarget : target < graph.modules.length)
    (horigin : ∀ origin, originModule = some origin → origin < graph.modules.length)
    (hfresh : ∀ origin index, originModule = some origin → originDependencyIndex = some index →
      ∀ connection ∈ graph.connections, ¬connection.At origin ⟨originBlock, index⟩) :
    (graph.connect originModule originBlock originDependencyIndex dependency target).Indexed := by
  have hrow : ∀ module, ∀ entry ∈ (((graph.connect originModule originBlock originDependencyIndex dependency
      target).outgoingByLocation.getD module ∅).entries),
        ((graph.connect originModule originBlock originDependencyIndex dependency target).outgoingByLocation.getD
          module ∅).lookup entry.1 = some entry.2 :=
    fun module entry hentry => AList.mem_lookup_iff.mpr hentry
  have hlengths : (graph.connect originModule originBlock originDependencyIndex dependency
      target).outgoingByLocation.length = graph.outgoingByLocation.length := by
    cases originModule with
    | none => rfl
    | some origin =>
      cases originDependencyIndex with
      | none => rfl
      | some index => exact List.length_modify ..
  refine
    { module_handles := h.module_handles
      connection_handles := ?_
      target_lt := fun connection hconnection => ?_
      origin_lt := fun connection hconnection origin hmem => ?_
      outgoing_eq := ?_
      incoming_length := (List.length_modify ..).trans h.incoming_length
      incoming_sound := fun module hmodule handle hhandle => ?_
      incoming_complete := fun connection hconnection => ?_
      locations_length := hlengths.trans h.locations_length
      location_complete := fun connection hconnection origin hmem index hindex => ?_
      location_sound := fun module hmodule entry hentry => ?_
      exportsInfos_length := h.exportsInfos_length }
  · rw [connections_connect, List.map_append, h.connection_handles, List.length_append, List.length_singleton,
      List.range_succ]
    rfl
  · rcases mem_connections_connect.mp hconnection with hold | rfl
    · exact h.target_lt connection hold
    · exact htarget
  · rcases mem_connections_connect.mp hconnection with hold | rfl
    · exact h.origin_lt connection hold origin hmem
    · exact horigin origin (Option.mem_toList.mp hmem)
  · cases originModule with
    | none =>
      refine h.outgoing_eq.trans (List.map_congr_left fun module _ => ?_)
      simp [connections_connect]
    | some origin =>
      change graph.outgoing.modify origin (· ++ [graph.connections.length]) = _
      rw [h.outgoing_eq]
      refine List.ext_getElem? fun index => ?_
      rw [List.getElem?_modify, List.getElem?_map, List.getElem?_map]
      by_cases hlt : index < graph.modules.length
      · by_cases heq : origin = index
        · simp [connections_connect, modules_connect, List.filter_append, heq, hlt]
        · simp [connections_connect, modules_connect, List.filter_append, heq, hlt]
      · simp [connections_connect, modules_connect, hlt]
  · rcases mem_incoming_connect.mp hhandle with hold | ⟨rfl, rfl, -⟩
    · obtain ⟨connection, hconnection, hfound⟩ := h.incoming_sound module hmodule handle hold
      exact ⟨connection, mem_connections_connect.mpr (.inl hconnection), hfound⟩
    · exact ⟨_, mem_connections_connect.mpr (.inr rfl), rfl, rfl⟩
  · refine mem_incoming_connect.mpr ?_
    rcases mem_connections_connect.mp hconnection with hold | rfl
    · exact .inl (h.incoming_complete connection hold)
    · exact .inr ⟨rfl, rfl, by rw [h.incoming_length]; exact htarget⟩
  · rw [lookup_connect]
    rcases mem_connections_connect.mp hconnection with hold | rfl
    · rw [if_neg, h.location_complete connection hold origin hmem index hindex]
      rintro ⟨⟨hsame, hblock, hplace⟩, -⟩
      exact hfresh origin index hsame hplace connection hold
        ⟨Option.mem_toList.mp hmem, hblock.symm, Option.mem_toList.mp hindex⟩
    · have hsame : originModule = some origin := Option.mem_toList.mp hmem
      rw [if_pos]
      exact ⟨⟨hsame, rfl, Option.mem_toList.mp hindex⟩, by rw [h.locations_length]; exact horigin origin hsame⟩
  · have hlookup := hrow module entry hentry
    rw [lookup_connect] at hlookup
    split_ifs at hlookup with hnew
    · obtain ⟨⟨hsame, hblock, hindex⟩, -⟩ := hnew
      exact ⟨_, mem_connections_connect.mpr (.inr rfl), Option.some.inj hlookup, hsame, hblock, hindex⟩
    · obtain ⟨connection, hconnection, hfound⟩ := h.location_sound module hmodule ⟨entry.1, entry.2⟩
        (AList.mem_lookup_iff.mp hlookup)
      exact ⟨connection, mem_connections_connect.mpr (.inl hconnection), hfound⟩

end

end Indexed

end Unpack.ModuleGraph
