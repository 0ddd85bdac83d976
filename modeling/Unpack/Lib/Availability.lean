import Mathlib.Logic.Relation

/-! Availability along loading paths. Groups load one another from some roots; a group carries items
itself and finds others available because every way of loading it has brought them. What a group
finds available is then carried somewhere on each path to it, cycles included. -/

namespace Availability

variable {Group Item : Type}

/-- A path of loading steps from a root, with every group on it. -/
inductive LoadingPath (root : Group → Prop) (loads : Group → Group → Prop) :
    List Group → Group → Prop where
  | root {group : Group} (hroot : root group) : LoadingPath root loads [group] group
  | load {path : List Group} {parent child : Group} (hpath : LoadingPath root loads path parent)
      (hload : loads parent child) : LoadingPath root loads (path ++ [child]) child

/-- Nothing is available without a reason: a root carries it, and any other group carries it or has
it from all the groups that load it. -/
structure Justified (root : Group → Prop) (loads : Group → Group → Prop)
    (carries available : Group → Item → Prop) : Prop where
  root_carries : ∀ group item, root group → available group item → carries group item
  inherited : ∀ group item, available group item → carries group item ∨
    ∀ parent, loads parent group → available parent item

variable {root : Group → Prop} {loads : Group → Group → Prop}

theorem LoadingPath.mono {loads' : Group → Group → Prop}
    (hsub : ∀ parent child, loads parent child → loads' parent child) {path : List Group}
    {group : Group} (hpath : LoadingPath root loads path group) :
    LoadingPath root loads' path group := by
  induction hpath with
  | root hroot => exact .root hroot
  | load _ hload ih => exact .load ih (hsub _ _ hload)

/-- Every group on a path ends a path of its own, inside the longer one. -/
theorem LoadingPath.upTo {path : List Group} {group : Group}
    (hpath : LoadingPath root loads path group) {stop : Group} (hstop : stop ∈ path) :
    ∃ path', LoadingPath root loads path' stop ∧ ∀ other ∈ path', other ∈ path := by
  induction hpath with
  | root hroot =>
      obtain rfl := List.mem_singleton.mp hstop
      exact ⟨[stop], .root hroot, fun _ hother => hother⟩
  | @load path parent child hpath hload ih =>
      rcases List.mem_append.mp hstop with hold | hnew
      · obtain ⟨path', hpath', hsub⟩ := ih hold
        exact ⟨path', hpath', fun other hother => List.mem_append_left _ (hsub other hother)⟩
      · obtain rfl := List.mem_singleton.mp hnew
        exact ⟨path ++ [stop], .load hpath hload, fun _ hother => hother⟩

/-- What is available at the end of a path is carried by a group on it. -/
theorem Justified.carried_on_path {carries available : Group → Item → Prop}
    (h : Justified root loads carries available) {path : List Group} {group : Group} {item : Item}
    (hpath : LoadingPath root loads path group) (havailable : available group item) :
    ∃ carrier ∈ path, carries carrier item := by
  induction hpath with
  | root hroot =>
      exact ⟨_, List.mem_singleton_self _, h.root_carries _ item hroot havailable⟩
  | load hpath hload ih =>
      rcases h.inherited _ item havailable with hcarries | hparents
      · exact ⟨_, List.mem_append_right _ (List.mem_singleton_self _), hcarries⟩
      · obtain ⟨carrier, hmem, hcarries⟩ := ih (hparents _ hload)
        exact ⟨carrier, List.mem_append_left _ hmem, hcarries⟩

end Availability
