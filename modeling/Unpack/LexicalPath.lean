import Mathlib.Data.List.Basic

/-! Lexical normalization of paths. A path is the list of its components, the root first if at all. The loop
pops the result where it can; a result that ends in a parent component can be popped as well, so that of the
parent components that nothing is left for only the parity survives. -/

namespace Unpack

inductive Component where
  | rootDir
  | curDir
  | parentDir
  | normal (name : String)
  deriving DecidableEq

/-- What `Path::components` lists. -/
structure Path where
  components : List Component
  rootFirst : Component.rootDir ∉ components.tail
  deriving DecidableEq

namespace Path

theorem ext_components {left right : Path} (h : left.components = right.components) : left = right := by
  cases left
  cases right
  cases h
  rfl

def empty : Path := ⟨[], List.not_mem_nil⟩

theorem rootFirst_append {components : List Component} {component : Component}
    (h : Component.rootDir ∉ components.tail) (hcomponent : component ≠ .rootDir) :
    Component.rootDir ∉ (components ++ [component]).tail := by
  cases components with
  | nil => exact List.not_mem_nil
  | cons first rest =>
      intro hroot
      rcases List.mem_append.mp hroot with hold | hnew
      · exact h hold
      · exact hcomponent (List.mem_singleton.mp hnew).symm

/-- An absolute component replaces the path. -/
def push (path : Path) : Component → Path
  | .rootDir => ⟨[.rootDir], List.not_mem_nil⟩
  | .curDir => ⟨path.components ++ [.curDir], rootFirst_append path.rootFirst nofun⟩
  | .parentDir => ⟨path.components ++ [.parentDir], rootFirst_append path.rootFirst nofun⟩
  | .normal name => ⟨path.components ++ [.normal name], rootFirst_append path.rootFirst nofun⟩

theorem rootFirst_dropLast {components : List Component} (h : Component.rootDir ∉ components.tail) :
    Component.rootDir ∉ components.dropLast.tail := by
  rw [List.tail_dropLast]
  exact fun hroot => h ((List.dropLast_sublist _).subset hroot)

/-- The path up to its last component, unless it is empty or ends in the root. -/
def parent (path : Path) : Option Path :=
  match path.components.getLast? with
  | none | some .rootDir => none
  | some _ => some ⟨path.components.dropLast, rootFirst_dropLast path.rootFirst⟩

/-- `pop` truncates to the parent, if there is one. -/
def pop (path : Path) : Option Path := path.parent

theorem length_parent {path parent : Path} (h : path.parent = some parent) :
    parent.components.length < path.components.length := by
  rw [Path.parent] at h
  split at h
  · cases h
  · cases h
  · next last hlast =>
    cases h
    have hpos : path.components ≠ [] := fun hnil => by
      rw [hnil] at hlast
      cases hlast
    show path.components.dropLast.length < path.components.length
    rw [List.length_dropLast]
    exact Nat.sub_lt (List.length_pos_iff.mpr hpos) Nat.one_pos

/-- One turn of the loop of `normalize`. -/
def normalizeStep (normalized : Path) : Component → Path
  | .curDir => normalized
  | .parentDir => normalized.pop.getD (normalized.push .parentDir)
  | component => normalized.push component

def normalize (path : Path) : Path := path.components.foldl normalizeStep empty

/-- The names from the root to a directory, where one component leads. -/
def enter (location : List String) : Component → List String
  | .rootDir => []
  | .curDir => location
  | .parentDir => location.dropLast
  | .normal name => location ++ [name]

def location (path : Path) (workingDirectory : List String) : List String :=
  path.components.foldl enter workingDirectory

/-- What is asked of the normal form of a path. -/
structure LexicallyCorrect (path : Path) : Prop where
  idempotent : path.normalize.normalize = path.normalize
  current : .curDir ∉ path.normalize.components
  /-- Parent components stand at the start. -/
  parents : ∃ count rest, path.normalize.components = List.replicate count .parentDir ++ rest ∧ .parentDir ∉ rest
  location : ∀ workingDirectory, path.normalize.location workingDirectory = path.location workingDirectory

/-- The parent components that no earlier name is left for, where `depth` names are left. -/
def climbs : Nat → List Component → Nat
  | _, [] => 0
  | 0, .parentDir :: components => climbs 0 components + 1
  | depth + 1, .parentDir :: components => climbs depth components
  | depth, .normal _ :: components => climbs (depth + 1) components
  | depth, .rootDir :: components | depth, .curDir :: components => climbs depth components

def unmatchedParents (path : Path) : Nat := climbs 0 path.components

def isAbsolute (path : Path) : Prop := path.components.head? = some .rootDir

instance (path : Path) : Decidable path.isAbsolute := inferInstanceAs (Decidable (_ = _))

/-- The names that are left in the end. -/
def remains : List String → List Component → List String
  | names, [] => names
  | names, .parentDir :: components => remains names.dropLast components
  | names, .normal name :: components => remains (names ++ [name]) components
  | names, .rootDir :: components | names, .curDir :: components => remains names components

end Path

namespace Path

variable {components : List Component} {names : List String}

/-- The unmatched parents take from where the path starts, the names that are left lead on from there. -/
theorem foldl_enter (hroot : Component.rootDir ∉ components) (base names : List String) :
    components.foldl enter (base ++ names) =
      base.take (base.length - climbs names.length components) ++ remains names components := by
  induction components generalizing base names with
  | nil => rw [List.foldl_nil, climbs, remains, Nat.sub_zero, List.take_length]
  | cons component components ih =>
      have hrest : Component.rootDir ∉ components := fun h => hroot (List.mem_cons_of_mem _ h)
      cases component with
      | rootDir => exact absurd List.mem_cons_self hroot
      | curDir =>
          rw [List.foldl_cons, enter, ih hrest]
          cases names <;> rfl
      | normal name =>
          rw [List.foldl_cons, enter, List.append_assoc, ih hrest, List.length_append, remains]
          cases names <;> rfl
      | parentDir =>
          rw [List.foldl_cons, enter, remains]
          rcases List.eq_nil_or_concat names with rfl | ⟨init, last, rfl⟩
          · have hnext := ih hrest base.dropLast []
            rw [List.append_nil] at hnext ⊢
            rw [hnext, List.length_dropLast, List.dropLast_eq_take, List.take_take, List.length_nil, climbs,
              List.dropLast_nil]
            congr 2
            omega
          · rw [List.concat_eq_append, ← List.append_assoc, List.dropLast_concat, ih hrest, List.dropLast_concat,
              List.length_append, List.length_singleton, climbs]

/-- A path is its root, if it has one, and components without a root. -/
theorem exists_rest (path : Path) : ∃ rest, Component.rootDir ∉ rest ∧
    path.components = (if path.isAbsolute then [.rootDir] else []) ++ rest := by
  have htail := path.rootFirst
  cases hcomponents : path.components with
  | nil =>
      have hpath : ¬ path.isAbsolute := by
        rw [isAbsolute, hcomponents]
        exact nofun
      exact ⟨[], List.not_mem_nil, by rw [if_neg hpath, List.nil_append]⟩
  | cons first rest =>
      rw [hcomponents, List.tail_cons] at htail
      by_cases hpath : path.isAbsolute
      · have hfirst := hpath
        rw [isAbsolute, hcomponents, List.head?_cons] at hfirst
        refine ⟨rest, htail, ?_⟩
        rw [if_pos hpath, Option.some.inj hfirst]
        rfl
      · refine ⟨first :: rest, fun hroot => ?_, by rw [if_neg hpath, List.nil_append]⟩
        rcases List.mem_cons.mp hroot with hfirst | hlater
        · exact hpath (by rw [isAbsolute, hcomponents, List.head?_cons, hfirst])
        · exact htail hlater

theorem location_eq (path : Path) (workingDirectory : List String) :
    path.location workingDirectory =
      (if path.isAbsolute then []
        else workingDirectory.take (workingDirectory.length - path.unmatchedParents)) ++
        remains [] path.components := by
  obtain ⟨rest, hroot, hcomponents⟩ := path.exists_rest
  rw [location, unmatchedParents, hcomponents]
  by_cases hpath : path.isAbsolute
  · have hwalk := foldl_enter hroot [] []
    rw [List.take_nil, List.append_nil] at hwalk
    rw [if_pos hpath, if_pos hpath]
    exact hwalk
  · have hwalk := foldl_enter hroot workingDirectory []
    rw [List.append_nil] at hwalk
    rw [if_neg hpath, if_neg hpath]
    exact hwalk

/-- What the loop makes of so many unmatched parents and the names that are left. -/
def shape (absolute : Bool) (count : Nat) (names : List String) : List Component :=
  (if absolute then [.rootDir] else []) ++ List.replicate (count % 2) .parentDir ++ names.map .normal

theorem shape_concat (absolute : Bool) (count : Nat) (names : List String) (name : String) :
    shape absolute count (names ++ [name]) = shape absolute count names ++ [.normal name] := by
  rw [shape, shape, List.map_append, List.append_assoc, List.append_assoc, List.append_assoc]
  rfl

theorem pop_concat {path : Path} {init : List Component} {last : Component}
    (h : path.components = init ++ [last]) (hlast : last ≠ .rootDir) :
    ∃ parent, path.pop = some parent ∧ parent.components = init := by
  have hgetLast : path.components.getLast? = some last := by rw [h, List.getLast?_concat]
  refine ⟨⟨path.components.dropLast, rootFirst_dropLast path.rootFirst⟩, ?_, ?_⟩
  · rw [pop, parent, hgetLast]
    cases last with
    | rootDir => exact absurd rfl hlast
    | curDir | parentDir | normal => rfl
  · show path.components.dropLast = init
    rw [h, List.dropLast_concat]

/-- A parent component, where a name is left. -/
theorem normalizeStep_matched {path : Path} {init : List Component} {name : String}
    (h : path.components = init ++ [.normal name]) : (path.normalizeStep .parentDir).components = init := by
  obtain ⟨parent, hpop, hparent⟩ := pop_concat h nofun
  rw [normalizeStep, hpop]
  exact hparent

/-- A parent component, where no name is left. A parent component before it goes with it. -/
theorem normalizeStep_unmatched {path : Path} {absolute : Bool} {count : Nat}
    (h : path.components = shape absolute count []) :
    (path.normalizeStep .parentDir).components = shape absolute (count + 1) [] := by
  rw [shape, List.map_nil, List.append_nil] at h ⊢
  rcases Nat.mod_two_eq_zero_or_one count with heven | hodd
  · rw [heven, List.replicate_zero, List.append_nil] at h
    have hnext : (count + 1) % 2 = 1 := by omega
    rw [hnext, List.replicate_one, ← h]
    have hlast : path.components.getLast? = if absolute then some .rootDir else none := by
      rw [h]
      cases absolute <;> rfl
    have hpop : path.pop = none := by
      rw [pop, parent, hlast]
      cases absolute <;> rfl
    rw [normalizeStep, hpop]
    rfl
  · rw [hodd, List.replicate_one] at h
    have hnext : (count + 1) % 2 = 0 := by omega
    rw [hnext, List.replicate_zero, List.append_nil]
    obtain ⟨parent, hpop, hparent⟩ := pop_concat h nofun
    rw [normalizeStep, hpop]
    exact hparent

theorem foldl_normalizeStep (hroot : Component.rootDir ∉ components) {path : Path} {absolute : Bool} {count : Nat}
    (h : path.components = shape absolute count names) :
    (components.foldl normalizeStep path).components =
      shape absolute (count + climbs names.length components) (remains names components) := by
  induction components generalizing path count names with
  | nil => exact h
  | cons component components ih =>
      have hrest : Component.rootDir ∉ components := fun hmem => hroot (List.mem_cons_of_mem _ hmem)
      rw [List.foldl_cons]
      cases component with
      | rootDir => exact absurd List.mem_cons_self hroot
      | curDir =>
          rw [normalizeStep, ih hrest h]
          cases names <;> rfl
      | normal name =>
          have hpush : (path.normalizeStep (.normal name)).components = shape absolute count (names ++ [name]) := by
            rw [shape_concat, ← h]
            rfl
          rw [ih hrest hpush, List.length_append, remains]
          cases names <;> rfl
      | parentDir =>
          rw [remains]
          rcases List.eq_nil_or_concat names with rfl | ⟨init, last, rfl⟩
          · rw [ih hrest (normalizeStep_unmatched h), List.length_nil, climbs, List.dropLast_nil]
            congr 1
            omega
          · rw [List.concat_eq_append, shape_concat] at h
            rw [ih hrest (normalizeStep_matched h), List.concat_eq_append, List.dropLast_concat, List.length_append,
              List.length_singleton, climbs]

theorem normalize_components (path : Path) :
    path.normalize.components =
      shape (decide path.isAbsolute) path.unmatchedParents (remains [] path.components) := by
  obtain ⟨rest, hroot, hcomponents⟩ := path.exists_rest
  rw [normalize, unmatchedParents, hcomponents]
  by_cases hpath : path.isAbsolute
  · have hstart : (empty.normalizeStep .rootDir).components = shape true 0 [] := rfl
    have hfold := foldl_normalizeStep hroot hstart
    rw [Nat.zero_add] at hfold
    rw [if_pos hpath, decide_eq_true hpath]
    exact hfold
  · have hstart : empty.components = shape false 0 [] := rfl
    have hfold := foldl_normalizeStep hroot hstart
    rw [Nat.zero_add] at hfold
    rw [if_neg hpath, decide_eq_false hpath]
    exact hfold

theorem climbs_map_normal (depth : Nat) (names : List String) : climbs depth (names.map .normal) = 0 := by
  induction names generalizing depth with
  | nil => rfl
  | cons name names ih =>
      rw [List.map_cons, ← ih (depth + 1)]
      cases depth <;> rfl

theorem remains_map_normal (before names : List String) : remains before (names.map .normal) = before ++ names := by
  induction names generalizing before with
  | nil => exact (List.append_nil before).symm
  | cons name names ih => rw [List.map_cons, remains, ih, List.append_assoc, List.singleton_append]

theorem climbs_shape (absolute : Bool) (count : Nat) (names : List String) :
    climbs 0 (shape absolute count names) = count % 2 := by
  rw [shape]
  rcases Nat.mod_two_eq_zero_or_one count with heven | hodd
  · rw [heven]
    cases absolute <;> exact climbs_map_normal 0 names
  · rw [hodd]
    cases absolute <;> exact congrArg (· + 1) (climbs_map_normal 0 names)

theorem remains_shape (absolute : Bool) (count : Nat) (names : List String) :
    remains [] (shape absolute count names) = names := by
  rw [shape]
  rcases Nat.mod_two_eq_zero_or_one count with heven | hodd
  · rw [heven]
    cases absolute <;> exact remains_map_normal [] names
  · rw [hodd]
    cases absolute <;> exact remains_map_normal [] names

theorem normalize_unmatchedParents (path : Path) :
    path.normalize.unmatchedParents = path.unmatchedParents % 2 := by
  rw [unmatchedParents, normalize_components, climbs_shape]

theorem normalize_remains (path : Path) : remains [] path.normalize.components = remains [] path.components := by
  rw [normalize_components, remains_shape]

theorem normalize_isAbsolute (path : Path) : path.normalize.isAbsolute ↔ path.isAbsolute := by
  rw [isAbsolute, normalize_components, shape]
  by_cases hpath : path.isAbsolute
  · rw [decide_eq_true hpath]
    exact ⟨fun _ => hpath, fun _ => rfl⟩
  · rw [decide_eq_false hpath]
    refine ⟨fun hroot => absurd hroot ?_, fun h => absurd h hpath⟩
    rcases Nat.mod_two_eq_zero_or_one path.unmatchedParents with heven | hodd
    · rw [heven]
      cases remains [] path.components <;> exact nofun
    · rw [hodd]
      exact nofun

theorem normalize_idempotent (path : Path) : path.normalize.normalize = path.normalize := by
  apply ext_components
  calc
    path.normalize.normalize.components
      = shape (decide path.normalize.isAbsolute) (path.unmatchedParents % 2) (remains [] path.components) := by
        rw [normalize_components, normalize_unmatchedParents, normalize_remains]
    _ = shape (decide path.isAbsolute) path.unmatchedParents (remains [] path.components) := by
        rw [shape, shape, Nat.mod_mod, decide_eq_decide.mpr path.normalize_isAbsolute]
    _ = path.normalize.components := path.normalize_components.symm

theorem curDir_not_mem_normalize (path : Path) : .curDir ∉ path.normalize.components := by
  rw [normalize_components, shape]
  intro hmem
  rcases List.mem_append.mp hmem with hfront | hname
  · rcases List.mem_append.mp hfront with hroot | hparent
    · cases hpath : decide path.isAbsolute <;> (rw [hpath] at hroot; cases hroot; try contradiction)
    · cases List.eq_of_mem_replicate hparent
  · obtain ⟨name, _, hname⟩ := List.mem_map.mp hname
    cases hname

theorem parentDir_not_mem_names (names : List String) : .parentDir ∉ names.map Component.normal := by
  intro hmem
  obtain ⟨name, _, hname⟩ := List.mem_map.mp hmem
  cases hname

/-- Parent components stand at the start unless an odd number of them is left behind a root. -/
theorem parents_first_iff (path : Path) :
    (∃ count rest, path.normalize.components = List.replicate count .parentDir ++ rest ∧ .parentDir ∉ rest) ↔
      (path.isAbsolute → path.unmatchedParents % 2 = 0) := by
  rw [normalize_components, shape]
  constructor
  · rintro ⟨count, rest, hsplit, hrest⟩ hpath
    rw [decide_eq_true hpath] at hsplit
    cases count with
    | succ count => cases (List.cons.inj hsplit).1
    | zero =>
        by_contra hodd
        rw [Nat.mod_two_ne_zero.mp hodd] at hsplit
        refine hrest ?_
        rw [List.replicate_zero, List.nil_append] at hsplit
        rw [← hsplit]
        exact List.mem_cons_of_mem _ List.mem_cons_self
  · intro heven
    by_cases hpath : path.isAbsolute
    · refine ⟨0, _, rfl, ?_⟩
      rw [decide_eq_true hpath, heven hpath]
      intro hmem
      rcases List.mem_cons.mp hmem with hroot | hname
      · cases hroot
      · exact parentDir_not_mem_names _ hname
    · refine ⟨path.unmatchedParents % 2, (remains [] path.components).map .normal, ?_, parentDir_not_mem_names _⟩
      rw [decide_eq_false hpath]
      rfl

/-- From a directory deep enough every unmatched parent counts. -/
theorem normalize_location_iff (path : Path) :
    (∀ workingDirectory, path.normalize.location workingDirectory = path.location workingDirectory) ↔
      (¬ path.isAbsolute → path.unmatchedParents ≤ 1) := by
  constructor
  · intro hsame hpath
    have hdeep := hsame (List.replicate path.unmatchedParents "")
    rw [location_eq, location_eq, normalize_remains, normalize_unmatchedParents, if_neg hpath,
      if_neg (mt path.normalize_isAbsolute.mp hpath)] at hdeep
    have hlength := congrArg List.length (List.append_cancel_right hdeep)
    rw [List.length_take, List.length_take, List.length_replicate] at hlength
    omega
  · intro hfew workingDirectory
    rw [location_eq, location_eq, normalize_remains, normalize_unmatchedParents]
    by_cases hpath : path.isAbsolute
    · rw [if_pos hpath, if_pos (path.normalize_isAbsolute.mpr hpath)]
    · rw [if_neg hpath, if_neg (mt path.normalize_isAbsolute.mp hpath),
        Nat.mod_eq_of_lt (Nat.lt_succ_of_le (hfew hpath))]

/-- A relative path may have one parent component that nothing is left for, an absolute path any even number. -/
theorem lexicallyCorrect_iff (path : Path) :
    path.LexicallyCorrect ↔
      if path.isAbsolute then path.unmatchedParents % 2 = 0 else path.unmatchedParents ≤ 1 := by
  constructor
  · intro h
    split_ifs with hpath
    · exact path.parents_first_iff.mp h.parents hpath
    · exact path.normalize_location_iff.mp h.location hpath
  · intro h
    refine ⟨path.normalize_idempotent, path.curDir_not_mem_normalize, path.parents_first_iff.mpr ?_,
      path.normalize_location_iff.mpr ?_⟩
    · intro hpath
      rwa [if_pos hpath] at h
    · intro hpath
      rwa [if_neg hpath] at h

def grandparent : Path := ⟨[.parentDir, .parentDir], by decide⟩

theorem grandparent_not_lexicallyCorrect : ¬ ∀ path : Path, path.LexicallyCorrect := by
  intro h
  have hplace := (h grandparent).location ["home", "user"]
  exact absurd hplace (by decide)

end Path

end Unpack
