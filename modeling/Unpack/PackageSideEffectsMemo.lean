import Unpack.PackageSideEffects

/-! Sharing the memo of the package walks changes no answer. What the memo holds for a directory is what a walk
without memory finds from there, whichever module asks; a walk keeps that what is found from where it stands is
what is found from where it began. -/

namespace Unpack.NormalModuleFactory

variable {tree : FileTree} {resource other current : Path} {cache : PackageSideEffectsCache}
  {metadata : Option PackageSideEffects} {visited : List Path} {directory : Option Path}

/-- What a walk finds that starts with nothing remembered. -/
def boundary (tree : FileTree) (resource : Path) (directory : Option Path) :
    Except Error (Option PackageSideEffects) :=
  (walk tree resource (fun _ => none) [] directory).map Prod.fst

theorem walk_append (before visited : List Path) (directory : Option Path) :
    walk tree resource cache (before ++ visited) directory =
      (walk tree resource cache visited directory).map fun found => (found.1, before ++ found.2) := by
  fun_induction walk tree resource cache visited directory with
  | case1 visited => rw [walk, Except.map]
  | case2 visited current cached hcached =>
      rw [walk, hcached]
      rfl
  | case3 visited current hmiss error hturn =>
      rw [walk, hmiss]
      simp only [hturn]
      rfl
  | case4 visited current hmiss metadata hturn =>
      rw [walk, hmiss]
      simp only [hturn, List.append_assoc]
      rfl
  | case5 visited current hmiss hturn ih =>
      rw [walk, hmiss]
      simp only [hturn, List.append_assoc]
      rw [ih]

theorem boundary_none : boundary tree resource none = .ok none := by
  rw [boundary, walk]
  rfl

theorem boundary_some (current : Path) : boundary tree resource (some current) =
    match walkTurn tree resource current with
    | .fail error => .error error
    | .stop metadata => .ok metadata
    | .up => boundary tree resource current.parent := by
  rw [boundary, walk]
  cases hturn : walkTurn tree resource current with
  | fail error => rfl
  | stop metadata => rfl
  | up =>
      show (walk tree resource (fun _ => none) [current] current.parent).map Prod.fst = _
      rw [← List.append_nil [current], walk_append, boundary]
      cases walk tree resource (fun _ => none) [] current.parent <;> rfl

/-- The module that asks shows in errors only. -/
theorem packageAt_of_ok {answer : Option (Option PackageSideEffects)}
    (h : packageAt tree resource current = .ok answer) : packageAt tree other current = .ok answer := by
  unfold packageAt at h ⊢
  by_cases hfile : tree.isFile (current.join "package.json") = true
  · rw [if_pos hfile] at h ⊢
    cases hread : tree.readToString (current.join "package.json") with
    | error error =>
        rw [hread] at h
        cases h
    | ok source =>
        rw [hread] at h
        dsimp only at h ⊢
        cases hparse : tree.fromStr source with
        | error error =>
            rw [hparse] at h
            cases h
        | ok data =>
            rw [hparse] at h
            exact h
  · rw [if_neg hfile] at h ⊢
    exact h

theorem walkTurn_of_not_fail (h : ∀ error, walkTurn tree resource current ≠ .fail error) :
    walkTurn tree other current = walkTurn tree resource current := by
  cases hread : packageAt tree resource current with
  | error error => exact absurd (by rw [walkTurn, hread]) (h error)
  | ok answer => rw [walkTurn, walkTurn, hread, packageAt_of_ok hread]

theorem boundary_of_ok (h : boundary tree resource directory = .ok metadata) :
    boundary tree other directory = .ok metadata := by
  have hturn : ∀ {current : Path}, boundary tree resource (some current) = .ok metadata →
      walkTurn tree other current = walkTurn tree resource current := by
    intro current hok
    refine walkTurn_of_not_fail fun error hfail => ?_
    rw [boundary_some, hfail] at hok
    cases hok
  fun_induction walk tree other (fun _ => none) [] directory with
  | case1 visited =>
      rw [boundary_none] at h ⊢
      exact h
  | case2 visited current cached hcached => cases hcached
  | case3 visited current hmiss error hfail =>
      have hsame := hturn h
      rw [boundary_some, ← hsame, hfail] at h
      cases h
  | case4 visited current hmiss stopped hstop =>
      have hsame := hturn h
      rw [boundary_some, ← hsame, hstop] at h
      rw [boundary_some, hstop]
      exact h
  | case5 visited current hmiss hup ih =>
      have hsame := hturn h
      rw [boundary_some, ← hsame, hup] at h
      rw [boundary_some, hup]
      exact ih h

/-- What a directory is remembered with is found from it, for every module. -/
def Found (tree : FileTree) (directory : Path) (metadata : Option PackageSideEffects) : Prop :=
  ∀ resource, boundary tree resource (some directory) = .ok metadata

def MemoSound (tree : FileTree) (cache : PackageSideEffectsCache) : Prop :=
  ∀ directory metadata, cache directory = some metadata → Found tree directory metadata

theorem MemoSound.update (h : MemoSound tree cache) (hfound : Found tree current metadata) :
    MemoSound tree (Function.update cache current (some metadata)) := by
  intro directory remembered hremembered
  by_cases hsame : directory = current
  · subst hsame
    rw [Function.update_self] at hremembered
    cases hremembered
    exact hfound
  · rw [Function.update_of_ne hsame] at hremembered
    exact h directory remembered hremembered

/-- From each of the directories the walk has come to where it stands. -/
def LeadsTo (tree : FileTree) (visited : List Path) (directory : Option Path) : Prop :=
  ∀ passed ∈ visited, ∀ resource, boundary tree resource (some passed) = boundary tree resource directory

theorem leadsTo_nil : LeadsTo tree [] directory := fun _ hpassed => nomatch hpassed

theorem LeadsTo.found (h : LeadsTo tree visited directory) (hok : boundary tree resource directory = .ok metadata) :
    ∀ passed ∈ visited, Found tree passed metadata := fun passed hpassed other =>
  (h passed hpassed other).trans (boundary_of_ok hok)

theorem LeadsTo.stop (h : LeadsTo tree visited (some current)) :
    LeadsTo tree (visited ++ [current]) (some current) := by
  intro passed hpassed asked
  rcases List.mem_append.mp hpassed with hearlier | hlast
  · exact h passed hearlier asked
  · rw [List.mem_singleton.mp hlast]

theorem LeadsTo.up (h : LeadsTo tree visited (some current)) (hup : walkTurn tree resource current = .up) :
    LeadsTo tree (visited ++ [current]) current.parent := by
  intro passed hpassed asked
  have hsame : walkTurn tree asked current = .up := by
    rw [← hup]
    refine walkTurn_of_not_fail fun error hfail => ?_
    rw [hup] at hfail
    cases hfail
  rw [h.stop passed hpassed asked, boundary_some, hsame]

/-- With a sound memo a walk finds what it finds without. -/
theorem walk_eq_boundary (h : MemoSound tree cache) (hleads : LeadsTo tree visited directory) :
    (∃ error, walk tree resource cache visited directory = .error error ∧
        boundary tree resource directory = .error error) ∨
      ∃ found passed, walk tree resource cache visited directory = .ok (found, passed) ∧
        boundary tree resource directory = .ok found ∧ ∀ directory ∈ passed, Found tree directory found := by
  fun_induction walk tree resource cache visited directory with
  | case1 visited => exact Or.inr ⟨none, visited, rfl, boundary_none, hleads.found (@boundary_none tree resource)⟩
  | case2 visited current cached hcached =>
      have hfound := h current cached hcached
      exact Or.inr ⟨cached, visited, rfl, hfound resource, hleads.found (hfound resource)⟩
  | case3 visited current hmiss error hfail =>
      refine Or.inl ⟨error, rfl, ?_⟩
      rw [boundary_some, hfail]
  | case4 visited current hmiss stopped hstop =>
      have hok : boundary tree resource (some current) = .ok stopped := by rw [boundary_some, hstop]
      exact Or.inr ⟨stopped, visited ++ [current], rfl, hok, hleads.stop.found hok⟩
  | case5 visited current hmiss hup ih =>
      rw [boundary_some, hup]
      exact ih (hleads.up hup)

/-- A lookup alone, on any sound memo. -/
theorem packageSideEffects_eq (h : MemoSound tree cache) (resource : Path) :
    (∃ error, packageSideEffects tree resource cache = (.error error, cache) ∧
        boundary tree resource resource.parent = .error error) ∨
      ∃ found passed, packageSideEffects tree resource cache =
          (.ok (packageAnswer resource found), insertAll found cache passed) ∧
        boundary tree resource resource.parent = .ok found ∧ ∀ directory ∈ passed, Found tree directory found := by
  rw [packageSideEffects]
  rcases @walk_eq_boundary tree resource cache [] resource.parent h leadsTo_nil with
    ⟨error, hwalk, hboundary⟩ | ⟨found, passed, hwalk, hboundary, hfound⟩
  · rw [hwalk]
    exact Or.inl ⟨error, rfl, hboundary⟩
  · rw [hwalk]
    exact Or.inr ⟨found, passed, rfl, hboundary, hfound⟩

theorem memoSound_empty : MemoSound tree fun _ => none := fun _ _ hnone => nomatch hnone

theorem packageSideEffects_fst (h : MemoSound tree cache) (resource : Path) :
    (packageSideEffects tree resource cache).1 =
      (boundary tree resource resource.parent).map (packageAnswer resource) := by
  rcases packageSideEffects_eq h resource with ⟨error, hlookup, hboundary⟩ | ⟨found, passed, hlookup, hboundary, _⟩
  · rw [hlookup, hboundary]
    rfl
  · rw [hlookup, hboundary]
    rfl

/-- What holds of a lookup at each of its points. -/
def LookupPoint.Sound (tree : FileTree) (resource : Path) : LookupPoint → Prop
  | walking directory visited =>
      boundary tree resource directory = boundary tree resource resource.parent ∧ LeadsTo tree visited directory
  | inserting metadata visited =>
      boundary tree resource resource.parent = .ok metadata ∧ ∀ directory ∈ visited, Found tree directory metadata
  | finished result => result = (boundary tree resource resource.parent).map (packageAnswer resource)

structure LookupSystem.Sound (tree : FileTree) (system : LookupSystem) : Prop where
  memo : MemoSound tree system.cache
  lookups : ∀ lookup ∈ system.lookups, lookup.point.Sound tree lookup.resource

theorem LookupPoint.sound_turn {point next : LookupPoint} {after : PackageSideEffectsCache}
    (hmemo : MemoSound tree cache) (h : point.Sound tree resource)
    (hturn : point.turn tree resource cache = some (next, after)) :
    MemoSound tree after ∧ next.Sound tree resource := by
  cases point with
  | finished result => cases hturn
  | inserting metadata visited =>
      obtain ⟨hok, hfound⟩ := h
      cases visited with
      | nil =>
          cases hturn
          refine ⟨hmemo, ?_⟩
          rw [Sound, hok]
          rfl
      | cons directory visited =>
          cases hturn
          refine ⟨hmemo.update (hfound directory List.mem_cons_self), hok, fun later hlater => ?_⟩
          exact hfound later (List.mem_cons_of_mem directory hlater)
  | walking directory visited =>
      obtain ⟨hsame, hleads⟩ := h
      cases directory with
      | none =>
          cases hturn
          refine ⟨hmemo, ?_, hleads.found (@boundary_none tree resource)⟩
          rw [← hsame, boundary_none]
      | some current =>
          rw [turn] at hturn
          cases hcache : cache current with
          | some cached =>
              rw [hcache] at hturn
              cases hturn
              have hfound := hmemo current cached hcache
              exact ⟨hmemo, hsame.symm.trans (hfound resource), hleads.found (hfound resource)⟩
          | none =>
              rw [hcache] at hturn
              dsimp only at hturn
              rw [boundary_some] at hsame
              cases hwalk : walkTurn tree resource current with
              | fail error =>
                  rw [hwalk] at hturn hsame
                  cases hturn
                  refine ⟨hmemo, ?_⟩
                  rw [Sound, ← hsame]
                  rfl
              | stop metadata =>
                  rw [hwalk] at hturn hsame
                  cases hturn
                  have hok : boundary tree resource (some current) = .ok metadata := by rw [boundary_some, hwalk]
                  exact ⟨hmemo, hsame.symm, hleads.stop.found hok⟩
              | up =>
                  rw [hwalk] at hturn hsame
                  cases hturn
                  exact ⟨hmemo, hsame, hleads.up hwalk⟩

theorem LookupSystem.sound_step {system next : LookupSystem} {event : LookupEvent} (h : system.Sound tree)
    (hstep : system.step tree event = some next) : next.Sound tree := by
  cases event with
  | lookup resource =>
      cases hstep
      refine ⟨h.memo, fun lookup hlookup => ?_⟩
      rcases List.mem_append.mp hlookup with hold | hnew
      · exact h.lookups lookup hold
      · rw [List.mem_singleton.mp hnew]
        exact ⟨rfl, leadsTo_nil⟩
  | turn index =>
      obtain ⟨lookup, hlookup, hrest⟩ := Option.bind_eq_some_iff.mp hstep
      obtain ⟨⟨point, cache⟩, hturn, hnext⟩ := Option.bind_eq_some_iff.mp hrest
      cases hnext
      obtain ⟨hmemo, hpoint⟩ :=
        LookupPoint.sound_turn h.memo (h.lookups lookup (List.mem_of_getElem? hlookup)) hturn
      refine ⟨hmemo, fun other hother => ?_⟩
      rcases List.mem_or_eq_of_mem_set hother with hold | hnew
      · exact h.lookups other hold
      · rw [hnew]
        exact hpoint

theorem LookupRun.sound {trace : List (LookupSystem × LookupEvent)} {final : LookupSystem}
    (h : LookupRun tree trace final) : final.Sound tree := by
  refine h.invariant ?_ ?_
  · rintro system rfl
    exact ⟨memoSound_empty, fun _ hlookup => nomatch hlookup⟩
  · intro system event next hsound hstep
    exact LookupSystem.sound_step hsound hstep

/-- A lookup that has come to its insertions does not fail. -/
def LookupPoint.Inserts : LookupPoint → Prop
  | inserting _ _ | finished (.ok _) => True
  | walking _ _ | finished (.error _) => False

theorem LookupPoint.inserts_turn {point next : LookupPoint} {after : PackageSideEffectsCache} (h : point.Inserts)
    (hturn : point.turn tree resource cache = some (next, after)) : next.Inserts := by
  cases point with
  | walking directory visited => exact h.elim
  | finished result => cases hturn
  | inserting metadata visited => cases visited <;> (cases hturn; trivial)

/-- Only an insertion changes the memo. -/
theorem LookupPoint.unchanged_turn {point next : LookupPoint} {after : PackageSideEffectsCache}
    (h : ¬ point.Inserts) (hturn : point.turn tree resource cache = some (next, after)) : after = cache := by
  cases point with
  | finished result => cases hturn
  | inserting metadata visited => exact absurd trivial h
  | walking directory visited =>
      cases directory with
      | none =>
          cases hturn
          rfl
      | some current =>
          rw [turn] at hturn
          split at hturn
          · cases hturn
            rfl
          · split at hturn <;> (cases hturn; rfl)

/-- The lookup at a place has come to its insertions. -/
def LookupSystem.InsertsAt (system : LookupSystem) (index : Nat) : Prop :=
  ∃ lookup, system.lookups[index]? = some lookup ∧ lookup.point.Inserts

theorem LookupSystem.insertsAt_step {system next : LookupSystem} {event : LookupEvent} {index : Nat}
    (h : system.InsertsAt index) (hstep : system.step tree event = some next) : next.InsertsAt index := by
  obtain ⟨lookup, hlookup, hinserts⟩ := h
  have hlt : index < system.lookups.length := (List.getElem?_eq_some_iff.mp hlookup).1
  cases event with
  | lookup resource =>
      cases hstep
      exact ⟨lookup, (List.getElem?_append_left hlt).trans hlookup, hinserts⟩
  | turn turning =>
      obtain ⟨other, hother, hrest⟩ := Option.bind_eq_some_iff.mp hstep
      obtain ⟨⟨point, cache⟩, hturn, hnext⟩ := Option.bind_eq_some_iff.mp hrest
      cases hnext
      by_cases hsame : turning = index
      · subst hsame
        rw [hlookup] at hother
        cases hother
        exact ⟨_, List.getElem?_set_self hlt, LookupPoint.inserts_turn hinserts hturn⟩
      · exact ⟨lookup, (List.getElem?_set_ne hsame).trans hlookup, hinserts⟩

/-- What sharing the memo must not show. -/
structure Transparent (tree : FileTree) (trace : List (LookupSystem × LookupEvent)) (final : LookupSystem) : Prop where
  /-- A lookup has the result that it has with an empty cache. -/
  answers : ∀ (index : Nat) resource result, final.lookups[index]? = some ⟨resource, .finished result⟩ →
    result = (packageSideEffects tree resource fun _ => none).1
  /-- No turn of a lookup that fails has changed the cache. -/
  failures : ∀ (index : Nat) resource error, final.lookups[index]? = some ⟨resource, .finished (.error error)⟩ →
    ∀ passed ∈ trace, passed.2 = .turn index → ∀ next, passed.1.step tree passed.2 = some next →
      next.cache = passed.1.cache
  /-- Nor does a lookup that has the cache for itself see or leave anything else. -/
  alone : ∀ resource, (packageSideEffects tree resource final.cache).1 =
    (packageSideEffects tree resource fun _ => none).1
  aloneFailures : ∀ resource error, (packageSideEffects tree resource final.cache).1 = .error error →
    (packageSideEffects tree resource final.cache).2 = final.cache

theorem LookupRun.insertsAt {trace : List (LookupSystem × LookupEvent)} {final : LookupSystem} {index : Nat}
    (h : LookupRun tree trace final) {passed : LookupSystem × LookupEvent} (hpassed : passed ∈ trace)
    (hinserts : passed.1.InsertsAt index) : final.InsertsAt index := by
  induction h with
  | start => cases hpassed
  | step _ hstep ih =>
      refine LookupSystem.insertsAt_step ?_ hstep
      rcases List.mem_append.mp hpassed with hearlier | hlast
      · exact ih hearlier
      · rw [List.mem_singleton.mp hlast] at hinserts
        exact hinserts

theorem LookupRun.transparent {trace : List (LookupSystem × LookupEvent)} {final : LookupSystem}
    (h : LookupRun tree trace final) : Transparent tree trace final := by
  have hsound : final.Sound tree := LookupRun.sound h
  refine ⟨?_, ?_, ?_, ?_⟩
  · intro index resource result hlookup
    rw [packageSideEffects_fst memoSound_empty]
    exact hsound.lookups _ (List.mem_of_getElem? hlookup)
  · intro index resource error hlookup passed hpassed hevent next hstep
    have hopen : ¬ passed.1.InsertsAt index := by
      intro hinserts
      obtain ⟨last, hlast, hdone⟩ := LookupRun.insertsAt h hpassed hinserts
      rw [hlookup] at hlast
      cases hlast
      exact hdone
    rw [hevent] at hstep
    obtain ⟨lookup, hat, hrest⟩ := Option.bind_eq_some_iff.mp hstep
    obtain ⟨⟨point, cache⟩, hturn, hnext⟩ := Option.bind_eq_some_iff.mp hrest
    cases hnext
    exact LookupPoint.unchanged_turn (fun hinserts => hopen ⟨lookup, hat, hinserts⟩) hturn
  · intro resource
    rw [packageSideEffects_fst hsound.memo, packageSideEffects_fst memoSound_empty]
  · intro resource error hfails
    rcases packageSideEffects_eq hsound.memo resource with ⟨_, hlookup, _⟩ | ⟨found, passed, hlookup, _⟩
    · rw [hlookup]
    · rw [hlookup] at hfails
      cases hfails

def project : Path := ⟨[.rootDir, .normal "project"], by decide⟩

/-- A package whose description says that nothing in it has side effects. -/
def projectTree : FileTree where
  isFile path := path = project.join "package.json"
  readToString _ := .ok "\x7b\"sideEffects\":false\x7d"
  fromStr _ := .ok (.object [("sideEffects", .bool false)])

def projectEvents : List LookupEvent :=
  [.lookup ((project.join "src").join "first.js"), .lookup ((project.join "src").join "second.js"), .turn 0, .turn 1,
    .turn 0, .turn 0, .turn 1, .turn 0, .turn 0, .turn 1, .turn 1, .turn 1]

theorem LookupRun.transparent_project :
    ∃ trace final, LookupRun projectTree trace final ∧ Transparent projectTree trace final := by
  have hrun : ∃ trace final, Interleaving.replay (LookupSystem.step projectTree) {} projectEvents =
      some (trace, final) := ⟨_, _, rfl⟩
  obtain ⟨trace, final, hreplay⟩ := hrun
  have hstart : LookupRun projectTree [] {} := .start rfl
  have hall := hstart.replay hreplay
  exact ⟨_, _, hall, LookupRun.transparent hall⟩

end Unpack.NormalModuleFactory
