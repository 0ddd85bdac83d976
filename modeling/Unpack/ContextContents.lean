import Unpack.DirectoryTree
import Unpack.AssetRenderValidation
import Unpack.Lib.KeyedList

/-! What the content hash of a context snapshot says about the tree below the directory. The bytes that are
hashed leave out the names and the kinds of entries and the names of packages, and nothing below an immutable or
managed directory is read. -/

namespace Unpack.CacheItem

open Fallible KeyedList

/-- File names are ordered by their bytes. -/
def nameKey (name : List UInt8) : List Nat := name.map UInt8.toNat

/-- The entries of every directory stand in the order of their names. -/
inductive Node.Ordered : Node → Prop
  | file (content : Except IoError (List UInt8)) : Ordered (.file content)
  | lockedDirectory (error : IoError) : Ordered (.lockedDirectory error)
  | symlink (target : Except IoError String) : Ordered (.symlink target)
  | other : Ordered .other
  | directory {entries : List (List UInt8 × Node)}
      (hnames : Increasing (fun entry : List UInt8 × Node => nameKey entry.1) entries)
      (hnodes : ∀ entry ∈ entries, Ordered entry.2) : Ordered (.directory entries)

/-- The file system at one time: its answers, and what is at every path, links not followed. -/
structure DirectoryTrees where
  others : FileSystem
  symlinkNode : PathBuf → Except IoError Node
  ordered : ∀ path node, symlinkNode path = .ok node → node.Ordered
  isDir_of_directory : ∀ path entries, symlinkNode path = .ok (.directory entries) →
    ∃ metadata, others.metadata path = .ok metadata ∧ metadata.isDir = true

def DirectoryTrees.toFileSystem (trees : DirectoryTrees) (info : FileSystemInfo) : FileSystem :=
  { trees.others with
    directoryContentHash := fun path => do
      let node ← trees.symlinkNode path
      directoryContentHash trees.others.managedItem info path node }

/-- An entry below a directory, or the package that begins at a managed one. -/
inductive Finding where
  | file (content : Except IoError (List UInt8))
  | directory
  | symlink (target : Except IoError String)
  | other
  | package (name version : String)

def Node.look : Node → Finding
  | .file content => .file content
  | .directory _ | .lockedDirectory _ => .directory
  | .symlink target => .symlink target
  | .other => .other

/-- A finding without its contents. The length of a version stays: it says where the next contents begin. -/
inductive FindingKind where
  | file
  | directory
  | symlink
  | other
  | package (name : String) (versionLength : Nat)

def Finding.kind : Finding → FindingKind
  | .file _ => .file
  | .directory => .directory
  | .symlink _ => .symlink
  | .other => .other
  | .package name version => .package name (utf8Bytes version).length

def FileSystemInfo.readsContents (info : FileSystemInfo) (path : PathBuf) : Bool :=
  match info.classifyPath path with
  | .unmanaged | .unclassified => true
  | .immutable | .managed _ => false

section

variable (managedItem : PathBuf → ManagedPathBoundary → Option (PathBuf × ManagedItemState))
  (info : FileSystemInfo)

/-- The root of the item that a managed path is in. -/
def itemRoot (path : PathBuf) : Option PathBuf :=
  match info.classifyPath path with
  | .managed boundary => (managedItem path boundary).map (·.1)
  | .immutable | .unmanaged | .unclassified => none

/-- What there is to find at an entry. A package begins where its root is not that of the directory. -/
def findingAt (inherited : Option PathBuf) (path : PathBuf) (node : Node) : Option Finding :=
  match info.classifyPath path with
  | .immutable => none
  | .unmanaged | .unclassified => some node.look
  | .managed boundary =>
      match managedItem path boundary with
      | some (root, .package name version) =>
          if inherited.any (·.key = root.key) then none else some (.package name version)
      | _ => none

/-- The names lead from the directory at the path to an entry below it. -/
def finding (inherited : Option PathBuf) (path : PathBuf) : Node → List (List UInt8) → Option Finding
  | .directory entries, [name] =>
      (entries.lookup name).bind (findingAt managedItem info inherited (path.join name))
  | .directory entries, name :: names =>
      (entries.lookup name).bind fun node =>
        finding (itemRoot managedItem info (path.join name)) (path.join name) node names
  | _, _ => none

/-- Every directory on the way is read. -/
def reached (path : PathBuf) : List (List UInt8) → Bool
  | [] | [_] => true
  | name :: names => info.readsContents (path.join name) && reached (path.join name) names

/-- The byte sequences that are hashed for the content hash of a tree. -/
inductive Fed : PathBuf → Node → List UInt8 → Prop where
  | self {path : PathBuf} {node : Node} {bytes : List UInt8}
      (h : contentBytes managedItem info path node = .ok bytes) : Fed path node bytes
  | entry {path : PathBuf} {entries : List (List UInt8 × Node)} {name : List UInt8} {node : Node}
      {bytes : List UInt8} (hentry : (name, node) ∈ entries)
      (hreads : info.readsContents (path.join name) = true) (h : Fed (path.join name) node bytes) :
      Fed path (.directory entries) bytes

end

section

variable {managedItem : PathBuf → ManagedPathBoundary → Option (PathBuf × ManagedItemState)}
  {info : FileSystemInfo}

variable (managedItem info) in
/-- The bytes that an entry gives to the hash of its directory. -/
inductive Writes (path : PathBuf) (node : Node) : Finding → List UInt8 → Prop where
  | contents {bytes : List UInt8} (hreads : info.readsContents path = true)
      (hbytes : contentBytes managedItem info path node = .ok bytes) :
      Writes path node node.look (Codec.littleEndian 8 (stableHashBytes bytes).toNat)
  | package {name version : String}
      (hfound : findingAt managedItem info none path node = some (.package name version)) :
      Writes path node (.package name version) (utf8Bytes version)

def FindingKind.width : FindingKind → Nat
  | .package _ versionLength => versionLength
  | .file | .directory | .symlink | .other => 8

theorem width_look (node : Node) : node.look.kind.width = 8 := by
  cases node <;> rfl

variable {path : PathBuf} {node : Node} {found : Finding} {bytes : List UInt8}

theorem Writes.length_eq (h : Writes managedItem info path node found bytes) :
    bytes.length = found.kind.width := by
  cases h with
  | contents => rw [Codec.length_littleEndian, width_look]
  | package => rfl

theorem findingAt_of_readsContents (h : info.readsContents path = true) (inherited : Option PathBuf) :
    findingAt managedItem info inherited path node = some node.look := by
  rw [FileSystemInfo.readsContents] at h
  rw [findingAt]
  cases hclass : info.classifyPath path with
  | immutable => rw [hclass] at h; cases h
  | managed boundary => rw [hclass] at h; cases h
  | unmanaged => rfl
  | unclassified => rfl

theorem itemRoot_of_readsContents (h : info.readsContents path = true) :
    itemRoot managedItem info path = none := by
  rw [FileSystemInfo.readsContents] at h
  rw [itemRoot]
  cases hclass : info.classifyPath path with
  | immutable => rfl
  | managed boundary => rw [hclass] at h; cases h
  | unmanaged => rfl
  | unclassified => rfl

theorem Writes.findingAt_eq (h : Writes managedItem info path node found bytes) :
    findingAt managedItem info none path node = some found := by
  cases h with
  | contents hreads _ => exact findingAt_of_readsContents hreads none
  | package hfound => exact hfound

/-- What one entry of a directory writes. -/
structure Note where
  name : List UInt8
  found : Finding
  bytes : List UInt8

def Note.label (note : Note) : List UInt8 × FindingKind := (note.name, note.found.kind)

variable (managedItem info) in
/-- The notes of a directory's entries: all that write something, in their order. -/
structure Notes (path : PathBuf) (entries : List (List UInt8 × Node)) (notes : List Note) : Prop where
  increasing : Increasing (fun note : Note => nameKey note.name) notes
  written : ∀ note ∈ notes, ∃ node, (note.name, node) ∈ entries ∧
    Writes managedItem info (path.join note.name) node note.found note.bytes
  complete : ∀ name node found, (name, node) ∈ entries →
    findingAt managedItem info none (path.join name) node = some found →
      ∃ bytes, ⟨name, found, bytes⟩ ∈ notes

variable {entries : List (List UInt8 × Node)} {name : List UInt8} {notes : List Note}

/-- An entry that writes nothing leaves the notes as they are. -/
theorem Notes.skip (h : Notes managedItem info path entries notes)
    (hnone : findingAt managedItem info none (path.join name) node = none) :
    Notes managedItem info path ((name, node) :: entries) notes where
  increasing := h.increasing
  written note hnote := by
    obtain ⟨node, hentry, hwrites⟩ := h.written note hnote
    exact ⟨node, List.mem_cons_of_mem _ hentry, hwrites⟩
  complete wanted child found hentry hfound := by
    rcases List.mem_cons.mp hentry with heq | hentry
    · cases heq
      rw [hnone] at hfound
      cases hfound
    · exact h.complete wanted child found hentry hfound

theorem Notes.write (h : Notes managedItem info path entries notes)
    (hfirst : ∀ entry ∈ entries, nameKey name < nameKey entry.1)
    (hwrites : Writes managedItem info (path.join name) node found bytes) :
    Notes managedItem info path ((name, node) :: entries) (⟨name, found, bytes⟩ :: notes) where
  increasing := by
    refine List.pairwise_cons.mpr ⟨fun note hnote => ?_, h.increasing⟩
    obtain ⟨_, hentry, -⟩ := h.written note hnote
    exact hfirst _ hentry
  written note hnote := by
    rcases List.mem_cons.mp hnote with rfl | hnote
    · exact ⟨node, List.mem_cons_self, hwrites⟩
    · obtain ⟨child, hentry, hchild⟩ := h.written note hnote
      exact ⟨child, List.mem_cons_of_mem _ hentry, hchild⟩
  complete wanted child otherFound hentry hfound := by
    rcases List.mem_cons.mp hentry with heq | hentry
    · cases heq
      obtain rfl := Option.some.inj (hwrites.findingAt_eq.symm.trans hfound)
      exact ⟨bytes, List.mem_cons_self⟩
    · obtain ⟨otherBytes, hnote⟩ := h.complete wanted child otherFound hentry hfound
      exact ⟨otherBytes, List.mem_cons_of_mem _ hnote⟩

variable (managedItem node) in
/-- The bytes of a managed entry are those of its package. -/
theorem findingAt_managed {boundary : ManagedPathBoundary} (hclass : info.classifyPath path = .managed boundary) :
    (findingAt managedItem info none path node = none ∧ versionBytes managedItem path boundary = []) ∨
      ∃ packageName version, findingAt managedItem info none path node = some (.package packageName version) ∧
        versionBytes managedItem path boundary = utf8Bytes version := by
  rw [findingAt, hclass, versionBytes]
  cases hitem : managedItem path boundary with
  | none => exact Or.inl ⟨by simp [hitem], rfl⟩
  | some item =>
      obtain ⟨root, state⟩ := item
      cases state with
      | nodeModules => exact Or.inl ⟨by simp [hitem], rfl⟩
      | groupingFolder => exact Or.inl ⟨by simp [hitem], rfl⟩
      | package packageName version =>
          exact Or.inr ⟨packageName, version, by simp [hitem], rfl⟩

/-- The bytes of a directory are those of its notes. -/
theorem exists_notes {entries : List (List UInt8 × Node)}
    (hincreasing : Increasing (fun entry : List UInt8 × Node => nameKey entry.1) entries) {bytes : List UInt8}
    (h : entryBytes managedItem info path entries = .ok bytes) :
    ∃ notes, Notes managedItem info path entries notes ∧ notes.flatMap (·.bytes) = bytes := by
  induction entries generalizing bytes with
  | nil =>
      rw [entryBytes] at h
      cases h
      exact ⟨[], ⟨List.Pairwise.nil, nofun, nofun⟩, rfl⟩
  | cons entry entries ih =>
      obtain ⟨name, node⟩ := entry
      obtain ⟨hfirst, hincreasing⟩ := List.pairwise_cons.mp hincreasing
      have hordinary : info.readsContents (path.join name) = true → (do
            let bytes ← contentBytes managedItem info (path.join name) node
            let rest ← entryBytes managedItem info path entries
            return Codec.littleEndian 8 (stableHashBytes bytes).toNat ++ rest) = .ok bytes →
          ∃ notes, Notes managedItem info path ((name, node) :: entries) notes ∧
            notes.flatMap (·.bytes) = bytes := by
        intro hreads h
        obtain ⟨content, hcontent, h⟩ := of_bind_ok h
        obtain ⟨rest, hrest, h⟩ := of_bind_ok h
        cases h
        obtain ⟨notes, hnotes, hbytes⟩ := ih hincreasing hrest
        refine ⟨_, hnotes.write hfirst (.contents hreads hcontent), ?_⟩
        rw [List.flatMap_cons, hbytes]
      rw [entryBytes] at h
      cases hclass : info.classifyPath (path.join name) with
      | immutable =>
          rw [hclass] at h
          obtain ⟨notes, hnotes, hbytes⟩ := ih hincreasing h
          refine ⟨notes, hnotes.skip ?_, hbytes⟩
          rw [findingAt, hclass]
      | managed boundary =>
          rw [hclass] at h
          obtain ⟨rest, hrest, h⟩ := of_bind_ok h
          cases h
          obtain ⟨notes, hnotes, hbytes⟩ := ih hincreasing hrest
          rcases findingAt_managed managedItem node hclass with
            ⟨hnone, hversion⟩ | ⟨packageName, version, hfound, hversion⟩
          · refine ⟨notes, hnotes.skip hnone, ?_⟩
            rw [hversion, List.nil_append, hbytes]
          · refine ⟨_, hnotes.write hfirst (.package hfound), ?_⟩
            rw [List.flatMap_cons, hbytes, hversion]
      | unmanaged =>
          rw [hclass] at h
          exact hordinary (by rw [FileSystemInfo.readsContents, hclass]) h
      | unclassified =>
          rw [hclass] at h
          exact hordinary (by rw [FileSystemInfo.readsContents, hclass]) h

theorem finding_singleton (inherited : Option PathBuf)
    (hincreasing : Increasing (fun entry : List UInt8 × Node => nameKey entry.1) entries) :
    finding managedItem info inherited path (.directory entries) [name] = some found ↔
      ∃ node, (name, node) ∈ entries ∧
        findingAt managedItem info inherited (path.join name) node = some found := by
  rw [finding, Option.bind_eq_some_iff]
  simp only [hincreasing.lookup_eq_some]

/-- A note tells what is found at its name, and the other way round. -/
theorem Notes.mem_kinds_iff (h : Notes managedItem info path entries notes)
    (hincreasing : Increasing (fun entry : List UInt8 × Node => nameKey entry.1) entries)
    {kind : FindingKind} :
    (name, kind) ∈ notes.map Note.label ↔
      (finding managedItem info none path (.directory entries) [name]).map Finding.kind = some kind := by
  rw [List.mem_map, Option.map_eq_some_iff]
  constructor
  · rintro ⟨note, hnote, heq⟩
    cases heq
    obtain ⟨node, hentry, hwrites⟩ := h.written note hnote
    exact ⟨note.found, (finding_singleton none hincreasing).mpr ⟨node, hentry, hwrites.findingAt_eq⟩, rfl⟩
  · rintro ⟨found, hfound, rfl⟩
    obtain ⟨node, hentry, hfound⟩ := (finding_singleton none hincreasing).mp hfound
    obtain ⟨bytes, hnote⟩ := h.complete name node found hentry hfound
    exact ⟨_, hnote, rfl⟩

end

/-- Pieces of equal lengths that make up the same bytes are the same. -/
theorem forall₂_of_flatMap_eq {α β : Type} {R : α → β → Prop} {f : α → List UInt8} {g : β → List UInt8}
    {left : List α} {right : List β} (hrelated : List.Forall₂ R left right)
    (hlength : ∀ a ∈ left, ∀ b ∈ right, R a b → (f a).length = (g b).length)
    (h : left.flatMap f = right.flatMap g) : List.Forall₂ (fun a b => R a b ∧ f a = g b) left right := by
  induction hrelated with
  | nil => exact .nil
  | cons hhead _ ih =>
      rw [List.flatMap_cons, List.flatMap_cons] at h
      obtain ⟨hpiece, hrest⟩ := List.append_inj h
        (hlength _ List.mem_cons_self _ List.mem_cons_self hhead)
      exact .cons ⟨hhead, hpiece⟩ (ih (fun a ha b hb =>
        hlength a (List.mem_cons_of_mem _ ha) b (List.mem_cons_of_mem _ hb)) hrest)

section

variable {first second : PathBuf → ManagedPathBoundary → Option (PathBuf × ManagedItemState)}
  {info : FileSystemInfo} {path : PathBuf}

/-- Two directories that feed the same bytes and show the same kinds at the same names write the same at
each of them. -/
theorem aligned {left right : List (List UInt8 × Node)} {bytes : List UInt8}
    (hleft : Increasing (fun entry : List UInt8 × Node => nameKey entry.1) left)
    (hright : Increasing (fun entry : List UInt8 × Node => nameKey entry.1) right)
    (hleftBytes : entryBytes first info path left = .ok bytes)
    (hrightBytes : entryBytes second info path right = .ok bytes)
    (hkinds : ∀ name, (finding first info none path (.directory left) [name]).map Finding.kind =
      (finding second info none path (.directory right) [name]).map Finding.kind)
    {name : List UInt8} {node : Node} {found : Finding} (hentry : (name, node) ∈ left)
    (hfound : findingAt first info none (path.join name) node = some found) :
    ∃ twin otherFound written, (name, twin) ∈ right ∧
      Writes first info (path.join name) node found written ∧
      Writes second info (path.join name) twin otherFound written := by
  obtain ⟨leftNotes, hleftNotes, hleftEq⟩ := exists_notes hleft hleftBytes
  obtain ⟨rightNotes, hrightNotes, hrightEq⟩ := exists_notes hright hrightBytes
  have hsame : leftNotes.map Note.label = rightNotes.map Note.label := by
    refine Increasing.eq_of_mem_iff (fun entry : List UInt8 × FindingKind => nameKey entry.1)
      (List.pairwise_map.mpr hleftNotes.increasing) (List.pairwise_map.mpr hrightNotes.increasing) ?_
    rintro ⟨name, kind⟩
    rw [hleftNotes.mem_kinds_iff hleft, hrightNotes.mem_kinds_iff hright, hkinds]
  have hlabels : List.Forall₂ (fun a b : Note => a.label = b.label) leftNotes rightNotes := by
    have heq : List.Forall₂ Eq (leftNotes.map Note.label) (rightNotes.map Note.label) := by
      rw [hsame, List.forall₂_eq_eq_eq]
    exact List.forall₂_map_right_iff.mp (List.forall₂_map_left_iff.mp heq)
  have hlength : ∀ a ∈ leftNotes, ∀ b ∈ rightNotes, a.label = b.label → a.bytes.length = b.bytes.length := by
    intro a ha b hb hab
    obtain ⟨_, -, ha⟩ := hleftNotes.written a ha
    obtain ⟨_, -, hb⟩ := hrightNotes.written b hb
    rw [ha.length_eq, hb.length_eq]
    exact congrArg (fun label : List UInt8 × FindingKind => label.2.width) hab
  have hbytes := forall₂_of_flatMap_eq hlabels hlength (hleftEq.trans hrightEq.symm)
  obtain ⟨written, hnote⟩ := hleftNotes.complete name node found hentry hfound
  obtain ⟨leftNode, hleftEntry, hleftWrites⟩ := hleftNotes.written _ hnote
  obtain rfl : leftNode = node :=
    Option.some.inj ((hleft.lookup_eq_some nameKey).mpr hleftEntry ▸ (hleft.lookup_eq_some nameKey).mpr hentry)
  obtain ⟨note, hnoteMem, hpair, hwritten⟩ := exists_of_mem_right hbytes.flip hnote
  obtain ⟨twin, htwin, htwinWrites⟩ := hrightNotes.written note hnoteMem
  obtain rfl : name = note.name := congrArg Prod.fst hpair
  refine ⟨twin, note.found, written, htwin, hleftWrites, ?_⟩
  rw [show written = note.bytes from hwritten]
  exact htwinWrites

variable (first second info path) in
/-- The same entries and packages below the directory, with the same contents and versions. -/
def SameBelow (left right : Node) : Prop :=
  ∀ names, finding first info none path left names = finding second info none path right names

variable (first second info path) in
/-- As `SameBelow`, but for the contents that are read and the texts of the versions. -/
def SameButContents (left right : Node) : Prop :=
  ∀ names, if reached info path names then
      (finding first info none path left names).map Finding.kind =
        (finding second info none path right names).map Finding.kind
    else finding first info none path left names = finding second info none path right names

variable {left right : Node}

theorem SameBelow.sameButContents (h : SameBelow first second info path left right) :
    SameButContents first second info path left right := by
  intro names
  split_ifs
  · rw [h names]
  · exact h names

theorem finding_cons (inherited : Option PathBuf) {entries : List (List UInt8 × Node)} {name : List UInt8}
    {names : List (List UInt8)} (hnames : names ≠ []) :
    finding first info inherited path (.directory entries) (name :: names) =
      (entries.lookup name).bind fun node =>
        finding first info (itemRoot first info (path.join name)) (path.join name) node names := by
  cases names with
  | nil => exact absurd rfl hnames
  | cons next names =>
      rw [finding]
      exact hnames

theorem reached_cons {name : List UInt8} {names : List (List UInt8)} (hnames : names ≠ []) :
    reached info path (name :: names) =
      (info.readsContents (path.join name) && reached info (path.join name) names) := by
  cases names with
  | nil => exact absurd rfl hnames
  | cons next names =>
      rw [reached]
      exact hnames

theorem finding_nil (inherited : Option PathBuf) (node : Node) :
    finding first info inherited path node [] = none := by
  cases node <;> rfl

/-- The tree below an entry that is read is the same but for contents where the whole tree is. -/
theorem SameButContents.entry {leftEntries rightEntries : List (List UInt8 × Node)} {name : List UInt8}
    (h : SameButContents first second info path (.directory leftEntries) (.directory rightEntries))
    (hreads : info.readsContents (path.join name) = true) (hleft : leftEntries.lookup name = some left)
    (hright : rightEntries.lookup name = some right) :
    SameButContents first second info (path.join name) left right := by
  intro names
  by_cases hnames : names = []
  · subst hnames
    rw [finding_nil, finding_nil]
    split_ifs <;> rfl
  · have hbelow := h (name :: names)
    rw [finding_cons none hnames, finding_cons none hnames, hleft, hright, reached_cons hnames, hreads,
      itemRoot_of_readsContents hreads, itemRoot_of_readsContents hreads] at hbelow
    exact hbelow

theorem look_ne_package (node : Node) (name version : String) : node.look ≠ .package name version := by
  cases node <;> nofun

theorem Writes.of_readsContents {node : Node} {found : Finding} {written : List UInt8}
    (h : Writes first info path node found written) (hreads : info.readsContents path = true) :
    found = node.look ∧ ∃ bytes, contentBytes first info path node = .ok bytes ∧
      written = Codec.littleEndian 8 (stableHashBytes bytes).toNat := by
  cases h with
  | contents _ hbytes => exact ⟨rfl, _, hbytes, rfl⟩
  | package hfound =>
      rw [findingAt_of_readsContents hreads] at hfound
      exact absurd (Option.some.inj hfound) (look_ne_package node _ _)

theorem Writes.of_not_readsContents {node : Node} {found : Finding} {written : List UInt8}
    (h : Writes first info path node found written) (hreads : ¬ info.readsContents path = true) :
    ∃ name version, found = .package name version ∧ written = utf8Bytes version := by
  cases h with
  | contents hread _ => exact absurd hread hreads
  | package _ => exact ⟨_, _, rfl, rfl⟩

/-- The bytes of what is not a directory tell its contents. -/
theorem look_eq_of_contentBytes {node twin : Node} {bytes : List UInt8}
    (hkind : node.look.kind = twin.look.kind) (hnode : contentBytes first info path node = .ok bytes)
    (htwin : contentBytes second info path twin = .ok bytes) : node.look = twin.look := by
  cases node with
  | file content =>
      cases twin with
      | file other =>
          rw [contentBytes] at hnode htwin
          rw [hnode, htwin]
      | _ => cases hkind
  | symlink target =>
      cases twin with
      | symlink other =>
          rw [contentBytes] at hnode htwin
          obtain ⟨text, rfl, htext⟩ := of_map_ok hnode
          obtain ⟨otherText, rfl, hother⟩ := of_map_ok htwin
          rw [utf8Bytes_injective (htext.trans hother.symm)]
      | _ => cases hkind
  | directory entries =>
      cases twin with
      | directory others => rfl
      | lockedDirectory error => rfl
      | _ => cases hkind
  | lockedDirectory error =>
      cases twin with
      | directory others => rfl
      | lockedDirectory other => rfl
      | _ => cases hkind
  | other =>
      cases twin with
      | other => rfl
      | _ => cases hkind

/-- What an entry shows is told by its kind and the bytes it writes. -/
theorem found_eq {node twin : Node} {found otherFound : Finding} {written : List UInt8}
    (hinjective : ∀ bytes otherBytes, info.readsContents path = true →
      contentBytes first info path node = .ok bytes → contentBytes second info path twin = .ok otherBytes →
        stableHashBytes bytes = stableHashBytes otherBytes → bytes = otherBytes)
    (hwrites : Writes first info path node found written)
    (htwin : Writes second info path twin otherFound written)
    (hkind : found.kind = otherFound.kind) :
    found = otherFound ∧ (info.readsContents path = true →
      ∃ bytes, contentBytes first info path node = .ok bytes ∧
        contentBytes second info path twin = .ok bytes) := by
  by_cases hreads : info.readsContents path = true
  · obtain ⟨rfl, bytes, hbytes, hwritten⟩ := hwrites.of_readsContents hreads
    obtain ⟨rfl, otherBytes, hotherBytes, hotherWritten⟩ := htwin.of_readsContents hreads
    have hnat : (stableHashBytes bytes).toNat = (stableHashBytes otherBytes).toNat := by
      have hdecoded := congrArg Codec.ofLittleEndian (hwritten.symm.trans hotherWritten)
      rwa [Codec.ofLittleEndian_littleEndian (stableHashBytes bytes).toNat_lt,
        Codec.ofLittleEndian_littleEndian (stableHashBytes otherBytes).toNat_lt] at hdecoded
    obtain rfl : bytes = otherBytes :=
      hinjective bytes otherBytes hreads hbytes hotherBytes (UInt64.toNat_inj.mp hnat)
    exact ⟨look_eq_of_contentBytes hkind hbytes hotherBytes, fun _ => ⟨bytes, hbytes, hotherBytes⟩⟩
  · obtain ⟨name, version, rfl, hwritten⟩ := hwrites.of_not_readsContents hreads
    obtain ⟨otherName, otherVersion, rfl, hotherWritten⟩ := htwin.of_not_readsContents hreads
    obtain rfl : version = otherVersion := utf8Bytes_injective (hwritten.symm.trans hotherWritten)
    obtain rfl : name = otherName := by
      injection hkind
    exact ⟨rfl, fun hread => absurd hread hreads⟩

theorem exists_directory_of_finding {inherited : Option PathBuf} {node : Node} {name : List UInt8}
    {names : List (List UInt8)} {found : Finding}
    (h : finding first info inherited path node (name :: names) = some found) :
    ∃ entries, node = .directory entries := by
  cases node with
  | directory entries => exact ⟨entries, rfl⟩
  | file content => cases h
  | lockedDirectory error => cases h
  | symlink target => cases h
  | other => cases h

variable (first second info path) in
/-- The byte sequences that the content hashes of two trees are made of. -/
def fedBytes (left right : Node) : Set (List UInt8) :=
  {bytes | Fed first info path left bytes ∨ Fed second info path right bytes}

theorem Node.Ordered.entries {entries : List (List UInt8 × Node)} (h : (Node.directory entries).Ordered) :
    Increasing (fun entry : List UInt8 × Node => nameKey entry.1) entries ∧
      ∀ entry ∈ entries, entry.2.Ordered := by
  cases h with
  | directory hnames hnodes => exact ⟨hnames, hnodes⟩

/-- What is found at an entry is found at the entry of its name in the other directory, which has the same
bytes where the entry is read. -/
theorem exists_twin {leftEntries rightEntries : List (List UInt8 × Node)} {bytes : List UInt8}
    (hleft : Increasing (fun entry : List UInt8 × Node => nameKey entry.1) leftEntries)
    (hright : Increasing (fun entry : List UInt8 × Node => nameKey entry.1) rightEntries)
    (hinjective : Set.InjOn stableHashBytes
      (fedBytes first second info path (.directory leftEntries) (.directory rightEntries)))
    (hleftBytes : entryBytes first info path leftEntries = .ok bytes)
    (hrightBytes : entryBytes second info path rightEntries = .ok bytes)
    (hsame : SameButContents first second info path (.directory leftEntries) (.directory rightEntries))
    {name : List UInt8} {node : Node} {found : Finding} (hentry : (name, node) ∈ leftEntries)
    (hfound : findingAt first info none (path.join name) node = some found) :
    ∃ twin, (name, twin) ∈ rightEntries ∧
      findingAt second info none (path.join name) twin = some found ∧
      (info.readsContents (path.join name) = true →
        ∃ bytes, contentBytes first info (path.join name) node = .ok bytes ∧
          contentBytes second info (path.join name) twin = .ok bytes) := by
  have htop : ∀ name,
      (finding first info none path (.directory leftEntries) [name]).map Finding.kind =
        (finding second info none path (.directory rightEntries) [name]).map Finding.kind := by
    intro name
    have hname := hsame [name]
    rwa [if_pos (by rw [reached])] at hname
  obtain ⟨twin, twinFound, written, htwin, hwrites, htwinWrites⟩ :=
    aligned hleft hright hleftBytes hrightBytes htop hentry hfound
  have hkind : found.kind = twinFound.kind := by
    have hname := htop name
    rw [(finding_singleton none hleft).mpr ⟨node, hentry, hfound⟩,
      (finding_singleton none hright).mpr ⟨twin, htwin, htwinWrites.findingAt_eq⟩] at hname
    exact Option.some.inj hname
  obtain ⟨rfl, hbytes⟩ := found_eq (fun bytes otherBytes hreads hbytes hotherBytes heq =>
    hinjective (Or.inl (.entry hentry hreads (.self hbytes)))
      (Or.inr (.entry htwin hreads (.self hotherBytes))) heq) hwrites htwinWrites hkind
  exact ⟨twin, htwin, htwinWrites.findingAt_eq, hbytes⟩

/-- Along a way that is read, trees that feed the same bytes and are the same but for contents are the same.
By induction on the way: what an entry writes is what its own tree is the hash of. -/
theorem finding_eq (names : List (List UInt8)) : ∀ {path : PathBuf} {left right : Node} {bytes : List UInt8},
    left.Ordered → right.Ordered → Set.InjOn stableHashBytes (fedBytes first second info path left right) →
    contentBytes first info path left = .ok bytes → contentBytes second info path right = .ok bytes →
    SameButContents first second info path left right → reached info path names = true →
    finding first info none path left names = finding second info none path right names := by
  induction names with
  | nil => exact fun _ _ _ _ _ _ _ => (finding_nil none _).trans (finding_nil none _).symm
  | cons name names ih =>
      intro path left right bytes hleft hright hinjective hleftBytes hrightBytes hsame hreached
      have hkinds := hsame (name :: names)
      rw [if_pos hreached] at hkinds
      cases hfound : finding first info none path left (name :: names) with
      | none =>
          rw [hfound] at hkinds
          exact (Option.map_eq_none_iff.mp hkinds.symm).symm
      | some found =>
          rw [hfound] at hkinds
          obtain ⟨otherFound, hother, hkind⟩ := Option.map_eq_some_iff.mp hkinds.symm
          obtain ⟨leftEntries, rfl⟩ := exists_directory_of_finding hfound
          obtain ⟨rightEntries, rfl⟩ := exists_directory_of_finding hother
          obtain ⟨hleftNames, hleftNodes⟩ := hleft.entries
          obtain ⟨hrightNames, hrightNodes⟩ := hright.entries
          rw [contentBytes] at hleftBytes hrightBytes
          rw [← hfound]
          by_cases hnames : names = []
          · subst hnames
            obtain ⟨node, hentry, hshown⟩ := (finding_singleton none hleftNames).mp hfound
            obtain ⟨twin, htwin, htwinShown, -⟩ :=
              exists_twin hleftNames hrightNames hinjective hleftBytes hrightBytes hsame hentry hshown
            rw [hfound, (finding_singleton none hrightNames).mpr ⟨twin, htwin, htwinShown⟩]
          · rw [reached_cons hnames, Bool.and_eq_true] at hreached
            obtain ⟨hreads, hreached⟩ := hreached
            rw [finding_cons none hnames] at hfound
            obtain ⟨node, hlookup, -⟩ := Option.bind_eq_some_iff.mp hfound
            have hentry : (name, node) ∈ leftEntries := (hleftNames.lookup_eq_some nameKey).mp hlookup
            obtain ⟨twin, htwin, -, hbytes⟩ :=
              exists_twin hleftNames hrightNames hinjective hleftBytes hrightBytes hsame hentry
                (findingAt_of_readsContents hreads none)
            obtain ⟨nodeBytes, hnodeBytes, htwinBytes⟩ := hbytes hreads
            have htwinLookup : rightEntries.lookup name = some twin :=
              (hrightNames.lookup_eq_some nameKey).mpr htwin
            have hbelow := ih (hleftNodes _ hentry) (hrightNodes _ htwin)
              (hinjective.mono fun bytes hfed =>
                hfed.imp (Fed.entry hentry hreads) (Fed.entry htwin hreads))
              hnodeBytes htwinBytes (hsame.entry hreads hlookup htwinLookup) hreached
            rw [finding_cons none hnames, finding_cons none hnames, hlookup, htwinLookup,
              itemRoot_of_readsContents hreads, itemRoot_of_readsContents hreads]
            exact hbelow

theorem sameBelow_of_sameButContents {bytes : List UInt8} (hleft : left.Ordered) (hright : right.Ordered)
    (hinjective : Set.InjOn stableHashBytes (fedBytes first second info path left right))
    (hleftBytes : contentBytes first info path left = .ok bytes)
    (hrightBytes : contentBytes second info path right = .ok bytes)
    (hsame : SameButContents first second info path left right) :
    SameBelow first second info path left right := by
  intro names
  by_cases hreached : reached info path names = true
  · exact finding_eq names hleft hright hinjective hleftBytes hrightBytes hsame hreached
  · have hnames := hsame names
    rwa [if_neg hreached] at hnames

end

/-- The snapshot is valid, and it was not the times that said so. -/
def ContextSnapshot.ValidThroughContents (fileSystem : FileSystem) (strategy : SnapshotStrategy) (path : PathBuf)
    (snapshot : ContextSnapshot) : Prop :=
  isValidSync fileSystem strategy path snapshot = true ∧
    (strategy.timestamp = true → ∀ current, fileSystem.directoryTimestampHash path = .ok current →
      snapshot.timestampHash ≠ some current)

/-- What a valid snapshot of the directory in the first tree owes in the second one. -/
def SnapshotSound (info : FileSystemInfo) (path : PathBuf) (first second : DirectoryTrees)
    (entries : List (List UInt8 × Node)) : Prop :=
  ∀ strategy snapshot, strategy.hash = true →
    ContextSnapshot.create (first.toFileSystem info) strategy path = .ok snapshot →
    ContextSnapshot.ValidThroughContents (second.toFileSystem info) strategy path snapshot →
    ∃ right, second.symlinkNode path = .ok right ∧
      SameBelow first.others.managedItem second.others.managedItem info path (.directory entries) right

section

variable {info : FileSystemInfo} {path : PathBuf} {trees first second : DirectoryTrees} {node : Node}
  {entries : List (List UInt8 × Node)} {strategy : SnapshotStrategy} {snapshot : ContextSnapshot}

theorem toFileSystem_directoryContentHash :
    (trees.toFileSystem info).directoryContentHash path = (do
      let node ← trees.symlinkNode path
      stableHashBytes <$> contentBytes trees.others.managedItem info path node) := by
  change (do
    let node ← trees.symlinkNode path
    directoryContentHash trees.others.managedItem info path node) = _
  simp only [directoryContentHash_eq]

theorem of_directoryContentHash {hash : UInt64}
    (h : (trees.toFileSystem info).directoryContentHash path = .ok hash) :
    ∃ node bytes, trees.symlinkNode path = .ok node ∧
      contentBytes trees.others.managedItem info path node = .ok bytes ∧ stableHashBytes bytes = hash := by
  rw [toFileSystem_directoryContentHash] at h
  obtain ⟨node, hnode, h⟩ := of_bind_ok h
  obtain ⟨bytes, hbytes, h⟩ := of_map_ok h
  exact ⟨node, bytes, hnode, hbytes, h⟩

/-- A snapshot of a directory with its contents holds the hash of the directory's bytes. -/
theorem of_create (hnode : trees.symlinkNode path = .ok (.directory entries)) (hhash : strategy.hash = true)
    (h : ContextSnapshot.create (trees.toFileSystem info) strategy path = .ok snapshot) :
    snapshot.directoryExists = true ∧
      ∃ bytes, contentBytes trees.others.managedItem info path (.directory entries) = .ok bytes ∧
        snapshot.contentHash = some (stableHashBytes bytes) := by
  obtain ⟨metadata, hmetadata, hdir⟩ := trees.isDir_of_directory path entries hnode
  have hmetadata : (trees.toFileSystem info).metadata path = .ok metadata := hmetadata
  rw [ContextSnapshot.create, hmetadata] at h
  simp only [hdir, if_pos] at h
  obtain ⟨timestampHash, -, h⟩ := of_bind_ok h
  obtain ⟨contentHash, hcontent, h⟩ := of_bind_ok h
  cases h
  rw [whenSome, if_pos hhash] at hcontent
  obtain ⟨hash, hread, rfl⟩ := of_map_ok hcontent
  obtain ⟨found, bytes, hfound, hbytes, rfl⟩ := of_directoryContentHash hread
  obtain rfl := Except.ok.inj (hnode.symm.trans hfound)
  exact ⟨rfl, bytes, hbytes, rfl⟩

theorem of_validThroughContents (hexists : snapshot.directoryExists = true) (hhash : strategy.hash = true)
    (h : ContextSnapshot.ValidThroughContents (trees.toFileSystem info) strategy path snapshot) :
    (∃ metadata, trees.others.metadata path = .ok metadata ∧ metadata.isDir = true) ∧
      ((trees.toFileSystem info).directoryContentHash path).toOption = snapshot.contentHash := by
  obtain ⟨hvalid, htimes⟩ := h
  rw [ContextSnapshot.isValidSync] at hvalid
  cases hmetadata : (trees.toFileSystem info).metadata path with
  | error error => simp [hexists, hmetadata] at hvalid
  | ok metadata =>
      simp only [hexists, hmetadata, hhash, Bool.not_true, Bool.false_eq_true, if_false, Bool.false_or,
        Bool.true_and, Bool.and_eq_true] at hvalid
      obtain ⟨hdir, hvalid⟩ := hvalid
      refine ⟨⟨metadata, hmetadata, hdir⟩, ?_⟩
      split_ifs at hvalid with htimestamp
      · cases htime : (trees.toFileSystem info).directoryTimestampHash path with
        | error error => simp [htime] at hvalid
        | ok current =>
            simp only [htime, Bool.or_eq_true, decide_eq_true_eq] at hvalid
            rcases hvalid with heq | hcontents
            · exact absurd heq.symm (htimes htimestamp current htime)
            · exact hcontents
      · exact of_decide_eq_true hvalid

theorem directoryContentHash_of_bytes {bytes : List UInt8} (hnode : trees.symlinkNode path = .ok node)
    (hbytes : contentBytes trees.others.managedItem info path node = .ok bytes) :
    (trees.toFileSystem info).directoryContentHash path = .ok (stableHashBytes bytes) := by
  rw [toFileSystem_directoryContentHash, hnode]
  exact congrArg (stableHashBytes <$> ·) hbytes

/-- With hashes only, a directory whose bytes can be read has a snapshot. -/
theorem create_hash {bytes : List UInt8} (hnode : trees.symlinkNode path = .ok (.directory entries))
    (hbytes : contentBytes trees.others.managedItem info path (.directory entries) = .ok bytes) :
    ContextSnapshot.create (trees.toFileSystem info) ⟨false, true⟩ path =
      .ok ⟨true, none, some (stableHashBytes bytes)⟩ := by
  obtain ⟨metadata, hmetadata, hdir⟩ := trees.isDir_of_directory path entries hnode
  have hmetadata : (trees.toFileSystem info).metadata path = .ok metadata := hmetadata
  rw [ContextSnapshot.create, hmetadata]
  have hhash := directoryContentHash_of_bytes hnode hbytes
  simp only [hdir, if_true, whenSome, hhash]
  rfl

/-- And it is valid wherever the same bytes are read. -/
theorem valid_hash {bytes : List UInt8} {metadata : Metadata}
    (hmetadata : trees.others.metadata path = .ok metadata) (hdir : metadata.isDir = true)
    (hnode : trees.symlinkNode path = .ok node)
    (hbytes : contentBytes trees.others.managedItem info path node = .ok bytes) :
    ContextSnapshot.ValidThroughContents (trees.toFileSystem info) ⟨false, true⟩ path
      ⟨true, none, some (stableHashBytes bytes)⟩ := by
  refine ⟨?_, nofun⟩
  have hmetadata : (trees.toFileSystem info).metadata path = .ok metadata := hmetadata
  have hhash := directoryContentHash_of_bytes hnode hbytes
  simp [ContextSnapshot.isValidSync, hmetadata, hdir, hhash, Except.toOption]

end

def emptyContext : PathBuf := ⟨utf8Bytes "/src"⟩

def plainInfo : FileSystemInfo := ⟨[], [], []⟩

def missing : IoError := ⟨.notFound, "no such file or directory"⟩

/-- One file in a directory. -/
def oneFile (name content : List UInt8) : Node := .directory [(name, .file (.ok content))]

theorem oneFile_ordered (name content : List UInt8) : (oneFile name content).Ordered := by
  refine .directory (List.pairwise_singleton ..) fun entry hentry => ?_
  rw [List.mem_singleton.mp hentry]
  exact .file _

/-- A file system with the one directory. -/
def oneDirectory (name content : List UInt8) : DirectoryTrees where
  others :=
    { metadata := fun path => if path = emptyContext then .ok ⟨true, .error missing⟩ else .error missing
      read := fun _ => .error missing
      directoryTimestampHash := fun _ => .error missing
      directoryContentHash := fun _ => .error missing
      managedItem := fun _ _ => none }
  symlinkNode path := if path = emptyContext then .ok (oneFile name content) else .error missing
  ordered path node h := by
    split_ifs at h
    cases h
    exact oneFile_ordered name content
  isDir_of_directory path entries h := by
    split_ifs at h with hpath
    exact ⟨⟨true, .error missing⟩, if_pos hpath, rfl⟩

theorem symlinkNode_oneDirectory (name content : List UInt8) :
    (oneDirectory name content).symlinkNode emptyContext = .ok (oneFile name content) := by
  simp [oneDirectory]

theorem metadata_oneDirectory (name content : List UInt8) :
    (oneDirectory name content).others.metadata emptyContext = .ok ⟨true, .error missing⟩ := by
  simp [oneDirectory]

def oneFileBytes (content : List UInt8) : List UInt8 := Codec.littleEndian 8 (stableHashBytes content).toNat

theorem contentBytes_oneFile (managedItem : PathBuf → ManagedPathBoundary → Option (PathBuf × ManagedItemState))
    (name content : List UInt8) (path : PathBuf) :
    contentBytes managedItem plainInfo path (oneFile name content) = .ok (oneFileBytes content) := by
  rw [oneFile, contentBytes, entryBytes, entryBytes]
  rfl

theorem fed_oneFile {managedItem : PathBuf → ManagedPathBoundary → Option (PathBuf × ManagedItemState)}
    {name content : List UInt8} {path : PathBuf} {bytes : List UInt8}
    (h : Fed managedItem plainInfo path (oneFile name content) bytes) :
    bytes ∈ [oneFileBytes content, content] := by
  cases h with
  | self h =>
      cases h.symm.trans (contentBytes_oneFile managedItem name content path)
      exact List.mem_cons_self
  | entry hentry _ h =>
      cases List.mem_singleton.mp hentry
      cases h with
      | self h =>
          rw [contentBytes] at h
          cases h
          exact List.mem_cons_of_mem _ List.mem_cons_self

/-- What is fed for the files is told by its hashes when it is for their contents and their digests. -/
theorem injOn_oneFile {first second : PathBuf → ManagedPathBoundary → Option (PathBuf × ManagedItemState)}
    {content otherContent : List UInt8} (name otherName : List UInt8)
    (hhash : ∀ bytes ∈ [oneFileBytes content, content] ++ [oneFileBytes otherContent, otherContent],
      ∀ other ∈ [oneFileBytes content, content] ++ [oneFileBytes otherContent, otherContent],
        stableHashBytes bytes = stableHashBytes other → bytes = other) : Set.InjOn stableHashBytes
      (fedBytes first second plainInfo emptyContext (oneFile name content) (oneFile otherName otherContent)) := by
  have hfed : ∀ bytes ∈ fedBytes first second plainInfo emptyContext (oneFile name content)
      (oneFile otherName otherContent),
      bytes ∈ [oneFileBytes content, content] ++ [oneFileBytes otherContent, otherContent] := by
    rintro bytes (h | h)
    · exact List.mem_append_left _ (fed_oneFile h)
    · exact List.mem_append_right _ (fed_oneFile h)
  exact fun bytes hbytes other hother heq => hhash bytes (hfed bytes hbytes) other (hfed other hother) heq

end Unpack.CacheItem
