import Mathlib.Data.List.Induction
import StepScript.Proofs.ByteOrder
import StepScript.Proofs.DirectoryMaking
import StepScript.Proofs.PathOrder
import StepScript.Proofs.Recording
import StepScript.Script.Places

/-!
A walk through the tree below a directory. Directory by directory, in the order of the names in
each, it comes to every file with an extension that can be reached without passing a link; to each
once, and to all of them in the order of their paths. What stands there can be read under the path
that the walk finds it by.
-/

set_option autoImplicit false
set_option relaxedAutoImplicit false

namespace StepScript

/-! ## Paths below a directory -/

namespace Path

def below (dir : Path) (names : Place) : Path := names.foldl entry dir

private theorem below_append (dir : Path) (names : Place) (name : String) :
    dir.below (names ++ [name]) = (dir.below names).entry name := by
  rw [below, List.foldl_append]
  rfl

private theorem stem_below (dir : Path) {names : Place} (h : ∀ name ∈ names, IsFileName name) :
    (dir.below names).stem = dir.stem ++ names.map Part.name := by
  induction names generalizing dir with
  | nil => exact (List.append_nil _).symm
  | cons name names ih =>
    obtain ⟨hname, hnames⟩ := List.forall_mem_cons.1 h
    have hrest := ih (dir.entry name) hnames
    rw [stem_entry dir hname, parts_entry dir hname, List.append_assoc] at hrest
    exact hrest

private theorem parts_below (dir : Path) {names : Place} (h : ∀ name ∈ names, IsFileName name)
    (hne : names ≠ []) : (dir.below names).parts = dir.stem ++ names.map Part.name := by
  obtain ⟨front, last, rfl⟩ := (List.eq_nil_or_concat' names).resolve_left hne
  obtain ⟨hfront, hlast⟩ := List.forall_mem_append.1 h
  rw [below_append, parts_entry _ (hlast last List.mem_cons_self), stem_below dir hfront,
    List.append_assoc, List.map_append]
  rfl

private theorem map_lt_map {α β : Type} [LT α] [LT β] {f : α → β}
    (hf : ∀ a b, a < b → f a < f b) {as bs : List α} (h : as < bs) : as.map f < bs.map f := by
  induction as generalizing bs with
  | nil =>
    cases bs with
    | nil => exact absurd h (List.not_lt_nil [])
    | cons b bs => exact List.nil_lt_cons _ _
  | cons a as ih =>
    cases bs with
    | nil => exact absurd h (List.not_lt_nil _)
    | cons b bs =>
      rw [List.map_cons, List.map_cons, List.cons_lt_cons_iff]
      rcases List.cons_lt_cons_iff.1 h with hlt | ⟨rfl, hrest⟩
      · exact .inl (hf a b hlt)
      · exact .inr ⟨rfl, ih hrest⟩

private theorem before_below (dir : Path) {names names' : Place}
    (h : ∀ name ∈ names, IsFileName name)
    (h' : ∀ name ∈ names', IsFileName name) (hne : names ≠ []) (hne' : names' ≠ [])
    (hlt : names < names') : (dir.below names).before (dir.below names') = true := by
  have hkeys (a b : String) (hab : a < b) : (Part.name a).key < (Part.name b).key :=
    Prod.Lex.toLex_lt_toLex.2 (.inr ⟨rfl, hab⟩)
  rw [before_iff, ranks, ranks, parts_below dir h hne, parts_below dir h' hne', List.map_append,
    List.map_append, List.map_map, List.map_map]
  exact List.append_left_lt (map_lt_map hkeys hlt)

private theorem map_utf8_lt {names names' : Place} (h : names < names') :
    names.map Text.utf8 < names'.map Text.utf8 :=
  map_lt_map (fun _ _ => Text.utf8_lt_iff.2) h

private theorem cutExtension_eq_some_iff {name extension : String} (h : '.' ∉ extension.toList) :
    (cutExtension name).2 = some extension ↔
      ∃ stem, stem ≠ "" ∧ name = stem ++ "." ++ extension := by
  constructor
  · intro hcut
    unfold cutExtension at hcut
    split at hcut
    · cases hcut
    · cases hcut
    · next stem found hne hlast =>
      obtain rfl : String.ofList found = extension := Option.some.inj hcut
      obtain ⟨hname, -⟩ := Text.eq_append_of_cutAtLast hlast
      refine ⟨String.ofList stem, fun hempty => hne ?_, ?_⟩
      · rw [← String.toList_inj, String.toList_ofList] at hempty
        exact hempty
      · rw [← String.toList_inj, hname]
        simp [String.toList_append]
  · rintro ⟨stem, hstem, rfl⟩
    rw [cutExtension_append hstem h]

def Carries (extension : String) (names : Place) : Prop :=
  ∃ front stem, stem ≠ "" ∧ names = front ++ [stem ++ "." ++ extension]

private theorem extension_below_iff (dir : Path) {extension : String} {names : Place}
    (hextension : '.' ∉ extension.toList) (h : ∀ name ∈ names, IsFileName name)
    (hne : names ≠ []) :
    (dir.below names).extension = some extension ↔ Carries extension names := by
  obtain ⟨front, last, rfl⟩ := (List.eq_nil_or_concat' names).resolve_left hne
  have hlast : IsFileName last := h last (List.mem_append_right front List.mem_cons_self)
  rw [below_append, Path.extension, fileName_entry _ hlast, Option.bind_some,
    cutExtension_eq_some_iff hextension]
  constructor
  · rintro ⟨stem, hstem, rfl⟩
    exact ⟨front, stem, hstem, rfl⟩
  · rintro ⟨front', stem, hstem, hnames⟩
    obtain ⟨-, hsame⟩ := List.append_inj' hnames rfl
    exact ⟨stem, hstem, List.singleton_inj.1 hsame⟩

end Path

/-! ## Trees -/

namespace FileNode

private theorem entries_induction {motive : FileNode → Prop} (file : ∀ bytes, motive (.file bytes))
    (link : ∀ target, motive (.link target))
    (directory : ∀ entries, (∀ name node, (name, node) ∈ entries → motive node) →
      motive (.directory entries)) : ∀ node, motive node
  | .file bytes => file bytes
  | .link target => link target
  | .directory entries =>
    directory entries fun _ node _ => entries_induction file link directory node
termination_by node => sizeOf node
decreasing_by
  rename_i hmem
  have hlt := List.sizeOf_lt_of_mem hmem
  simp at hlt ⊢
  omega

private theorem at?_append_of {root node : FileNode} {place : Place}
    (h : root.at? place = some node) (rest : Place) : root.at? (place ++ rest) = node.at? rest := by
  rw [at?_append, h, Option.bind_some]

private theorem at?_cons_iff {entries : List (String × FileNode)}
    (hnames : (entries.map Prod.fst).Nodup) {name : String} {rest : Place} {node : FileNode} :
    (FileNode.directory entries).at? (name :: rest) = some node ↔
      ∃ child, (name, child) ∈ entries ∧ child.at? rest = some node := by
  rw [FileNode.at?, Option.bind_eq_some_iff]
  refine exists_congr fun child => and_congr_left fun _ => ?_
  exact (mem_entries_iff hnames).symm

/-- A tree as a file system keeps it: the names in a directory are different, and each is one that a
file can have, and not too long. -/
structure IsProper (root : FileNode) : Prop where
  distinct : root.Distinct
  named : ∀ place node, root.at? place = some node →
    ∀ name ∈ place, IsFileName name ∧ name.utf8ByteSize ≤ FileTree.nameLimit

private theorem IsProper.at? {root node : FileNode} {place : Place} (h : root.IsProper)
    (hnode : root.at? place = some node) : node.IsProper where
  distinct := h.distinct.at? hnode
  named rest found hfound name hname := by
    refine h.named (place ++ rest) found ?_ name (List.mem_append_right place hname)
    rw [at?_append_of hnode, hfound]

theorem isProper_directory {entries : List (String × FileNode)}
    (hnames : (entries.map Prod.fst).Nodup)
    (h : ∀ e ∈ entries, IsFileName e.1 ∧ e.1.utf8ByteSize ≤ FileTree.nameLimit ∧ e.2.IsProper) :
    (FileNode.directory entries).IsProper where
  distinct := distinct_directory hnames fun name node hlookup =>
    (h (name, node) ((mem_entries_iff hnames).2 hlookup)).2.2.distinct
  named place node hnode name hname := by
    cases place with
    | nil => cases hname
    | cons first rest =>
      obtain ⟨child, hmem, hrest⟩ := (at?_cons_iff hnames).1 hnode
      obtain ⟨hfirst, hshort, hchild⟩ := h (first, child) hmem
      rcases List.mem_cons.1 hname with rfl | hmem
      · exact ⟨hfirst, hshort⟩
      · exact hchild.named rest node hrest name hmem

theorem IsBare.isProper {node : FileNode} (h : node.IsBare) : node.IsProper where
  distinct := h.distinct
  named place found hfound name hname := by
    cases place with
    | nil => cases hname
    | cons first rest =>
      obtain ⟨child, hchild, -⟩ := Option.bind_eq_some_iff.1 hfound
      rw [h first] at hchild
      cases hchild

private theorem filesIn_outlines (extension : String) (path : Path)
    (entries : List (String × FileNode)) :
    Outline.filesIn extension path (outlines entries) =
      entries.map fun e => (e.1, e.2.outline.filesAt extension (path.entry e.1)) := by
  induction entries with
  | nil => rfl
  | cons entry rest ih =>
    obtain ⟨name, node⟩ := entry
    rw [outlines, Outline.filesIn, ih]
    rfl

private theorem sorted_map {α β : Type} (f : String × α → β) (entries : List (String × α)) :
    Outline.sorted (entries.map fun e => (e.1, f e)) =
      (Outline.sorted entries).map fun e => (e.1, f e) := by
  unfold Outline.sorted
  rw [List.map_mergeSort]
  intro a _ b _
  rfl

private theorem filesAt_directory (extension : String) (path : Path)
    (entries : List (String × FileNode)) :
    (FileNode.directory entries).outline.filesAt extension path =
      (Outline.sorted entries).flatMap fun e =>
        e.2.outline.filesAt extension (path.entry e.1) := by
  have hsorted := sorted_map (fun e => e.2.outline.filesAt extension (path.entry e.1)) entries
  rw [outline, Outline.filesAt, filesIn_outlines, hsorted, List.map_map, List.flatMap_def]
  rfl

private theorem sorted_perm {α : Type} (entries : List (String × α)) :
    (Outline.sorted entries).Perm entries :=
  List.mergeSort_perm entries _

private theorem pairwise_sorted {α : Type} {entries : List (String × α)}
    (h : (entries.map Prod.fst).Nodup) :
    (Outline.sorted entries).Pairwise fun a b => a.1 < b.1 := by
  have hle : (Outline.sorted entries).Pairwise fun a b => a.1 ≤ b.1 := by
    refine (List.pairwise_mergeSort ?_ ?_ entries).imp of_decide_eq_true
    · intro a b c hab hbc
      exact decide_eq_true ((of_decide_eq_true hab).trans (of_decide_eq_true hbc))
    · intro a b
      rw [Bool.or_eq_true, decide_eq_true_iff, decide_eq_true_iff]
      exact le_total a.1 b.1
  have hne := List.pairwise_map.1 (((sorted_perm entries).map Prod.fst).nodup_iff.2 h)
  exact (hle.and hne).imp fun hab => lt_of_le_of_ne hab.1 hab.2

/-- A walk through a tree that stands at a path comes to these files: all that have the extension,
each given by the names that lead to it and what it holds, in the order of these names. -/
structure Visits (extension : String) (path : Path) (node : FileNode)
    (files : List (Place × ByteArray)) : Prop where
  mem_iff : ∀ names bytes, (names, bytes) ∈ files ↔
    node.at? names = some (.file bytes) ∧ (path.below names).extension = some extension
  ascending : files.Pairwise fun a b => a.1 < b.1
  paths : node.outline.filesAt extension path = files.map fun f => path.below f.1

structure VisitsEntries (extension : String) (path : Path) (entries : List (String × FileNode))
    (files : List (Place × ByteArray)) : Prop where
  mem_iff : ∀ names bytes, (names, bytes) ∈ files ↔ ∃ name node rest, (name, node) ∈ entries ∧
    names = name :: rest ∧ node.at? rest = some (.file bytes) ∧
      (path.below names).extension = some extension
  ascending : files.Pairwise fun a b => a.1 < b.1
  paths : (entries.flatMap fun e => e.2.outline.filesAt extension (path.entry e.1)) =
    files.map fun f => path.below f.1

section Walking

variable {extension name : String} {path : Path} {node : FileNode}
  {entries : List (String × FileNode)} {files more : List (Place × ByteArray)}

private theorem Visits.file (extension : String) (path : Path) (bytes : ByteArray) :
    Visits extension path (.file bytes)
      (if path.extension = some extension then [([], bytes)] else []) where
  mem_iff names found := by
    cases names with
    | nil =>
      split
      · next hextension => simp [FileNode.at?, Path.below, hextension, eq_comm]
      · next hextension => simp [Path.below, hextension]
    | cons name rest => split <;> simp [FileNode.at?, child?]
  ascending := by
    split
    · exact List.pairwise_singleton _ _
    · exact .nil
  paths := by
    rw [outline, Outline.filesAt]
    by_cases hextension : path.extension = some extension
    · simp [hextension, Path.below]
    · simp [hextension]

private theorem Visits.link (extension : String) (path : Path) (target : String) :
    Visits extension path (.link target) [] where
  mem_iff names bytes := by
    cases names with
    | nil => simp [FileNode.at?]
    | cons name rest => simp [FileNode.at?, child?]
  ascending := .nil
  paths := rfl

private theorem VisitsEntries.nil (extension : String) (path : Path) :
    VisitsEntries extension path [] [] where
  mem_iff _ _ := by simp
  ascending := .nil
  paths := rfl

private theorem VisitsEntries.cons (hnode : Visits extension (path.entry name) node files)
    (hentries : VisitsEntries extension path entries more)
    (hlt : ∀ other ∈ entries, name < other.1) :
    VisitsEntries extension path ((name, node) :: entries)
      ((files.map fun f => (name :: f.1, f.2)) ++ more) where
  mem_iff names bytes := by
    rw [List.mem_append]
    constructor
    · rintro (hmem | hmem)
      · obtain ⟨⟨rest, found⟩, hfile, heq⟩ := List.mem_map.1 hmem
        obtain ⟨rfl, rfl⟩ := Prod.mk.inj heq
        obtain ⟨hat, hextension⟩ := (hnode.mem_iff rest found).1 hfile
        exact ⟨name, node, rest, List.mem_cons_self, rfl, hat, hextension⟩
      · obtain ⟨other, found, rest, hother, hrest⟩ := (hentries.mem_iff names bytes).1 hmem
        exact ⟨other, found, rest, List.mem_cons_of_mem _ hother, hrest⟩
    · rintro ⟨other, found, rest, hmem, rfl, hat, hextension⟩
      rcases List.mem_cons.1 hmem with heq | hother
      · obtain ⟨rfl, rfl⟩ := Prod.mk.inj heq
        have hfile := (hnode.mem_iff rest bytes).2 ⟨hat, hextension⟩
        exact .inl (List.mem_map.2 ⟨(rest, bytes), hfile, rfl⟩)
      · exact .inr ((hentries.mem_iff _ _).2 ⟨other, found, rest, hother, rfl, hat, hextension⟩)
  ascending := by
    refine List.pairwise_append.2 ⟨?_, hentries.ascending, ?_⟩
    · refine List.pairwise_map.2 (hnode.ascending.imp fun hab => ?_)
      exact List.cons_lt_cons_iff.2 (.inr ⟨rfl, hab⟩)
    · rintro a ha ⟨names, bytes⟩ hb
      obtain ⟨f, -, rfl⟩ := List.mem_map.1 ha
      obtain ⟨other, found, rest, hother, rfl, -⟩ := (hentries.mem_iff names bytes).1 hb
      exact List.cons_lt_cons_iff.2 (.inl (hlt _ hother))
  paths := by
    rw [List.flatMap_cons, List.map_append, List.map_map, hentries.paths, hnode.paths]
    rfl

private theorem Visits.directory (hdistinct : (FileNode.directory entries).Distinct)
    (h : VisitsEntries extension path (Outline.sorted entries) files) :
    Visits extension path (.directory entries) files where
  mem_iff names bytes := by
    have hnames : (entries.map Prod.fst).Nodup := hdistinct [] entries rfl
    rw [h.mem_iff]
    constructor
    · rintro ⟨name, node, rest, hmem, rfl, hat, hextension⟩
      have hentry := (sorted_perm entries).mem_iff.1 hmem
      exact ⟨(at?_cons_iff hnames).2 ⟨node, hentry, hat⟩, hextension⟩
    · rintro ⟨hat, hextension⟩
      cases names with
      | nil => cases hat
      | cons name rest =>
        obtain ⟨node, hentry, hrest⟩ := (at?_cons_iff hnames).1 hat
        have hmem := (sorted_perm entries).mem_iff.2 hentry
        exact ⟨name, node, rest, hmem, rfl, hrest, hextension⟩
  ascending := h.ascending
  paths := (filesAt_directory extension path entries).trans h.paths

private theorem exists_visitsEntries (hascending : entries.Pairwise fun a b => a.1 < b.1)
    (h : ∀ name node, (name, node) ∈ entries → ∃ files,
      Visits extension (path.entry name) node files) :
    ∃ files, VisitsEntries extension path entries files := by
  induction entries with
  | nil => exact ⟨[], .nil extension path⟩
  | cons entry entries ih =>
    obtain ⟨hlt, hrest⟩ := List.pairwise_cons.1 hascending
    obtain ⟨files, hnode⟩ := h entry.1 entry.2 List.mem_cons_self
    obtain ⟨more, hentries⟩ := ih hrest fun name node hmem =>
      h name node (List.mem_cons_of_mem entry hmem)
    exact ⟨_, .cons hnode hentries hlt⟩

private theorem exists_visits (hdistinct : node.Distinct) (extension : String) (path : Path) :
    ∃ files, Visits extension path node files := by
  induction node using entries_induction generalizing path with
  | file bytes => exact ⟨_, .file extension path bytes⟩
  | link target => exact ⟨_, .link extension path target⟩
  | directory entries ih =>
    -- Entry by entry in their order; the tree of each is visited by the path of its name.
    have hnames : (entries.map Prod.fst).Nodup := hdistinct [] entries rfl
    obtain ⟨files, hfiles⟩ := exists_visitsEntries (pairwise_sorted hnames)
      fun name node hmem => by
        have hmem' := (sorted_perm entries).mem_iff.1 hmem
        have hlookup := (mem_entries_iff hnames).1 hmem'
        exact ih name node hmem' (hdistinct.child hlookup) (path.entry name)
    exact ⟨files, .directory hdistinct hfiles⟩

end Walking

private theorem directoriesIn_outlines (path : Path) (entries : List (String × FileNode)) :
    Outline.directoriesIn path (outlines entries) =
      entries.flatMap fun e => e.2.outline.directoriesAt (path.entry e.1) := by
  induction entries with
  | nil => rfl
  | cons entry rest ih =>
    obtain ⟨name, node⟩ := entry
    rw [outlines, Outline.directoriesIn, ih]
    rfl

private theorem mem_directoriesAt_iff {node : FileNode} (hdistinct : node.Distinct)
    {path dir : Path} :
    dir ∈ node.outline.directoriesAt path ↔
      ∃ names entries, node.at? names = some (.directory entries) ∧ dir = path.below names := by
  induction node using entries_induction generalizing path with
  | file bytes =>
    refine iff_of_false List.not_mem_nil ?_
    rintro ⟨names, entries, hat, -⟩
    cases names <;> cases hat
  | link target =>
    refine iff_of_false List.not_mem_nil ?_
    rintro ⟨names, entries, hat, -⟩
    cases names <;> cases hat
  | directory entries ih =>
    have hnames : (entries.map Prod.fst).Nodup := hdistinct [] entries rfl
    rw [outline, Outline.directoriesAt, directoriesIn_outlines, List.mem_cons, List.mem_flatMap]
    constructor
    · rintro (rfl | ⟨⟨name, node⟩, hmem, hdir⟩)
      · exact ⟨[], entries, rfl, rfl⟩
      · have hlookup := (mem_entries_iff hnames).1 hmem
        obtain ⟨names, found, hat, rfl⟩ := (ih name node hmem (hdistinct.child hlookup)).1 hdir
        exact ⟨name :: names, found, (at?_cons_iff hnames).2 ⟨node, hmem, hat⟩, rfl⟩
    · rintro ⟨names, found, hat, rfl⟩
      cases names with
      | nil => exact .inl rfl
      | cons name rest =>
        obtain ⟨node, hmem, hrest⟩ := (at?_cons_iff hnames).1 hat
        have hlookup := (mem_entries_iff hnames).1 hmem
        refine .inr ⟨(name, node), hmem, ?_⟩
        exact (ih name node hmem (hdistinct.child hlookup)).2 ⟨rest, found, hrest, rfl⟩

end FileNode

/-! ## Files below a directory -/

namespace FileTree

variable {t : FileTree} {path : Path} {place : Place} {names : Place}

/-- Every directory below a path can be looked into by its own path. -/
def Readable (t : FileTree) (path : Path) (place : Place) : Prop :=
  ∀ names, t.scene (place ++ names) = some .directory → refusal? (path.below names).text = none

private theorem Readable.accepted (h : t.Readable path place) (hopens : t.Opens path place) :
    refusal? path.text = none := by
  refine h [] ?_
  rw [List.append_nil]
  exact hopens.isDirectory

private theorem opens_below (hproper : t.root.IsProper) (hopens : t.Opens path place)
    (hdir : t.scene (place ++ names) = some .directory) :
    t.Opens (path.below names) (place ++ names) := by
  -- The last name is looked up in the directory that those before it lead to.
  induction names using List.reverseRecOn with
  | nil =>
    rw [List.append_nil]
    exact hopens
  | append_singleton names name ih =>
    rw [← List.append_assoc] at hdir ⊢
    obtain ⟨node, hnode, -⟩ := Option.map_eq_some_iff.1 hdir
    obtain ⟨hname, hshort⟩ := hproper.named _ node hnode name (by simp)
    have hfits : t.Fits (place ++ names) name := ⟨hname, hshort, .inr hdir⟩
    rw [Path.below_append]
    exact hfits.opens_entry (ih (FileNode.scene_isDirectory hdir)) hdir

def contents (path : Path) (bytes : ByteArray) : Except FileError ByteArray :=
  match refusal? path.text with
  | some e => .error e
  | none => .ok bytes

theorem read_below (hproper : t.root.IsProper) (hopens : t.Opens path place) {bytes : ByteArray}
    (hfile : t.root.at? (place ++ names) = some (.file bytes)) :
    t.read (path.below names) = contents (path.below names) bytes := by
  have hseen := sight_of_file hfile
  have hne : names ≠ [] := by
    rintro rfl
    rw [List.append_nil, hopens.isDirectory] at hseen
    cases hseen
  obtain ⟨front, last, rfl⟩ := (List.eq_nil_or_concat' names).resolve_left hne
  rw [← List.append_assoc] at hseen hfile
  obtain ⟨hname, hshort⟩ := hproper.named _ _ hfile last (by simp)
  have hdir := opens_below hproper hopens (FileNode.scene_isDirectory hseen)
  have hfree : t.LinkFree (path.below front) last := by
    intro directory hother target hlink
    rw [hother.unique hdir, hseen] at hlink
    cases hlink
  rw [Path.below_append, contents]
  cases hrefusal : refusal? ((path.below front).entry last).text with
  | some e => rw [read, node, resolve, hrefusal]
  | none =>
    exact (read_entry_iff hname hfree).2 ⟨⟨hrefusal, hshort⟩, place ++ front, hdir, hseen⟩

/-- These are the files below a directory that have an extension, each given by the names that lead
to it from there and what it holds, in the order of their paths: name by name, and of names by their
bytes. What is behind a link is not below a directory. -/
structure FilesBelow (t : FileTree) (extension : String) (path : Path) (place : Place)
    (files : List (Place × ByteArray)) : Prop where
  mem_iff : ∀ names bytes, (names, bytes) ∈ files ↔
    t.root.at? (place ++ names) = some (.file bytes) ∧ Path.Carries extension names
  ascending : files.Pairwise fun a b => a.1.map Text.utf8 < b.1.map Text.utf8 ∧
    (path.below a.1).before (path.below b.1) = true

private theorem filesBelow_of_visits {extension : String} {files : List (Place × ByteArray)}
    {entries : List (String × FileNode)} (hextension : '.' ∉ extension.toList)
    (hproper : t.root.IsProper) (hat : t.root.at? place = some (.directory entries))
    (h : FileNode.Visits extension path (.directory entries) files) :
    t.FilesBelow extension path place files := by
  -- The order of paths, and their extensions, are known of names that files can have.
  have hvalid {names : Place} {bytes : ByteArray}
      (hfile : (FileNode.directory entries).at? names = some (.file bytes)) :
      (∀ name ∈ names, IsFileName name) ∧ names ≠ [] := by
    refine ⟨fun name hname => ((hproper.at? hat).named names _ hfile name hname).1, ?_⟩
    rintro rfl
    cases hfile
  refine ⟨fun names bytes => ?_, h.ascending.imp_of_mem ?_⟩
  · rw [h.mem_iff, FileNode.at?_append_of hat]
    refine and_congr_right fun hfile => ?_
    obtain ⟨hnames, hne⟩ := hvalid hfile
    exact path.extension_below_iff hextension hnames hne
  · rintro ⟨names, bytes⟩ ⟨names', bytes'⟩ hmem hmem' hlt
    obtain ⟨hnames, hne⟩ := hvalid ((h.mem_iff names bytes).1 hmem).1
    obtain ⟨hnames', hne'⟩ := hvalid ((h.mem_iff names' bytes').1 hmem').1
    exact ⟨Path.map_utf8_lt hlt, path.before_below hnames hnames' hne hne' hlt⟩

/-- Whether a directory's tree can be looked into shows in the paths of the directories in it. -/
theorem readable_iff {entries : List (String × FileNode)} (hdistinct : t.Distinct)
    (hat : t.root.at? place = some (.directory entries)) :
    t.Readable path place ↔ ∀ dir ∈ (FileNode.directory entries).outline.directoriesAt path,
      refusal? dir.text = none := by
  have hbelow (names : Place) : t.scene (place ++ names) =
      ((FileNode.directory entries).at? names).map FileNode.sight := by
    rw [scene, FileNode.scene, FileNode.at?_append_of hat]
  have hmem {dir : Path} : dir ∈ (FileNode.directory entries).outline.directoriesAt path ↔
      ∃ names found, (FileNode.directory entries).at? names = some (.directory found) ∧
        dir = path.below names := FileNode.mem_directoriesAt_iff (hdistinct.at? hat)
  constructor
  · intro h dir hdir
    obtain ⟨names, found, hfound, rfl⟩ := hmem.1 hdir
    refine h names ?_
    rw [hbelow, hfound]
    rfl
  · intro h names hdir
    rw [hbelow] at hdir
    obtain ⟨node, hnode, hsight⟩ := Option.map_eq_some_iff.1 hdir
    cases node with
    | file bytes => cases hsight
    | link target => cases hsight
    | directory found => exact h _ (hmem.2 ⟨names, found, hnode, rfl⟩)

private theorem outline_of_readable (hdistinct : t.Distinct) (hopens : t.Opens path place)
    (hreadable : t.Readable path place) {entries : List (String × FileNode)}
    (hat : t.root.at? place = some (.directory entries)) :
    t.outline path = .ok (FileNode.directory entries).outline := by
  have hnode := node_eq_ok_iff.2 ⟨spot_of_opens hopens (hreadable.accepted hopens), hat⟩
  have hall : ((FileNode.directory entries).outline.directoriesAt path).findSome?
      (fun directory => refusal? directory.text) = none :=
    List.findSome?_eq_none_iff.2 ((readable_iff hdistinct hat).1 hreadable)
  rw [FileTree.outline, hnode]
  simp only [hall]

abbrev access : FileAccess (StateM FileTree) := .inMemory

/-- From a directory, the files below it that have the extension are loaded, in order. -/
theorem exists_filesOf {α : Type} (r : ScriptReader α) (hextension : '.' ∉ r.extension.toList)
    (hproper : t.root.IsProper) (hopens : t.Opens path place)
    (hreadable : t.Readable path place) :
    ∃ files, t.FilesBelow r.extension path place files ∧
      (r.filesOf access path).run t = (.ok (files.map fun f => path.below f.1), t) := by
  obtain ⟨entries, hat⟩ := at?_of_isDirectory hopens.isDirectory
  obtain ⟨files, hvisits⟩ := FileNode.exists_visits (hproper.at? hat).distinct r.extension path
  refine ⟨files, filesBelow_of_visits hextension hproper hat hvisits, ?_⟩
  have haccepted := hreadable.accepted hopens
  have hkind : (access.kind? path).run t = (some .directory, t) :=
    congrArg (·, t) (kind?_of_opens hopens haccepted)
  have houtline : (access.outline path).run t = (.ok (FileNode.directory entries).outline, t) :=
    congrArg (·, t) (outline_of_readable hproper.distinct hopens hreadable hat)
  rw [ScriptReader.filesOf, run_bind_of hkind]
  simp only
  rw [run_bind_of houtline, ← hvisits.paths]
  rfl

end FileTree
end StepScript
