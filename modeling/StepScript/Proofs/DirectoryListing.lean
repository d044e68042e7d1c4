import Mathlib.Data.List.Nodup
import StepScript.Proofs.Namespaces

/-!
What a listing of a directory shows. In a tree that gives each name of a directory to one entry,
the listing has exactly what is seen in the directory, each name once; and every operation leaves
such a tree behind.
-/

set_option autoImplicit false
set_option relaxedAutoImplicit false

namespace StepScript

namespace FileNode

/-- No directory has two entries of one name. -/
def Distinct (root : FileNode) : Prop :=
  ∀ place entries, root.at? place = some (.directory entries) → (entries.map Prod.fst).Nodup

theorem Distinct.child {entries : List (String × FileNode)} {name : String} {node : FileNode}
    (h : (FileNode.directory entries).Distinct) (hnode : entries.lookup name = some node) :
    node.Distinct := by
  intro place found hfound
  refine h (name :: place) found ?_
  simpa [at?, child?, hnode] using hfound

theorem distinct_directory {entries : List (String × FileNode)}
    (hnames : (entries.map Prod.fst).Nodup)
    (h : ∀ name node, entries.lookup name = some node → node.Distinct) :
    (FileNode.directory entries).Distinct := by
  intro place found hfound
  cases place with
  | nil =>
    cases hfound
    exact hnames
  | cons name place =>
    obtain ⟨node, hnode, hrest⟩ := Option.bind_eq_some_iff.1 hfound
    exact h name node hnode place found hrest

theorem IsBare.distinct {node : FileNode} (h : node.IsBare) : node.Distinct := by
  intro place entries hfound
  cases place with
  | nil =>
    cases hfound
    cases entries with
    | nil => exact List.nodup_nil
    | cons entry rest =>
      have hchild := h entry.1
      simp [child?] at hchild
  | cons name place =>
    obtain ⟨child, hchild, -⟩ := Option.bind_eq_some_iff.1 hfound
    rw [h name] at hchild
    cases hchild

theorem Distinct.at? {root node : FileNode} {place : Place} (h : root.Distinct)
    (hnode : root.at? place = some node) : node.Distinct := by
  intro rest entries hfound
  refine h (place ++ rest) entries ?_
  rw [at?_append, hnode, Option.bind_some, hfound]

private theorem mem_names_alterEntry {name other : String} {f : Option FileNode → Option FileNode}
    {entries : List (String × FileNode)}
    (h : other ∈ (alterEntry name f entries).map Prod.fst) :
    other = name ∨ other ∈ entries.map Prod.fst := by
  induction entries with
  | nil =>
    unfold alterEntry at h
    cases hf : f none <;> simp_all
  | cons entry rest ih =>
    unfold alterEntry at h
    split at h
    · cases hf : f (some entry.2) with
      | some node =>
        rw [hf] at h
        rcases List.mem_cons.1 h with heq | hrest
        · exact .inl heq
        · exact .inr (List.mem_cons_of_mem _ hrest)
      | none =>
        rw [hf] at h
        exact .inr (List.mem_cons_of_mem _ ((List.filter_sublist.map Prod.fst).subset h))
    · rcases List.mem_cons.1 h with heq | hrest
      · exact .inr (heq ▸ List.mem_cons_self)
      · exact (ih hrest).imp_right (List.mem_cons_of_mem _)

private theorem nodup_alterEntry (name : String) (f : Option FileNode → Option FileNode)
    {entries : List (String × FileNode)} (h : (entries.map Prod.fst).Nodup) :
    ((alterEntry name f entries).map Prod.fst).Nodup := by
  induction entries with
  | nil =>
    unfold alterEntry
    cases f none <;> simp
  | cons entry rest ih =>
    obtain ⟨hentry, hrest⟩ := List.nodup_cons.1 h
    unfold alterEntry
    split
    · next hname =>
      cases f (some entry.2) with
      | some node => exact List.nodup_cons.2 ⟨eq_of_beq hname ▸ hentry, hrest⟩
      | none => exact hrest.sublist (List.filter_sublist.map Prod.fst)
    · next hname =>
      refine List.nodup_cons.2 ⟨fun hmem => ?_, ih hrest⟩
      rcases mem_names_alterEntry hmem with heq | hmem
      · exact hname (beq_iff_eq.2 heq)
      · exact hentry hmem

private theorem distinct_alterEntry (name : String) {f : Option FileNode → Option FileNode}
    {entries : List (String × FileNode)} (h : (FileNode.directory entries).Distinct)
    (hf : ∀ node, f (entries.lookup name) = some node → node.Distinct) :
    (FileNode.directory (alterEntry name f entries)).Distinct := by
  refine distinct_directory (nodup_alterEntry name f (h [] entries rfl)) fun other node hnode => ?_
  rw [lookup_alterEntry] at hnode
  split at hnode
  · exact hf node hnode
  · exact h.child hnode

private theorem Distinct.alter {root : FileNode} (h : root.Distinct)
    {f : Option FileNode → Option FileNode}
    (hf : ∀ old? : Option FileNode, (∀ old, old? = some old → old.Distinct) →
      ∀ node, f old? = some node → node.Distinct) (place : Place) :
    (root.alter f place).Distinct := by
  induction place generalizing root with
  | nil =>
    unfold FileNode.alter
    cases hnode : f (some root) with
    | none => exact h
    | some new =>
      refine hf (some root) ?_ new hnode
      rintro old ⟨⟩
      exact h
  | cons name rest ih =>
    cases root with
    | file bytes => cases rest <;> exact h
    | link target => cases rest <;> exact h
    | directory entries =>
      cases rest with
      | nil => exact distinct_alterEntry name h (hf _ fun old hold => h.child hold)
      | cons second rest =>
        refine distinct_alterEntry name h fun node hnode => ?_
        obtain ⟨old, hold, rfl⟩ := Option.map_eq_some_iff.1 hnode
        exact ih (h.child hold)

theorem mem_entries_iff {entries : List (String × FileNode)}
    (h : (entries.map Prod.fst).Nodup) {name : String} {node : FileNode} :
    (name, node) ∈ entries ↔ entries.lookup name = some node := by
  induction entries with
  | nil => simp
  | cons entry rest ih =>
    obtain ⟨hentry, hrest⟩ := List.nodup_cons.1 h
    rw [List.mem_cons, ih hrest, List.lookup_cons]
    by_cases hname : name = entry.1
    · subst hname
      have hnone : rest.lookup entry.1 ≠ some node := by
        intro hlookup
        exact hentry (List.mem_map.2 ⟨_, (ih hrest).2 hlookup, rfl⟩)
      simp [hnone, Prod.ext_iff, eq_comm]
    · simp [beq_false_of_ne hname, Prod.ext_iff, hname]

end FileNode

/-! ## Operations -/

namespace FileTree

variable {t : FileTree}

def Distinct (t : FileTree) : Prop := t.root.Distinct

theorem Distinct.put (h : t.Distinct) {node : FileNode} (hnode : node.Distinct) (place : Place) :
    (t.put place node).Distinct := by
  refine FileNode.Distinct.alter h ?_ place
  rintro old? - new ⟨⟩
  exact hnode

private theorem Distinct.take (h : t.Distinct) (place : Place) :
    (t.alter place fun _ => none).Distinct :=
  FileNode.Distinct.alter h (fun _ _ _ hnode => (Option.some_ne_none _ hnode.symm).elim) place

theorem Distinct.create (h : t.Distinct) (path : Path) : (t.create path).2.Distinct := by
  unfold FileTree.create
  split
  · exact h
  · exact h.put (FileNode.isBare_file _).distinct _
  · exact h
  · exact h.put (FileNode.isBare_file _).distinct _

theorem Distinct.write (h : t.Distinct) (path : Path) (bytes : ByteArray) :
    (t.write path bytes).2.Distinct := by
  unfold FileTree.write
  split
  · exact h
  · exact h.put (FileNode.isBare_file _).distinct _
  · exact h

theorem Distinct.remove (h : t.Distinct) (path : Path) : (t.remove path).2.Distinct := by
  unfold FileTree.remove
  split
  · exact h
  · exact h
  · exact h.take _

private theorem Distinct.move (h : t.Distinct) {node : FileNode} (hnode : node.Distinct)
    (source target : Place) : (t.move source target node).Distinct := by
  unfold FileTree.move
  split
  · exact h
  · exact (h.take source).put hnode target

theorem Distinct.rename (h : t.Distinct) (source target : Path) :
    (t.rename source target).2.Distinct := by
  unfold FileTree.rename
  split
  · exact h
  · exact h
  · next place node _ hnode =>
    have hdistinct : node.Distinct := h.at? (node_eq_ok_iff.1 hnode).2
    split
    · exact h
    · exact h
    · exact h.move hdistinct _ _
    · exact h.move hdistinct _ _

end FileTree

/-! ## Listings -/

namespace Scene

private theorem Leads.settle_here {s : Scene} {links : Nat} {place directory : Place}
    {names : List String} (h : s.Leads links place names directory) :
    s.settle true links place (names ++ ["."]) = .ok (.standing directory) := by
  induction h with
  | here hroam hdir =>
    rw [Scene.settle, roam_append, hroam]
    simp [Halt.onward, roam, hdir]
  | link hroam _ ih =>
    rw [Scene.settle, roam_append, hroam]
    simpa only [Halt.onward, List.append_assoc] using ih

end Scene

def Sight.kind : Sight → FileKind
  | .file _ => .file
  | .link _ => .link
  | .directory => .directory

def Sight.size : Sight → Nat
  | .file bytes => bytes.size
  | .link target => target.utf8ByteSize
  | .directory => 4096

def Sight.shown (name : String) (sight : Sight) : DirEntry := ⟨name, sight.kind, sight.size, none⟩

namespace FileTree

variable {t : FileTree} {dir : Path} {directory : Place}

theorem piecesOf_text (dir : Path) :
    piecesOf dir.text = dir.names ∨ piecesOf dir.text = dir.names ++ ["."] := by
  unfold piecesOf
  extract_lets pieces names
  split
  · exact .inr rfl
  · exact .inl rfl

/-- A path that leads to a directory finds it, if no path is too long. -/
theorem spot_of_opens (hopens : t.Opens dir directory) (haccepted : refusal? dir.text = none) :
    t.spot true dir = .ok (.standing directory) := by
  obtain ⟨start, horigin, hleads⟩ := hopens
  unfold spot
  rw [haccepted, horigin]
  simp only
  rcases piecesOf_text dir with hpieces | hpieces
  · rw [hpieces, hleads.settle]
  · rw [hpieces, hleads.settle_here]

theorem at?_of_isDirectory {place : Place} (h : t.scene place = some .directory) :
    ∃ entries, t.root.at? place = some (.directory entries) := by
  obtain ⟨node, hnode, hsight⟩ := Option.map_eq_some_iff.1 h
  cases node with
  | file bytes => cases hsight
  | link target => cases hsight
  | directory entries => exact ⟨entries, hnode⟩

theorem kind?_of_opens (hopens : t.Opens dir directory) (haccepted : refusal? dir.text = none) :
    t.kind? dir = some .directory := by
  obtain ⟨entries, hat⟩ := at?_of_isDirectory hopens.isDirectory
  rw [kind?, node_eq_ok_iff.2 ⟨spot_of_opens hopens haccepted, hat⟩]
  rfl

theorem entries_of_opens (hdistinct : t.Distinct) (hopens : t.Opens dir directory)
    (haccepted : refusal? dir.text = none) :
    ∃ found, t.entries dir = .ok found ∧ (found.map DirEntry.name).Nodup ∧
      ∀ e, e ∈ found ↔ ∃ name sight, t.scene (directory ++ [name]) = some sight ∧
        e = sight.shown name := by
  obtain ⟨entries, hat⟩ := at?_of_isDirectory hopens.isDirectory
  have hnames := hdistinct directory entries hat
  have hseen (name : String) :
      t.scene (directory ++ [name]) = (entries.lookup name).map FileNode.sight := by
    rw [scene, FileNode.scene, FileNode.at?_append, hat]
    simp [FileNode.at?, FileNode.child?]
  have hshown (name : String) (node : FileNode) :
      (⟨name, node.kind, node.size, none⟩ : DirEntry) = node.sight.shown name := by
    cases node <;> rfl
  refine ⟨entries.map fun entry => ⟨entry.1, entry.2.kind, entry.2.size, none⟩, ?_, ?_, ?_⟩
  · rw [FileTree.entries, node_eq_ok_iff.2 ⟨spot_of_opens hopens haccepted, hat⟩]
  · simpa [Function.comp_def] using hnames
  · intro e
    simp only [List.mem_map, Prod.exists, hshown, hseen, FileNode.mem_entries_iff hnames]
    constructor
    · rintro ⟨name, node, hlookup, rfl⟩
      exact ⟨name, node.sight, by rw [hlookup]; rfl, rfl⟩
    · rintro ⟨name, sight, hsight, rfl⟩
      obtain ⟨node, hlookup, rfl⟩ := Option.map_eq_some_iff.1 hsight
      exact ⟨name, node, hlookup, rfl⟩

end FileTree
end StepScript
