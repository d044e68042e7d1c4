import StepScript.Files.Tree

/-!
What is seen at each place of a file tree. A scene says of every place whether a file, a link or a
directory stands there, and resolving a path looks at nothing else: `Scene.settle` resolves names on
a scene, and `resolve_eq` carries it over to trees. A change at one place of a tree changes the
scene at that place only, as long as nothing stands below it.
-/

set_option autoImplicit false
set_option relaxedAutoImplicit false

namespace StepScript

inductive Sight
  | file (bytes : ByteArray)
  | link (target : String)
  | directory

/-- What is seen at each place. -/
abbrev Scene := Place → Option Sight

def Scene.set (s : Scene) (place : Place) (seen : Option Sight) : Scene :=
  fun other => if other = place then seen else s other

@[simp]
theorem Scene.set_same (s : Scene) (place : Place) (seen : Option Sight) :
    s.set place seen place = seen := if_pos rfl

theorem Scene.set_of_ne (s : Scene) {place other : Place} (seen : Option Sight)
    (h : other ≠ place) : s.set place seen other = s other := if_neg h

@[simp]
theorem Scene.set_self (s : Scene) (place : Place) : s.set place (s place) = s := by
  funext other
  unfold set
  split
  · next h => rw [h]
  · rfl

@[simp]
theorem Scene.set_set (s : Scene) (place : Place) (first second : Option Sight) :
    (s.set place first).set place second = s.set place second := by
  funext other
  unfold set
  split <;> rfl

namespace FileNode

def sight : FileNode → Sight
  | .file bytes => .file bytes
  | .link target => .link target
  | .directory _ => .directory

def scene (root : FileNode) : Scene := fun place => (root.at? place).map sight

theorem at?_append (root : FileNode) (place rest : Place) :
    root.at? (place ++ rest) = (root.at? place).bind (at? rest) := by
  induction place generalizing root with
  | nil => rfl
  | cons name place ih =>
    simp only [List.cons_append, at?]
    cases root.child? name with
    | none => rfl
    | some node => exact ih node

private theorem lookup_cons_eq_ite (other : String) (entry : String × FileNode)
    (rest : List (String × FileNode)) :
    (entry :: rest).lookup other = if other = entry.1 then some entry.2 else rest.lookup other := by
  obtain ⟨key, node⟩ := entry
  by_cases h : other = key
  · subst h
    simp
  · simp [List.lookup_cons, h, beq_false_of_ne h]

private theorem lookup_filter_ne (name other : String) (entries : List (String × FileNode)) :
    (entries.filter fun entry => entry.1 != name).lookup other =
      if other = name then none else entries.lookup other := by
  induction entries with
  | nil => simp
  | cons entry rest ih =>
    by_cases hk : entry.1 = name
    · rw [List.filter_cons_of_neg (by simp [hk]), ih, lookup_cons_eq_ite, hk]
      split <;> rfl
    · rw [List.filter_cons_of_pos (by simp [hk]), lookup_cons_eq_ite, lookup_cons_eq_ite, ih]
      by_cases h : other = name
      · have hne : name ≠ entry.1 := fun he => hk he.symm
        simp [h, hne]
      · simp [h]

theorem lookup_alterEntry (name other : String) (f : Option FileNode → Option FileNode)
    (entries : List (String × FileNode)) :
    (alterEntry name f entries).lookup other =
      if other = name then f (entries.lookup name) else entries.lookup other := by
  induction entries with
  | nil =>
    unfold alterEntry
    cases hf : f none with
    | none => simp [hf]
    | some new => simp [lookup_cons_eq_ite, hf]
  | cons entry rest ih =>
    obtain ⟨key, node⟩ := entry
    unfold alterEntry
    by_cases hk : key = name
    · subst hk
      have hfind : ((key, node) :: rest).lookup key = some node := List.lookup_cons_self
      rw [hfind]
      simp only [beq_self_eq_true, if_true]
      cases hf : f (some node) with
      | none =>
        rw [lookup_filter_ne, lookup_cons_eq_ite]
        split <;> rfl
      | some new =>
        rw [lookup_cons_eq_ite, lookup_cons_eq_ite]
        split <;> rfl
    · have hne : name ≠ key := fun h => hk h.symm
      simp only [beq_false_of_ne hk, if_neg (Bool.false_ne_true)]
      rw [lookup_cons_eq_ite, ih, lookup_cons_eq_ite, lookup_cons_eq_ite, if_neg hne]
      by_cases h : other = name
      · rw [if_neg (fun ho => hne (h ▸ ho)), if_pos h, if_pos h]
      · rw [if_neg h, if_neg h]

theorem scene_isDirectory {root : FileNode} {place : Place} {name : String} {seen : Sight}
    (h : root.scene (place ++ [name]) = some seen) : root.scene place = some .directory := by
  unfold scene at h ⊢
  rw [at?_append] at h
  cases hnode : root.at? place with
  | none =>
    rw [hnode] at h
    cases h
  | some node =>
    rw [hnode] at h
    cases node with
    | directory entries => rfl
    | file bytes => cases h
    | link target => cases h

def IsBare (node : FileNode) : Prop := ∀ name, node.child? name = none

theorem isBare_file (bytes : ByteArray) : IsBare (.file bytes) := fun _ => rfl

theorem isBare_empty : IsBare (.directory []) := fun _ => rfl

private theorem sight_bind_at?_of_isBare {found : Option FileNode}
    (h : ∀ node, found = some node → node.IsBare) (rest : Place) :
    (found.bind (at? rest)).map sight = if rest = [] then found.map sight else none := by
  cases rest with
  | nil => cases found <;> rfl
  | cons name rest =>
    cases found with
    | none => rfl
    | some node => simp [at?, h node rfl name]

private theorem scene_alter_entry {entries : List (String × FileNode)} {name : String}
    {f : Option FileNode → Option FileNode}
    (hold : ∀ node, entries.lookup name = some node → node.IsBare)
    (hnew : ∀ node, f (entries.lookup name) = some node → node.IsBare) :
    ((directory entries).alter f [name]).scene =
      (directory entries).scene.set [name] ((f (entries.lookup name)).map sight) := by
  funext place
  cases place with
  | nil => simp [scene, alter, at?, sight, Scene.set]
  | cons other rest =>
    simp only [scene, alter, at?, child?, lookup_alterEntry, Scene.set, List.cons.injEq]
    by_cases h : other = name
    · rw [if_pos h, sight_bind_at?_of_isBare hnew]
      by_cases hrest : rest = []
      · simp [h, hrest]
      · subst h
        have hnone := sight_bind_at?_of_isBare hold rest
        rw [if_neg hrest] at hnone ⊢
        rw [if_neg fun hboth => hrest hboth.2, hnone]
    · simp [h]

/-- A change where nothing stands below is seen at its own place only. -/
theorem scene_alter {root : FileNode} {directory : Place} {name : String}
    {f : Option FileNode → Option FileNode} (hdir : root.scene directory = some .directory)
    (hold : ∀ node, root.at? (directory ++ [name]) = some node → node.IsBare)
    (hnew : ∀ node, f (root.at? (directory ++ [name])) = some node → node.IsBare) :
    (root.alter f (directory ++ [name])).scene =
      root.scene.set (directory ++ [name]) ((f (root.at? (directory ++ [name]))).map sight) := by
  induction directory generalizing root with
  | nil =>
    cases root with
    | file bytes => simp [scene, at?, sight] at hdir
    | link target => simp [scene, at?, sight] at hdir
    | directory entries =>
      have hat : (FileNode.directory entries).at? [name] = entries.lookup name := by
        simp [at?, child?]
      simp only [List.nil_append, hat] at hold hnew ⊢
      exact scene_alter_entry hold hnew
  | cons first directory ih =>
    cases root with
    | file bytes => simp [scene, at?, child?] at hdir
    | link target => simp [scene, at?, child?] at hdir
    | directory entries =>
      cases hnode : entries.lookup first with
      | none => simp [scene, at?, child?, hnode] at hdir
      | some node =>
        have hat (place : Place) : (FileNode.directory entries).at? (first :: place) =
            node.at? place := by
          simp [at?, child?, hnode]
        simp only [List.cons_append, hat] at hold hnew ⊢
        have hsub := ih (by simpa [scene, hat] using hdir) hold hnew
        funext place
        obtain ⟨second, more, hmore⟩ : ∃ second more, directory ++ [name] = second :: more := by
          cases directory <;> simp
        cases place with
        | nil => simp [scene, alter, at?, sight, Scene.set, hmore]
        | cons other rest =>
          by_cases h : other = first
          · subst h
            have hplace := congrFun hsub rest
            simp only [scene, hmore, alter, at?, child?, lookup_alterEntry, Scene.set, hnode,
              if_true, Option.map_some, Option.bind_some, List.cons.injEq, true_and] at hplace ⊢
            exact hplace
          · simp [scene, hmore, alter, at?, child?, lookup_alterEntry, Scene.set, h]

end FileNode
end StepScript
