import StepScript.Proofs.PlacedFile

/-!
A file that is written beside another and then takes its place, step by step. Where nothing stood, a
file is added that is seen at its own place only; it can be written, removed and moved, and each of
these leaves all that was there before as it was, but for the place that a move leads to.
-/

set_option autoImplicit false
set_option relaxedAutoImplicit false

namespace StepScript.FileTree

variable {t t' : FileTree} {path target : Path} {directory : Place} {name : String}
  {bytes : ByteArray}

/-- Neither a file nor a link stands where a path leads. -/
def IsFree (t : FileTree) (path : Path) : Prop :=
  ∀ place, t.spot false path = .ok (.standing place) → t.scene place = some .directory

structure Alike (t t' : FileTree) : Prop where
  working : t'.working = t.working
  scene : t'.scene = t.scene

/-- A tree after a file was made under a missing name that a path led to. -/
structure Adds (t : FileTree) (path : Path) (directory : Place) (name : String) (bytes : ByteArray)
    (t' : FileTree) : Prop where
  working : t'.working = t.working
  vacant : t.spot false path = .ok (.vacant directory name)
  scene : t'.scene = t.scene.set (directory ++ [name]) (some (.file bytes))

/-- A tree after a file took the place that a path led to. The path leads to the file then, unless
it goes on behind a link that stood at the place. -/
structure Puts (t : FileTree) (path : Path) (bytes : ByteArray) (t' : FileTree) : Prop where
  working : t'.working = t.working
  change : ∃ spot, t.spot false path = .ok spot ∧ t.scene spot.place ≠ some .directory ∧
    t'.scene = t.scene.set spot.place (some (.file bytes)) ∧
    (t'.read path = .ok bytes ∨
      (∃ target, t.scene spot.place = some (.link target)) ∧
        t'.read path = .error .notADirectory)

theorem Alike.refl (t : FileTree) : t.Alike t := ⟨rfl, rfl⟩

private theorem Alike.spot_eq (h : t.Alike t') (follow : Bool) :
    t'.spot follow path = t.spot follow path := by
  rw [spot_eq_lead, h.working, h.scene]
  rfl

theorem IsFree.of_alike (h : t.IsFree path) (halike : t.Alike t') : t'.IsFree path := by
  intro place hspot
  rw [halike.scene]
  rw [halike.spot_eq] at hspot
  exact h place hspot

/-! ## Changes of one node -/

private theorem scene_root {place : Place} (h : t.scene place = some .directory) :
    t.scene [] = some .directory := by
  cases place with
  | nil => exact h
  | cons name rest =>
    unfold scene FileNode.scene FileNode.at? at h ⊢
    cases hroot : t.root with
    | directory entries => rfl
    | file bytes => simp [hroot, FileNode.child?] at h
    | link target => simp [hroot, FileNode.child?] at h

private theorem isBare_of_sight_ne {node : FileNode} (h : node.sight ≠ .directory) :
    node.IsBare := by
  cases node with
  | file bytes => exact FileNode.isBare_file bytes
  | link target => exact fun _ => rfl
  | directory entries => exact absurd rfl h

private theorem scene_alter_file (bytes? : Option ByteArray)
    (hdir : t.scene directory = some .directory)
    (hold : t.scene (directory ++ [name]) ≠ some .directory) :
    (t.alter (directory ++ [name]) fun _ => bytes?.map .file).scene =
      t.scene.set (directory ++ [name]) (bytes?.map .file) := by
  have hbare : ∀ node, t.root.at? (directory ++ [name]) = some node → node.IsBare := by
    intro node hat
    refine isBare_of_sight_ne fun hsight => hold ?_
    rw [sight_of_at? hat, hsight]
  have hnew : ∀ node, bytes?.map FileNode.file = some node → node.IsBare := by
    intro node hnode
    obtain ⟨bytes, -, rfl⟩ := Option.map_eq_some_iff.1 hnode
    exact FileNode.isBare_file bytes
  have hscene := FileNode.scene_alter (f := fun _ => bytes?.map .file) hdir hbare hnew
  rw [Option.map_map] at hscene
  exact hscene

private theorem scene_put_file (bytes : ByteArray) (hdir : t.scene directory = some .directory)
    (hold : t.scene (directory ++ [name]) ≠ some .directory) :
    (t.put (directory ++ [name]) (.file bytes)).scene =
      t.scene.set (directory ++ [name]) (some (.file bytes)) :=
  scene_alter_file (some bytes) hdir hold

private theorem scene_take (hdir : t.scene directory = some .directory)
    (hold : t.scene (directory ++ [name]) ≠ some .directory) :
    (t.alter (directory ++ [name]) fun _ => none).scene =
      t.scene.set (directory ++ [name]) none :=
  scene_alter_file none hdir hold

/-! ## The added file -/

/-- To make a file where none is adds an empty one, or fails and changes nothing. -/
theorem create_of_free (h : t.IsFree path) :
    (∃ e, t.create path = (.error e, t)) ∨
      ∃ t' directory name, t.create path = (.ok (), t') ∧
        t.Adds path directory name ByteArray.empty t' := by
  have hfollow : t.spot true path = t.spot false path := by
    refine Scene.lead_follow (fun place target hspot hlink => ?_) true
    rw [h place hspot] at hlink
    cases hlink
  unfold create
  cases hresolve : t.resolve true path with
  | error e => exact .inl ⟨e, rfl⟩
  | ok found =>
    cases found with
    | found place node =>
      obtain ⟨hspot, hat⟩ := resolve_eq_found hresolve
      have hdir := h place (hfollow ▸ hspot)
      rw [sight_of_at? hat] at hdir
      cases node with
      | directory entries => exact .inl ⟨.isADirectory, rfl⟩
      | file bytes => cases hdir
      | link target => cases hdir
    | missing directory name =>
      have hspot := resolve_eq_missing hresolve
      obtain ⟨hdir, hnone⟩ := scene_of_vacant hspot
      have hold : t.scene (directory ++ [name]) ≠ some .directory := by simp [hnone]
      exact .inr ⟨_, directory, name, rfl, rfl, hfollow ▸ hspot,
        scene_put_file ByteArray.empty hdir hold⟩

theorem remove_of_free (h : t.IsFree path) : ∃ e, t.remove path = (.error e, t) := by
  unfold remove
  cases hnode : t.node false path with
  | error e => exact ⟨e, rfl⟩
  | ok found =>
    obtain ⟨place, node⟩ := found
    obtain ⟨hspot, hat⟩ := node_eq_ok_iff.1 hnode
    have hdir := h place hspot
    rw [sight_of_at? hat] at hdir
    cases node with
    | directory entries => exact ⟨.isADirectory, rfl⟩
    | file bytes => cases hdir
    | link target => cases hdir

namespace Adds

private theorem isDirectory (h : t.Adds path directory name bytes t') :
    t.scene directory = some .directory := (scene_of_vacant h.vacant).1

private theorem isMissing (h : t.Adds path directory name bytes t') :
    t.scene (directory ++ [name]) = none := (scene_of_vacant h.vacant).2

private theorem isFile (h : t.Adds path directory name bytes t') :
    t'.scene (directory ++ [name]) = some (.file bytes) := by
  rw [h.scene, Scene.set_same]

private theorem scene_of_ne (h : t.Adds path directory name bytes t') {place : Place}
    (hne : place ≠ directory ++ [name]) : t'.scene place = t.scene place := by
  rw [h.scene, Scene.set_of_ne _ _ hne]

private theorem keepsDirectory (h : t.Adds path directory name bytes t') :
    t'.scene directory = some .directory := by
  rw [h.scene_of_ne (by simp), h.isDirectory]

private theorem set_none (h : t.Adds path directory name bytes t') :
    t.scene.set (directory ++ [name]) none = t.scene := by
  rw [← h.isMissing, Scene.set_self]

private theorem scene_without (h : t.Adds path directory name bytes t') :
    (t'.alter (directory ++ [name]) fun _ => none).scene = t.scene := by
  rw [scene_take h.keepsDirectory (by simp [h.isFile]), h.scene, Scene.set_set, h.set_none]

private theorem node (h : t.Adds path directory name bytes t') (follow : Bool) :
    t'.node follow path = .ok (directory ++ [name], .file bytes) := by
  have hold : t.scene (directory ++ [name]) ≠ some .directory := by simp [h.isMissing]
  have hlead := Scene.lead_file bytes hold (scene_below hold) (by simp) h.vacant rfl follow
  rw [← h.scene, ← h.working] at hlead
  refine node_eq_ok_iff.2 ⟨hlead.resolve_right ?_, exists_file_of_sight h.isFile⟩
  rintro ⟨⟨target, hlink⟩, -⟩
  rw [h.isMissing] at hlink
  cases hlink

theorem write (h : t.Adds path directory name bytes t') (next : ByteArray) :
    ∃ t'', t'.write path next = (.ok (), t'') ∧ t.Adds path directory name next t'' := by
  refine ⟨t'.put (directory ++ [name]) (.file next), ?_, h.working, h.vacant, ?_⟩
  · rw [FileTree.write, h.node true]
  · rw [scene_put_file next h.keepsDirectory (by simp [h.isFile]), h.scene, Scene.set_set]

theorem remove (h : t.Adds path directory name bytes t') :
    ∃ t'', t'.remove path = (.ok (), t'') ∧ t.Alike t'' := by
  refine ⟨t'.alter (directory ++ [name]) fun _ => none, ?_, h.working, h.scene_without⟩
  rw [FileTree.remove, h.node false]

private theorem spot_of_spot (h : t.Adds path directory name bytes t') {spot : Spot}
    (hspot : t'.spot false target = .ok spot) :
    ∃ before, t.spot false target = .ok before ∧ before.place = spot.place := by
  have hold : t.scene (directory ++ [name]) ≠ some .directory := by simp [h.isMissing]
  rw [spot_eq_lead, h.working, h.scene] at hspot
  cases Scene.meets_lead (scene_below hold) (by simp) t.working false target with
  | avoids found apart same =>
    have hbefore := same none nofun
    have hafter := same (some (.file bytes)) nofun
    rw [h.set_none] at hbefore
    exact ⟨spot, hbefore.trans (hafter.symm.trans hspot), rfl⟩
  | ends other missing at_end empty file =>
    rw [file bytes] at hspot
    rw [h.set_none] at empty
    cases hspot
    exact ⟨_, empty, at_end⟩
  | passes empty file =>
    rw [file bytes] at hspot
    cases hspot

private theorem scene_move (h : t.Adds path directory name bytes t') {other : Place}
    {missing : String} (hdir : t'.scene other = some .directory)
    (hold : t'.scene (other ++ [missing]) ≠ some .directory) :
    (t'.move (directory ++ [name]) (other ++ [missing]) (.file bytes)).scene =
      t.scene.set (other ++ [missing]) (some (.file bytes)) := by
  unfold move
  by_cases hsame : directory ++ [name] = other ++ [missing]
  · rw [if_pos (by simpa using hsame), ← hsame]
    exact h.scene
  · rw [if_neg (by simpa using hsame)]
    have hother : other ≠ directory ++ [name] := by
      rintro rfl
      rw [h.isFile] at hdir
      cases hdir
    rw [h.scene_of_ne hother, ← h.scene_without] at hdir
    rw [h.scene_of_ne (Ne.symm hsame), ← h.scene_without] at hold
    rw [scene_put_file bytes hdir hold, h.scene_without]

private theorem puts_move (h : t.Adds path directory name bytes t') {spot : Spot} {other : Place}
    {missing : String} (hspot : t'.spot false target = .ok spot)
    (hplace : spot.place = other ++ [missing]) (hdir : t'.scene other = some .directory)
    (hold : t'.scene (other ++ [missing]) ≠ some .directory) :
    t.Puts target bytes (t'.move (directory ++ [name]) (other ++ [missing]) (.file bytes)) := by
  obtain ⟨before, hbefore, hsame⟩ := h.spot_of_spot hspot
  have hscene := h.scene_move hdir hold
  have hworking : (t'.move (directory ++ [name]) (other ++ [missing]) (.file bytes)).working =
      t.working := by
    rw [← h.working]
    unfold move
    split <;> rfl
  have hold' : t.scene (other ++ [missing]) ≠ some .directory := by
    by_cases hne : other ++ [missing] = directory ++ [name]
    · rw [hne, h.isMissing]
      exact nofun
    · rwa [← h.scene_of_ne hne]
  rw [hplace] at hsame
  have hlead := Scene.lead_file bytes hold' (scene_below hold') (by simp) hbefore hsame true
  rw [← hscene, ← hworking] at hlead
  refine ⟨hworking, before, hbefore, hsame ▸ hold', hsame ▸ hscene, ?_⟩
  rw [hsame]
  refine hlead.imp (fun hfound => ?_) fun ⟨hlink, hbroken⟩ => ⟨hlink, read_of_error hbroken⟩
  refine read_eq_ok_iff.2 ⟨other ++ [missing], hfound, ?_⟩
  rw [hscene, Scene.set_same]

/-- To move the added file puts it where the other path leads, or fails and changes nothing. -/
theorem rename (h : t.Adds path directory name bytes t') (target : Path) :
    (∃ e, t'.rename path target = (.error e, t')) ∨
      ∃ t'', t'.rename path target = (.ok (), t'') ∧ t.Puts target bytes t'' := by
  unfold FileTree.rename
  rw [h.node false]
  simp only
  cases hresolve : t'.resolve false target with
  | error e => exact .inl ⟨e, rfl⟩
  | ok found =>
    cases found with
    | missing other missing =>
      have hspot := resolve_eq_missing hresolve
      obtain ⟨hdir, hnone⟩ := scene_of_vacant hspot
      exact .inr ⟨_, rfl, h.puts_move hspot rfl hdir (by simp [hnone])⟩
    | found place node =>
      obtain ⟨hspot, hat⟩ := resolve_eq_found hresolve
      have hseen := sight_of_at? hat
      by_cases hnode : node.sight = .directory
      · cases node with
        | directory entries => exact .inl ⟨.isADirectory, rfl⟩
        | file old => cases hnode
        | link linked => cases hnode
      · have hold : t'.scene place ≠ some .directory := by
          rw [hseen]
          exact fun h => hnode (Option.some.inj h)
        have hplace : place ≠ [] := by
          rintro rfl
          exact hold (scene_root h.keepsDirectory)
        obtain ⟨other, missing, rfl⟩ := (List.eq_nil_or_concat place).resolve_left hplace
        rw [List.concat_eq_append] at hspot hseen hold ⊢
        have hdir := FileNode.scene_isDirectory hseen
        have hputs := h.puts_move hspot rfl hdir hold
        cases node with
        | directory entries => exact absurd rfl hnode
        | file old => exact .inr ⟨_, rfl, hputs⟩
        | link linked => exact .inr ⟨_, rfl, hputs⟩

end Adds

end StepScript.FileTree
