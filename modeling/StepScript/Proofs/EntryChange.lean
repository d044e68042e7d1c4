import StepScript.Proofs.EntryPath

/-!
What the operations of a file tree do to the entries of a directory. A directory that a path opens
is found again after every change of its files, so an operation on one file is seen at that file and
nowhere else: reading the file gives what was put there, and reading another gives what it gave.
-/

set_option autoImplicit false
set_option relaxedAutoImplicit false

namespace StepScript

open FileTree

namespace Scene

/-- A path leads to a directory. -/
def Opens (s : Scene) (working : Place) (dir : Path) (directory : Place) : Prop :=
  ∃ start, s.origin? working dir = some start ∧ s.Leads linkLimit start dir.names directory

variable {s s' : Scene} {working directory : Place} {dir : Path}

theorem origin?_entry (s : Scene) (working : Place) (dir : Path) {name : String}
    (hname : IsFileName name) : s.origin? working (dir.entry name) = s.origin? working dir := by
  unfold origin?
  rw [Path.isAbsolute_entry dir hname.noSlash]

theorem origin?_of_isSome {start : Place} (h : s.origin? working dir = some start)
    (hstays : (s start).isSome → (s' start).isSome) : s'.origin? working dir = some start := by
  unfold origin? at h ⊢
  split at h
  · next habsolute => rw [if_pos habsolute, h]
  · next habsolute =>
    rw [if_neg habsolute]
    split at h
    · next hsome =>
      cases h
      rw [if_pos (hstays hsome)]
    · cases h

theorem Opens.isDirectory (h : s.Opens working dir directory) :
    s directory = some .directory := by
  obtain ⟨start, -, hleads⟩ := h
  exact hleads.isDirectory

theorem Opens.unique {other : Place} (h : s.Opens working dir directory)
    (hother : s.Opens working dir other) : directory = other := by
  obtain ⟨start, horigin, hleads⟩ := h
  obtain ⟨start', horigin', hleads'⟩ := hother
  rw [horigin] at horigin'
  cases horigin'
  exact hleads.unique hleads'

theorem Opens.of_keeps (hkeeps : Keeps s s') (h : s.Opens working dir directory) :
    s'.Opens working dir directory := by
  obtain ⟨start, horigin, hleads⟩ := h
  have hstart := hkeeps.directory start hleads.start_isDirectory
  refine ⟨start, origin?_of_isSome horigin fun _ => ?_, hleads.of_keeps hkeeps⟩
  rw [hstart]
  rfl

private theorem keeps_set {place : Place} {seen : Option Sight}
    (h : ∀ sight, s place = some sight → ∃ bytes, sight = .file bytes) :
    Keeps s (s.set place seen) := by
  have hne (other : Place) (sight : Sight) (hs : s other = some sight)
      (hsight : ∀ bytes, sight ≠ .file bytes) : s.set place seen other = some sight := by
    rw [s.set_of_ne seen, hs]
    rintro rfl
    obtain ⟨bytes, hbytes⟩ := h sight hs
    exact hsight bytes hbytes
  exact ⟨fun other hs => hne other _ hs nofun, fun other target hs => hne other _ hs nofun⟩

/-- More directories stand in a scene, and nothing else is new. -/
def Grows (s s' : Scene) : Prop :=
  ∀ place, s' place = s place ∨ s place = none ∧ s' place = some .directory

theorem Grows.refl (s : Scene) : Grows s s := fun _ => .inl rfl

theorem Grows.trans {s'' : Scene} (h : Grows s s') (h' : Grows s' s'') : Grows s s'' := by
  intro place
  rcases h' place with heq | ⟨hnone, hdir⟩
  · rw [heq]
    exact h place
  · rcases h place with heq | ⟨-, hdir'⟩
    · exact .inr ⟨heq ▸ hnone, hdir⟩
    · rw [hnone] at hdir'
      cases hdir'

theorem Grows.apply_of_some {place : Place} {sight : Sight} (h : Grows s s')
    (hs : s place = some sight) : s' place = some sight := by
  rcases h place with heq | ⟨hnone, -⟩
  · rw [heq, hs]
  · rw [hs] at hnone
    cases hnone

theorem Grows.keeps (h : Grows s s') : Keeps s s' :=
  ⟨fun _ hs => h.apply_of_some hs, fun _ _ hs => h.apply_of_some hs⟩

end Scene

namespace FileTree

variable {t t' : FileTree} {dir path : Path} {name : String} {directory : Place}

def Opens (t : FileTree) (dir : Path) (directory : Place) : Prop :=
  t.scene.Opens t.working dir directory

theorem node_eq_ok_iff {follow : Bool} {place : Place} {node : FileNode} :
    t.node follow path = .ok (place, node) ↔
      t.spot follow path = .ok (.standing place) ∧ t.root.at? place = some node := by
  obtain ⟨hspot, hfound⟩ := t.resolve_spec follow path
  unfold FileTree.node
  rw [← hspot]
  cases hresolve : t.resolve follow path with
  | error e => simp [Except.map]
  | ok target =>
    cases target with
    | missing other missing => simp [Except.map, Target.spot]
    | found other found =>
      have hat := hfound other found hresolve
      simp only [Except.map, Target.spot, Except.ok.injEq, Prod.mk.injEq, Spot.standing.injEq]
      constructor
      · rintro ⟨rfl, rfl⟩
        exact ⟨rfl, hat⟩
      · rintro ⟨rfl, hnode⟩
        rw [hat] at hnode
        exact ⟨rfl, Option.some.inj hnode⟩

theorem resolve_eq_found {follow : Bool} {place : Place} {node : FileNode}
    (h : t.resolve follow path = .ok (.found place node)) :
    t.spot follow path = .ok (.standing place) ∧ t.root.at? place = some node := by
  obtain ⟨hspot, hfound⟩ := t.resolve_spec follow path
  rw [h] at hspot
  exact ⟨hspot.symm, hfound place node h⟩

theorem resolve_eq_missing {follow : Bool} {place : Place} {missing : String}
    (h : t.resolve follow path = .ok (.missing place missing)) :
    t.spot follow path = .ok (.vacant place missing) := by
  have hspot := (t.resolve_spec follow path).1
  rw [h] at hspot
  exact hspot.symm

theorem scene_of_vacant {follow : Bool} {missing : String}
    (h : t.spot follow path = .ok (.vacant directory missing)) :
    t.scene directory = some .directory ∧ t.scene (directory ++ [missing]) = none := by
  unfold spot at h
  split at h
  · cases h
  · split at h
    · exact Scene.settle_vacant h
    · cases h

def LinkFree (t : FileTree) (dir : Path) (name : String) : Prop :=
  ∀ directory, t.Opens dir directory →
    ∀ target, t.scene (directory ++ [name]) ≠ some (.link target)

def Admits (dir : Path) (name : String) : Prop :=
  refusal? (dir.entry name).text = none ∧ name.utf8ByteSize ≤ nameLimit

theorem spot_entry {follow : Bool} (hname : IsFileName name) (hadmits : Admits dir name)
    (hopens : t.Opens dir directory)
    (hfree : ∀ target, t.scene (directory ++ [name]) ≠ some (.link target)) :
    t.spot follow (dir.entry name) =
      if (t.scene (directory ++ [name])).isSome then .ok (.standing (directory ++ [name]))
      else .ok (.vacant directory name) := by
  obtain ⟨start, horigin, hleads⟩ := hopens
  have hsettle := hleads.settle_append follow hname.toIsEntryName hfree
  unfold spot
  rw [hadmits.1, Scene.origin?_entry _ _ dir hname, horigin, Path.piecesOf_entry dir hname]
  simp only [hsettle, Scene.spotIn, Nat.not_lt.2 hadmits.2, if_false]

private theorem opens_of_spot {follow : Bool} {spot : Spot} (hname : IsFileName name)
    (hfree : t.LinkFree dir name) (h : t.spot follow (dir.entry name) = .ok spot) :
    Admits dir name ∧ ∃ directory, t.Opens dir directory := by
  unfold FileTree.spot at h
  cases hrefusal : refusal? (dir.entry name).text with
  | some e => simp [hrefusal] at h
  | none =>
    cases horigin : t.scene.origin? t.working (dir.entry name) with
    | none => simp [hrefusal, horigin] at h
    | some start =>
      rw [hrefusal, horigin, Path.piecesOf_entry dir hname] at h
      obtain ⟨directory, hleads⟩ := Scene.leads_of_settle_append h
      have hopens : t.Opens dir directory :=
        ⟨start, (Scene.origin?_entry _ _ dir hname).symm.trans horigin, hleads⟩
      have hsettle := hleads.settle_append follow hname.toIsEntryName (hfree directory hopens)
      refine ⟨⟨hrefusal, Nat.not_lt.1 fun hlong => ?_⟩, directory, hopens⟩
      simp only [hsettle, Scene.spotIn, if_pos hlong] at h
      cases h

def Has (t : FileTree) (dir : Path) (name : String) (bytes : ByteArray) : Prop :=
  Admits dir name ∧
    ∃ directory, t.Opens dir directory ∧ t.scene (directory ++ [name]) = some (.file bytes)

theorem exists_file_of_sight {place : Place} {bytes : ByteArray}
    (h : t.scene place = some (.file bytes)) : t.root.at? place = some (.file bytes) := by
  obtain ⟨node, hat, hsight⟩ := Option.map_eq_some_iff.1 h
  cases node with
  | file found =>
    cases hsight
    exact hat
  | link target => cases hsight
  | directory entries => cases hsight

theorem sight_of_at? {place : Place} {node : FileNode} (h : t.root.at? place = some node) :
    t.scene place = some node.sight := by
  rw [scene, FileNode.scene, h, Option.map_some]

theorem sight_of_file {place : Place} {bytes : ByteArray}
    (h : t.root.at? place = some (.file bytes)) : t.scene place = some (.file bytes) :=
  sight_of_at? h

theorem read_eq_ok_iff {path : Path} {bytes : ByteArray} : t.read path = .ok bytes ↔
    ∃ place, t.spot true path = .ok (.standing place) ∧ t.scene place = some (.file bytes) := by
  unfold read
  constructor
  · intro h
    cases hnode : t.node true path with
    | error e => simp [hnode] at h
    | ok found =>
      obtain ⟨place, node⟩ := found
      obtain ⟨hspot, hat⟩ := node_eq_ok_iff.1 hnode
      rw [hnode] at h
      cases node with
      | link target => simp at h
      | directory entries => simp at h
      | file found =>
        cases h
        exact ⟨place, hspot, sight_of_file hat⟩
  · rintro ⟨place, hspot, hseen⟩
    rw [node_eq_ok_iff.2 ⟨hspot, exists_file_of_sight hseen⟩]

private theorem spot_cases {follow : Bool} {spot : Spot} (hname : IsFileName name)
    (hfree : t.LinkFree dir name) (h : t.spot follow (dir.entry name) = .ok spot) :
    Admits dir name ∧ ∃ directory, t.Opens dir directory ∧
      (spot = .standing (directory ++ [name]) ∨
        spot = .vacant directory name ∧ t.scene (directory ++ [name]) = none) := by
  obtain ⟨hadmits, directory, hopens⟩ := opens_of_spot hname hfree h
  refine ⟨hadmits, directory, hopens, ?_⟩
  rw [spot_entry hname hadmits hopens (hfree directory hopens)] at h
  split at h
  · cases h
    exact .inl rfl
  · next hnone =>
    cases h
    exact .inr ⟨rfl, Option.not_isSome_iff_eq_none.1 hnone⟩

theorem read_entry_iff {bytes : ByteArray} (hname : IsFileName name)
    (hfree : t.LinkFree dir name) : t.read (dir.entry name) = .ok bytes ↔ t.Has dir name bytes := by
  rw [read_eq_ok_iff]
  constructor
  · rintro ⟨place, hspot, hseen⟩
    obtain ⟨hadmits, directory, hopens, hstanding | ⟨hvacant, -⟩⟩ := spot_cases hname hfree hspot
    · cases hstanding
      exact ⟨hadmits, directory, hopens, hseen⟩
    · cases hvacant
  · rintro ⟨hadmits, directory, hopens, hseen⟩
    refine ⟨directory ++ [name], ?_, hseen⟩
    rw [spot_entry hname hadmits hopens (hfree directory hopens), hseen]
    rfl

/-- A tree after a file of a directory was put in place, or taken away where there are no bytes. -/
structure Alters (t : FileTree) (dir : Path) (name : String) (bytes? : Option ByteArray)
    (t' : FileTree) : Prop where
  working : t'.working = t.working
  tokens : t'.tokens = t.tokens
  admits : Admits dir name
  change : ∃ directory, t.Opens dir directory ∧
    (∀ sight, t.scene (directory ++ [name]) = some sight → ∃ bytes, sight = .file bytes) ∧
    t'.scene = t.scene.set (directory ++ [name]) (bytes?.map .file)

namespace Alters

variable {bytes? : Option ByteArray}

theorem keeps (h : t.Alters dir name bytes? t') : t.scene.Keeps t'.scene := by
  obtain ⟨directory, -, hfile, hscene⟩ := h.change
  rw [hscene]
  exact Scene.keeps_set hfile

theorem opens_iff (h : t.Alters dir name bytes? t') :
    t'.Opens dir directory ↔ t.Opens dir directory := by
  have hmono : ∀ {other}, t.Opens dir other → t'.Opens dir other := by
    intro other hopens
    unfold Opens
    rw [h.working]
    exact Scene.Opens.of_keeps h.keeps hopens
  constructor
  · intro hopens
    obtain ⟨other, hother, -⟩ := h.change
    have heq : directory = other := hopens.unique (hmono hother)
    rwa [heq]
  · exact hmono

theorem scene_eq (h : t.Alters dir name bytes? t') (hopens : t.Opens dir directory)
    (other : String) :
    t'.scene (directory ++ [other]) =
      if other = name then bytes?.map .file else t.scene (directory ++ [other]) := by
  obtain ⟨place, hplace, -, hscene⟩ := h.change
  have heq : directory = place := hopens.unique hplace
  subst heq
  rw [hscene]
  by_cases hother : other = name
  · rw [if_pos hother, hother, Scene.set_same]
  · rw [if_neg hother, Scene.set_of_ne]
    simpa using hother

theorem has_same {bytes : ByteArray} (h : t.Alters dir name (some bytes) t') :
    t'.Has dir name bytes := by
  obtain ⟨directory, hopens, -, -⟩ := h.change
  refine ⟨h.admits, directory, h.opens_iff.2 hopens, ?_⟩
  rw [h.scene_eq hopens, if_pos rfl]
  rfl

theorem has_iff_of_ne {other : String} {bytes : ByteArray} (h : t.Alters dir name bytes? t')
    (hne : other ≠ name) : t'.Has dir other bytes ↔ t.Has dir other bytes := by
  refine and_congr_right fun _ => exists_congr fun directory => ?_
  rw [h.opens_iff]
  refine and_congr_right fun hopens => ?_
  rw [h.scene_eq hopens, if_neg hne]

end Alters

/-! ## Operations on entries -/

private theorem isBare_of_file {place : Place}
    (h : ∀ sight, t.scene place = some sight → ∃ bytes, sight = .file bytes) :
    ∀ node, t.root.at? place = some node → node.IsBare := by
  intro node hat
  obtain ⟨bytes, hbytes⟩ := h _ (sight_of_at? hat)
  cases node with
  | file found => exact FileNode.isBare_file found
  | link target => cases hbytes
  | directory entries => cases hbytes

private theorem alters_alter {bytes? : Option ByteArray}
    {f : Option FileNode → Option FileNode} (hadmits : Admits dir name)
    (hopens : t.Opens dir directory)
    (hfile : ∀ sight, t.scene (directory ++ [name]) = some sight → ∃ bytes, sight = .file bytes)
    (hf : f (t.root.at? (directory ++ [name])) = bytes?.map .file) :
    t.Alters dir name bytes? (t.alter (directory ++ [name]) f) := by
  refine ⟨rfl, rfl, hadmits, directory, hopens, hfile, ?_⟩
  have hnew : ∀ node, f (t.root.at? (directory ++ [name])) = some node → node.IsBare := by
    intro node hnode
    rw [hf] at hnode
    obtain ⟨bytes, -, rfl⟩ := Option.map_eq_some_iff.1 hnode
    exact FileNode.isBare_file bytes
  have hscene := FileNode.scene_alter hopens.isDirectory (isBare_of_file hfile) hnew
  rw [hf, Option.map_map] at hscene
  exact hscene

private theorem file_of_at? {place : Place} {bytes : ByteArray}
    (h : t.root.at? place = some (.file bytes)) :
    ∀ sight, t.scene place = some sight → ∃ bytes, sight = .file bytes := by
  intro sight hseen
  rw [sight_of_file h] at hseen
  cases hseen
  exact ⟨bytes, rfl⟩

private theorem file_of_none {place : Place} (h : t.scene place = none) :
    ∀ sight, t.scene place = some sight → ∃ bytes, sight = .file bytes := by
  intro sight hseen
  rw [h] at hseen
  cases hseen

private theorem standing_entry {follow : Bool} {place : Place} {node : FileNode}
    (hname : IsFileName name) (hfree : t.LinkFree dir name)
    (hspot : t.spot follow (dir.entry name) = .ok (.standing place))
    (hat : t.root.at? place = some node) :
    Admits dir name ∧ ∃ directory, t.Opens dir directory ∧ place = directory ++ [name] ∧
      ((∃ entries, node = .directory entries) ∨ ∃ bytes, node = .file bytes) := by
  obtain ⟨hadmits, directory, hopens, hcases⟩ := spot_cases hname hfree hspot
  rcases hcases with hstanding | ⟨hvacant, -⟩
  · cases hstanding
    refine ⟨hadmits, directory, hopens, rfl, ?_⟩
    cases node with
    | link target => exact absurd (sight_of_at? hat) (hfree directory hopens target)
    | directory entries => exact .inl ⟨entries, rfl⟩
    | file bytes => exact .inr ⟨bytes, rfl⟩
  · cases hvacant

private theorem node_entry (follow : Bool) (hname : IsFileName name) (hfree : t.LinkFree dir name) :
    (∃ e, t.node follow (dir.entry name) = .error e) ∨
      (∃ place entries, t.node follow (dir.entry name) = .ok (place, .directory entries)) ∨
      ∃ directory bytes, t.node follow (dir.entry name) = .ok (directory ++ [name], .file bytes) ∧
        Admits dir name ∧ t.Opens dir directory ∧
        t.root.at? (directory ++ [name]) = some (.file bytes) := by
  cases hnode : t.node follow (dir.entry name) with
  | error e => exact .inl ⟨e, rfl⟩
  | ok found =>
    right
    obtain ⟨place, node⟩ := found
    obtain ⟨hspot, hat⟩ := node_eq_ok_iff.1 hnode
    obtain ⟨hadmits, directory, hopens, rfl, ⟨entries, rfl⟩ | ⟨bytes, rfl⟩⟩ :=
      standing_entry hname hfree hspot hat
    · exact .inl ⟨_, entries, rfl⟩
    · exact .inr ⟨directory, bytes, rfl, hadmits, hopens, hat⟩

private theorem vacant_entry {follow : Bool} {place : Place} {missing : String}
    (hname : IsFileName name) (hfree : t.LinkFree dir name)
    (hspot : t.spot follow (dir.entry name) = .ok (.vacant place missing)) :
    Admits dir name ∧ t.Opens dir place ∧ missing = name ∧ t.scene (place ++ [name]) = none := by
  obtain ⟨hadmits, directory, hopens, hcases⟩ := spot_cases hname hfree hspot
  rcases hcases with hstanding | ⟨hvacant, hnone⟩
  · cases hstanding
  · cases hvacant
    exact ⟨hadmits, hopens, rfl, hnone⟩

/-- To create a file leaves an empty one, or fails and changes nothing. -/
theorem create_entry (hname : IsFileName name) (hfree : t.LinkFree dir name) :
    (∃ e, t.create (dir.entry name) = (.error e, t)) ∨
      ∃ t', t.create (dir.entry name) = (.ok (), t') ∧
        t.Alters dir name (some ByteArray.empty) t' := by
  unfold create
  cases hresolve : t.resolve true (dir.entry name) with
  | error e => exact .inl ⟨e, rfl⟩
  | ok target =>
    cases target with
    | missing place missing =>
      right
      obtain ⟨hadmits, hopens, rfl, hnone⟩ :=
        vacant_entry hname hfree (resolve_eq_missing hresolve)
      exact ⟨_, rfl, alters_alter hadmits hopens (file_of_none hnone) rfl⟩
    | found place node =>
      obtain ⟨hspot, hat⟩ := resolve_eq_found hresolve
      obtain ⟨hadmits, directory, hopens, rfl, ⟨entries, rfl⟩ | ⟨bytes, rfl⟩⟩ :=
        standing_entry hname hfree hspot hat
      · exact .inl ⟨.isADirectory, rfl⟩
      · exact .inr ⟨_, rfl, alters_alter hadmits hopens (file_of_at? hat) rfl⟩

theorem write_entry (hname : IsFileName name) (hfree : t.LinkFree dir name)
    (bytes : ByteArray) :
    (∃ e, t.write (dir.entry name) bytes = (.error e, t)) ∨
      ∃ t', t.write (dir.entry name) bytes = (.ok (), t') ∧ t.Alters dir name (some bytes) t' := by
  unfold write
  rcases node_entry true hname hfree with ⟨e, hnode⟩ | ⟨place, entries, hnode⟩ |
    ⟨directory, old, hnode, hadmits, hopens, hat⟩
  · rw [hnode]
    exact .inl ⟨e, rfl⟩
  · rw [hnode]
    exact .inl ⟨.isADirectory, rfl⟩
  · rw [hnode]
    exact .inr ⟨_, rfl, alters_alter hadmits hopens (file_of_at? hat) rfl⟩

theorem remove_entry (hname : IsFileName name) (hfree : t.LinkFree dir name) :
    (∃ e, t.remove (dir.entry name) = (.error e, t)) ∨
      ∃ t', t.remove (dir.entry name) = (.ok (), t') ∧ t.Alters dir name none t' := by
  unfold remove
  rcases node_entry false hname hfree with ⟨e, hnode⟩ | ⟨place, entries, hnode⟩ |
    ⟨directory, old, hnode, hadmits, hopens, hat⟩
  · rw [hnode]
    exact .inl ⟨e, rfl⟩
  · rw [hnode]
    exact .inl ⟨.isADirectory, rfl⟩
  · rw [hnode]
    exact .inr ⟨_, rfl, alters_alter hadmits hopens (file_of_at? hat) rfl⟩

private theorem alters_move {target : String} {bytes : ByteArray} (hne : target ≠ name)
    (hopens : t.Opens dir directory) (hadmits : Admits dir name)
    (hadmits' : Admits dir target) (hat : t.root.at? (directory ++ [name]) = some (.file bytes))
    (htarget : ∀ sight, t.scene (directory ++ [target]) = some sight →
      ∃ bytes, sight = .file bytes) :
    ∃ between, t.Alters dir name none between ∧ between.Alters dir target (some bytes)
      (t.move (directory ++ [name]) (directory ++ [target]) (.file bytes)) := by
  have htaken : t.Alters dir name none (t.alter (directory ++ [name]) fun _ => none) :=
    alters_alter hadmits hopens (file_of_at? hat) rfl
  have hplaces : (directory ++ [name] == directory ++ [target]) = false := by
    simpa using hne.symm
  refine ⟨_, htaken, ?_⟩
  rw [move, hplaces]
  refine alters_alter hadmits' (htaken.opens_iff.2 hopens) ?_ rfl
  intro sight hseen
  rw [htaken.scene_eq hopens, if_neg hne] at hseen
  exact htarget sight hseen

/-- To rename a file moves its bytes to another name, or fails and changes nothing. -/
theorem rename_entry {target : String} (hname : IsFileName name) (hfree : t.LinkFree dir name)
    (htarget : IsFileName target) (hfree' : t.LinkFree dir target) (hne : target ≠ name) :
    (∃ e, t.rename (dir.entry name) (dir.entry target) = (.error e, t)) ∨
      ∃ bytes between t', t.rename (dir.entry name) (dir.entry target) = (.ok (), t') ∧
        t.Has dir name bytes ∧ t.Alters dir name none between ∧
        between.Alters dir target (some bytes) t' := by
  unfold rename
  rcases node_entry false hname hfree with ⟨e, hnode⟩ | ⟨place, entries, hnode⟩ |
    ⟨directory, bytes, hnode, hadmits, hopens, hat⟩
  · rw [hnode]
    exact .inl ⟨e, rfl⟩
  · rw [hnode]
    exact .inl ⟨.isADirectory, rfl⟩
  have hhas : t.Has dir name bytes := ⟨hadmits, directory, hopens, sight_of_file hat⟩
  rw [hnode]
  simp only
  cases hresolve : t.resolve false (dir.entry target) with
  | error e => exact .inl ⟨e, rfl⟩
  | ok reached =>
    cases reached with
    | missing other missing =>
      obtain ⟨hadmits', hopens', rfl, hnone⟩ :=
        vacant_entry htarget hfree' (resolve_eq_missing hresolve)
      obtain rfl := hopens.unique hopens'
      obtain ⟨between, hfirst, hsecond⟩ :=
        alters_move hne hopens hadmits hadmits' hat (file_of_none hnone)
      exact .inr ⟨bytes, between, _, rfl, hhas, hfirst, hsecond⟩
    | found other node =>
      obtain ⟨hspot', hat'⟩ := resolve_eq_found hresolve
      obtain ⟨hadmits', directory', hopens', rfl, ⟨entries, rfl⟩ | ⟨old, rfl⟩⟩ :=
        standing_entry htarget hfree' hspot' hat'
      · exact .inl ⟨.isADirectory, rfl⟩
      · obtain rfl := hopens.unique hopens'
        obtain ⟨between, hfirst, hsecond⟩ :=
          alters_move hne hopens hadmits hadmits' hat (file_of_at? hat')
        exact .inr ⟨bytes, between, _, rfl, hhas, hfirst, hsecond⟩

structure Grows (t t' : FileTree) : Prop where
  working : t'.working = t.working
  tokens : t'.tokens = t.tokens
  scene : t.scene.Grows t'.scene

theorem Grows.refl (t : FileTree) : t.Grows t := ⟨rfl, rfl, Scene.Grows.refl _⟩

theorem Grows.trans {t'' : FileTree} (h : t.Grows t') (h' : t'.Grows t'') : t.Grows t'' :=
  ⟨h'.working.trans h.working, h'.tokens.trans h.tokens, h.scene.trans h'.scene⟩

theorem Grows.opens (h : t.Grows t') (hopens : t.Opens dir directory) :
    t'.Opens dir directory := by
  unfold Opens
  rw [h.working]
  exact Scene.Opens.of_keeps h.scene.keeps hopens

theorem Grows.has {bytes : ByteArray} (h : t.Grows t') (hhas : t.Has dir name bytes) :
    t'.Has dir name bytes := by
  obtain ⟨hadmits, directory, hopens, hseen⟩ := hhas
  exact ⟨hadmits, directory, h.opens hopens, h.scene.apply_of_some hseen⟩

theorem scene_put_directory (hdir : t.scene directory = some .directory)
    (hnone : t.scene (directory ++ [name]) = none) :
    (t.put (directory ++ [name]) (.directory [])).scene =
      t.scene.set (directory ++ [name]) (some .directory) := by
  have hat : t.root.at? (directory ++ [name]) = none := Option.map_eq_none_iff.1 hnone
  refine FileNode.scene_alter hdir ?_ ?_
  · intro node hnode
    rw [hat] at hnode
    cases hnode
  · rintro node ⟨⟩
    exact FileNode.isBare_empty

theorem grows_makeDirectory (t : FileTree) (path : Path) : t.Grows (t.makeDirectory path).2 := by
  unfold makeDirectory
  cases hresolve : t.resolve false path.withoutSlash with
  | error e => exact .refl t
  | ok target =>
    cases target with
    | found place node => exact .refl t
    | missing directory name =>
      refine ⟨rfl, rfl, ?_⟩
      have hvacant := scene_of_vacant (resolve_eq_missing hresolve)
      intro place
      rw [scene_put_directory hvacant.1 hvacant.2]
      by_cases hplace : place = directory ++ [name]
      · subst hplace
        exact .inr ⟨hvacant.2, Scene.set_same _ _ _⟩
      · exact .inl (Scene.set_of_ne _ _ hplace)

end FileTree
end StepScript
