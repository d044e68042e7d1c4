import StepScript.Proofs.FileScene

/-!
Resolving paths on a scene. `Scene.settle` follows names and links over what is seen, and
`FileTree.spot` is where a path leads in this sense; resolving it on the tree leads to the same
spot (`resolve_eq`). Names that lead to a directory still do so when more stands in the scene, as
long as its directories and links are kept.
-/

set_option autoImplicit false
set_option relaxedAutoImplicit false

namespace StepScript

open FileTree

/-- Where names lead: to a place where something stands, or to a missing name of a directory. -/
inductive Spot
  | standing (place : Place)
  | vacant (directory : Place) (name : String)
  deriving DecidableEq

/-- How far names lead before a link is to be followed. -/
inductive Halt
  | ended (spot : Spot)
  | failed (e : FileError)
  /-- A link is to be followed, seen from a directory, with names left behind it. -/
  | link (directory : Place) (target : String) (left : List String)

namespace Scene

/-- Follows names from a place up to the first link. -/
def roam (s : Scene) (follow : Bool) : Place → List String → Halt
  | place, [] => .ended (.standing place)
  | place, name :: rest =>
    match s place with
    | some .directory =>
      if name == "." then roam s follow place rest
      else if name == ".." then roam s follow place.dropLast rest
      else if name.utf8ByteSize > nameLimit then .failed .nameTooLong
      else
        match s (place ++ [name]) with
        | none => if rest.isEmpty then .ended (.vacant place name) else .failed .notFound
        | some (.link target) =>
          if rest.isEmpty && !follow then .ended (.standing (place ++ [name]))
          else .link place target rest
        | some _ => roam s follow (place ++ [name]) rest
    | _ => .failed .notADirectory

def enter (s : Scene) (follow : Bool) (directory : Place) (name : String)
    (rest : List String) : Halt :=
  match s (directory ++ [name]) with
  | none => if rest.isEmpty then .ended (.vacant directory name) else .failed .notFound
  | some (.link target) =>
    if rest.isEmpty && !follow then .ended (.standing (directory ++ [name]))
    else .link directory target rest
  | some _ => s.roam follow (directory ++ [name]) rest

theorem roam_of_directory {s : Scene} {follow : Bool} {place : Place} {name : String}
    {rest : List String} (h : s place = some .directory) :
    s.roam follow place (name :: rest) =
      if name = "." then s.roam follow place rest
      else if name = ".." then s.roam follow place.dropLast rest
      else if name.utf8ByteSize > nameLimit then .failed .nameTooLong
      else s.enter follow place name rest := by
  simp only [roam, h, beq_iff_eq]
  rfl

theorem roam_of_not_directory {s : Scene} {follow : Bool} {place : Place} {name : String}
    {rest : List String} (h : s place ≠ some .directory) :
    s.roam follow place (name :: rest) = .failed .notADirectory := by
  rw [roam]
  split
  · next hdir => exact absurd hdir h
  · rfl

/-- Follows names and links from a place. The number bounds the links. -/
def settle (s : Scene) (follow : Bool) : Nat → Place → List String → Except FileError Spot
  | links, place, names =>
    match s.roam follow place names with
    | .ended spot => .ok spot
    | .failed e => .error e
    | .link directory target left =>
      match links with
      | 0 => .error .tooManyLinks
      | links + 1 =>
        let start := if (Path.mk target).isAbsolute then [] else directory
        settle s follow links start (piecesOf target ++ left)

end Scene

namespace FileTree

private def Way.Sound (root : FileNode) : Way → Prop
  | [] => True
  | step :: way => (Way.node root way).child? step.1 = some step.2 ∧ Way.Sound root way

private theorem Way.place_cons (step : String × FileNode) (way : Way) :
    Way.place (step :: way) = Way.place way ++ [step.1] := by
  simp [Way.place]

theorem Way.node_cons (root : FileNode) (step : String × FileNode) (way : Way) :
    Way.node root (step :: way) = step.2 := rfl

private theorem Way.Sound.at?_place {root : FileNode} {way : Way} (h : way.Sound root) :
    root.at? way.place = some (way.node root) := by
  induction way with
  | nil => rfl
  | cons step way ih =>
    rw [Way.place_cons, FileNode.at?_append, ih h.2]
    simpa [FileNode.at?, Way.node_cons] using h.1

private theorem Way.Sound.tail {root : FileNode} {way : Way} (h : way.Sound root) :
    Way.Sound root way.tail := by
  cases way with
  | nil => trivial
  | cons step way => exact h.2

private theorem Way.place_tail (way : Way) : Way.place way.tail = (Way.place way).dropLast := by
  cases way with
  | nil => rfl
  | cons step way => simp [Way.place_cons]

private theorem Way.Sound.scene_place {root : FileNode} {way : Way} (h : way.Sound root) :
    root.scene way.place = some (way.node root).sight := by
  rw [FileNode.scene, h.at?_place, Option.map_some]

private theorem Way.Sound.scene_place_append {root : FileNode} {way : Way} (h : way.Sound root)
    (name : String) :
    root.scene (way.place ++ [name]) = ((way.node root).child? name).map FileNode.sight := by
  rw [FileNode.scene, FileNode.at?_append, h.at?_place]
  simp [FileNode.at?]

private def Walk.halt : Walk → Halt
  | .ended (.found place _) => .ended (.standing place)
  | .ended (.missing directory name) => .ended (.vacant directory name)
  | .failed e => .failed e
  | .link directory target left => .link directory.place target left

private def Walk.Sound (root : FileNode) : Walk → Prop
  | .ended (.found place node) => root.at? place = some node
  | .link directory _ _ => directory.Sound root
  | _ => True

private theorem walk_spec {root : FileNode} {way : Way} (h : way.Sound root) (follow : Bool)
    (names : List String) :
    (walk root follow way names).halt = root.scene.roam follow way.place names ∧
      (walk root follow way names).Sound root := by
  induction names generalizing way with
  | nil => exact ⟨rfl, h.at?_place⟩
  | cons name rest ih =>
    have hnext := h.scene_place_append name
    unfold walk Scene.roam
    rw [h.scene_place]
    cases hnode : way.node root with
    | file bytes => exact ⟨rfl, trivial⟩
    | link target => exact ⟨rfl, trivial⟩
    | directory entries =>
      rw [hnode] at hnext
      simp only [FileNode.sight, FileNode.child?] at hnext ⊢
      by_cases hdot : (name == ".") = true
      · simpa only [hdot, if_true] using ih h
      by_cases hup : (name == "..") = true
      · rw [← Way.place_tail]
        simpa only [hdot, hup, if_true, if_false, Bool.false_eq_true] using ih h.tail
      by_cases hlong : name.utf8ByteSize > nameLimit
      · simp only [hdot, hup, hlong, if_true, if_false, Bool.false_eq_true]
        exact ⟨rfl, trivial⟩
      simp only [hdot, hup, hlong, if_false, Bool.false_eq_true]
      rw [hnext]
      have hstep (node : FileNode) (hfound : entries.lookup name = some node) :
          Way.Sound root ((name, node) :: way) := ⟨by rw [hnode]; exact hfound, h⟩
      cases hfound : entries.lookup name with
      | none => cases rest <;> exact ⟨rfl, trivial⟩
      | some node =>
        have hsound := hstep node hfound
        have hgo := ih hsound
        rw [Way.place_cons] at hgo
        cases node with
        | file bytes => exact hgo
        | directory entries => exact hgo
        | link target =>
          cases hend : rest.isEmpty && !follow with
          | true =>
            simp only [Option.map_some, FileNode.sight, if_true]
            exact ⟨rfl, by simpa [Way.place_cons, Way.node_cons, Walk.Sound] using hsound.at?_place⟩
          | false =>
            simp only [Option.map_some, FileNode.sight, if_false, Bool.false_eq_true]
            exact ⟨rfl, h⟩

private theorem extend?_spec {root : FileNode} {way : Way} (h : way.Sound root) (place : Place) :
    match Way.extend? root way place with
    | some more => more.Sound root ∧ more.place = way.place ++ place
    | none => root.scene (way.place ++ place) = none := by
  induction place generalizing way with
  | nil => exact ⟨h, (List.append_nil _).symm⟩
  | cons name rest ih =>
    unfold Way.extend?
    cases hchild : (way.node root).child? name with
    | none =>
      change root.scene _ = none
      rw [FileNode.scene, FileNode.at?_append, h.at?_place]
      simp [FileNode.at?, hchild]
    | some node =>
      have hstep : Way.Sound root ((name, node) :: way) := ⟨hchild, h⟩
      have hmore := ih hstep
      rw [Way.place_cons, List.append_assoc] at hmore
      exact hmore

def Target.spot : Target → Spot
  | .found place _ => .standing place
  | .missing directory name => .vacant directory name

private theorem resolveFrom_spec {root : FileNode} {way : Way} (h : way.Sound root)
    (follow : Bool) (links : Nat) (names : List String) :
    (resolveFrom root follow links way names).map Target.spot =
        root.scene.settle follow links way.place names ∧
      ∀ place node, resolveFrom root follow links way names = .ok (.found place node) →
        root.at? place = some node := by
  fun_induction resolveFrom root follow links way names with
  | case1 links way names target hwalk =>
    obtain ⟨hhalt, hsound⟩ := walk_spec h follow names
    unfold Scene.settle
    rw [← hhalt, hwalk]
    rw [hwalk] at hsound
    cases target with
    | missing directory name => exact ⟨rfl, nofun⟩
    | found place node =>
      refine ⟨rfl, ?_⟩
      rintro _ _ ⟨⟩
      exact hsound
  | case2 links way names e hwalk =>
    unfold Scene.settle
    rw [← (walk_spec h follow names).1, hwalk]
    exact ⟨rfl, nofun⟩
  | case3 way names directory target left hwalk =>
    unfold Scene.settle
    rw [← (walk_spec h follow names).1, hwalk]
    exact ⟨rfl, nofun⟩
  | case4 way names directory target left hwalk links start ih =>
    obtain ⟨hhalt, hsound⟩ := walk_spec h follow names
    rw [hwalk] at hhalt hsound
    unfold Scene.settle
    rw [← hhalt]
    have hstart : Way.Sound root start ∧
        Way.place start = if (Path.mk target).isAbsolute then [] else directory.place := by
      unfold start
      split
      · exact ⟨trivial, rfl⟩
      · exact ⟨hsound, rfl⟩
    simp only [Walk.halt, ← hstart.2]
    exact ih hstart.1

end FileTree

def Scene.origin? (s : Scene) (working : Place) (path : Path) : Option Place :=
  if path.isAbsolute then some [] else if (s working).isSome then some working else none

namespace FileTree

def scene (t : FileTree) : Scene := t.root.scene

/-- Where a path leads, going by what is seen. -/
def spot (t : FileTree) (follow : Bool) (path : Path) : Except FileError Spot :=
  match refusal? path.text with
  | some e => .error e
  | none =>
    match t.scene.origin? t.working path with
    | some place => t.scene.settle follow linkLimit place (piecesOf path.text)
    | none => .error .notFound

private theorem start?_spec (t : FileTree) (path : Path) :
    match t.start? path with
    | some way => way.Sound t.root ∧ t.scene.origin? t.working path = some way.place
    | none => t.scene.origin? t.working path = none := by
  unfold start? Scene.origin?
  cases path.isAbsolute with
  | true => exact ⟨trivial, rfl⟩
  | false =>
    have hroot : Way.Sound t.root [] := trivial
    have hspec := extend?_spec hroot t.working
    simp only [if_false, Bool.false_eq_true]
    cases hway : Way.extend? t.root [] t.working with
    | none =>
      rw [hway] at hspec
      have hnone : t.scene t.working = none := hspec
      simp [hnone]
    | some way =>
      rw [hway] at hspec
      obtain ⟨hsound, hplace⟩ := hspec
      have hplace : way.place = t.working := hplace
      have hsome : t.scene t.working = some (way.node t.root).sight := by
        rw [← hplace]
        exact hsound.scene_place
      exact ⟨hsound, by simp [hsome, hplace]⟩

/-- Resolving a path leads to its spot, and to the node that stands there. -/
theorem resolve_spec (t : FileTree) (follow : Bool) (path : Path) :
    (t.resolve follow path).map Target.spot = t.spot follow path ∧
      ∀ place node, t.resolve follow path = .ok (.found place node) →
        t.root.at? place = some node := by
  unfold resolve spot
  cases refusal? path.text with
  | some e => exact ⟨rfl, nofun⟩
  | none =>
    have hstart := start?_spec t path
    cases hway : t.start? path with
    | none =>
      rw [hway] at hstart
      simp only at hstart ⊢
      rw [hstart]
      exact ⟨rfl, nofun⟩
    | some way =>
      rw [hway] at hstart
      simp only at hstart ⊢
      rw [hstart.2]
      exact resolveFrom_spec hstart.1 follow linkLimit _

end FileTree

/-! ## Names in a directory -/

structure IsEntryName (name : String) : Prop where
  ne_here : name ≠ "."
  ne_up : name ≠ ".."

def Halt.onward (s : Scene) (follow : Bool) (name : String) : Halt → Halt
  | .ended (.standing place) => s.roam follow place [name]
  | .ended (.vacant _ _) => .failed .notFound
  | .failed e => .failed e
  | .link directory target left => .link directory target (left ++ [name])

namespace Scene

theorem roam_append (s : Scene) (follow : Bool) (place : Place) (names : List String)
    (last : String) :
    s.roam follow place (names ++ [last]) = (s.roam true place names).onward s follow last := by
  induction names generalizing place with
  | nil => rfl
  | cons name rest ih =>
    rw [List.cons_append]
    by_cases hdir : s place = some .directory
    case neg =>
      rw [roam_of_not_directory hdir, roam_of_not_directory hdir]
      rfl
    rw [roam_of_directory hdir, roam_of_directory hdir]
    split
    · exact ih place
    split
    · exact ih place.dropLast
    split
    · rfl
    have hmore : (rest ++ [last]).isEmpty = false := by simp
    unfold enter
    cases s (place ++ [name]) with
    | none =>
      rw [hmore]
      cases rest <;> rfl
    | some next =>
      cases next with
      | file bytes => exact ih _
      | directory => exact ih _
      | link target =>
        rw [hmore, Bool.not_true, Bool.and_false]
        rfl

/-- Names lead to a directory. -/
inductive Leads (s : Scene) : Nat → Place → List String → Place → Prop
  | here {links : Nat} {place directory : Place} {names : List String} :
      s.roam true place names = .ended (.standing directory) → s directory = some .directory →
      Leads s links place names directory
  | link {links : Nat} {place directory seenFrom : Place} {names left : List String}
      {target : String} :
      s.roam true place names = .link seenFrom target left →
      Leads s links (if (Path.mk target).isAbsolute then [] else seenFrom)
        (piecesOf target ++ left) directory →
      Leads s (links + 1) place names directory

theorem Leads.isDirectory {s : Scene} {links : Nat} {place directory : Place}
    {names : List String} (h : s.Leads links place names directory) :
    s directory = some .directory := by
  induction h with
  | here _ hdir => exact hdir
  | link _ _ ih => exact ih

theorem Leads.unique {s : Scene} {links : Nat} {place a b : Place} {names : List String}
    (ha : s.Leads links place names a) (hb : s.Leads links place names b) : a = b := by
  induction ha with
  | here hroam _ =>
    cases hb with
    | here hroam' _ =>
      rw [hroam] at hroam'
      cases hroam'
      rfl
    | link hroam' _ =>
      rw [hroam] at hroam'
      cases hroam'
  | link hroam _ ih =>
    cases hb with
    | here hroam' _ =>
      rw [hroam] at hroam'
      cases hroam'
    | link hroam' hrest =>
      rw [hroam] at hroam'
      cases hroam'
      exact ih hrest

def spotIn (s : Scene) (directory : Place) (name : String) : Except FileError Spot :=
  if name.utf8ByteSize > nameLimit then .error .nameTooLong
  else if (s (directory ++ [name])).isSome then .ok (.standing (directory ++ [name]))
  else .ok (.vacant directory name)

private def haltIn (s : Scene) (directory : Place) (name : String) : Halt :=
  match s.spotIn directory name with
  | .ok spot => .ended spot
  | .error e => .failed e

private theorem roam_single {s : Scene} {directory : Place} {name : String} (follow : Bool)
    (hname : IsEntryName name) (hdir : s directory = some .directory)
    (hlink : ∀ target, s (directory ++ [name]) ≠ some (.link target)) :
    s.roam follow directory [name] = s.haltIn directory name := by
  simp only [roam, hdir, beq_iff_eq, hname.ne_here, hname.ne_up, if_false, haltIn, spotIn]
  by_cases hlong : name.utf8ByteSize > nameLimit
  · simp only [hlong, if_true]
  simp only [hlong, if_false]
  cases hseen : s (directory ++ [name]) with
  | none => rfl
  | some seen =>
    cases seen with
    | link target => exact absurd hseen (hlink target)
    | file bytes => rfl
    | directory => rfl

theorem Leads.settle_append {s : Scene} {links : Nat} {place directory : Place}
    {names : List String} {name : String} (h : s.Leads links place names directory)
    (follow : Bool) (hname : IsEntryName name)
    (hlink : ∀ target, s (directory ++ [name]) ≠ some (.link target)) :
    s.settle follow links place (names ++ [name]) = s.spotIn directory name := by
  induction h with
  | here hroam hdir =>
    rw [settle, roam_append, hroam]
    simp only [Halt.onward, roam_single follow hname hdir hlink, haltIn]
    cases s.spotIn _ name <;> rfl
  | link hroam _ ih =>
    rw [settle, roam_append, hroam]
    simpa only [Halt.onward, List.append_assoc] using ih hlink

private theorem directory_of_roam_cons {s : Scene} {follow : Bool} {place : Place}
    {name : String} {rest : List String} (h : ∀ e, s.roam follow place (name :: rest) ≠ .failed e) :
    s place = some .directory :=
  Classical.byContradiction fun hdir => h .notADirectory (roam_of_not_directory hdir)

private theorem leads_of_ended {s : Scene} {follow : Bool} {links : Nat} {place : Place}
    {names : List String} {name : String} {reached spot : Spot}
    (hroam : s.roam true place names = .ended reached)
    (h : s.settle follow links place (names ++ [name]) = .ok spot) :
    ∃ directory, s.Leads links place names directory := by
  rw [settle, roam_append, hroam] at h
  cases reached with
  | vacant directory missing => simp [Halt.onward] at h
  | standing directory =>
    have hgo (e : FileError) : s.roam follow directory [name] ≠ .failed e := by
      intro he
      rw [Halt.onward, he] at h
      cases h
    exact ⟨directory, .here hroam (directory_of_roam_cons hgo)⟩

theorem leads_of_settle_append {s : Scene} {follow : Bool} {links : Nat} {place : Place}
    {names : List String} {name : String} {spot : Spot}
    (h : s.settle follow links place (names ++ [name]) = .ok spot) :
    ∃ directory, s.Leads links place names directory := by
  induction links generalizing place names with
  | zero =>
    cases hroam : s.roam true place names with
    | ended reached => exact leads_of_ended hroam h
    | failed e => simp [settle, roam_append, hroam, Halt.onward] at h
    | link seenFrom target left => simp [settle, roam_append, hroam, Halt.onward] at h
  | succ links ih =>
    cases hroam : s.roam true place names with
    | ended reached => exact leads_of_ended hroam h
    | failed e => simp [settle, roam_append, hroam, Halt.onward] at h
    | link seenFrom target left =>
      rw [settle, roam_append, hroam] at h
      simp only [Halt.onward, ← List.append_assoc] at h
      obtain ⟨directory, hrest⟩ := ih h
      exact ⟨directory, .link hroam hrest⟩

/-- Directories and links of one scene are there in another. -/
structure Keeps (s s' : Scene) : Prop where
  directory : ∀ place, s place = some .directory → s' place = some .directory
  link : ∀ place target, s place = some (.link target) → s' place = some (.link target)

private theorem enter_keeps {s s' : Scene} (h : Keeps s s') {directory : Place} {name : String}
    {rest : List String} {halt : Halt} (henter : s.enter true directory name rest = halt)
    (hhalt : (∃ other, halt = .ended (.standing other) ∧
        ∀ bytes, s other = some (.file bytes) → ∃ bytes', s' other = some (.file bytes')) ∨
      ∃ seenFrom target left, halt = .link seenFrom target left)
    (hrest : s.roam true (directory ++ [name]) rest = halt →
      s'.roam true (directory ++ [name]) rest = halt) :
    s'.enter true directory name rest = halt := by
  unfold enter at henter ⊢
  cases hseen : s (directory ++ [name]) with
  | none =>
    rw [hseen] at henter
    subst henter
    cases rest <;> simp at hhalt
  | some seen =>
    rw [hseen] at henter
    cases seen with
    | link target =>
      rw [h.link _ _ hseen]
      exact henter
    | directory =>
      rw [h.directory _ hseen]
      exact hrest henter
    | file bytes =>
      -- A file is where the names end: behind it they would fail.
      cases rest with
      | nil =>
        subst henter
        rcases hhalt with ⟨_, ⟨⟩, hfile⟩ | ⟨_, _, _, ⟨⟩⟩
        obtain ⟨bytes', hseen'⟩ := hfile bytes hseen
        rw [hseen']
        rfl
      | cons next rest =>
        have hfailed : s.roam true (directory ++ [name]) (next :: rest) = .failed .notADirectory :=
          roam_of_not_directory (by simp [hseen])
        obtain rfl : Halt.failed .notADirectory = halt := hfailed.symm.trans henter
        simp at hhalt

private theorem roam_keeps {s s' : Scene} (h : Keeps s s') {place : Place}
    {names : List String} {halt : Halt} (hroam : s.roam true place names = halt)
    (hhalt : (∃ other, halt = .ended (.standing other) ∧
        ∀ bytes, s other = some (.file bytes) → ∃ bytes', s' other = some (.file bytes')) ∨
      ∃ seenFrom target left, halt = .link seenFrom target left) :
    s'.roam true place names = halt := by
  induction names generalizing place with
  | nil => exact hroam
  | cons name rest ih =>
    by_cases hdir : s place = some .directory
    case neg =>
      rw [roam_of_not_directory hdir] at hroam
      subst hroam
      simp at hhalt
    rw [roam_of_directory hdir] at hroam
    rw [roam_of_directory (h.directory place hdir)]
    by_cases hdot : name = "."
    · rw [if_pos hdot] at hroam ⊢
      exact ih hroam
    by_cases hup : name = ".."
    · rw [if_neg hdot, if_pos hup] at hroam ⊢
      exact ih hroam
    by_cases hlong : name.utf8ByteSize > nameLimit
    · rw [if_neg hdot, if_neg hup, if_pos hlong] at hroam ⊢
      exact hroam
    rw [if_neg hdot, if_neg hup, if_neg hlong] at hroam ⊢
    exact enter_keeps h hroam hhalt ih

theorem Leads.of_keeps {s s' : Scene} (hkeeps : Keeps s s') {links : Nat}
    {place directory : Place} {names : List String}
    (h : s.Leads links place names directory) : s'.Leads links place names directory := by
  induction h with
  | here hroam hdir =>
    refine .here (roam_keeps hkeeps hroam (.inl ⟨_, rfl, fun bytes hfile => ?_⟩))
      (hkeeps.directory _ hdir)
    rw [hdir] at hfile
    cases hfile
  | link hroam _ ih => exact .link (roam_keeps hkeeps hroam (.inr ⟨_, _, _, rfl⟩)) ih

/-- Names that lead to something still do so when directories and links are kept, if a file that
they lead to is still a file. -/
theorem settle_keeps {s s' : Scene} (hkeeps : Keeps s s') {links : Nat} {place other : Place}
    {names : List String} (h : s.settle true links place names = .ok (.standing other))
    (hfile : ∀ bytes, s other = some (.file bytes) → ∃ bytes', s' other = some (.file bytes')) :
    s'.settle true links place names = .ok (.standing other) := by
  fun_induction settle s true links place names with
  | case1 links place names spot hroam =>
    cases h
    rw [settle, roam_keeps hkeeps hroam (.inl ⟨_, rfl, hfile⟩)]
  | case2 => cases h
  | case3 => cases h
  | case4 place names seenFrom target left hroam links start ih =>
    rw [settle, roam_keeps hkeeps hroam (.inr ⟨_, _, _, rfl⟩)]
    exact ih h

private theorem roam_vacant {s : Scene} {follow : Bool} {place directory : Place}
    {names : List String} {name : String}
    (h : s.roam follow place names = .ended (.vacant directory name)) :
    s directory = some .directory ∧ s (directory ++ [name]) = none := by
  fun_induction roam s follow place names with
  | case1 => cases h
  | case2 place name rest hdir _ ih => exact ih h
  | case3 place name rest hdir _ _ ih => exact ih h
  | case4 => cases h
  | case5 place name rest hdir _ _ _ hnext _ =>
    cases h
    exact ⟨hdir, hnext⟩
  | case6 => cases h
  | case7 => cases h
  | case8 => cases h
  | case9 place name rest hdir _ _ _ seen hnext _ ih => exact ih h
  | case10 => cases h

theorem settle_vacant {s : Scene} {follow : Bool} {links : Nat} {place directory : Place}
    {names : List String} {name : String}
    (h : s.settle follow links place names = .ok (.vacant directory name)) :
    s directory = some .directory ∧ s (directory ++ [name]) = none := by
  fun_induction settle s follow links place names with
  | case1 links place names spot hroam =>
    cases h
    exact roam_vacant hroam
  | case2 => cases h
  | case3 => cases h
  | case4 place names seenFrom target left hroam links start ih => exact ih h

theorem Leads.start_isDirectory {s : Scene} {links : Nat} {place directory : Place}
    {names : List String} (h : s.Leads links place names directory) :
    s place = some .directory := by
  cases names with
  | nil =>
    cases h with
    | here hroam hdir =>
      cases hroam
      exact hdir
    | link hroam _ => cases hroam
  | cons name rest =>
    have hgo (e : FileError) : s.roam true place (name :: rest) ≠ .failed e := by
      intro he
      cases h with
      | here hroam _ =>
        rw [hroam] at he
        cases he
      | link hroam _ =>
        rw [hroam] at he
        cases he
    exact directory_of_roam_cons hgo

end Scene

end StepScript
