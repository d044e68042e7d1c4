import StepScript.Files.Access

/-!
A file system held in memory: a tree of directories, files and symbolic links, and the directory
that relative paths start from. A path is resolved name by name; links in the middle are always
followed, a link at the end when the operation says so, and after `linkLimit` of them resolution
gives up. Paths and names have a largest length.
-/

set_option autoImplicit false
set_option relaxedAutoImplicit false

namespace StepScript

/-- What stands at a place of a tree. -/
inductive FileNode
  | file (bytes : ByteArray)
  | link (target : String)
  | directory (entries : List (String × FileNode))
  deriving Inhabited

/-- A place of a tree: the names on the way from the root. -/
abbrev Place := List String

namespace FileNode

def child? (name : String) : FileNode → Option FileNode
  | .directory entries => entries.lookup name
  | _ => none

def at? : Place → FileNode → Option FileNode
  | [], node => some node
  | name :: rest, node => (node.child? name).bind (at? rest)

/-- Changes the entry of a name in a list; `none` stands for no entry. -/
def alterEntry (name : String) (f : Option FileNode → Option FileNode) :
    List (String × FileNode) → List (String × FileNode)
  | [] =>
    match f none with
    | some node => [(name, node)]
    | none => []
  | entry :: rest =>
    if entry.1 == name then
      match f (some entry.2) with
      | some node => (name, node) :: rest
      | none => rest.filter fun other => other.1 != name
    else entry :: alterEntry name f rest

/-- Changes what stands at a place below, if the directories on the way are there. -/
def alter (f : Option FileNode → Option FileNode) : Place → FileNode → FileNode
  | [], node => (f (some node)).getD node
  | [name], .directory entries => .directory (alterEntry name f entries)
  | name :: rest, .directory entries =>
    .directory (alterEntry name (fun node => node.map (alter f rest)) entries)
  | _ :: _, node => node

def kind : FileNode → FileKind
  | .file _ => .file
  | .link _ => .link
  | .directory _ => .directory

def size : FileNode → Nat
  | .file bytes => bytes.size
  | .link target => target.utf8ByteSize
  | .directory _ => 4096

mutual

def outline : FileNode → Outline
  | .file _ => .file
  | .link _ => .other
  | .directory entries => .directory (outlines entries)

def outlines : List (String × FileNode) → List (String × Outline)
  | [] => []
  | (name, node) :: rest => (name, outline node) :: outlines rest

end

end FileNode

/-- A file system held in memory. -/
structure FileTree where
  root : FileNode
  working : Place
  tokens : Nat
  deriving Inhabited

namespace FileTree

def linkLimit : Nat := 40

def nameLimit : Nat := 255

def pathLimit : Nat := 4095

/-- The pieces of a path; a slash at the end counts as a `.` behind it. -/
def piecesOf (text : String) : List String :=
  let pieces := (Path.mk text).pieces
  let names := pieces.filter fun piece => piece != ""
  if pieces.getLast? == some "" && !names.isEmpty then names ++ ["."] else names

/-- A way down from the root: the names on it and what they lead to, the last one first. -/
abbrev Way := List (String × FileNode)

def Way.node (root : FileNode) (way : Way) : FileNode :=
  match way with
  | [] => root
  | step :: _ => step.2

def Way.place (way : Way) : Place := (way.map Prod.fst).reverse

def Way.extend? (root : FileNode) : Way → Place → Option Way
  | way, [] => some way
  | way, name :: rest =>
    match (way.node root).child? name with
    | some node => Way.extend? root ((name, node) :: way) rest
    | none => none

/-- Where a path leads: a node, or a name that is missing in a directory. -/
inductive Target
  | found (place : Place) (node : FileNode)
  | missing (directory : Place) (name : String)

/-- How far a walk along names comes. -/
inductive Walk
  | ended (target : Target)
  | failed (e : FileError)
  /-- A link is to be followed, seen from a directory, with names left behind it. -/
  | link (directory : Way) (target : String) (left : List String)

def walk (root : FileNode) (follow : Bool) : Way → List String → Walk
  | way, [] => .ended (.found way.place (way.node root))
  | way, name :: rest =>
    match way.node root with
    | .directory entries =>
      if name == "." then walk root follow way rest
      else if name == ".." then walk root follow way.tail rest
      else if name.utf8ByteSize > nameLimit then .failed .nameTooLong
      else
        match entries.lookup name with
        | none =>
          if rest.isEmpty then .ended (.missing way.place name) else .failed .notFound
        | some (.link target) =>
          if rest.isEmpty && !follow then
            .ended (.found (way.place ++ [name]) (.link target))
          else .link way target rest
        | some node => walk root follow ((name, node) :: way) rest
    | _ => .failed .notADirectory

/-- Resolves names from the end of a way. The first argument is how many links may still be
followed. -/
def resolveFrom (root : FileNode) (follow : Bool) :
    Nat → Way → List String → Except FileError Target
  | links, way, names =>
    match walk root follow way names with
    | .ended target => .ok target
    | .failed e => .error e
    | .link directory target left =>
      match links with
      | 0 => .error .tooManyLinks
      | links + 1 =>
        let start := if (Path.mk target).isAbsolute then [] else directory
        resolveFrom root follow links start (piecesOf target ++ left)

/-- Why no path has such a text, whatever stands in the tree. -/
def refusal? (text : String) : Option FileError :=
  if text.toList.contains (Char.ofNat 0) then some .invalidName
  else if text.utf8ByteSize > pathLimit then some .nameTooLong
  else if text == "" then some .notFound
  else none

def start? (t : FileTree) (path : Path) : Option Way :=
  if path.isAbsolute then some [] else Way.extend? t.root [] t.working

def resolve (t : FileTree) (follow : Bool) (path : Path) : Except FileError Target :=
  match refusal? path.text with
  | some e => .error e
  | none =>
    match t.start? path with
    | some way => resolveFrom t.root follow linkLimit way (piecesOf path.text)
    | none => .error .notFound

def node (t : FileTree) (follow : Bool) (path : Path) : Except FileError (Place × FileNode) :=
  match t.resolve follow path with
  | .error e => .error e
  | .ok (.missing _ _) => .error .notFound
  | .ok (.found place node) => .ok (place, node)

def alter (t : FileTree) (place : Place) (f : Option FileNode → Option FileNode) : FileTree :=
  { t with root := t.root.alter f place }

def put (t : FileTree) (place : Place) (node : FileNode) : FileTree :=
  t.alter place fun _ => some node

def read (t : FileTree) (path : Path) : Except FileError ByteArray :=
  match t.node true path with
  | .error e => .error e
  | .ok (_, .file bytes) => .ok bytes
  | .ok _ => .error .isADirectory

def kind? (t : FileTree) (path : Path) : Option FileKind :=
  match t.node true path with
  | .ok (_, node) => some node.kind
  | .error _ => none

def entries (t : FileTree) (path : Path) : Except FileError (List DirEntry) :=
  match t.node true path with
  | .error e => .error e
  | .ok (_, .directory entries) =>
    .ok (entries.map fun entry => ⟨entry.1, entry.2.kind, entry.2.size, none⟩)
  | .ok _ => .error .notADirectory

/-- The tree below a path. Each directory of it is looked into by its own path. -/
def outline (t : FileTree) (path : Path) : Except FileError Outline :=
  match t.node true path with
  | .error e => .error e
  | .ok (_, node) =>
    match (node.outline.directoriesAt path).findSome? fun directory => refusal? directory.text with
    | some e => .error e
    | none => .ok node.outline

/-- What an operation comes to, and the tree that it leaves. -/
abbrev Change := Except FileError Unit × FileTree

def makeDirectory (t : FileTree) (path : Path) : Change :=
  match t.resolve false path.withoutSlash with
  | .error e => (.error e, t)
  | .ok (.found _ _) => (.error .alreadyExists, t)
  | .ok (.missing directory name) => (.ok (), t.put (directory ++ [name]) (.directory []))

def makeLink (t : FileTree) (path : Path) (target : String) : Change :=
  match t.resolve false path with
  | .error e => (.error e, t)
  | .ok (.found _ _) => (.error .alreadyExists, t)
  | .ok (.missing directory name) => (.ok (), t.put (directory ++ [name]) (.link target))

/-- Makes an empty file, or empties the one there is. -/
def create (t : FileTree) (path : Path) : Change :=
  match t.resolve true path with
  | .error e => (.error e, t)
  | .ok (.found place (.file _)) => (.ok (), t.put place (.file ByteArray.empty))
  | .ok (.found _ _) => (.error .isADirectory, t)
  | .ok (.missing directory name) =>
    (.ok (), t.put (directory ++ [name]) (.file ByteArray.empty))

def write (t : FileTree) (path : Path) (bytes : ByteArray) : Change :=
  match t.node true path with
  | .error e => (.error e, t)
  | .ok (place, .file _) => (.ok (), t.put place (.file bytes))
  | .ok _ => (.error .isADirectory, t)

def remove (t : FileTree) (path : Path) : Change :=
  match t.node false path with
  | .error e => (.error e, t)
  | .ok (_, .directory _) => (.error .isADirectory, t)
  | .ok (place, _) => (.ok (), t.alter place fun _ => none)

def move (t : FileTree) (source target : Place) (node : FileNode) : FileTree :=
  if source == target then t else (t.alter source fun _ => none).put target node

def rename (t : FileTree) (source target : Path) : Change :=
  match t.node false source with
  | .error e => (.error e, t)
  | .ok (_, .directory _) => (.error .isADirectory, t)
  | .ok (place, node) =>
    match t.resolve false target with
    | .error e => (.error e, t)
    | .ok (.found _ (.directory _)) => (.error .isADirectory, t)
    | .ok (.found other _) => (.ok (), t.move place other node)
    | .ok (.missing directory name) => (.ok (), t.move place (directory ++ [name]) node)

def tokenLength : Nat := 32

def freshToken (t : FileTree) : String × FileTree :=
  let digits := Nat.toDigits 16 t.tokens
  (String.ofList (List.replicate (tokenLength - digits.length) '0' ++ digits),
    { t with tokens := t.tokens + 1 })

end FileTree

namespace FileAccess

variable {m : Type → Type} [Monad m]

/-- Carries out a change of the tree that a monad keeps. -/
def changeWith [MonadStateOf FileTree m] (f : FileTree → FileTree.Change) :
    m (Except FileError Unit) :=
  modifyGetThe FileTree f

def inMemory [MonadStateOf FileTree m] : FileAccess m where
  read path := return (← getThe FileTree).read path
  kind? path := return (← getThe FileTree).kind? path
  entries path := return (← getThe FileTree).entries path
  outline path := return (← getThe FileTree).outline path
  makeDirectory path := changeWith fun t => t.makeDirectory path
  create path := changeWith fun t => t.create path
  write path bytes := changeWith fun t => t.write path bytes
  sync _ := return .ok ()
  rename source target := changeWith fun t => t.rename source target
  remove path := changeWith fun t => t.remove path
  freshToken := modifyGetThe FileTree FileTree.freshToken

end FileAccess
end StepScript
