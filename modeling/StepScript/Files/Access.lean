import StepScript.Path

/-!
What the library asks of a file system, as a record of operations that run in some monad.
Operations that fail say why; `kind?` and `read` follow symbolic links, listings and outlines do
not.
-/

set_option autoImplicit false
set_option relaxedAutoImplicit false

namespace StepScript

/-- Why an operation on files fails. -/
inductive FileError
  | notFound
  | notADirectory
  | isADirectory
  | alreadyExists
  | notEmpty
  | tooManyLinks
  | invalidName
  | nameTooLong
  | other (detail : String)
  deriving DecidableEq, Repr, Inhabited

def FileError.message : FileError → String
  | .notFound => "no such file or directory"
  | .notADirectory => "not a directory"
  | .isADirectory => "is a directory"
  | .alreadyExists => "file exists"
  | .notEmpty => "directory not empty"
  | .tooManyLinks => "too many levels of symbolic links"
  | .invalidName => "invalid file name"
  | .nameTooLong => "file name too long"
  | .other detail => detail

/-- What stands at a path. -/
inductive FileKind
  | file
  | directory
  | link
  | other
  deriving DecidableEq, Repr, Inhabited

/-- An entry of a directory. -/
structure DirEntry where
  name : String
  kind : FileKind
  size : Nat
  /-- The time of the last change, in seconds since 1970. -/
  modified : Option Int
  deriving DecidableEq, Repr, Inhabited

/-- A directory tree without the contents of its files. -/
inductive Outline
  | file
  | directory (entries : List (String × Outline))
  | other
  deriving Repr, Inhabited

namespace Outline

mutual

/-- The paths of the directories in a tree that stands at a path. -/
def directoriesAt (path : Path) : Outline → List Path
  | .directory entries => path :: directoriesIn path entries
  | .file | .other => []

/-- The paths of the directories below the entries of a directory. -/
def directoriesIn (path : Path) : List (String × Outline) → List Path
  | [] => []
  | (name, tree) :: rest => directoriesAt (path.entry name) tree ++ directoriesIn path rest

end

end Outline

/-- The operations of a file system. -/
structure FileAccess (m : Type → Type) where
  read : Path → m (Except FileError ByteArray)
  /-- What stands at a path, when something does. -/
  kind? : Path → m (Option FileKind)
  entries : Path → m (Except FileError (List DirEntry))
  outline : Path → m (Except FileError Outline)
  makeDirectory : Path → m (Except FileError Unit)
  /-- Makes an empty file, or empties the one there is. -/
  create : Path → m (Except FileError Unit)
  write : Path → ByteArray → m (Except FileError Unit)
  sync : Path → m (Except FileError Unit)
  /-- Gives a file another path, in place of the file there. -/
  rename : Path → Path → m (Except FileError Unit)
  remove : Path → m (Except FileError Unit)
  freshToken : m String

namespace FileAccess

variable {m : Type → Type} [Monad m]

def exists? (files : FileAccess m) (path : Path) : m Bool := do
  return (← files.kind? path).isSome

def isDirectory (files : FileAccess m) (path : Path) : m Bool := do
  return (← files.kind? path) == some .directory

def readText (files : FileAccess m) (path : Path) : m (Except FileError String) := do
  match ← files.read path with
  | .error e => return .error e
  | .ok bytes =>
    match String.fromUTF8? bytes with
    | some text => return .ok text
    | none => return .error (.other "text is not valid UTF-8")

/-- Makes a directory and those above it that are missing. The first argument bounds their
number. -/
def makeDirectoriesFrom (files : FileAccess m) : Nat → Path → m (Except FileError Unit)
  | 0, _ => return .error .notFound
  | depth + 1, path => do
    if path.text == "" then return .ok ()
    match ← files.makeDirectory path with
    | .ok () => return .ok ()
    | .error .notFound =>
      match path.parent with
      | none => return .error .notFound
      | some parent =>
        match ← makeDirectoriesFrom files depth parent with
        | .error e => return .error e
        | .ok () =>
          match ← files.makeDirectory path with
          | .ok () => return .ok ()
          | .error e => return if ← files.isDirectory path then .ok () else .error e
    | .error e => return if ← files.isDirectory path then .ok () else .error e

/-- Makes a directory and those above it that are missing. -/
def makeDirectories (files : FileAccess m) (path : Path) : m (Except FileError Unit) :=
  files.makeDirectoriesFrom (path.parts.length + 1) path

end FileAccess
end StepScript
