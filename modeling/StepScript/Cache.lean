import StepScript.Digest.Blake3
import StepScript.Failure
import StepScript.Files.Access
import StepScript.Json.Extract
import StepScript.Json.Writer

/-!
A cache of JSON values in files. An entry belongs to a namespace and a key and stands in the
namespace's directory under the hash of its key. An entry is replaced as a whole: the new text is
written beside it and then takes its place, so a reader sees the old text or the new one.
-/

set_option autoImplicit false
set_option relaxedAutoImplicit false

namespace StepScript

/-- A cache, by the directory that holds it. -/
structure Cache where
  root : Path
  deriving DecidableEq, Repr, Inhabited

/-- A file of a cache. -/
structure CacheEntry where
  scope : String
  path : Path
  size : Nat
  modified : Option Int
  deriving DecidableEq, Repr, Inhabited

namespace Cache

open Json

variable {m : Type → Type} [Monad m]

def directory (c : Cache) (scope : String) : Path := c.root.entry scope

def fileName (key : String) : String := Digest.Blake3.hexHash key ++ ".json"

def pathOf (c : Cache) (scope key : String) : Path := (c.directory scope).entry (fileName key)

/-- The value of an entry, or nothing when there is no entry. -/
def read? {α : Type} [Codec α] (c : Cache) (files : FileAccess m) (scope key : String) :
    m (Except CacheError (Option α)) := do
  match ← files.read (c.pathOf scope key) with
  | .error .notFound => return .ok none
  | .error e => return .error (.unreadable e.message)
  | .ok bytes =>
    match decodeBytes? bytes with
    | some v => return .ok (some v)
    | none => return .error (.malformed malformedText)

/-- Writes a temporary file and lets it take the place of another; stops at the first failure. -/
def writeAndRename (files : FileAccess m) (temporary path : Path) (bytes : ByteArray) :
    m (Except FileError Unit) := do
  match ← files.create temporary with
  | .error e => return .error e
  | .ok () =>
    match ← files.write temporary bytes with
    | .error e => return .error e
    | .ok () =>
      match ← files.sync temporary with
      | .error e => return .error e
      | .ok () => files.rename temporary path

def temporaryPath (path : Path) (token : String) : Path := path.withExtension (token ++ ".tmp")

/-- Replaces a file as a whole. After a failure the temporary file is removed. -/
def replaceFile (files : FileAccess m) (path : Path) (bytes : ByteArray) :
    m (Except CacheError Unit) := do
  let temporary := temporaryPath path (← files.freshToken)
  match ← writeAndRename files temporary path bytes with
  | .ok () => return .ok ()
  | .error e =>
    let _ ← files.remove temporary
    return .error (.notReplaced path e.message)

def makeParent (files : FileAccess m) (path : Path) : m (Except FileError Unit) :=
  match path.parent with
  | some parent => files.makeDirectories parent
  | none => return .ok ()

def write {α : Type} [Codec α] (c : Cache) (files : FileAccess m) (scope key : String) (v : α) :
    m (Except CacheError Unit) := do
  let path := c.pathOf scope key
  match ← makeParent files path with
  | .error e => return .error (.unreadable e.message)
  | .ok () => replaceFile files path (Codec.encode v).indented.toUTF8

/-- The namespaces that are looked through: a given one if it has a directory, or else all. -/
def scopes (c : Cache) (files : FileAccess m) (only : Option String) :
    m (Except FileError (List String)) := do
  match only with
  | some scope => return .ok (if ← files.isDirectory (c.directory scope) then [scope] else [])
  | none =>
    if !(← files.isDirectory c.root) then return .ok []
    match ← files.entries c.root with
    | .error e => return .error e
    | .ok entries =>
      let names := (entries.filter fun e => e.kind == .directory).map DirEntry.name
      return .ok (names.mergeSort fun a b => decide (a ≤ b))

/-- The file of a namespace that an entry of its directory is. -/
def fileOf (c : Cache) (scope : String) (e : DirEntry) : CacheEntry where
  scope := scope
  path := (c.directory scope).entry e.name
  size := e.size
  modified := e.modified

/-- The files of a namespace that count, among the entries of its directory. -/
def entriesOf (c : Cache) (scope : String) (found : List DirEntry) : List CacheEntry :=
  (found.map (c.fileOf scope)).filter fun e => e.path.extension == some "json"

def entriesIn (c : Cache) (files : FileAccess m) :
    List String → m (Except FileError (List CacheEntry))
  | [] => return .ok []
  | scope :: rest => do
    match ← files.entries (c.directory scope) with
    | .error e => return .error e
    | .ok found =>
      match ← entriesIn c files rest with
      | .error e => return .error e
      | .ok more => return .ok (c.entriesOf scope found ++ more)

/-- The entries of a namespace or of all, in the order of their paths. -/
def list (c : Cache) (files : FileAccess m) (only : Option String) :
    m (Except CacheError (List CacheEntry)) := do
  match ← c.scopes files only with
  | .error e => return .error (.unreadable e.message)
  | .ok scopes =>
    match ← c.entriesIn files scopes with
    | .error e => return .error (.unreadable e.message)
    | .ok entries => return .ok (entries.mergeSort fun a b => !b.path.before a.path)

/-- Removes files in order, up to the first that cannot be removed. -/
def removeAll (files : FileAccess m) : List CacheEntry → m (Except CacheError Unit)
  | [] => return .ok ()
  | e :: rest => do
    match ← files.remove e.path with
    | .error e => return .error (.unreadable e.message)
    | .ok () => removeAll files rest

/-- Removes the entries of a namespace or of all, and counts them. -/
def clear (c : Cache) (files : FileAccess m) (only : Option String) :
    m (Except CacheError Nat) := do
  match ← c.list files only with
  | .error e => return .error e
  | .ok entries =>
    match ← removeAll files entries with
    | .error e => return .error e
    | .ok () => return .ok entries.length

end Cache
end StepScript
