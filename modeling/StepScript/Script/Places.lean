import StepScript.Files.Access
import StepScript.Script.Parser

/-!
Loading a script from files. Each kind of definition is read from one file or from a directory, in
which the files with the kind's extension count, at any depth but not behind symbolic links. Files
are visited directory by directory in the byte order of their names. The names of loaded concepts
are distinct.
-/

set_option autoImplicit false
set_option relaxedAutoImplicit false

namespace StepScript

namespace Outline

/-- The entries of a directory in the order of their names. -/
def sorted {α : Type} (entries : List (String × α)) : List (String × α) :=
  entries.mergeSort fun a b => decide (a.1 ≤ b.1)

mutual

/-- The paths of the files with an extension in a tree that stands at a path; a directory comes with
all that is in it where its name stands. -/
def filesAt (extension : String) (path : Path) : Outline → List Path
  | .file => if path.extension == some extension then [path] else []
  | .directory entries => ((sorted (filesIn extension path entries)).map Prod.snd).flatten
  | .other => []

def filesIn (extension : String) (path : Path) :
    List (String × Outline) → List (String × List Path)
  | [] => []
  | (name, tree) :: rest =>
    (name, filesAt extension (path.entry name) tree) :: filesIn extension path rest

end

end Outline

/-- How the files of one kind are read. -/
structure ScriptReader (α : Type) where
  /-- The extension of the files in a directory that count. -/
  extension : String
  /-- What has been read with one more file, given its text. -/
  add : List α → String → Except ScriptError (List α)

namespace ScriptReader

def steps : ScriptReader Step where
  extension := "steps"
  add found source := (Step.parseAll source).map (found ++ ·)

def concepts : ScriptReader Concept where
  extension := "concept"
  add found source :=
    match Concept.parse source with
    | .error e => .error e
    | .ok c =>
      if found.any fun other => other.name == c.name then .error (.duplicateConcept c.name)
      else .ok (found ++ [c])

def hooks : ScriptReader Hook where
  extension := "hooks"
  add found source := (Hook.parseAll source).map (found ++ ·)

variable {m : Type → Type} [Monad m] {α : Type}

def unreadable (e : FileError) : ScriptError := .unreadable e.message

def filesOf (r : ScriptReader α) (files : FileAccess m) (path : Path) :
    m (Except ScriptError (List Path)) := do
  match ← files.kind? path with
  | none => return .error (.missingSource path)
  | some .directory =>
    match ← files.outline path with
    | .error e => return .error (unreadable e)
    | .ok tree => return .ok (tree.filesAt r.extension path)
  | some _ => return .ok [path]

/-- Reads files in order, behind what has been read before, up to the first error. -/
def readEach (r : ScriptReader α) (files : FileAccess m) :
    List α → List Path → m (Except ScriptError (List α))
  | found, [] => return .ok found
  | found, path :: rest => do
    match ← files.readText path with
    | .error e => return .error (unreadable e)
    | .ok source =>
      match r.add found source with
      | .error e => return .error e
      | .ok found => r.readEach files found rest

def load (r : ScriptReader α) (files : FileAccess m) (path : Path) :
    m (Except ScriptError (List α)) := do
  match ← r.filesOf files path with
  | .error e => return .error e
  | .ok paths => r.readEach files [] paths

/-- Reads what stands at a place, if there is a place. -/
def loadAt (r : ScriptReader α) (files : FileAccess m) :
    Option Path → m (Except ScriptError (List α))
  | some path => r.load files path
  | none => return .ok []

end ScriptReader

/-- Where each kind of definition is read from; a kind without a place is not read. -/
structure ScriptPlaces where
  steps : Option Path
  concepts : Option Path
  hooks : Option Path
  deriving DecidableEq, Repr, Inhabited

namespace ScriptPlaces

variable {m : Type → Type} [Monad m]

/-- Loads a script: steps, concepts, hooks, up to the first error. -/
def load (places : ScriptPlaces) (files : FileAccess m) : m (Except ScriptError Script) := do
  match ← ScriptReader.steps.loadAt files places.steps with
  | .error e => return .error e
  | .ok steps =>
    match ← ScriptReader.concepts.loadAt files places.concepts with
    | .error e => return .error e
    | .ok concepts =>
      match ← ScriptReader.hooks.loadAt files places.hooks with
      | .error e => return .error e
      | .ok hooks => return .ok ⟨steps, concepts, hooks⟩

/-- The path of an entry, when something stands there. -/
def existing? (files : FileAccess m) (root : Path) (name : String) : m (Option Path) := do
  let path := root.entry name
  return if ← files.exists? path then some path else none

/-- The usual places in a directory, where they exist. -/
def usual (files : FileAccess m) (root : Path) : m ScriptPlaces := do
  let steps ← existing? files root "steps"
  let concepts ← existing? files root "concepts"
  let hooks ← existing? files root "hooks"
  return ⟨steps, concepts, hooks⟩

end ScriptPlaces
end StepScript
