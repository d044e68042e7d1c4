import StepScript.CommandLine
import StepScript.Time

/-!
The program: the command line over the files and the environment of the process. It has no network,
so a command that asks a chat model fails unless the cache holds the answer.
-/

set_option autoImplicit false
set_option relaxedAutoImplicit false

namespace StepScript.Program

def causeOf : IO.Error → FileError
  | .noFileOrDirectory .. => .notFound
  | .inappropriateType .. => .notADirectory
  | .alreadyExists .. => .alreadyExists
  | e => .other (toString e)

/-- What an action comes to, with its error as a cause. -/
def attempt {α : Type} (body : IO α) : IO (Except FileError α) := do
  match ← body.toBaseIO with
  | .ok a => return .ok a
  | .error e => return .error (causeOf e)

def kindOf : IO.FS.FileType → FileKind
  | .file => .file
  | .dir => .directory
  | .symlink => .link
  | .other => .other

def entriesOf (path : Path) : IO (List DirEntry) := do
  let base ← IO.currentDir
  let found ← (base / path.text).readDir
  found.toList.mapM fun e => do
    let data ← e.path.symlinkMetadata
    return ⟨e.fileName, kindOf data.type, data.byteSize.toNat, some data.modified.sec⟩

/-- The tree below a directory. -/
partial def outlineOf (path : Path) : IO Outline := do
  let entries ← entriesOf path
  let trees ← entries.mapM fun e => do
    match e.kind with
    | .file => return (e.name, Outline.file)
    | .directory => return (e.name, ← outlineOf (path.entry e.name))
    | _ => return (e.name, Outline.other)
  return .directory trees

def files : FileAccess IO where
  read path := attempt (IO.FS.readBinFile path.text)
  kind? path := do
    let base ← IO.currentDir
    match ← attempt (base / path.text).metadata with
    | .ok data => return some (kindOf data.type)
    | .error _ => return none
  entries path := attempt (entriesOf path)
  outline path := attempt (outlineOf path)
  makeDirectory path := attempt (IO.FS.createDir path.text)
  create path := attempt (IO.FS.writeBinFile path.text ByteArray.empty)
  write path bytes := attempt (IO.FS.writeBinFile path.text bytes)
  sync _ := return .ok ()
  rename source target := attempt (IO.FS.rename source.text target.text)
  remove path := attempt (IO.FS.removeFile path.text)
  freshToken := do
    let bytes ← IO.getRandomBytes 16
    return String.ofList (bytes.toList.flatMap Digest.Blake3.hexByte)

/-- The names of the variables that the command line looks at. -/
def variableNames : List String :=
  ["STEPWEAVER_DISABLE_CACHE", "STEPWEAVER_CACHE_ROOT", "STEPWEAVER_DEFINITIONS", "LLM_BASE_URL",
    "LLM_API_KEY", "LLM_MODEL_NAME", "LLM_TIMEOUT_SECS"]

def environment : IO Environment := do
  let found ← variableNames.mapM fun name => return (name, ← IO.getEnv name)
  return fun name => (found.lookup name).join

end StepScript.Program

def main (words : List String) : IO UInt32 := do
  match StepScript.CommandLine.read? words with
  | none =>
    IO.eprintln StepScript.CommandLine.usage
    return 2
  | some invocation =>
    let world : StepScript.CommandLine.World IO :=
      { files := StepScript.Program.files
        environment := ← StepScript.Program.environment
        send := fun _ => return .error "no network"
        showTime := StepScript.Time.text }
    let report ← StepScript.CommandLine.run world invocation
    report.lines.forM IO.println
    match report.failure with
    | none => return 0
    | some f =>
      IO.eprintln ("Error: " ++ f.message)
      return 1
