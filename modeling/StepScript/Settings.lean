import StepScript.Cache
import StepScript.Environment
import StepScript.Script.Places

/-!
The settings of a session: where its script and its cache are, whether the cache is used, and two
limits. They are read from a JSON file, in which any of them may be left out, and three variables
of the environment go before the file.
-/

set_option autoImplicit false
set_option relaxedAutoImplicit false

namespace StepScript

open Json

/-- The settings of a session. -/
structure Settings where
  scriptRoot : Path
  /-- The place of steps, if it is not the usual one. -/
  stepsPath : Option Path
  conceptsPath : Option Path
  hooksPath : Option Path
  cacheRoot : Path
  useCache : Bool
  /-- The milliseconds that a wait on a page may take. -/
  waitLimit : Nat
  /-- How many replies may ask for tools; any number if there is no limit. -/
  roundLimit : Option Nat
  deriving DecidableEq, Repr

namespace Settings

/-- The settings that hold where nothing else is said. -/
def default : Settings where
  scriptRoot := ⟨"features"⟩
  stepsPath := none
  conceptsPath := none
  hooksPath := none
  cacheRoot := ⟨"cache"⟩
  useCache := true
  waitLimit := 30000
  roundLimit := some 32

instance : Inhabited Settings := ⟨default⟩

def memberNames : List String :=
  ["definitions_root", "steps_path", "concepts_path", "hooks_path", "cache_root", "use_cache",
    "wait_budget_ms", "max_tool_rounds"]

def toJson (c : Settings) : Json :=
  let path? (p : Option Path) := textOrNull (p.map Path.text)
  .ofMembers
    [("definitions_root", .string c.scriptRoot.text), ("steps_path", path? c.stepsPath),
      ("concepts_path", path? c.conceptsPath), ("hooks_path", path? c.hooksPath),
      ("cache_root", .string c.cacheRoot.text), ("use_cache", .bool c.useCache),
      ("wait_budget_ms", .ofNat c.waitLimit),
      ("max_tool_rounds", (c.roundLimit.map Json.ofNat).getD .null)]

def path? (v : Json) : Option Path := (text? v).map Path.mk

def ofJson? (v : Json) : Option Settings := do
  let r ← recordMembers? memberNames v
  let scriptRoot ← defaulted? path? default.scriptRoot "definitions_root" r
  let stepsPath ← optional? path? "steps_path" r
  let conceptsPath ← optional? path? "concepts_path" r
  let hooksPath ← optional? path? "hooks_path" r
  let cacheRoot ← defaulted? path? default.cacheRoot "cache_root" r
  let useCache ← defaulted? bool? default.useCache "use_cache" r
  let waitLimit ← defaulted? word? default.waitLimit "wait_budget_ms" r
  let roundLimit ← defaulted? (nullable? word?) default.roundLimit "max_tool_rounds" r
  return ⟨scriptRoot, stepsPath, conceptsPath, hooksPath, cacheRoot, useCache, waitLimit,
    roundLimit⟩

instance : Codec Settings :=
  ⟨.record (memberNames.map fun name => (name, .any)), toJson, ofJson?⟩

/-- The values of the variable that turns the cache off, in lower case. -/
def disablingWords : List String := ["1", "true", "yes"]

def withEnvironment (c : Settings) (env : Environment) : Settings :=
  { c with
    scriptRoot := ((env.value? "STEPWEAVER_DEFINITIONS").map Path.mk).getD c.scriptRoot
    cacheRoot := ((env.value? "STEPWEAVER_CACHE_ROOT").map Path.mk).getD c.cacheRoot
    useCache :=
      match env.value? "STEPWEAVER_DISABLE_CACHE" with
      | some value => !disablingWords.contains (value.map Char.toLower)
      | none => c.useCache }

def cache (c : Settings) : Cache := ⟨c.cacheRoot⟩

variable {m : Type → Type} [Monad m]

def load (files : FileAccess m) (path : Path) : m (Except Failure Settings) := do
  match ← files.readText path with
  | .error e => return .error (.settings ("failed to read " ++ path.text ++ ": " ++ e.message))
  | .ok text =>
    match (decodeText? text : Option Settings) with
    | none =>
      return .error (.settings ("failed to parse " ++ path.text ++ ": " ++ malformedText))
    | some c => return .ok c

/-- The places of the script: those that are given, else the usual ones that exist. -/
def places (c : Settings) (files : FileAccess m) : m ScriptPlaces := do
  let usual ← ScriptPlaces.usual files c.scriptRoot
  return ⟨c.stepsPath.or usual.steps, c.conceptsPath.or usual.concepts, c.hooksPath.or usual.hooks⟩

def loadScript (c : Settings) (files : FileAccess m) : m (Except Failure Script) := do
  return (← (← c.places files).load files).mapError .script

end Settings
end StepScript
