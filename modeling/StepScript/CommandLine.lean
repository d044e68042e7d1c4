import StepScript.Chat.Completion
import StepScript.Session
import StepScript.Text.Quoted

/-!
The command line. Options name the file of settings, and places of the script and the cache that go
before it; the commands count what the script defines, match a text against its steps, and list or
clear the cache.
-/

set_option autoImplicit false
set_option relaxedAutoImplicit false

namespace StepScript.CommandLine

def version : String := "0.1.0"

/-- What is to be done. -/
inductive Command
  | check
  | matchText (text : String) (noCache : Bool)
  | cacheList (scope : Option String)
  | cacheClear (scope : Option String)
  deriving DecidableEq, Repr

/-- The options before the command. -/
structure Options where
  settings : Option Path
  scriptRoot : Option Path
  cacheRoot : Option Path
  deriving DecidableEq, Repr, Inhabited

/-- What a command line says. -/
structure Invocation where
  options : Options
  command : Command
  deriving DecidableEq, Repr

/-- An option. -/
inductive Flag
  | settings
  | scriptRoot
  | cacheRoot
  deriving DecidableEq, Repr

/-- Gives an option a value. An option may be given once, and its value is not empty. -/
def Options.set (o : Options) (flag : Flag) (value : String) : Option Options :=
  if value == "" then none
  else
    match flag with
    | .settings => if o.settings.isSome then none else some { o with settings := some ⟨value⟩ }
    | .scriptRoot =>
      if o.scriptRoot.isSome then none else some { o with scriptRoot := some ⟨value⟩ }
    | .cacheRoot =>
      if o.cacheRoot.isSome then none else some { o with cacheRoot := some ⟨value⟩ }

def longFlags : List (String × Flag) :=
  [("--config", .settings), ("--definitions", .scriptRoot), ("--cache-root", .cacheRoot)]

def shortFlags : List (Char × Flag) := [('c', .settings), ('d', .scriptRoot)]

/-- The value of a short option in its own word, where an equals sign may stand before it. -/
def attached : List Char → Option String
  | [] => none
  | '=' :: rest => some (String.ofList rest)
  | cs => some (String.ofList cs)

/-- The option that a word names, and the value in the same word if there is one. -/
def flagOf? (word : String) : Option (Flag × Option String) :=
  match word.toList with
  | '-' :: '-' :: _ =>
    match Text.cutAtFirst ['='] word.toList with
    | some (name, value) =>
      (longFlags.lookup (String.ofList name)).map fun flag => (flag, some (String.ofList value))
    | none => (longFlags.lookup word).map fun flag => (flag, none)
  | '-' :: c :: rest => (shortFlags.lookup c).map fun flag => (flag, attached rest)
  | _ => none

def isFlagLike (word : String) : Bool :=
  match word.toList with
  | '-' :: _ :: _ => true
  | _ => false

/-- The words of a command, sorted into options and plain words. -/
structure Words where
  flags : List String
  plain : List String
  deriving DecidableEq, Repr

/-- Sorts words. Behind a word `--` all words are plain. -/
def Words.ofList : List String → Words
  | [] => ⟨[], []⟩
  | word :: rest =>
    if word == "--" then ⟨[], rest⟩
    else
      let sorted := Words.ofList rest
      if isFlagLike word then { sorted with flags := word :: sorted.flags }
      else { sorted with plain := word :: sorted.plain }

/-- Reads the words of `match`: a text, and an option that may be left out. -/
def matchCommand (words : Words) : Option Command :=
  match words.flags, words.plain with
  | [], [text] => some (.matchText text false)
  | ["--no-cache"], [text] => some (.matchText text true)
  | _, _ => none

def scopeOf? (words : Words) : Option (Option String) :=
  match words.flags, words.plain with
  | [], [] => some none
  | [], [scope] => some (some scope)
  | _, _ => none

def commandOf? : List String → Option Command
  | "check" :: rest => if Words.ofList rest = ⟨[], []⟩ then some .check else none
  | "match" :: rest => matchCommand (.ofList rest)
  | "cache" :: "list" :: rest => (scopeOf? (.ofList rest)).map .cacheList
  | "cache" :: "clear" :: rest => (scopeOf? (.ofList rest)).map .cacheClear
  | _ => none

/-- Reads options and then a command. The first argument bounds the number of options. -/
def readFrom : Nat → Options → List String → Option Invocation
  | 0, _, _ => none
  | fuel + 1, o, words =>
    match words with
    | [] => none
    | word :: rest =>
      match flagOf? word with
      | none => (commandOf? (word :: rest)).map fun command => ⟨o, command⟩
      | some (flag, some value) => (o.set flag value).bind fun o => readFrom fuel o rest
      | some (flag, none) =>
        match rest with
        | value :: rest =>
          if isFlagLike value then none else (o.set flag value).bind fun o => readFrom fuel o rest
        | [] => none

def read? (words : List String) : Option Invocation :=
  readFrom (words.length + 1) ⟨none, none, none⟩ words

def usage : String :=
  "usage: [--config FILE] [--definitions DIR] [--cache-root DIR] " ++
    "check | match TEXT [--no-cache] | cache list [NAMESPACE] | cache clear [NAMESPACE]"

/-- What a command line works with. -/
structure World (m : Type → Type) where
  files : FileAccess m
  environment : Environment
  send : Transport m
  showTime : Int → String

/-- The lines that a command prints, up to its failure if it fails. -/
structure Report where
  lines : List String
  failure : Option Failure

def Report.done (lines : List String) : Report := ⟨lines, none⟩

/-- A report of a command that fails before it prints. -/
def Report.failed (f : Failure) : Report := ⟨[], some f⟩

def Options.apply (o : Options) (c : Settings) : Settings :=
  { c with
    scriptRoot := o.scriptRoot.getD c.scriptRoot
    cacheRoot := o.cacheRoot.getD c.cacheRoot }

def padRight (width : Nat) (s : String) : String :=
  s ++ String.ofList (List.replicate (width - s.length) ' ')

def padLeft (width : Nat) (s : String) : String :=
  String.ofList (List.replicate (width - s.length) ' ') ++ s

def checkLines (script : Script) : List String :=
  ["Steps:    " ++ toString script.steps.length,
    "Concepts: " ++ toString script.concepts.length] ++
    (script.concepts.map fun c =>
      "  " ++ c.name ++ " (" ++ toString c.behaviors.length ++ " behaviors)") ++
    ["Hooks:    " ++ toString script.hooks.length]

def matchLines : Option Match → List String
  | some found =>
    ("Matched: " ++ found.pattern) ::
      found.captures.entries.map fun entry => "  " ++ entry.1 ++ " = " ++ entry.2
  | none => ["No matching step"]

def entryLine (showTime : Int → String) (e : CacheEntry) : String :=
  padRight 16 e.scope ++ " " ++ padLeft 8 (toString e.size) ++ "  " ++
    (e.modified.map showTime).getD "-" ++ "  " ++ e.path.text

def listLines (showTime : Int → String) (root : Path) (entries : List CacheEntry) : List String :=
  entries.map (entryLine showTime) ++
    [toString entries.length ++ " entries under " ++ Text.quoted root.text]

variable {m : Type → Type} [Monad m]

def settings (w : World m) (o : Options) : m (Except Failure Settings) := do
  match o.settings with
  | none => return .ok (o.apply (Settings.default.withEnvironment w.environment))
  | some path =>
    match ← Settings.load w.files path with
    | .error f => return .error f
    | .ok c => return .ok (o.apply (c.withEnvironment w.environment))

def matcher (w : World m) (c : Settings) (noCache : Bool) : Matcher m :=
  let model := Completion.model (Service.ofEnvironment w.environment) w.send
  { c with useCache := c.useCache && !noCache }.matcher w.files model

def perform (w : World m) (c : Settings) : Command → m Report
  | .check => do
    match ← c.loadScript w.files with
    | .error f => return .failed f
    | .ok script => return .done (checkLines script)
  | .matchText text noCache => do
    match ← c.loadScript w.files with
    | .error f => return .failed f
    | .ok script =>
      match ← (matcher w c noCache).find script.stepPatterns text with
      | .error f => return .failed f
      | .ok found => return .done (matchLines found)
  | .cacheList scope => do
    match ← c.cache.list w.files scope with
    | .error e => return .failed (.cache e)
    | .ok entries => return .done (listLines w.showTime c.cacheRoot entries)
  | .cacheClear scope => do
    match ← c.cache.clear w.files scope with
    | .error e => return .failed (.cache e)
    | .ok count => return .done ["Removed " ++ toString count ++ " entries"]

def run (w : World m) (i : Invocation) : m Report := do
  match ← settings w i.options with
  | .error f => return .failed f
  | .ok c => perform w c i.command

end StepScript.CommandLine
