import StepScript.Conversation
import StepScript.Interpreter
import StepScript.Settings

/-!
A session carries out one scenario at a time. Its providers are started in order and stopped in
reverse; their handlers are installed for as long as the session is started. When one of them does
not start, those started before it are stopped again. To stop a session also forgets what was
gathered.
-/

set_option autoImplicit false
set_option relaxedAutoImplicit false

namespace StepScript

namespace Settings

variable {m : Type → Type} [Monad m]

def matcher (c : Settings) (files : FileAccess m) (model : ChatModel m) : Matcher m :=
  let matcher := Matcher.ofModel model Matcher.instructions
  if c.useCache then matcher.cached c.cache files Matcher.cacheScope else matcher

def assistant (c : Settings) (files : FileAccess m) (model : ChatModel m) (patience : Nat) :
    Assistant m :=
  ⟨model, c.cache, files, c.roundLimit, patience⟩

end Settings

namespace Provider

variable {m : Type → Type} [Monad m]

def engage (p : Provider m) (handlers : Handlers m) : m (Except Failure (Handlers m)) := do
  match ← p.start with
  | .error t => return .error (.provider t.chain)
  | .ok () => return .ok (handlers.install (← p.handlers))

/-- Takes out the handlers of providers and stops them, in the order of the list. -/
def dismissAll : List (Provider m) → Handlers m → m (Handlers m)
  | [], handlers => return handlers
  | p :: rest, handlers => do
    p.stop
    dismissAll rest (handlers.uninstall p.names)

/-- Engages providers in order. The second argument holds those engaged before, the last one first;
they are dismissed when one does not start. -/
def engageAll : List (Provider m) → List (Provider m) → Handlers m →
    m (Except Failure Unit × Handlers m)
  | [], _, handlers => return (.ok (), handlers)
  | p :: rest, engaged, handlers => do
    match ← p.engage handlers with
    | .ok handlers => engageAll rest (p :: engaged) handlers
    | .error f => return (.error f, ← dismissAll engaged handlers)

end Provider

/-- A session. -/
structure Session (m : Type → Type) where
  settings : Settings
  interpreter : Interpreter m
  gathered : Bindings
  providers : List (Provider m)
  started : Bool

namespace Session

variable {m : Type → Type} [Monad m]

def new (settings : Settings) (interpreter : Interpreter m) : Session m :=
  ⟨settings, interpreter, Dict.empty, [], false⟩

/-- A session over the script and the matcher that the settings ask for. -/
def ofSettings (settings : Settings) (files : FileAccess m) (model : ChatModel m) (nesting : Nat) :
    m (Except Failure (Session m)) := do
  match ← settings.loadScript files with
  | .error f => return .error f
  | .ok script =>
    return .ok (.new settings ⟨script, Dict.empty, settings.matcher files model, nesting⟩)

def handlers (s : Session m) : Handlers m := s.interpreter.handlers

def withHandlers (s : Session m) (handlers : Handlers m) : Session m :=
  { s with interpreter := { s.interpreter with handlers := handlers } }

/-- Adds a provider. In a started session it is engaged at once, and left out if that fails. -/
def add (s : Session m) (p : Provider m) : m (Except Failure Unit × Session m) := do
  if s.started then
    match ← p.engage s.handlers with
    | .error f => return (.error f, s)
    | .ok handlers =>
      return (.ok (), { s.withHandlers handlers with providers := s.providers ++ [p] })
  else return (.ok (), { s with providers := s.providers ++ [p] })

/-- Starts all providers. A session that is started stays as it is. -/
def start (s : Session m) : m (Except Failure Unit × Session m) := do
  if s.started then return (.ok (), s)
  match ← Provider.engageAll s.providers [] s.handlers with
  | (.ok (), handlers) => return (.ok (), { s.withHandlers handlers with started := true })
  | (.error f, handlers) => return (.error f, s.withHandlers handlers)

/-- Stops all providers, the last one first, and forgets what was gathered. -/
def stop (s : Session m) : m (Session m) := do
  if s.started then
    let handlers ← Provider.dismissAll s.providers.reverse s.handlers
    return { s.withHandlers handlers with started := false, gathered := Dict.empty }
  else return { s with gathered := Dict.empty }

def run (s : Session m) (body : Interpreter m → Bindings → m RunResult) :
    m (Except Failure Unit × Session m) := do
  let (result, gathered) ← body s.interpreter s.gathered
  return (result, { s with gathered := gathered })

def runStep (s : Session m) (text : String) : m (Except Failure Unit × Session m) :=
  s.run fun i => i.runStep text

def runActions (s : Session m) (actions : List Action) (args : Bindings) :
    m (Except Failure Unit × Session m) :=
  s.run fun i => i.runActions actions args

/-- Carries out the behavior of a concept that fits a text. -/
def runBehavior (s : Session m) (concept text : String) : m (Except Failure Unit × Session m) :=
  s.run fun i => i.runBehavior concept text

/-- Carries out the hooks of a phase that apply to a scenario with some tags. -/
def runHooks (s : Session m) (phase : Phase) (tags : List String) :
    m (Except Failure Unit × Session m) :=
  s.run fun i => i.runHooks phase tags

end Session
end StepScript
