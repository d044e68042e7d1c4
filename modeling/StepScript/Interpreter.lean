import StepScript.Handler
import StepScript.Matcher
import StepScript.Script.Basic

/-!
Carrying out a script. Templates are filled in first. A name with a handler is a primitive action,
whose results are gathered; any other name is a concept, and the behavior that fits the text gives
the actions to carry out in its place, with the values of its placeholders as their only arguments.
Everything happens in order, and the first failure ends the run; what was gathered by then stays.
-/

set_option autoImplicit false
set_option relaxedAutoImplicit false

namespace StepScript

/-- What a script is carried out with. -/
structure Interpreter (m : Type → Type) where
  script : Script
  handlers : Handlers m
  matcher : Matcher m
  /-- How many concepts may be open inside each other before a run is given up. -/
  nesting : Nat

/-- The end of a run: whether it failed, and what has been gathered. -/
abbrev RunResult := Except Failure Unit × Bindings

namespace Interpreter

variable {m : Type → Type} [Monad m]

/-- Carries out items in order, up to the first failure. -/
def inSequence {α : Type} (one : α → Bindings → m RunResult) : List α → Bindings → m RunResult
  | [], gathered => return (.ok (), gathered)
  | a :: rest, gathered => do
    match ← one a gathered with
    | (.error f, gathered) => return (.error f, gathered)
    | (.ok (), gathered) => inSequence one rest gathered

/-- The pattern that the matcher chooses. It is not asked without patterns, and an answer that is
none of them counts as nothing. -/
def choose (i : Interpreter m) (patterns : List String) (text : String) :
    m (Except Failure (Option Match)) := do
  if patterns.isEmpty then return .ok none
  match ← i.matcher.find patterns text with
  | .error f => return .error f
  | .ok none => return .ok none
  | .ok (some found) =>
    return .ok (if patterns.contains found.pattern then some found else none)

/-- The behavior of a concept that fits a text, and the values of its placeholders. -/
def chooseBehavior (i : Interpreter m) (concept : Concept) (text : String) :
    m (Except Failure (Option (Behavior × Bindings))) := do
  match ← i.choose concept.patterns text with
  | .error f => return .error f
  | .ok none => return .ok none
  | .ok (some found) =>
    return .ok ((concept.behavior? found.pattern).map fun behavior => (behavior, found.captures))

def runPrimitive (i : Interpreter m) (name text : String) (arg : Option String)
    (gathered : Bindings) : m RunResult := do
  let outcome ← i.handlers.call name text arg
  if outcome.success then
    return (.ok (), gathered.merge (outcome.result.getD Dict.empty))
  else return (.error (.action (.failed name outcome.errorText)), gathered)

/-- Carries out an action. The second argument is how many concepts may still be opened. -/
def runAction (i : Interpreter m) : Nat → Bindings → Action → Bindings → m RunResult
  | room, args, action, gathered => do
    let text := Template.fill args gathered action.text
    if i.handlers.contains action.name then
      i.runPrimitive action.name text (action.arg.map (Template.fill args gathered)) gathered
    else
      match i.script.concept? action.name with
      | none => return (.error (.action (.unknown action.name text)), gathered)
      | some concept =>
        match ← i.chooseBehavior concept text with
        | .error f => return (.error f, gathered)
        | .ok none => return (.error (.action (.unknown action.name text)), gathered)
        | .ok (some (behavior, captures)) =>
          match room with
          | 0 => return (.error .unfinished, gathered)
          | room + 1 => inSequence (i.runAction room captures) behavior.actions gathered

def runActions (i : Interpreter m) (actions : List Action) (args gathered : Bindings) :
    m RunResult :=
  inSequence (i.runAction i.nesting args) actions gathered

def runStep (i : Interpreter m) (text : String) (gathered : Bindings) : m RunResult := do
  match ← i.choose i.script.stepPatterns text with
  | .error f => return (.error f, gathered)
  | .ok none => return (.error (.action (.stepNotFound text)), gathered)
  | .ok (some found) =>
    match i.script.step? found.pattern with
    | none => return (.error (.action (.stepNotFound text)), gathered)
    | some step => i.runActions step.actions found.captures gathered

/-- Carries out the behavior of a concept that fits a text. -/
def runBehavior (i : Interpreter m) (concept text : String) (gathered : Bindings) :
    m RunResult := do
  match i.script.concept? concept with
  | none => return (.error (.action (.unknownConcept concept)), gathered)
  | some found =>
    match ← i.chooseBehavior found text with
    | .error f => return (.error f, gathered)
    | .ok none => return (.error (.action (.noMatchingBehavior concept text)), gathered)
    | .ok (some (behavior, captures)) => i.runActions behavior.actions captures gathered

/-- Carries out the hooks of a phase that apply to a scenario with some tags, without arguments. -/
def runHooks (i : Interpreter m) (phase : Phase) (tags : List String) (gathered : Bindings) :
    m RunResult :=
  inSequence (fun hook gathered => i.runActions hook.actions Dict.empty gathered)
    (i.script.hooksAt phase tags) gathered

end Interpreter
end StepScript
