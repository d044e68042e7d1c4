import StepScript.Path

/-!
Why definitions cannot be loaded, and the wording of each cause.
-/

set_option autoImplicit false
set_option relaxedAutoImplicit false

namespace StepScript

/-- What is wrong with a tag expression. -/
inductive Selector.Fault
  | tooDeep
  | unbalanced
  | expectedTag (found : String)
  | unexpectedEnd
  | leftOver (token : String)
  deriving DecidableEq, Repr

def Selector.Fault.message : Selector.Fault → String
  | .tooDeep => "expression is nested too deeply"
  | .unbalanced => "unbalanced parenthesis"
  | .expectedTag found => "expected a tag, found '" ++ found ++ "'"
  | .unexpectedEnd => "unexpected end of tag expression"
  | .leftOver token => "unexpected token '" ++ token ++ "'"

/-- What is wrong with a line. -/
inductive Script.Fault
  | missingDelimiter
  | emptyActionName
  | emptyActionText
  | emptyStepText
  | emptyBehaviorText
  | emptyConceptName
  | colonInConceptName
  | secondConcept
  | missingConcept
  | actionBeforeStep
  | actionBeforeBehavior
  | actionBeforeHook
  | selector (fault : Selector.Fault)
  deriving DecidableEq, Repr

def Script.Fault.message : Script.Fault → String
  | .missingDelimiter => "missing ':' delimiter"
  | .emptyActionName => "action name is empty"
  | .emptyActionText => "action text is empty"
  | .emptyStepText => "step text is empty"
  | .emptyBehaviorText => "behavior text is empty"
  | .emptyConceptName => "concept name is empty"
  | .colonInConceptName => "concept name must not contain ':'"
  | .secondConcept => "only one concept may be defined per unit"
  | .missingConcept => "missing Concept: header"
  | .actionBeforeStep => "action appears before any Step: marker"
  | .actionBeforeBehavior => "action appears before any Behavior: marker"
  | .actionBeforeHook => "action appears before any hook marker"
  | .selector fault => "invalid tag expression: " ++ fault.message

/-- Why definitions cannot be loaded. -/
inductive ScriptError
  | malformed (line : String) (fault : Script.Fault)
  /-- There is no file or directory at the place to load from. -/
  | missingSource (path : Path)
  | duplicateConcept (name : String)
  | unreadable (detail : String)
  deriving DecidableEq, Repr

def ScriptError.message : ScriptError → String
  | .malformed line fault =>
    "invalid definition format in line \"" ++ line ++ "\": " ++ fault.message
  | .missingSource path => "definition file or directory does not exist: " ++ path.text
  | .duplicateConcept name => "concept '" ++ name ++ "' is defined more than once"
  | .unreadable detail => "IO error: " ++ detail

end StepScript
