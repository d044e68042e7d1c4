import StepScript.Script.Selector

/-!
What definition files define. A step or a behavior is a pattern with the actions it stands for; a
concept is a named group of behaviors; a hook ties actions to the start or the end of the scenarios
that its tag expression selects. Look-ups answer with the first record that fits.
-/

set_option autoImplicit false
set_option relaxedAutoImplicit false

namespace StepScript

/-- One instruction: the name of a handler or a concept, and the templates that it is given. -/
structure Action where
  name : String
  text : String
  arg : Option String
  deriving DecidableEq, Repr, Inhabited

/-- A pattern of a concept and the actions it stands for. -/
structure Behavior where
  pattern : String
  actions : List Action
  deriving DecidableEq, Repr, Inhabited

/-- A named group of behaviors. -/
structure Concept where
  name : String
  behaviors : List Behavior
  deriving DecidableEq, Repr, Inhabited

/-- A pattern of a scenario's step and the actions it stands for. -/
structure Step where
  pattern : String
  actions : List Action
  deriving DecidableEq, Repr, Inhabited

/-- When a hook runs. -/
inductive Phase
  | before
  | after
  deriving DecidableEq, Repr, Inhabited

/-- Actions that run before or after the scenarios with fitting tags. -/
structure Hook where
  phase : Phase
  tags : String
  selector : Selector
  actions : List Action
  deriving DecidableEq, Repr, Inhabited

/-- The definitions of a run. -/
structure Script where
  steps : List Step
  concepts : List Concept
  hooks : List Hook
  deriving DecidableEq, Repr, Inhabited

def Concept.patterns (c : Concept) : List String := c.behaviors.map Behavior.pattern

def Concept.behavior? (c : Concept) (pattern : String) : Option Behavior :=
  c.behaviors.find? fun b => b.pattern == pattern

namespace Script

def stepPatterns (script : Script) : List String := script.steps.map Step.pattern

def step? (script : Script) (pattern : String) : Option Step :=
  script.steps.find? fun s => s.pattern == pattern

def concept? (script : Script) (name : String) : Option Concept :=
  script.concepts.find? fun c => c.name == name

/-- The hooks of a phase that apply to a scenario with some tags, in order. -/
def hooksAt (script : Script) (phase : Phase) (tags : List String) : List Hook :=
  script.hooks.filter fun h => h.phase == phase && h.selector.accepts tags

end Script
end StepScript
