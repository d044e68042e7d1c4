import StepScript.Script.Parser

/-!
The canonical text of definitions: one line for each marker and each action, in order. A space
before the colon of an action keeps its line apart from the markers, so an action named `Step` is
written `Step :text`.
-/

set_option autoImplicit false
set_option relaxedAutoImplicit false

namespace StepScript

/-- The name of an action with its argument in parentheses. -/
def Action.head (a : Action) : String :=
  match a.arg with
  | none => a.name
  | some arg => a.name ++ "(" ++ arg ++ ")"

def Action.line (a : Action) : String := a.head ++ " :" ++ a.text

namespace Script

/-- The lines of a marker, what stands behind it, and the actions under it. -/
def sectionLines (marker head : String) (actions : List Action) : List String :=
  (marker ++ " " ++ head) :: actions.map Action.line

def ofLines (lines : List String) : String := "\n".intercalate lines

end Script

def Step.lines (s : Step) : List String := Script.sectionLines Script.stepMarker s.pattern s.actions

def Behavior.lines (b : Behavior) : List String :=
  Script.sectionLines Script.behaviorMarker b.pattern b.actions

def Hook.lines (h : Hook) : List String :=
  Script.sectionLines (Script.hookMarker h.phase) h.tags h.actions

def Step.printAll (steps : List Step) : String := Script.ofLines (steps.flatMap Step.lines)

def Concept.print (c : Concept) : String :=
  Script.ofLines ((Script.conceptMarker ++ " " ++ c.name) :: c.behaviors.flatMap Behavior.lines)

def Hook.printAll (hooks : List Hook) : String := Script.ofLines (hooks.flatMap Hook.lines)

end StepScript
