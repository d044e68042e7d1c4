import StepScript.Script.Basic
import StepScript.Json.Codec

/-!
The JSON form of definitions: records with the members `name`, `text`, `arg`, `actions` and
`behaviors`; an action without an argument has no `arg`. The phase of a hook is `before` or
`after`.
-/

set_option autoImplicit false
set_option relaxedAutoImplicit false

namespace StepScript

open Json

def Action.toJson (a : Action) : Json :=
  .ofMembers ([("name", .string a.name), ("text", .string a.text)] ++ member "arg" .string a.arg)

def Action.ofJson? (v : Json) : Option Action := do
  let r ← recordMembers? ["name", "text", "arg"] v
  let name ← required? text? "name" r
  let text ← required? text? "text" r
  let arg ← optional? text? "arg" r
  return ⟨name, text, arg⟩

def Action.shape : Shape := .record [("name", .any), ("text", .any), ("arg", .any)]

instance : Codec Action := ⟨Action.shape, Action.toJson, Action.ofJson?⟩

def patternToJson (pattern : String) (actions : List Action) : Json :=
  .ofMembers [("text", .string pattern), ("actions", .array (actions.map Action.toJson))]

def patternOfJson? (v : Json) : Option (String × List Action) := do
  let r ← recordMembers? ["text", "actions"] v
  let pattern ← required? text? "text" r
  let actions ← required? (items? Action.ofJson?) "actions" r
  return (pattern, actions)

def patternShape : Shape := .record [("text", .any), ("actions", .list Action.shape)]

def Behavior.toJson (b : Behavior) : Json := patternToJson b.pattern b.actions

def Behavior.ofJson? (v : Json) : Option Behavior :=
  (patternOfJson? v).map fun r => ⟨r.1, r.2⟩

instance : Codec Behavior := ⟨patternShape, Behavior.toJson, Behavior.ofJson?⟩

def Step.toJson (s : Step) : Json := patternToJson s.pattern s.actions

def Step.ofJson? (v : Json) : Option Step :=
  (patternOfJson? v).map fun r => ⟨r.1, r.2⟩

instance : Codec Step := ⟨patternShape, Step.toJson, Step.ofJson?⟩

def Concept.toJson (c : Concept) : Json :=
  .ofMembers [("name", .string c.name), ("behaviors", .array (c.behaviors.map Behavior.toJson))]

def Concept.ofJson? (v : Json) : Option Concept := do
  let r ← recordMembers? ["name", "behaviors"] v
  let name ← required? text? "name" r
  let behaviors ← required? (items? Behavior.ofJson?) "behaviors" r
  return ⟨name, behaviors⟩

instance : Codec Concept :=
  ⟨.record [("name", .any), ("behaviors", .list patternShape)], Concept.toJson, Concept.ofJson?⟩

def Phase.name : Phase → String
  | .before => "before"
  | .after => "after"

def Phase.ofName? : String → Option Phase
  | "before" => some .before
  | "after" => some .after
  | _ => none

instance : Codec Phase := ⟨.choice, fun phase => .string phase.name, choice? Phase.ofName?⟩

end StepScript
