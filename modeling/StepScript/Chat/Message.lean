import StepScript.Json.Codec
import StepScript.Text.Blank

/-!
A conversation with a chat model that may call tools, and the JSON form of its parts. A message has
an author and a content; an assistant's message may ask for tool calls, and a tool's message
answers one of them by its identifier. The content is always written, `null` if there is none; tool
calls and the identifier are written when there are any.
-/

set_option autoImplicit false
set_option relaxedAutoImplicit false

namespace StepScript

open Json

/-- A request to call a tool. -/
structure ToolCall where
  id : String
  /-- What is called: `function` unless another word is given. -/
  kind : String
  name : String
  arguments : String
  deriving DecidableEq, Repr, Inhabited

/-- A tool that a model may call. -/
structure Tool where
  /-- What is offered: `function` unless another word is given. -/
  kind : String
  name : String
  description : Option String
  parameters : Json
  deriving Repr, Inhabited

/-- The author of a message. -/
inductive Role
  | system
  | user
  | assistant
  | tool
  deriving DecidableEq, Repr, Inhabited

/-- One message of a conversation. -/
structure Message where
  role : Role
  content : Option String
  toolCalls : List ToolCall
  answers : Option String
  deriving DecidableEq, Repr, Inhabited

def usualKind : String := "function"

namespace ToolCall

def function (id name arguments : String) : ToolCall := ⟨id, usualKind, name, arguments⟩

/-- The decoded arguments. Blank arguments are an empty object. -/
def arguments? (c : ToolCall) : Option Json :=
  if Text.allBlank c.arguments then some (.object []) else Json.read? c.arguments

def toJson (c : ToolCall) : Json :=
  .ofMembers [("id", .string c.id), ("type", .string c.kind),
    ("function", .ofMembers [("name", .string c.name), ("arguments", .string c.arguments)])]

def functionOfJson? (v : Json) : Option (String × String) := do
  let r ← recordMembers? ["name", "arguments"] v
  let name ← required? text? "name" r
  let arguments ← defaulted? text? "" "arguments" r
  return (name, arguments)

def ofJson? (v : Json) : Option ToolCall := do
  let r ← recordMembers? ["id", "type", "function"] v
  let id ← required? text? "id" r
  let kind ← defaulted? text? usualKind "type" r
  let function ← required? functionOfJson? "function" r
  return ⟨id, kind, function.1, function.2⟩

def shape : Shape :=
  .record [("id", .any), ("type", .any),
    ("function", .record [("name", .any), ("arguments", .any)])]

instance : Codec ToolCall := ⟨shape, toJson, ofJson?⟩

end ToolCall

namespace Tool

def function (name description : String) (parameters : Json) : Tool :=
  ⟨usualKind, name, some description, parameters⟩

def toJson (t : Tool) : Json :=
  .ofMembers [("type", .string t.kind),
    ("function", .ofMembers ([("name", .string t.name)] ++
      member "description" .string t.description ++ [("parameters", t.parameters)]))]

/-- The name, the description and the parameters of a tool. -/
def functionOfJson? (v : Json) : Option (String × Option String × Json) := do
  let r ← recordMembers? ["name", "description", "parameters"] v
  let name ← required? text? "name" r
  let description ← optional? text? "description" r
  let parameters ← required? some "parameters" r
  return (name, description, parameters)

def ofJson? (v : Json) : Option Tool := do
  let r ← recordMembers? ["type", "function"] v
  let kind ← defaulted? text? usualKind "type" r
  let function ← required? functionOfJson? "function" r
  return ⟨kind, function.1, function.2.1, function.2.2⟩

instance : Codec Tool where
  shape := .record [("type", .any),
    ("function", .record [("name", .any), ("description", .any), ("parameters", .any)])]
  encode := toJson
  decode? := ofJson?

end Tool

namespace Role

def name : Role → String
  | .system => "system"
  | .user => "user"
  | .assistant => "assistant"
  | .tool => "tool"

def ofName? : String → Option Role
  | "system" => some .system
  | "user" => some .user
  | "assistant" => some .assistant
  | "tool" => some .tool
  | _ => none

end Role

namespace Message

def plain (role : Role) (content : String) : Message := ⟨role, some content, [], none⟩

def system (content : String) : Message := plain .system content

def user (content : String) : Message := plain .user content

def assistant (content : String) : Message := plain .assistant content

def answerTo (id content : String) : Message := ⟨.tool, some content, [], some id⟩

def asksForTools (m : Message) : Bool := !m.toolCalls.isEmpty

def toJson (m : Message) : Json :=
  .ofMembers ([("role", .string m.role.name), ("content", textOrNull m.content)] ++
    (if m.toolCalls.isEmpty then []
      else [("tool_calls", .array (m.toolCalls.map ToolCall.toJson))]) ++
    member "tool_call_id" .string m.answers)

def ofJson? (v : Json) : Option Message := do
  let r ← recordMembers? ["role", "content", "tool_calls", "tool_call_id"] v
  let role ← required? (choice? Role.ofName?) "role" r
  let content ← optional? text? "content" r
  let toolCalls ← defaulted? (items? ToolCall.ofJson?) [] "tool_calls" r
  let answers ← optional? text? "tool_call_id" r
  return ⟨role, content, toolCalls, answers⟩

def shape : Shape :=
  .record [("role", .choice), ("content", .any), ("tool_calls", .list ToolCall.shape),
    ("tool_call_id", .any)]

instance : Codec Message := ⟨shape, toJson, ofJson?⟩

end Message
end StepScript
