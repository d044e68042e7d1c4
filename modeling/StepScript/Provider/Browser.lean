import StepScript.Conversation
import StepScript.Handler

/-!
The action `browser`: instructions to a web browser, carried out by a chat model that calls the
browser's operations as tools. A call reaches the browser only with decodable arguments, a known
name and every string that the operation needs.
-/

set_option autoImplicit false
set_option relaxedAutoImplicit false

namespace StepScript

open Json

/-- The operations of a web browser. -/
structure Browser (m : Type → Type) where
  openUrl : String → m (Except Trouble Unit)
  saveScreenshot : String → m (Except Trouble Unit)
  saveVideo : String → m (Except Trouble Unit)
  deleteVideo : m (Except Trouble Unit)
  addLocalStorageItem : String → String → m (Except Trouble Unit)
  quit : m (Except Trouble Unit)

/-- Carries out instructions to a browser. -/
structure BrowserActions (m : Type → Type) where
  browser : Browser m
  assistant : Assistant m
  briefing : String
  useCache : Bool

namespace BrowserActions

/-- The namespace that conversations are remembered in. -/
def cacheScope : String := "browser-agent"

def actionName : String := "browser"

def defaultBriefing : String :=
  "\n".intercalate
    ["You control a web browser through the provided tools.",
      "",
      "Carry out the user's instruction by calling tools. Call only the tools you",
      "need, in the order the instruction implies. When you are done, reply with JSON",
      "only:",
      "\x7b\"success\": true\x7d",
      "If the instruction asks for information, include it as string values:",
      "\x7b\"success\": true, \"result\": \x7b\"<name>\": \"<value>\"\x7d\x7d",
      "If the instruction cannot be carried out, reply:",
      "\x7b\"success\": false, \"error\": \"<what went wrong>\"\x7d"]

def textProperty (description : String) : Json :=
  .ofMembers [("type", .string "string"), ("description", .string description)]

/-- The schema of arguments that are all strings and must all be there. -/
def textParameters (properties : List (String × String)) : Json :=
  .ofMembers ([("type", .string "object"),
    ("properties", .ofMembers (properties.map fun p => (p.1, textProperty p.2)))] ++
    (if properties.isEmpty then []
      else [("required", .array (properties.map fun p => .string p.1))]))

def tools : List Tool :=
  [.function "open" "Open the specified URL" (textParameters [("url", "URL to open")]),
    .function "saveScreenshot" "Save a screenshot of the current page"
      (textParameters [("name", "Screenshot filename (without extension)")]),
    .function "saveVideo" "Save the recorded video"
      (textParameters [("name", "Video filename (without extension)")]),
    .function "deleteVideo" "Delete the recorded video" (textParameters []),
    .function "addItemInLocalStorage" "Add an item to local storage"
      (textParameters [("key", "Storage key"), ("value", "Storage value")]),
    .function "quit" "Close the browser" (textParameters [])]

/-- An operation with its arguments. -/
inductive Operation
  | openUrl (url : String)
  | saveScreenshot (name : String)
  | saveVideo (name : String)
  | deleteVideo
  | addLocalStorageItem (key value : String)
  | quit
  deriving DecidableEq, Repr

def textArgument (arguments : Json) (name : String) : Except Trouble String :=
  match (arguments.member? name).bind text? with
  | some text => .ok text
  | none => .error (.of ("missing string argument '" ++ name ++ "'"))

/-- The operation that a tool's name and decoded arguments stand for. -/
def Operation.ofCall (name : String) (arguments : Json) : Except Trouble Operation :=
  match name with
  | "open" => (textArgument arguments "url").map .openUrl
  | "saveScreenshot" => (textArgument arguments "name").map .saveScreenshot
  | "saveVideo" => (textArgument arguments "name").map .saveVideo
  | "deleteVideo" => .ok .deleteVideo
  | "addItemInLocalStorage" =>
    match textArgument arguments "key" with
    | .error t => .error t
    | .ok key => (textArgument arguments "value").map (.addLocalStorageItem key)
  | "quit" => .ok .quit
  | name => .error (.of ("Unknown tool: " ++ name))

/-- What a model is told of an operation that was carried out. -/
def Operation.details : Operation → String
  | .openUrl url => "Successfully opened URL: " ++ url
  | .saveScreenshot name => "Screenshot saved as: " ++ name ++ ".png"
  | .saveVideo name => "Video saved as: " ++ name ++ ".webm"
  | .deleteVideo => "Video deleted"
  | .addLocalStorageItem key value => "Added local storage item: " ++ key ++ " = " ++ value
  | .quit => "Browser closed"

variable {m : Type → Type} [Monad m]

def perform (b : Browser m) : Operation → m (Except Trouble Unit)
  | .openUrl url => b.openUrl url
  | .saveScreenshot name => b.saveScreenshot name
  | .saveVideo name => b.saveVideo name
  | .deleteVideo => b.deleteVideo
  | .addLocalStorageItem key value => b.addLocalStorageItem key value
  | .quit => b.quit

def operationOf (call : ToolCall) : Except Trouble Operation :=
  match call.arguments? with
  | none => .error call.undecodable
  | some arguments => Operation.ofCall call.name arguments

def dispatch (a : BrowserActions m) : Dispatch m := fun call => do
  match operationOf call with
  | .error t => return .error t
  | .ok operation =>
    match ← perform a.browser operation with
    | .error t => return .error t
    | .ok () =>
      let answer := Json.ofMembers
        [("action", .string call.name), ("details", .string operation.details)]
      return .ok answer.compact

def carryOut (a : BrowserActions m) (instruction : String) : m (Except Failure Outcome) :=
  a.assistant.carryOut instruction ⟨a.briefing, tools, a.useCache, cacheScope⟩ a.dispatch

/-- The provider of the action `browser`. It stops by closing the browser, if that works. -/
def provider (a : BrowserActions m) : Provider m where
  names := [actionName]
  start := return .ok ()
  stop := do
    let _ ← a.browser.quit
    return ()
  handlers := return [(actionName, fun text _ => do return .ofResult (← a.carryOut text))]

end BrowserActions
end StepScript
