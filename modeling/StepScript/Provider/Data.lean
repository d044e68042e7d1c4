import StepScript.Conversation
import StepScript.Handler

/-!
The action `data`: questions about data and changes to it, carried out by a chat model that calls
the tools of some sources. The tools are collected from all sources when the provider starts. When
a name is offered more than once the last offer stands, at the place of the first, and calls go to
the source that made it.
-/

set_option autoImplicit false
set_option relaxedAutoImplicit false

namespace StepScript

/-- A place that a value is kept in. -/
structure Cell (m : Type → Type) (α : Type) where
  get : m α
  set : α → m Unit

/-- A source of tools. -/
structure ToolSource (m : Type → Type) where
  name : String
  list : m (Except Trouble (List Tool))
  call : String → Json → m (Except Trouble String)

/-- The tools on offer, and the number of the source that each is called at. -/
structure Offers where
  tools : List Tool
  routes : Dict Nat
  deriving Inhabited

namespace Offers

def empty : Offers := ⟨[], Dict.empty⟩

/-- Puts a tool in place of the first one with its name. -/
def replaceFirst (tool : Tool) : List Tool → List Tool
  | [] => []
  | other :: rest =>
    if other.name == tool.name then tool :: rest else other :: replaceFirst tool rest

def add (source : Nat) (offers : Offers) (tool : Tool) : Offers where
  tools :=
    if offers.routes.contains tool.name then replaceFirst tool offers.tools
    else offers.tools ++ [tool]
  routes := offers.routes.insert tool.name source

end Offers

/-- Carries out instructions about data. -/
structure DataActions (m : Type → Type) where
  sources : List (ToolSource m)
  assistant : Assistant m
  offers : Cell m Offers
  briefing : String
  useCache : Bool

namespace DataActions

/-- The namespace that conversations are remembered in. -/
def cacheScope : String := "data-agent"

def actionName : String := "data"

def defaultBriefing : String :=
  "\n".intercalate
    ["You answer questions about, and make changes to, backend data using the provided tools.",
      "",
      "Call the tools you need to carry out the user's instruction. When you are",
      "done, reply with JSON only. For a change with nothing to report:",
      "\x7b\"success\": true\x7d",
      "For a query, return every requested value as a string:",
      "\x7b\"success\": true, \"result\": \x7b\"<name>\": \"<value>\"\x7d\x7d",
      "If the instruction cannot be carried out, reply:",
      "\x7b\"success\": false, \"error\": \"<what went wrong>\"\x7d"]

variable {m : Type → Type} [Monad m]

/-- Adds the offers of sources, numbered from a start, up to the first that cannot be listed. -/
def collectFrom : Nat → Offers → List (ToolSource m) → m (Except Trouble Offers)
  | _, offers, [] => return .ok offers
  | index, offers, source :: rest => do
    match ← source.list with
    | .error t => return .error (t.within ("listing tools of provider " ++ source.name))
    | .ok tools => collectFrom (index + 1) (tools.foldl (Offers.add index) offers) rest

/-- Collects the offers of all sources. After an error the old ones stay. -/
def collect (a : DataActions m) : m (Except Trouble Unit) := do
  match ← collectFrom 0 .empty a.sources with
  | .error t => return .error t
  | .ok offers =>
    a.offers.set offers
    return .ok ()

def sourceOf? (a : DataActions m) (offers : Offers) (tool : String) : Option (ToolSource m) :=
  (offers.routes.find? tool).bind fun index => a.sources[index]?

def dispatch (a : DataActions m) : Dispatch m := fun call => do
  match a.sourceOf? (← a.offers.get) call.name with
  | none => return .error (.of ("Unknown tool: " ++ call.name))
  | some source =>
    match call.arguments? with
    | none => return .error call.undecodable
    | some arguments => source.call call.name arguments

def carryOut (a : DataActions m) (instruction : String) : m (Except Failure Outcome) := do
  let tools := (← a.offers.get).tools
  a.assistant.carryOut instruction ⟨a.briefing, tools, a.useCache, cacheScope⟩ a.dispatch

/-- The provider of the action `data`. To start it collects the offers, to stop it forgets them. -/
def provider (a : DataActions m) : Provider m where
  names := [actionName]
  start := a.collect
  stop := a.offers.set .empty
  handlers := return [(actionName, fun text _ => do return .ofResult (← a.carryOut text))]

end DataActions
end StepScript
