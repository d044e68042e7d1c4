import StepScript.Cache
import StepScript.Chat.Model
import StepScript.Outcome

/-!
Conversations in which a chat model carries out an instruction by calling tools. The calls of each
reply are made in order and answered one by one, until a reply asks for none; its text then holds
the outcome. A conversation that succeeds without results is remembered as the list of its calls,
under the instruction. Such a list can be played back later without the model; if a call fails on
the way, the conversation takes place as if nothing had been remembered.
-/

set_option autoImplicit false
set_option relaxedAutoImplicit false

namespace StepScript

abbrev Dispatch (m : Type → Type) := ToolCall → m (Except Trouble String)

def ToolCall.undecodable (call : ToolCall) : Trouble :=
  ⟨["invalid arguments for " ++ call.name, Json.malformedText]⟩

/-- How an instruction is carried out. -/
structure Assignment where
  briefing : String
  tools : List Tool
  /-- Whether a remembered conversation is played back. -/
  useCache : Bool
  /-- The namespace that conversations are remembered in. -/
  scope : String

/-- The namespace of conversations where no other is named. -/
def Assignment.defaultScope : String := "llm"

/-- What instructions are carried out with. -/
structure Assistant (m : Type → Type) where
  model : ChatModel m
  cache : Cache
  files : FileAccess m
  /-- How many replies may ask for tools; any number if there is no limit. -/
  roundLimit : Option Nat
  /-- After how many replies a conversation without a limit is given up. -/
  patience : Nat

/-- A conversation: its messages, and the calls made in it. -/
structure Conversation where
  messages : List Message
  calls : List ToolCall
  deriving Inhabited

namespace Conversation

def opening (briefing instruction : String) : Conversation :=
  ⟨[.system briefing, .user instruction], []⟩

def hear (c : Conversation) (reply : Message) : Conversation :=
  { c with messages := c.messages ++ [reply] }

def report (call : ToolCall) : Except Trouble String → String
  | .ok content => content
  | .error t => "Error executing tool \"" ++ call.name ++ "\": " ++ t.chain

/-- The conversation with one more call and its answer. -/
def answer (c : Conversation) (call : ToolCall) (result : Except Trouble String) : Conversation :=
  ⟨c.messages ++ [.answerTo call.id (report call result)], c.calls ++ [call]⟩

/-- Whether a conversation with an outcome is remembered: it has no results and made calls. -/
def isWorthKeeping (o : Outcome) (calls : List ToolCall) : Bool :=
  o.result.isNone && !calls.isEmpty

def outcomeOf (instruction : String) (reply : Message) : Except Failure Outcome :=
  match (Json.recordIn (reply.content.getD "") : Except ChatError Outcome) with
  | .error e => .error (.chat e)
  | .ok o => if o.success then .ok o else .error (.chat (.refused instruction o.error))

end Conversation

namespace Assistant

variable {m : Type → Type} [Monad m]

def answerAll (dispatch : Dispatch m) : List ToolCall → Conversation → m Conversation
  | [], c => return c
  | call :: rest, c => do
    let result ← dispatch call
    answerAll dispatch rest (c.answer call result)

/-- Converses until a reply asks for no tools. The second argument is how many more replies that ask
for tools are honoured, and `stop` is what one more of them comes to. The answer is the last reply
and the calls made. -/
def converse (a : Assistant m) (tools : List Tool) (dispatch : Dispatch m) (stop : Failure) :
    Nat → Conversation → m (Except Failure (Message × List ToolCall))
  | room, c => do
    match ← a.model.ask c.messages tools with
    | .error e => return .error (.chat e)
    | .ok reply =>
      if reply.asksForTools then
        match room with
        | 0 => return .error stop
        | room + 1 =>
          let c ← answerAll dispatch reply.toolCalls (c.hear reply)
          a.converse tools dispatch stop room c
      else return .ok (reply, c.calls)

/-- How many replies may ask for tools, and what one more comes to. -/
def bound (a : Assistant m) : Nat × Failure :=
  match a.roundLimit with
  | some limit => (limit, .chat (.tooManyRounds limit))
  | none => (a.patience, .unfinished)

def carryOutLive (a : Assistant m) (instruction : String) (task : Assignment)
    (dispatch : Dispatch m) : m (Except Failure Outcome) := do
  let (room, stop) := a.bound
  match ← a.converse task.tools dispatch stop room (.opening task.briefing instruction) with
  | .error f => return .error f
  | .ok (reply, calls) =>
    match Conversation.outcomeOf instruction reply with
    | .error f => return .error f
    | .ok o =>
      if Conversation.isWorthKeeping o calls then
        let _ ← a.cache.write a.files task.scope instruction calls
      return .ok o

/-- Makes calls in order for as long as they succeed. The answer is whether all did. -/
def repeatCalls (dispatch : Dispatch m) : List ToolCall → m Bool
  | [] => return true
  | call :: rest => do
    match ← dispatch call with
    | .ok _ => repeatCalls dispatch rest
    | .error _ => return false

/-- The calls that are remembered for an instruction; none if there are none or they cannot be
read. -/
def remembered (a : Assistant m) (scope instruction : String) : m (List ToolCall) := do
  match ← a.cache.read? a.files scope instruction with
  | .ok found => return found.getD []
  | .error _ => return []

/-- Plays back what is remembered for an instruction. The answer is whether there was something and
all its calls succeeded. -/
def playBack (a : Assistant m) (instruction : String) (task : Assignment)
    (dispatch : Dispatch m) : m Bool := do
  match ← a.remembered task.scope instruction with
  | [] => return false
  | call :: calls => repeatCalls dispatch (call :: calls)

/-- Carries out an instruction, played back if that is asked for and possible. -/
def carryOut (a : Assistant m) (instruction : String) (task : Assignment)
    (dispatch : Dispatch m) : m (Except Failure Outcome) := do
  if task.useCache then
    if ← a.playBack instruction task dispatch then return .ok .ok
  a.carryOutLive instruction task dispatch

end Assistant
end StepScript
