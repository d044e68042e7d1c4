import StepScript.Chat.Model
import StepScript.Chat.Service
import StepScript.Json.Extract

/-!
A chat model behind a service for chat completions. A request is the JSON object of the model, the
messages and the tools on offer; the reply is the message of the first choice in the JSON object
that comes back with a status of success.
-/

set_option autoImplicit false
set_option relaxedAutoImplicit false

namespace StepScript

open Json

/-- A request to a service. -/
structure ServiceRequest where
  url : String
  authorization : Option String
  timeout : Option Nat
  body : Json

/-- What comes back. The body is absent when it was cut short. -/
structure ServiceResponse where
  status : Nat
  body : Option String
  deriving Inhabited

/-- Sends a request; without a response the error is told in words. -/
abbrev Transport (m : Type → Type) := ServiceRequest → m (Except String ServiceResponse)

namespace Completion

def requestJson (model : String) (messages : List Message) (tools : List Tool) : Json :=
  .ofMembers ([("model", .string model), ("messages", Codec.encode messages),
    ("temperature", .ofNat 0)] ++
    (if tools.isEmpty then [] else [("tools", Codec.encode tools)]))

/-- Whether a character may stand in the value of a header. -/
def isHeaderChar (c : Char) : Bool :=
  c == '\t' || (32 ≤ c.toNat && c.toNat != 127)

def authorization? (key : String) : Except ChatError String :=
  if key.toList.all isHeaderChar then .ok ("Bearer " ++ key)
  else .error (.request "invalid API key header: failed to parse header value")

/-- The value of the header that carries the key, if there is one. -/
def authorization (s : Service) : Except ChatError (Option String) :=
  match s.apiKey with
  | none => .ok none
  | some key => (authorization? key).map some

def reasons : List (Nat × String) :=
  [(100, "Continue"), (101, "Switching Protocols"), (102, "Processing"), (103, "Early Hints"),
    (200, "OK"), (201, "Created"), (202, "Accepted"), (203, "Non Authoritative Information"),
    (204, "No Content"), (205, "Reset Content"), (206, "Partial Content"), (207, "Multi-Status"),
    (208, "Already Reported"), (226, "IM Used"), (300, "Multiple Choices"),
    (301, "Moved Permanently"), (302, "Found"), (303, "See Other"), (304, "Not Modified"),
    (305, "Use Proxy"), (307, "Temporary Redirect"), (308, "Permanent Redirect"),
    (400, "Bad Request"), (401, "Unauthorized"), (402, "Payment Required"), (403, "Forbidden"),
    (404, "Not Found"), (405, "Method Not Allowed"), (406, "Not Acceptable"),
    (407, "Proxy Authentication Required"), (408, "Request Timeout"), (409, "Conflict"),
    (410, "Gone"), (411, "Length Required"), (412, "Precondition Failed"),
    (413, "Payload Too Large"), (414, "URI Too Long"), (415, "Unsupported Media Type"),
    (416, "Range Not Satisfiable"), (417, "Expectation Failed"), (418, "I'm a teapot"),
    (421, "Misdirected Request"), (422, "Unprocessable Entity"), (423, "Locked"),
    (424, "Failed Dependency"), (425, "Too Early"), (426, "Upgrade Required"),
    (428, "Precondition Required"), (429, "Too Many Requests"),
    (431, "Request Header Fields Too Large"), (451, "Unavailable For Legal Reasons"),
    (500, "Internal Server Error"), (501, "Not Implemented"), (502, "Bad Gateway"),
    (503, "Service Unavailable"), (504, "Gateway Timeout"), (505, "HTTP Version Not Supported"),
    (506, "Variant Also Negotiates"), (507, "Insufficient Storage"), (508, "Loop Detected"),
    (510, "Not Extended"), (511, "Network Authentication Required")]

def reason (status : Nat) : String := (reasons.lookup status).getD "<unknown status code>"

def isSuccess (status : Nat) : Bool := 200 ≤ status && status < 300

def choiceOfJson? (v : Json) : Option Message :=
  (recordMembers? ["message"] v).bind (required? Message.ofJson? "message")

/-- The messages of the choices of a reply. -/
structure Choices where
  messages : List Message

def Choices.ofJson? (v : Json) : Option Choices :=
  ((recordMembers? ["choices"] v).bind (required? (items? choiceOfJson?) "choices")).map .mk

instance : Codec Choices where
  shape := .record [("choices", .list (.record [("message", Message.shape)]))]
  encode c := .ofMembers
    [("choices", .array (c.messages.map fun message => .ofMembers [("message", message.toJson)]))]
  decode? := Choices.ofJson?

def messageOf (url : String) (response : ServiceResponse) : Except ChatError Message :=
  if isSuccess response.status then
    match response.body.bind fun body => (decodeText? body : Option Choices) with
    | none => .error (.unreadableReply ("failed to parse completion payload: " ++ malformedText))
    | some ⟨[]⟩ => .error (.unreadableReply "completion payload has no choices")
    | some ⟨message :: _⟩ => .ok message
  else
    .error (.request ("endpoint " ++ url ++ " returned " ++ toString response.status ++ " " ++
      reason response.status ++ ": " ++ response.body.getD "<failed to read error body>"))

variable {m : Type → Type} [Monad m]

def model (s : Service) (send : Transport m) : ChatModel m where
  ask messages tools := do
    match authorization s with
    | .error e => return .error e
    | .ok authorization =>
      match ← send ⟨s.url, authorization, s.timeout, requestJson s.model messages tools⟩ with
      | .error detail => return .error (.request ("request to " ++ s.url ++ " failed: " ++ detail))
      | .ok response => return messageOf s.url response

end Completion
end StepScript
