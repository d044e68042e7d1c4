import StepScript.Environment

/-!
A service that offers a chat model: its address, a key, the name of the model and a time limit, all
taken from variables of the environment.
-/

set_option autoImplicit false
set_option relaxedAutoImplicit false

namespace StepScript

/-- A service that offers a chat model. -/
structure Service where
  /-- The address that `/chat/completions` is added to. -/
  baseUrl : String
  apiKey : Option String
  model : String
  timeout : Option Nat
  deriving DecidableEq, Repr, Inhabited

namespace Service

def usualAddress : String := "https://api.openai.com/v1"

def usualModel : String := "gpt-4o-mini"

/-- The number that some decimal digits stand for, if there are any. -/
def digitsValue? (cs : List Char) : Option Nat :=
  if cs.isEmpty || !cs.all Char.isDigit then none
  else some (cs.foldl (fun n c => n * 10 + (c.toNat - '0'.toNat)) 0)

/-- Reads an unsigned number of 64 bits, before which a plus sign may stand. -/
def word? (s : String) : Option Nat :=
  let digits := match s.toList with
    | '+' :: rest => rest
    | cs => cs
  (digitsValue? digits).bind fun n => if n < UInt64.size then some n else none

def ofEnvironment (env : Environment) : Service where
  baseUrl := (env.value? "LLM_BASE_URL").getD usualAddress
  apiKey := env.value? "LLM_API_KEY"
  model := (env.value? "LLM_MODEL_NAME").getD usualModel
  timeout := (env.value? "LLM_TIMEOUT_SECS").bind word?

/-- The address of requests: slashes at the end of the service's address do not count. -/
def url (s : Service) : String :=
  String.ofList ((s.baseUrl.toList.reverse.dropWhile (· == '/')).reverse) ++ "/chat/completions"

end Service
end StepScript
