import StepScript.Json.Codec
import StepScript.Json.Writer

/-!
The outcome of an action: success or failure, a map of results that may be absent, and an error
text that may be absent. In the JSON form absent parts are left out. A result that is no string is
read as text: nothing for `null`, and the compact JSON text of any other value.
-/

set_option autoImplicit false
set_option relaxedAutoImplicit false

namespace StepScript

open Json

/-- The outcome of an action. -/
structure Outcome where
  success : Bool
  result : Option (Dict String)
  error : Option String
  deriving DecidableEq

namespace Outcome

def ok : Outcome := ⟨true, none, none⟩

def returning (result : Dict String) : Outcome := ⟨true, some result, none⟩

def failure (message : String) : Outcome := ⟨false, none, some message⟩

def errorText (o : Outcome) : String := o.error.getD "unknown error"

def resultText : Json → String
  | .string s => s
  | .null => ""
  | v => v.compact

def toJson (o : Outcome) : Json :=
  .ofMembers ([("success", .bool o.success)] ++ member "result" ofTexts o.result ++
    member "error" .string o.error)

def ofJson? (v : Json) : Option Outcome := do
  let r ← recordMembers? ["success", "result", "error"] v
  let success ← required? bool? "success" r
  let result ← optional? (dict? fun v => some (resultText v)) "result" r
  let error ← optional? text? "error" r
  return ⟨success, result, error⟩

instance : Codec Outcome :=
  ⟨.record [("success", .any), ("result", .dict .any), ("error", .any)], toJson, ofJson?⟩

end Outcome
end StepScript
