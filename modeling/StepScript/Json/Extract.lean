import StepScript.Failure
import StepScript.Json.Codec

/-!
JSON objects in the free text of a model's reply. The object reaches from the first opening brace
to the last closing one; what stands around it is ignored.
-/

set_option autoImplicit false
set_option relaxedAutoImplicit false

namespace StepScript.Json

/-- What is said of text that is no JSON of the wanted kind. -/
def malformedText : String := "malformed JSON text"

/-- The characters from the first opening brace to the last closing one behind it. -/
def objectChars? (cs : List Char) : Option (List Char) :=
  match ((cs.dropWhile (· != '\x7b')).reverse.dropWhile (· != '\x7d')).reverse with
  | [] => none
  | found => some found

/-- The text from the first opening brace to the last closing one behind it. -/
def objectText? (text : String) : Option String :=
  (objectChars? text.toList).map String.ofList

def unreadable {α : Type} (text : String) : Except ChatError α :=
  .error (.unreadableReply (malformedText ++ " in: " ++ text))

def objectIn (text : String) : Except ChatError Json :=
  match objectText? text with
  | none => .error (.unreadableReply ("No JSON string found in: " ++ text))
  | some raw =>
    match Json.read? raw with
    | some v => .ok v
    | none => unreadable text

def recordIn {α : Type} [Codec α] (text : String) : Except ChatError α :=
  match objectIn text with
  | .ok v =>
    match Codec.decode? v with
    | some a => .ok a
    | none => unreadable text
  | .error e => .error e

end StepScript.Json
