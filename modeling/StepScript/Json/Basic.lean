import StepScript.Decimal.Double
import StepScript.Dict

/-!
JSON values. Numbers are integers or doubles, and the members of an object ascend by name, so an
object is built from a map or from members of which the last of a name holds.
-/

set_option autoImplicit false
set_option relaxedAutoImplicit false

namespace StepScript

/-- A number of a JSON document. -/
inductive Json.Number
  | integer (n : Int)
  | double (d : Decimal.Double)
  deriving DecidableEq, Repr, Inhabited

/-- A JSON value. -/
inductive Json
  | null
  | bool (b : Bool)
  | number (n : Json.Number)
  | string (s : String)
  | array (items : List Json)
  | object (members : List (String × Json))
  deriving Repr, Inhabited, BEq

namespace Json

def ofDict (d : Dict Json) : Json := .object d.entries

/-- The object of some members, in which the last member of a name holds. -/
def ofMembers (members : List (String × Json)) : Json := ofDict (Dict.ofList members)

def ofNat (n : Nat) : Json := .number (.integer n)

def textOrNull : Option String → Json
  | none => .null
  | some s => .string s

def ofTexts (d : Dict String) : Json := ofDict (d.mapValues .string)

/-- The member of a name, when the value is an object that has it. -/
def member? (v : Json) (name : String) : Option Json :=
  match v with
  | .object members => Dict.lookup name members
  | _ => none

def text? : Json → Option String
  | .string s => some s
  | _ => none

end Json
end StepScript
