import StepScript.Text.Blank

/-!
The variables of the environment. A variable counts when something is left of its value after
trimming.
-/

set_option autoImplicit false
set_option relaxedAutoImplicit false

namespace StepScript

abbrev Environment := String → Option String

/-- The trimmed value of a variable, when it is not empty. -/
def Environment.value? (env : Environment) (name : String) : Option String :=
  match (env name).map Text.trim with
  | some value => if value == "" then none else some value
  | none => none

end StepScript
