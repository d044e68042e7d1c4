import StepScript.Dict
import StepScript.Text.Blank
import StepScript.Text.Search

/-!
Templates hold names in double brackets, `[[name]]`, each on one line. A name is filled in with its
value among the arguments at hand, else with its value among those that a run has gathered, else
with nothing; an empty value counts as none. What has been filled in is not looked at again.
-/

set_option autoImplicit false
set_option relaxedAutoImplicit false

namespace StepScript

abbrev Bindings := Dict String

namespace Template

def opening : List Char := ['[', '[']

def closing : List Char := [']', ']']

/-- The value of a name when it has one that is not empty. -/
def present? (bindings : Bindings) (name : String) : Option String :=
  match bindings.find? name with
  | some value => if value = "" then none else some value
  | none => none

def valueOf (args gathered : Bindings) (name : String) : String :=
  ((present? args name).or (present? gathered name)).getD ""

/-- What stands in place of the characters between two pairs of brackets. -/
def fillName (args gathered : Bindings) (name : List Char) : List Char :=
  (valueOf args gathered (String.ofList (Text.trimChars name))).toList

theorem length_of_cutAtFirst {mark cs before after : List Char}
    (h : Text.cutAtFirst mark cs = some (before, after)) :
    cs.length = before.length + mark.length + after.length := by
  simp [Text.eq_append_of_cutAtFirst h, Nat.add_assoc]

/-- Fills in the names among some characters. Brackets that are not closed, or not on their line,
are plain characters. -/
def fillChars (args gathered : Bindings) (cs : List Char) : List Char :=
  match _hOpen : Text.cutAtFirst opening cs with
  | none => cs
  | some (before, inside) =>
    match _hClose : Text.cutAtFirst closing inside with
    | none => cs
    | some (name, after) =>
      if name.contains '\n' then before ++ '[' :: fillChars args gathered ('[' :: inside)
      else before ++ fillName args gathered name ++ fillChars args gathered after
termination_by cs.length
decreasing_by
  · have := length_of_cutAtFirst _hOpen
    simp only [opening, List.length_cons, List.length_nil] at this ⊢
    omega
  · have := length_of_cutAtFirst _hOpen
    have := length_of_cutAtFirst _hClose
    simp only [opening, closing, List.length_cons, List.length_nil] at *
    omega

def fill (args gathered : Bindings) (template : String) : String :=
  String.ofList (fillChars args gathered template.toList)

end Template
end StepScript
