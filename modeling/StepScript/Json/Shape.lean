import StepScript.Json.Number

/-!
Reading a document under the shape of what is wanted. A shape says which parts of a document are
looked at: of a record only the members with known names count, and what the others hold need only
be well written. What is looked at may nest 127 brackets deep, its numbers and strings must have
values, and a record may not give a known member twice. In a free object the last member of a name
holds. A record may also be written as an array of its members' values in their order.
-/

set_option autoImplicit false
set_option relaxedAutoImplicit false

namespace StepScript.Json

/-- What is wanted of a document. -/
inductive Shape
  | any
  | text
  | list (item : Shape)
  | dict (item : Shape)
  | record (members : List (String × Shape))
  /-- One of some names: the name as a string, or an object with that one member. -/
  | choice
  deriving Repr, Inhabited

def Shape.member? (name : String) : List (String × Shape) → Option Shape
  | [] => none
  | m :: rest => if m.1 == name then some m.2 else Shape.member? name rest

def depthLimit : Nat := 127

def allDistinct : List String → Bool
  | [] => true
  | name :: rest => !rest.contains name && allDistinct rest

namespace Document

mutual

/-- The value of a document under a shape; the first argument is how deep brackets may nest. -/
def readAs? (room : Nat) (shape : Shape) : Document → Option Json
  | .null => if shape matches .text then none else some .null
  | .bool b => if shape matches .text then none else some (.bool b)
  | .number n => if shape matches .text then none else n.value?.map .number
  | .string s => s.map .string
  | .array items =>
    match room with
    | 0 => none
    | room + 1 =>
      match shape with
      | .text | .choice => none
      | .any | .dict _ => (readItems? room .any items).map .array
      | .list item => (readItems? room item items).map .array
      | .record members => (readFields? room members items).map .array
  | .object members =>
    match room with
    | 0 => none
    | room + 1 =>
      match shape with
      | .text => none
      | .any | .list _ => (readMembers? room .any members).map ofMembers
      | .dict item => (readMembers? room item members).map ofMembers
      | .choice =>
        match readMembers? room .any members with
        | some [m] => some (ofMembers [m])
        | _ => none
      | .record known =>
        match readKnown? room known members with
        | some found => if allDistinct (found.map Prod.fst) then some (ofMembers found) else none
        | none => none

def readItems? (room : Nat) (shape : Shape) : List Document → Option (List Json)
  | [] => some []
  | item :: items => do
    let v ← readAs? room shape item
    let vs ← readItems? room shape items
    return v :: vs

/-- The values of a record that is written as an array. -/
def readFields? (room : Nat) (members : List (String × Shape)) : List Document → Option (List Json)
  | [] => some []
  | item :: items =>
    match members with
    | [] => none
    | m :: members => do
      let v ← readAs? room m.2 item
      let vs ← readFields? room members items
      return v :: vs

/-- The members of an object whose values have one shape. -/
def readMembers? (room : Nat) (shape : Shape) :
    List (Option String × Document) → Option (List (String × Json))
  | [] => some []
  | (name, v) :: members => do
    let name ← name
    let v ← readAs? room shape v
    let rest ← readMembers? room shape members
    return (name, v) :: rest

/-- The known members of a record, passing over the others. -/
def readKnown? (room : Nat) (known : List (String × Shape)) :
    List (Option String × Document) → Option (List (String × Json))
  | [] => some []
  | (name, v) :: members => do
    let name ← name
    match Shape.member? name known with
    | some shape => do
      let v ← readAs? room shape v
      let rest ← readKnown? room known members
      return (name, v) :: rest
    | none => readKnown? room known members

end

end Document

def readAs? (shape : Shape) (s : String) : Option Json :=
  (Document.ofText? s).bind (Document.readAs? depthLimit shape)

def read? (s : String) : Option Json := readAs? .any s

end StepScript.Json
