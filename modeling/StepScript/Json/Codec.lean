import StepScript.Json.Shape

/-!
Types with a JSON form. A value is decoded either from another JSON value or straight from text;
the text is then read under the type's shape, so that a member the type does not know may hold
anything.
-/

set_option autoImplicit false
set_option relaxedAutoImplicit false

namespace StepScript.Json

/-- A type with a JSON form. -/
class Codec (α : Type) where
  shape : Shape
  encode : α → Json
  decode? : Json → Option α

def decodeText? {α : Type} [Codec α] (s : String) : Option α :=
  (readAs? (Codec.shape α) s).bind Codec.decode?

/-- Decodes bytes. Where the type looks at a string they must be UTF-8. -/
def decodeBytes? {α : Type} [Codec α] (bytes : ByteArray) : Option α :=
  ((Document.ofBytes? bytes).bind (Document.readAs? depthLimit (Codec.shape α))).bind
    Codec.decode?

instance : Codec Json := ⟨.any, id, some⟩

instance : Codec String := ⟨.any, .string, text?⟩

def items? {α : Type} (decode? : Json → Option α) : Json → Option (List α)
  | .array items => items.mapM decode?
  | _ => none

instance {α : Type} [Codec α] : Codec (List α) :=
  ⟨.list (Codec.shape α), fun items => .array (items.map Codec.encode), items? Codec.decode?⟩

def dict? {α : Type} (decode? : Json → Option α) : Json → Option (Dict α)
  | .object members => do
    let entries ← members.mapM fun m => (decode? m.2).map fun v => (m.1, v)
    return Dict.ofList entries
  | _ => none

instance : Codec (Dict String) := ⟨.dict .text, ofTexts, dict? text?⟩

/-- The members of a record: those of an object, or the items of an array that is no longer than the
record, which then stand for the members in their order. -/
def recordMembers? (names : List String) : Json → Option (List (String × Json))
  | .object members => some members
  | .array items => if items.length ≤ names.length then some (names.zip items) else none
  | _ => none

def required? {α : Type} (decode? : Json → Option α) (name : String)
    (members : List (String × Json)) : Option α :=
  (Dict.lookup name members).bind decode?

def defaulted? {α : Type} (decode? : Json → Option α) (default : α) (name : String)
    (members : List (String × Json)) : Option α :=
  match Dict.lookup name members with
  | some v => decode? v
  | none => some default

def nullable? {α : Type} (decode? : Json → Option α) : Json → Option (Option α)
  | .null => some none
  | v => (decode? v).map some

def optional? {α : Type} (decode? : Json → Option α) (name : String)
    (members : List (String × Json)) : Option (Option α) :=
  defaulted? (nullable? decode?) none name members

def bool? : Json → Option Bool
  | .bool b => some b
  | _ => none

/-- Decodes an integer that is not negative and fits 64 bits. -/
def word? : Json → Option Nat
  | .number (.integer n) => if 0 ≤ n && n < UInt64.size then some n.toNat else none
  | _ => none

/-- Decodes a name that stands for a value, as a string or as the one member of an object. -/
def choice? {α : Type} (ofName? : String → Option α) : Json → Option α
  | .string name => ofName? name
  | .object [(name, .null)] => ofName? name
  | _ => none

def member {α : Type} (name : String) (encode : α → Json) : Option α → List (String × Json)
  | some v => [(name, encode v)]
  | none => []

end StepScript.Json
