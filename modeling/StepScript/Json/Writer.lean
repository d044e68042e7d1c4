import StepScript.Json.Basic

/-!
JSON text. The compact form has no blanks. The indented form puts each item and member on a line of
its own, two more spaces in than the bracket around it; an empty array or object is one pair of
brackets. In strings the quote, the backslash and the characters below the space are escaped.
-/

set_option autoImplicit false
set_option relaxedAutoImplicit false

namespace StepScript.Json

def hexDigit (n : Nat) : Char := Nat.digitChar n

def escapeChar (c : Char) : List Char :=
  match c with
  | '"' => ['\\', '"']
  | '\\' => ['\\', '\\']
  | '\n' => ['\\', 'n']
  | '\r' => ['\\', 'r']
  | '\t' => ['\\', 't']
  | c =>
    if c.toNat == 8 then ['\\', 'b']
    else if c.toNat == 12 then ['\\', 'f']
    else if c.toNat < 32 then
      ['\\', 'u', '0', '0', hexDigit (c.toNat / 16), hexDigit (c.toNat % 16)]
    else [c]

def quote (s : String) : List Char :=
  '"' :: s.toList.flatMap escapeChar ++ ['"']

def Number.text : Number → List Char
  | .integer n => (toString n).toList
  | .double d => d.text.toList

/-- Whether a list is written in lines, and how far in. -/
inductive Style
  | compact
  | indented (depth : Nat)

def Style.inner : Style → Style
  | .compact => .compact
  | .indented depth => .indented (depth + 1)

/-- What stands before an item, and before the closing bracket. -/
def Style.lineBreak : Style → List Char
  | .compact => []
  | .indented depth => '\n' :: List.replicate (2 * depth) ' '

def Style.colon : Style → List Char
  | .compact => [':']
  | .indented _ => [':', ' ']

mutual

def chars (style : Style) : Json → List Char
  | .null => "null".toList
  | .bool b => (if b then "true" else "false").toList
  | .number n => n.text
  | .string s => quote s
  | .array [] => ['[', ']']
  | .array (item :: items) =>
    '[' :: style.inner.lineBreak ++ chars style.inner item ++ itemChars style.inner items ++
      style.lineBreak ++ [']']
  | .object [] => ['\x7b', '\x7d']
  | .object (m :: members) =>
    '\x7b' :: style.inner.lineBreak ++ memberChars style.inner m ++
      membersChars style.inner members ++ style.lineBreak ++ ['\x7d']

def itemChars (style : Style) : List Json → List Char
  | [] => []
  | item :: items => ',' :: style.lineBreak ++ chars style item ++ itemChars style items

def memberChars (style : Style) : String × Json → List Char
  | (name, v) => quote name ++ style.colon ++ chars style v

/-- The members after the first, each behind a comma. -/
def membersChars (style : Style) : List (String × Json) → List Char
  | [] => []
  | m :: members => ',' :: style.lineBreak ++ memberChars style m ++ membersChars style members

end

/-- What is not a number is written with a character at least. -/
theorem chars_ne_nil (style : Style) {v : Json} (h : ∀ n, v ≠ .number n) : chars style v ≠ [] := by
  cases v with
  | null => simp [chars]
  | bool b => cases b <;> simp [chars]
  | number n => exact absurd rfl (h n)
  | string s => simp [chars, quote]
  | array items => cases items <;> simp [chars]
  | object members => cases members <;> simp [chars]

def compact (v : Json) : String := String.ofList (chars .compact v)

def indented (v : Json) : String := String.ofList (chars (.indented 0) v)

end StepScript.Json
