import StepScript.Text.Marks

/-!
Text in double quotes for a reader's eye. The quote and the backslash are escaped, line breaks,
tabs and the zero character have short escapes, and characters that leave no mark of their own are
written as `\u` with their code point in braces.
-/

set_option autoImplicit false
set_option relaxedAutoImplicit false

namespace StepScript.Text

def quoteChar (c : Char) : List Char :=
  match c with
  | '"' => ['\\', '"']
  | '\\' => ['\\', '\\']
  | '\n' => ['\\', 'n']
  | '\r' => ['\\', 'r']
  | '\t' => ['\\', 't']
  | c =>
    if c.toNat == 0 then ['\\', '0']
    else if isUnmarked c then
      ['\\', 'u', '\x7b'] ++ Nat.toDigits 16 c.toNat ++ ['\x7d']
    else [c]

def quoted (s : String) : String :=
  String.ofList ('"' :: s.toList.flatMap quoteChar ++ ['"'])

end StepScript.Text
