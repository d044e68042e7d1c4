/-!
Blank characters are those of the Unicode property `White_Space`. A text is trimmed by dropping the
blank characters at both of its ends; everything between the first and the last character that is
not blank stays.
-/

set_option autoImplicit false
set_option relaxedAutoImplicit false

namespace StepScript.Text

/-- The ranges of code points, ends included, that carry the property `White_Space`. -/
def blankRanges : List (Nat × Nat) :=
  [(0x09, 0x0D), (0x20, 0x20), (0x85, 0x85), (0xA0, 0xA0), (0x1680, 0x1680), (0x2000, 0x200A),
   (0x2028, 0x2029), (0x202F, 0x202F), (0x205F, 0x205F), (0x3000, 0x3000)]

def isBlank (c : Char) : Bool :=
  blankRanges.any fun range => range.1 ≤ c.toNat && c.toNat ≤ range.2

/-- The characters from the first that is not blank on. -/
def trimStart (cs : List Char) : List Char :=
  cs.dropWhile isBlank

def trimEnd (cs : List Char) : List Char :=
  (trimStart cs.reverse).reverse

/-- The characters between the blank ones at both ends. -/
def trimChars (cs : List Char) : List Char :=
  trimEnd (trimStart cs)

def trim (s : String) : String :=
  String.ofList (trimChars s.toList)

/-- Whether a text holds nothing but blank characters. -/
def allBlank (s : String) : Bool :=
  s.toList.all isBlank

end StepScript.Text
