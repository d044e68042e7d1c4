/-!
The characters of bytes. Bytes in UTF-8 are the characters that they encode. In any other sequence
of bytes each byte that no character is encoded by is stray, and `none` stands for it.
-/

set_option autoImplicit false
set_option relaxedAutoImplicit false

namespace StepScript.Text

/-- Characters and stray bytes; `none` is a stray byte. -/
abbrev Signs := List (Option Char)

/-- The characters and the stray bytes from an index on. -/
def signsFrom (bytes : ByteArray) (i : Nat) : Signs :=
  if i < bytes.size then
    match bytes.utf8DecodeChar? i with
    | some c => some c :: signsFrom bytes (i + c.utf8Size)
    | none => none :: signsFrom bytes (i + 1)
  else []
termination_by bytes.size - i
decreasing_by
  · have := c.utf8Size_pos
    omega
  · omega

def signsOfText (s : String) : Signs := s.toList.map some

/-- The characters and the stray bytes of a sequence of bytes. -/
def signsOfBytes (bytes : ByteArray) : Signs :=
  match String.fromUTF8? bytes with
  | some s => signsOfText s
  | none => signsFrom bytes 0

theorem signsOfBytes_toUTF8 (s : String) : signsOfBytes s.toUTF8 = signsOfText s := by
  have h : String.fromUTF8? s.toUTF8 = some s := by
    unfold String.fromUTF8?
    split
    · rfl
    next h => exact absurd s.isValidUTF8 h
  rw [signsOfBytes, h]

end StepScript.Text
