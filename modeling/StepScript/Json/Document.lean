import StepScript.Text.Bytes

/-!
JSON documents as they are written: numbers keep their digits, objects keep repeated names, and
nothing is said yet about what a number or an escape stands for. `Document.ofText?` and
`Document.ofBytes?` read a whole text by the grammar of RFC 8259, and nothing but blanks may follow
the value. Between the quotes of a string stray bytes may stand, which leave it without a value.
-/

set_option autoImplicit false
set_option relaxedAutoImplicit false

namespace StepScript.Json

/-- A number as it is written. -/
structure Numeral where
  negative : Bool
  whole : List Char
  fraction : Option (List Char)
  exponent : Option (Bool × List Char)
  deriving DecidableEq, Repr, Inhabited

/-- A value as it is written. A string is absent when one of its escapes names half of a surrogate
pair without the other half, or when it holds a stray byte. -/
inductive Document
  | null
  | bool (b : Bool)
  | number (n : Numeral)
  | string (s : Option String)
  | array (items : List Document)
  | object (members : List (Option String × Document))
  deriving Repr, Inhabited

namespace Document

open Text (Signs)

def isGap (c : Char) : Bool :=
  c == ' ' || c == '\n' || c == '\r' || c == '\t'

def skipGap (cs : Signs) : Signs := cs.dropWhile (·.any isGap)

def hexValue? (c : Char) : Option Nat :=
  if '0' ≤ c && c ≤ '9' then some (c.toNat - '0'.toNat)
  else if 'a' ≤ c && c ≤ 'f' then some (c.toNat - 'a'.toNat + 10)
  else if 'A' ≤ c && c ≤ 'F' then some (c.toNat - 'A'.toNat + 10)
  else none

/-- The value of four hexadecimal digits, and what follows them. -/
def hexFour? : Signs → Option (Nat × Signs)
  | some a :: some b :: some c :: some d :: rest => do
    let a ← hexValue? a
    let b ← hexValue? b
    let c ← hexValue? c
    let d ← hexValue? d
    return (((a * 16 + b) * 16 + c) * 16 + d, rest)
  | _ => none

/-- What stands inside a string: a character, the 16-bit unit of a `\u` escape, or a stray byte. -/
inductive Piece
  | char (c : Char)
  | unit (n : Nat)
  | stray
  deriving Repr

def escaped? : Char → Option Char
  | '"' => some '"'
  | '\\' => some '\\'
  | '/' => some '/'
  | 'b' => some (Char.ofNat 8)
  | 'f' => some (Char.ofNat 12)
  | 'n' => some '\n'
  | 'r' => some '\r'
  | 't' => some '\t'
  | _ => none

/-- The pieces of a string up to its closing quote, and what follows it. The first argument bounds
the number of pieces. -/
def stringPieces? : Nat → Signs → Option (List Piece × Signs)
  | 0, _ => none
  | _ + 1, [] => none
  | _ + 1, some '"' :: rest => some ([], rest)
  | fuel + 1, some '\\' :: some 'u' :: rest => do
    let (unit, rest) ← hexFour? rest
    let (pieces, rest) ← stringPieces? fuel rest
    return (.unit unit :: pieces, rest)
  | fuel + 1, some '\\' :: some c :: rest => do
    let c ← escaped? c
    let (pieces, rest) ← stringPieces? fuel rest
    return (.char c :: pieces, rest)
  | _ + 1, some '\\' :: _ => none
  | fuel + 1, some c :: rest =>
    if c.toNat < 32 then none
    else do
      let (pieces, rest) ← stringPieces? fuel rest
      return (.char c :: pieces, rest)
  | fuel + 1, none :: rest => do
    let (pieces, rest) ← stringPieces? fuel rest
    return (.stray :: pieces, rest)

/-- Whether a 16-bit unit is the first half of a surrogate pair. -/
def isHigh (n : Nat) : Bool := 0xD800 ≤ n && n ≤ 0xDBFF

/-- Whether a 16-bit unit is the second half of a surrogate pair. -/
def isLow (n : Nat) : Bool := 0xDC00 ≤ n && n ≤ 0xDFFF

/-- The characters of pieces; none when a half of a surrogate pair stands alone or a byte is
stray. -/
def pieceChars? : List Piece → Option (List Char)
  | [] => some []
  | .stray :: _ => none
  | .char c :: rest => (pieceChars? rest).map (c :: ·)
  | .unit high :: .unit low :: rest =>
    if isHigh high && isLow low then
      (pieceChars? rest).map
        (Char.ofNat (0x10000 + (high - 0xD800) * 0x400 + (low - 0xDC00)) :: ·)
    else if isHigh high || isLow high then none
    else (pieceChars? (.unit low :: rest)).map (Char.ofNat high :: ·)
  | .unit n :: rest =>
    if isHigh n || isLow n then none else (pieceChars? rest).map (Char.ofNat n :: ·)

def string? (cs : Signs) : Option (Option String × Signs) := do
  let (pieces, rest) ← stringPieces? (cs.length + 1) cs
  return ((pieceChars? pieces).map String.ofList, rest)

def digits? (cs : Signs) : Option (List Char × Signs) :=
  match (cs.takeWhile (·.any Char.isDigit)).filterMap id with
  | [] => none
  | digits => some (digits, cs.dropWhile (·.any Char.isDigit))

/-- The whole part of a number: a zero, or digits that do not start with one. -/
def whole? (cs : Signs) : Option (List Char × Signs) := do
  let (digits, rest) ← digits? cs
  if digits.length > 1 && digits.head? == some '0' then none else return (digits, rest)

/-- The part of a number behind its point, if there is a point. -/
def fraction? : Signs → Option (Option (List Char) × Signs)
  | some '.' :: rest => do
    let (digits, rest) ← digits? rest
    return (some digits, rest)
  | rest => some (none, rest)

/-- The sign of an exponent, which may be left out. The answer is whether it is negative. -/
def exponentSign : Signs → Bool × Signs
  | some '-' :: rest => (true, rest)
  | some '+' :: rest => (false, rest)
  | rest => (false, rest)

def exponent? (cs : Signs) : Option (Option (Bool × List Char) × Signs) :=
  match cs with
  | c :: rest =>
    if c == some 'e' || c == some 'E' then do
      let (negative, rest) := exponentSign rest
      let (digits, rest) ← digits? rest
      return (some (negative, digits), rest)
    else some (none, cs)
  | [] => some (none, [])

def unsigned? (negative : Bool) (cs : Signs) : Option (Numeral × Signs) := do
  let (whole, rest) ← whole? cs
  let (fraction, rest) ← fraction? rest
  let (exponent, rest) ← exponent? rest
  return (⟨negative, whole, fraction, exponent⟩, rest)

def number? : Signs → Option (Numeral × Signs)
  | some '-' :: rest => unsigned? true rest
  | cs => unsigned? false cs

def word? (word : String) (cs : Signs) : Option (Signs) :=
  if (Text.signsOfText word).isPrefixOf cs then some (cs.drop word.toList.length) else none

mutual

/-- A value at the start, and what follows it. The first argument bounds the number of tokens. -/
def value? : Nat → Signs → Option (Document × Signs)
  | 0, _ => none
  | fuel + 1, cs =>
    match skipGap cs with
    | [] => none
    | some '"' :: rest => (string? rest).map fun r => (.string r.1, r.2)
    | some '[' :: rest =>
      match skipGap rest with
      | some ']' :: rest => some (.array [], rest)
      | rest => (items? fuel rest).map fun r => (.array r.1, r.2)
    | some '\x7b' :: rest =>
      match skipGap rest with
      | some '\x7d' :: rest => some (.object [], rest)
      | rest => (members? fuel rest).map fun r => (.object r.1, r.2)
    | some 'n' :: rest => (word? "ull" rest).map fun rest => (.null, rest)
    | some 't' :: rest => (word? "rue" rest).map fun rest => (.bool true, rest)
    | some 'f' :: rest => (word? "alse" rest).map fun rest => (.bool false, rest)
    | cs => (number? cs).map fun r => (.number r.1, r.2)

def items? : Nat → Signs → Option (List Document × Signs)
  | 0, _ => none
  | fuel + 1, cs =>
    match value? fuel cs with
    | none => none
    | some (item, rest) =>
      match skipGap rest with
      | some ']' :: rest => some ([item], rest)
      | some ',' :: rest => (items? fuel rest).map fun r => (item :: r.1, r.2)
      | _ => none

def members? : Nat → Signs → Option (List (Option String × Document) × Signs)
  | 0, _ => none
  | fuel + 1, cs =>
    match skipGap cs with
    | some '"' :: rest =>
      match string? rest with
      | none => none
      | some (name, rest) =>
        match skipGap rest with
        | some ':' :: rest =>
          match value? fuel rest with
          | none => none
          | some (v, rest) =>
            match skipGap rest with
            | some '\x7d' :: rest => some ([(name, v)], rest)
            | some ',' :: rest => (members? fuel rest).map fun r => ((name, v) :: r.1, r.2)
            | _ => none
        | _ => none
    | _ => none

end

/-- The document that all the characters and stray bytes make up. -/
def ofSigns? (cs : Signs) : Option Document :=
  match value? (2 * cs.length + 1) cs with
  | some (v, rest) => if (skipGap rest).isEmpty then some v else none
  | none => none

def ofText? (s : String) : Option Document := ofSigns? (Text.signsOfText s)

def ofBytes? (bytes : ByteArray) : Option Document := ofSigns? (Text.signsOfBytes bytes)

end Document
end StepScript.Json
