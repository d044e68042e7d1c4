import StepScript.Script.Error
import StepScript.Text.Blank

/-!
Tag expressions select scenarios by their tags. The text of an expression is split into parentheses
and words; `not` binds tighter than `and`, `and` tighter than `or`, and both group to the left. The
negations and parentheses around a place may not be more than `nestingLimit`. An empty text selects
every scenario.
-/

set_option autoImplicit false
set_option relaxedAutoImplicit false

namespace StepScript

/-- A tag expression. -/
inductive Selector
  | any
  /-- Scenarios that carry the tag, whose text includes the leading `@`. -/
  | tag (text : String)
  | not (inner : Selector)
  | and (left right : Selector)
  | or (left right : Selector)
  deriving DecidableEq, Repr, Inhabited

namespace Selector

/-- Whether an expression selects a scenario with some tags. -/
def accepts (tags : List String) : Selector → Bool
  | .any => true
  | .tag text => tags.contains text
  | .not inner => !inner.accepts tags
  | .and left right => left.accepts tags && right.accepts tags
  | .or left right => left.accepts tags || right.accepts tags

def render : Selector → String
  | .any => ""
  | .tag text => text
  | .not inner => "not " ++ inner.render
  | .and left right => "(" ++ left.render ++ " and " ++ right.render ++ ")"
  | .or left right => "(" ++ left.render ++ " or " ++ right.render ++ ")"

/-- A token of an expression. -/
inductive Token
  | opening
  | closing
  | word (text : String)
  deriving DecidableEq, Repr

def Token.text : Token → String
  | .opening => "("
  | .closing => ")"
  | .word text => text

/-- Ends a word, given by its characters in reverse, before the tokens that follow it. -/
def endWord (word : List Char) (tokens : List Token) : List Token :=
  if word.isEmpty then tokens else .word (String.ofList word.reverse) :: tokens

/-- The tokens of some characters behind the start of a word. -/
def tokensFrom (word : List Char) : List Char → List Token
  | [] => endWord word []
  | c :: cs =>
    if c = '(' then endWord word (.opening :: tokensFrom [] cs)
    else if c = ')' then endWord word (.closing :: tokensFrom [] cs)
    else if Text.isBlank c then endWord word (tokensFrom [] cs)
    else tokensFrom (c :: word) cs

/-- The tokens of a text: parentheses, and maximal words without blanks and parentheses. -/
def tokens (source : String) : List Token := tokensFrom [] source.toList

/-- How many negations and parentheses may surround a place. -/
def nestingLimit : Nat := 64

/-- Whether a word is a tag: an `@` and something behind it. -/
def isTag (word : String) : Bool :=
  match word.toList with
  | '@' :: _ :: _ => true
  | _ => false

/-- What reading a part of an expression leaves: the expression and the tokens behind it. -/
abbrev Reading := Except Fault (Selector × List Token)

/-- Reads operands for as long as the keyword stands before them, joining to the left. The first
argument bounds the number of operands. -/
def chainFrom (keyword : String) (join : Selector → Selector → Selector)
    (operand : List Token → Reading) : Nat → Selector → List Token → Reading
  | 0, left, tokens => .ok (left, tokens)
  | fuel + 1, left, tokens =>
    match tokens with
    | .word w :: rest =>
      if w = keyword then
        match operand rest with
        | .ok (right, rest) => chainFrom keyword join operand fuel (join left right) rest
        | .error fault => .error fault
      else .ok (left, tokens)
    | _ => .ok (left, tokens)

def chain (keyword : String) (join : Selector → Selector → Selector)
    (operand : List Token → Reading) (tokens : List Token) : Reading :=
  match operand tokens with
  | .ok (left, rest) => chainFrom keyword join operand rest.length left rest
  | .error fault => .error fault

def joined (operand : List Token → Reading) : List Token → Reading :=
  chain "or" .or (chain "and" .and operand)

/-- Reads negations before a tag or a parenthesis. The first argument is how many more negations and
parentheses may surround a place. -/
def operand : Nat → List Token → Reading
  | room, .word w :: rest =>
    if w = "not" then
      match room with
      | 0 => .error .tooDeep
      | room + 1 =>
        match operand room rest with
        | .ok (inner, rest) => .ok (.not inner, rest)
        | .error fault => .error fault
    else if isTag w then .ok (.tag w, rest)
    else .error (.expectedTag w)
  | 0, .opening :: _ => .error .tooDeep
  | room + 1, .opening :: rest =>
    match joined (operand room) rest with
    | .ok (inner, .closing :: rest) => .ok (inner, rest)
    | .ok _ => .error .unbalanced
    | .error fault => .error fault
  | _, .closing :: _ => .error (.expectedTag ")")
  | _, [] => .error .unexpectedEnd

def ofTokens (tokens : List Token) : Except Fault Selector :=
  if tokens.isEmpty then .ok .any
  else
    match joined (operand nestingLimit) tokens with
    | .ok (e, []) => .ok e
    | .ok (_, token :: _) => .error (.leftOver token.text)
    | .error fault => .error fault

/-- The expression of a text. A fault is reported with the whole text as its line. -/
def parse (source : String) : Except ScriptError Selector :=
  (ofTokens (tokens source)).mapError fun fault => .malformed source (.selector fault)

end Selector
end StepScript
