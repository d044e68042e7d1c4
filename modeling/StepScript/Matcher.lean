import StepScript.Cache
import StepScript.Chat.Model
import StepScript.Template

/-!
Matching free text against a list of patterns. A matcher answers with a pattern and the values of
its placeholders, or with nothing. One matcher asks a chat model; another remembers in a cache what
a matcher found. Only what was found is remembered, and a cache that cannot be read or written is
passed over.
-/

set_option autoImplicit false
set_option relaxedAutoImplicit false

namespace StepScript

open Json

/-- A pattern that fits a text, and the values of its placeholders. -/
structure Match where
  pattern : String
  captures : Bindings
  deriving DecidableEq, Inhabited

namespace Match

def toJson (found : Match) : Json :=
  .ofMembers [("text", .string found.pattern), ("args", ofTexts found.captures)]

def ofJson? (v : Json) : Option Match := do
  let r ← recordMembers? ["text", "args"] v
  let pattern ← required? text? "text" r
  let captures ← defaulted? (dict? text?) Dict.empty "args" r
  return ⟨pattern, captures⟩

instance : Codec Match := ⟨.record [("text", .any), ("args", .dict .text)], toJson, ofJson?⟩

/-- The match in a model's reply. An object without members says that nothing fits. -/
def ofReply (reply : String) : Except ChatError (Option Match) :=
  match objectIn reply with
  | .error e => .error e
  | .ok (.object []) => .ok none
  | .ok v =>
    match ofJson? v with
    | some found => .ok (some found)
    | none => unreadable reply

end Match

/-- Finds the pattern that means the same as a text. -/
structure Matcher (m : Type → Type) where
  find : List String → String → m (Except Failure (Option Match))

namespace Matcher

def instructions : String :=
  "\n".intercalate
    ["You match a sentence against a list of predefined texts.",
      "",
      "Predefined texts may contain placeholders written as \x7b\x7bname\x7d\x7d. " ++
        "A predefined text",
      "matches when it means the same thing as the sentence once its placeholders are",
      "filled in; wording, word order and phrasing may differ. Pick the single best",
      "match. Never invent a predefined text that is not in the list.",
      "",
      "Respond with JSON only:",
      "\x7b\"text\": \"<the matching predefined text, copied exactly>\", " ++
        "\"args\": \x7b\"<placeholder name>\": \"<value taken from the sentence>\"\x7d\x7d",
      "",
      "If nothing in the list matches, respond with \x7b\x7d."]

def question (patterns : List String) (text : String) : String :=
  "Here is a list of defined text:\n" ++ (Codec.encode patterns).compact ++
    "\n\nFind the predefined text that matches the following text: " ++ text

variable {m : Type → Type} [Monad m]

def ofModel (model : ChatModel m) (instructions : String) : Matcher m where
  find patterns text := do
    match ← model.ask [.system instructions, .user (question patterns text)] [] with
    | .error e => return .error (.chat e)
    | .ok reply => return (Match.ofReply (reply.content.getD "")).mapError .chat

def cacheScope : String := "step-agent"

/-- The key that a match is remembered under: the patterns and the text, line by line. -/
def key (patterns : List String) (text : String) : String :=
  "\n".intercalate patterns ++ "\n" ++ text

def remembered (cache : Cache) (files : FileAccess m) (scope key : String) : m (Option Match) := do
  match ← cache.read? files scope key with
  | .ok found => return found
  | .error _ => return none

def remember (cache : Cache) (files : FileAccess m) (scope key : String) :
    Except Failure (Option Match) → m Unit
  | .ok (some found) => do
    let _ ← cache.write files scope key found
    return ()
  | _ => return ()

def cached (inner : Matcher m) (cache : Cache) (files : FileAccess m) (scope : String) :
    Matcher m where
  find patterns text := do
    match ← remembered cache files scope (key patterns text) with
    | some found => return .ok (some found)
    | none =>
      let answer ← inner.find patterns text
      remember cache files scope (key patterns text) answer
      return answer

end Matcher
end StepScript
