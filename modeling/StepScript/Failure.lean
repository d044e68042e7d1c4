import StepScript.Script.Error

/-!
Why a run fails. Each error is a cause; `message` gives its wording. An error that a collaborator
reports in words of its own is `Trouble`: a chain of texts from the outermost to the innermost.
-/

set_option autoImplicit false
set_option relaxedAutoImplicit false

namespace StepScript

/-- An error told in words, outermost first. -/
structure Trouble where
  causes : List String
  deriving DecidableEq, Repr, Inhabited

namespace Trouble

def of (text : String) : Trouble := ⟨[text]⟩

def within (text : String) (t : Trouble) : Trouble := ⟨text :: t.causes⟩

def chain (t : Trouble) : String := ": ".intercalate t.causes

end Trouble

/-- Why an action cannot be carried out. -/
inductive RunError
  /-- The name belongs to no handler, and to no concept with a fitting behavior. -/
  | unknown (name text : String)
  | unknownConcept (name : String)
  | noMatchingBehavior (concept text : String)
  | stepNotFound (text : String)
  | failed (name message : String)
  deriving DecidableEq, Repr

def RunError.message : RunError → String
  | .unknown name text => "Unknown action: " ++ name ++ ": " ++ text
  | .unknownConcept name => "Unknown concept: " ++ name
  | .noMatchingBehavior concept text =>
    "No matching behavior found for concept " ++ concept ++ " with text: " ++ text
  | .stepNotFound text => "Step not found: " ++ text
  | .failed name message => "Action '" ++ name ++ "' failed: " ++ message

/-- Why a chat model gives no usable answer. -/
inductive ChatError
  | request (detail : String)
  | unreadableReply (detail : String)
  /-- The model reports that the instruction cannot be carried out. -/
  | refused (instruction : String) (reason : Option String)
  | tooManyRounds (limit : Nat)
  deriving DecidableEq, Repr

def ChatError.message : ChatError → String
  | .request detail => "LLM request failed: " ++ detail
  | .unreadableReply detail => "LLMResponseParseError: " ++ detail
  | .refused instruction _ => "Action failed: " ++ instruction
  | .tooManyRounds limit => "Tool-calling loop exceeded " ++ toString limit ++ " rounds"

/-- Why the cache cannot be read or written. -/
inductive CacheError
  | notReplaced (path : Path) (detail : String)
  | unreadable (detail : String)
  | malformed (detail : String)
  deriving DecidableEq, Repr

def CacheError.message : CacheError → String
  | .notReplaced path detail => "Atomic write failed for " ++ path.text ++ ": " ++ detail
  | .unreadable detail => "IO error: " ++ detail
  | .malformed detail => "JSON error: " ++ detail

/-- Why a run fails. -/
inductive Failure
  | script (e : ScriptError)
  | action (e : RunError)
  | chat (e : ChatError)
  | cache (e : CacheError)
  | provider (detail : String)
  | settings (detail : String)
  /-- The run was cut off by the bound that its caller set, and nothing is known of its end. -/
  | unfinished
  deriving DecidableEq, Repr

namespace Failure

def detail : Failure → String
  | .script e => e.message
  | .action e => e.message
  | .chat e => e.message
  | .cache e => e.message
  | .provider detail => detail
  | .settings detail => detail
  | .unfinished => "bound of the run reached"

def heading : Failure → String
  | .script _ => "Definition error: "
  | .action _ => "Action error: "
  | .chat _ => "LLM error: "
  | .cache _ => "Storage error: "
  | .provider _ => "Provider error: "
  | .settings _ => "Configuration error: "
  | .unfinished => "Unfinished: "

def message (f : Failure) : String := f.heading ++ f.detail

/-- A failure as the error of a handler: its wording, then that of its cause if it has one. -/
def trouble (f : Failure) : Trouble :=
  match f with
  | .provider _ | .settings _ | .unfinished => .of f.message
  | _ => ⟨[f.message, f.detail]⟩

end Failure
end StepScript
