import StepScript.Failure
import StepScript.Outcome

/-!
The handlers of primitive actions, by name, and the providers that they come from. To call a
handler never fails: a name without a handler, an error of the handler and a crash of the handler
all give a failed outcome.
-/

set_option autoImplicit false
set_option relaxedAutoImplicit false

namespace StepScript

/-- How a handler ends. -/
inductive Ending
  | finished (o : Outcome)
  | troubled (t : Trouble)
  | crashed (text : Option String)
  deriving DecidableEq

def Ending.outcome : Ending → Outcome
  | .finished o => o
  | .troubled t => .failure t.chain
  | .crashed (some text) => .failure ("handler panicked: " ++ text)
  | .crashed none => .failure "handler panicked"

/-- The end of a handler that comes to an outcome or a failure. -/
def Ending.ofResult : Except Failure Outcome → Ending
  | .ok o => .finished o
  | .error f => .troubled f.trouble

/-- Carries out a primitive action, given its text and its argument. -/
abbrev Handler (m : Type → Type) := String → Option String → m Ending

abbrev Handlers (m : Type → Type) := Dict (Handler m)

namespace Handlers

variable {m : Type → Type} [Monad m]

/-- Adds handlers from left to right, each in place of the one with its name. -/
def install (handlers : Handlers m) (more : List (String × Handler m)) : Handlers m :=
  handlers.insertAll more

def uninstall (handlers : Handlers m) (names : List String) : Handlers m :=
  names.foldl Dict.erase handlers

def call (handlers : Handlers m) (name text : String) (arg : Option String) : m Outcome :=
  match handlers.find? name with
  | none => return .failure ("Unknown action: " ++ name)
  | some handler => do return (← handler text arg).outcome

end Handlers

/-- A source of handlers. It is started before they are installed, and stopped after they are taken
out. -/
structure Provider (m : Type → Type) where
  /-- The names that its handlers are installed under. -/
  names : List String
  start : m (Except Trouble Unit)
  stop : m Unit
  handlers : m (List (String × Handler m))

end StepScript
