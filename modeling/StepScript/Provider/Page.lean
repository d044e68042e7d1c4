import StepScript.Handler

/-!
The actions `ai`, `aiTap`, `aiInput`, `aiHover`, `aiWaitFor`, `aiKeyboardPress` and `aiAssert`:
what a user does with the elements of a page, which are described in words. Waiting has a limit,
and a wait that takes longer has failed.
-/

set_option autoImplicit false
set_option relaxedAutoImplicit false

namespace StepScript

/-- A page, on which elements are found by their description. -/
structure Page (m : Type → Type) where
  act : String → m (Except Trouble Unit)
  tap : String → m (Except Trouble Unit)
  input : String → String → m (Except Trouble Unit)
  hover : String → m (Except Trouble Unit)
  /-- Waits for something for at most some milliseconds. The answer comes with the milliseconds that
  it took. -/
  waitFor : String → Nat → m (Nat × Except Trouble Unit)
  keyboardPress : String → m (Except Trouble Unit)
  assert : String → m (Except Trouble Unit)

/-- An action on a page. -/
inductive PageAction
  | act
  | tap
  | input
  | hover
  | waitFor
  | keyboardPress
  | assert
  deriving DecidableEq, Repr, Inhabited

namespace PageAction

def all : List PageAction := [.act, .tap, .input, .hover, .waitFor, .keyboardPress, .assert]

def name : PageAction → String
  | .act => "ai"
  | .tap => "aiTap"
  | .input => "aiInput"
  | .hover => "aiHover"
  | .waitFor => "aiWaitFor"
  | .keyboardPress => "aiKeyboardPress"
  | .assert => "aiAssert"

def ofName? (name : String) : Option PageAction := all.find? fun a => a.name == name

end PageAction

/-- Carries out actions on a page. -/
structure PageActions (m : Type → Type) where
  page : Page m
  waitLimit : Nat

namespace PageActions

/-- The result of a wait: that of the page if it came in time. -/
def inTime (limit : Nat) (text : String) (answer : Nat × Except Trouble Unit) :
    Except Trouble Unit :=
  if answer.1 ≤ limit then answer.2
  else .error (.of ("Timed out after " ++ toString limit ++ "ms waiting for: " ++ text))

variable {m : Type → Type} [Monad m]

/-- Carries out an action. The argument is the value to type, and the text says where. -/
def carryOut (a : PageActions m) (action : PageAction) (text : String) (arg : Option String) :
    m (Except Trouble Unit) :=
  match action with
  | .act => a.page.act text
  | .tap => a.page.tap text
  | .input => a.page.input (arg.getD "") text
  | .hover => a.page.hover text
  | .waitFor => do
    return inTime a.waitLimit text (← a.page.waitFor text a.waitLimit)
  | .keyboardPress => a.page.keyboardPress text
  | .assert => a.page.assert text

def handler (a : PageActions m) (action : PageAction) : Handler m := fun text arg => do
  match ← a.carryOut action text arg with
  | .ok () => return .finished .ok
  | .error t => return .troubled t

def provider (a : PageActions m) : Provider m where
  names := PageAction.all.map PageAction.name
  start := return .ok ()
  stop := return ()
  handlers := return PageAction.all.map fun action => (action.name, a.handler action)

end PageActions
end StepScript
