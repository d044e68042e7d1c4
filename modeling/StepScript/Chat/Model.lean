import StepScript.Chat.Message
import StepScript.Failure

/-!
The model at the other end of a conversation, as one operation in some monad: given the messages so
far and the tools on offer, it answers with its next message or with an error.
-/

set_option autoImplicit false
set_option relaxedAutoImplicit false

namespace StepScript

/-- A chat model. -/
structure ChatModel (m : Type → Type) where
  ask : List Message → List Tool → m (Except ChatError Message)

end StepScript
