import Nidra.Lib.Program

/-
  This file defines how a consumer dispatches one message:
  the handler runs first, and the message is acknowledged
  only after it has returned.

  Key definitions include:
    * `dispatch`
-/

namespace Nidra

/-
  Run a handler on a message and acknowledge the message,
  unless the handler raises: then it stays pending.
-/
def dispatch
    {σ ε α : Type}
    (handler : Program σ (Except ε α))
    (ack : Program σ Unit) : Program σ Unit := do
  let answer ← handler
  match answer with
  | .error _ => return ()
  | .ok _ => ack

end Nidra
