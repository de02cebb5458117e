import ExecutionContext.Context
import ExecutionContext.Text.Blank

/-!
# Reporting what escaped

A signal that no layer consumed is reported on the error stream: a stray `break` or
`return` by a fixed line, anything else as the failure it becomes, with its class of
exception and the frames of its backtrace.
-/

namespace ExecutionContext

variable {H : Host} {ε : Type}

def Failure.report (failure : Failure) : String :=
  let headline := failure.exceptionClass ++ ": " ++ failure.message
  match failure.backtrace with
  | some (frame :: frames) =>
      headline ++ "\n" ++ Text.trimEnd (Backtrace.text (frame :: frames))
  | _ => headline

/-- The report on a signal; `none` when its text has no end. -/
def Signal.report? (heap : Heap) : Signal -> Option String
  | .breakWith _ => some "break without block."
  | .returnWith _ => some "return without block."
  | other => (other.toFailure? heap).map Failure.report

def report (signal : Signal) : Run ε H Unit := do
  let c ← get
  match signal.report? c.heap with
  | some text => set { c with errors := c.errors.println text }
  | none => Run.exhausted

end ExecutionContext
