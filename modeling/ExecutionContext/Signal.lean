import ExecutionContext.Failure
import ExecutionContext.Stack
import ExecutionContext.Value.Written

/-!
# Signals and the ways a run can end

A signal leaves the normal order of evaluation: a failure, or one of the jumps
that a layer further out gives a meaning. An `Exit` is any end of a run other than
an answer: something raised, a broken stack discipline, or a bound on the length
of the run that was met.
-/

namespace ExecutionContext

/-- A way to leave the normal order of evaluation. -/
inductive Signal where
  /-- Something went wrong. -/
  | failure (failure : Failure)
  /-- Leave the call that received the block. -/
  | breakWith (value : Value)
  /-- Finish the present pass through a block. -/
  | next
  /-- Run the present block again with the same arguments. -/
  | redo
  /-- Start the call that received the block again. -/
  | retry
  /-- Leave the enclosing method. -/
  | returnWith (value : Value)
  /-- Unwind to the matching tag. -/
  | throwTo (tag value : Value)
deriving DecidableEq

/-- An end of a run other than an answer. -/
inductive Exit (ε : Type) where
  | raised (signal : ε)
  | fault (fault : Fault)
  | exhausted

namespace Signal

def keyword : Signal -> String
  | .failure _ => "error"
  | .breakWith _ => "break"
  | .next => "next"
  | .redo => "redo"
  | .retry => "retry"
  | .returnWith _ => "return"
  | .throwTo .. => "throw"

def isFailure (signal : Signal) : Bool :=
  match signal with
  | .failure _ => true
  | _ => false

/-- The failure that a signal becomes when no layer gives it a meaning; `none` when the text
of a thrown tag has no end. -/
def toFailure? (heap : Heap) : Signal -> Option Failure
  | .failure raised => some raised
  | .throwTo tag _ => (heap.display? tag).map (fun text => { cause := .uncaughtThrow text })
  | signal => some { cause := .escaped signal.keyword }

end Signal

end ExecutionContext
