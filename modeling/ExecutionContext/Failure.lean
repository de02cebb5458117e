/-!
# Failures

A failure is its cause, with the names of the frames that were active where it
arose once they have been recorded. The wording, the category and the class of
exception under which a failure surfaces all follow from the cause.
-/

namespace ExecutionContext

/-- Why an operation failed. -/
inductive Cause where
  | wrongArguments (expected got : Nat)
  | noBlockGiven
  | escaped (signal : String)
  | uncaughtThrow (tag : String)
  | insecureOperation (operation : String) (level : Nat)
  | insecureAlias
  | safeLevelLowered (current : Nat) (requested : Int)
  | safeLevelType (type : String)
  | readOnly (variableName : String)
  | unknownSuperclass (className : String)
  | fileNotFound (path : String)
  | depthExceeded (limit : Nat)
  | raised (message : String)
deriving DecidableEq

/-- The sort of a failure. -/
inductive Category where
  | arity
  | security
  | localJump
  | load
  | readOnlyGlobal
  | unknownSuperclass
  | uncaughtThrow
  | stackDepth
  | custom
deriving DecidableEq

def Category.name : Category -> String
  | .arity => "ArityMismatch"
  | .security => "Security"
  | .localJump => "LocalJump"
  | .load => "LoadFailed"
  | .readOnlyGlobal => "ReadOnlyGlobal"
  | .unknownSuperclass => "UnknownSuperclass"
  | .uncaughtThrow => "UncaughtThrow"
  | .stackDepth => "StackDepthExceeded"
  | .custom => "Custom"

/-- The class of exception under which failures of the sort surface. -/
def Category.exceptionClass : Category -> String
  | .arity | .uncaughtThrow => "ArgumentError"
  | .security => "SecurityError"
  | .localJump => "LocalJumpError"
  | .load => "LoadError"
  | .readOnlyGlobal | .unknownSuperclass => "NameError"
  | .stackDepth => "SystemStackError"
  | .custom => "RuntimeError"

namespace Cause

def category : Cause -> Category
  | .wrongArguments .. => .arity
  | .noBlockGiven | .escaped _ => .localJump
  | .uncaughtThrow _ => .uncaughtThrow
  | .insecureOperation .. | .insecureAlias | .safeLevelLowered .. | .safeLevelType _ => .security
  | .readOnly _ => .readOnlyGlobal
  | .unknownSuperclass _ => .unknownSuperclass
  | .fileNotFound _ => .load
  | .depthExceeded _ => .stackDepth
  | .raised _ => .custom

def message : Cause -> String
  | .wrongArguments expected got =>
      "wrong # of arguments (" ++ toString got ++ " for " ++ toString expected ++ ")"
  | .noBlockGiven => "no block given"
  | .escaped "break" => "break from proc-closure"
  | .escaped "retry" => "retry outside of rescue clause"
  | .escaped signal => "unexpected " ++ signal
  | .uncaughtThrow tag => "uncaught throw `" ++ tag ++ "'"
  | .insecureOperation "" level => "Insecure operation at level " ++ toString level
  | .insecureOperation operation level =>
      "Insecure operation '" ++ operation ++ "' at level " ++ toString level
  | .insecureAlias => "Insecure: can't alias global variable"
  | .safeLevelLowered current requested =>
      "tried to downgrade safe level from " ++ toString current ++ " to " ++ toString requested
  | .safeLevelType type => "$SAFE must be an integer, not " ++ type
  | .readOnly variableName => variableName ++ " is a read-only variable"
  | .unknownSuperclass className => "undefined superclass '" ++ className ++ "'"
  | .fileNotFound path => "No such file to load -- " ++ path
  | .depthExceeded limit => "stack level too deep (limit: " ++ toString limit ++ ")"
  | .raised message => message

end Cause

/-- The names of the active frames, innermost first. -/
abbrev Backtrace := List String

/-- One line for each frame. -/
def Backtrace.text (backtrace : Backtrace) : String :=
  String.join (backtrace.map (fun name => "\tfrom " ++ name ++ "\n"))

/-- A cause, and the backtrace recorded for it. -/
structure Failure where
  cause : Cause
  backtrace : Option Backtrace := none
deriving DecidableEq

namespace Failure

def message (failure : Failure) : String :=
  failure.cause.message

def exceptionClass (failure : Failure) : String :=
  failure.cause.category.exceptionClass

/-- Record a backtrace unless one is recorded already. -/
def attach (failure : Failure) (backtrace : Backtrace) : Failure :=
  match failure.backtrace with
  | some _ => failure
  | none => { failure with backtrace := some backtrace }

@[simp] theorem attach_cause (failure : Failure) (backtrace : Backtrace) :
    (failure.attach backtrace).cause = failure.cause := by
  unfold attach
  cases failure.backtrace <;> rfl

end Failure

end ExecutionContext
