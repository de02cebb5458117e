import ExecutionContext.Chain
import ExecutionContext.Namespace

/-!
# Frames and blocks

A frame is the record of one method call, with a mark that says whether a block is
attached to the call. A block is a body of code captured together with the context
around it: activating the block installs what was captured and copies none of it.
-/

namespace ExecutionContext

/-- Whether a block is attached to a call. `pending` says that a block has been pushed for the
next call; the call it is meant for turns that into `attached`. -/
inductive Attachment where
  | absent
  | pending
  | attached
deriving DecidableEq, Inhabited

namespace Attachment

def label : Attachment -> String
  | .absent => "Not"
  | .pending => "Pre"
  | .attached => "Cur"

/-- The mark of a call made while `mark` is on top of the stack of marks. -/
def forCallee (mark : Attachment) : Attachment :=
  if mark = .pending then .attached else .absent

end Attachment

/-- The record of a method call. -/
structure Frame where
  self : Value := .nil
  ns : Option Namespace := none
  /-- The name of the running method; none at the top level. -/
  method : Option String := none
  mark : Attachment := .absent

instance : Inhabited Frame := ⟨{}⟩

def Frame.displayName (frame : Frame) : String :=
  frame.method.getD "<main>"

/-- A parameter list that binds something. -/
inductive Pattern where
  /-- One name for the whole value. -/
  | single (name : String)
  /-- Names for the elements, and possibly one for the rest of them. -/
  | multiple (names : List String) (splat : Option String)
deriving DecidableEq

/-- The parameter declaration of a block. -/
inductive Params where
  /-- No parameter list. -/
  | undeclared
  /-- An explicitly empty parameter list. -/
  | empty
  | pattern (pattern : Pattern)
deriving DecidableEq

namespace Params

def inspectOption : Option String -> String
  | some name => "Some(" ++ Text.quote name ++ ")"
  | none => "None"

def inspect : Params -> String
  | .undeclared => "None"
  | .empty => "ZeroArg"
  | .pattern (.single name) => "Pattern(Name(" ++ Text.quote name ++ "))"
  | .pattern (.multiple names splat) =>
      "Pattern(Multiple \x7b names: " ++ Text.bracketed (names.map Text.quote) ++ ", splat: " ++
        inspectOption splat ++ " \x7d)"

end Params

/-- The code of a block: a body that takes the receiver and the arguments, or one that takes the
packed arguments and a datum given in advance. -/
inductive Code (β : Type) where
  | body (body : β)
  | callback (body : β) (data : Value)

/-- A body of code and the context it was created in. -/
structure Block (β : Type) where
  id : Ref .block
  params : Params
  code : Code β
  self : Value
  frame : Ref .frame
  scope : Ref .scope
  ns : Option Namespace
  cls : Option (Ref .module)
  chain : Chain
  mark : Attachment

end ExecutionContext
