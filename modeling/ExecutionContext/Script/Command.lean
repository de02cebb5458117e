import ExecutionContext.Context

/-!
# Scripts

A script is a list of labelled commands that drive a context. Commands call the
operations of the context in the order in which they stand, and supply the bodies
of blocks, methods, drivers and modules; expressions describe the values that they
use.
-/

namespace ExecutionContext.Script

/-- An expression; each evaluation makes new texts, arrays and objects. -/
inductive Expr where
  | nil
  | bool (b : Bool)
  | int (n : Int64)
  | float (x : Binary64)
  | text (s : String)
  | array (items : List Expr)
  /-- A text repeated. -/
  | repeated (count : Nat) (s : String)
  /-- An array that holds one value many times. -/
  | filled (count : Nat) (item : Expr)
  /-- A value wrapped many times in an array of one element. -/
  | nested (count : Nat) (item : Expr)
  | register (name : String)
  | arg (index : Nat)
  | args
  | this
  /-- The receiver of the current frame. -/
  | self
  | top
  | dynamic (name : String)
  | slot (name : String)
  | global (name : String)
  | constant (name : String)
  | module (name : String)
  /-- A new object of a class. -/
  | new (cls : Expr)
  /-- The next number of a counter. -/
  | tick (counter : String)
  | length (array : Expr)
  | add (a b : Expr)
  | less (a b : Expr)
  | equal (a b : Expr)
  | same (a b : Expr)
  | entry (array index : Expr)
deriving Inhabited

/-- A cause whose parts may still have to be evaluated. -/
inductive CauseExpr where
  | cause (cause : Cause)
  | uncaughtThrow (tag : Expr)

/-- A signal whose values have still to be evaluated. -/
inductive SignalExpr where
  | failure (cause : CauseExpr)
  | breakWith (value : Expr)
  | next
  | redo
  | retry
  | returnWith (value : Expr)
  | throwTo (tag value : Expr)

/-- What the parser of a compile command reports. -/
inductive Discovery where
  | nothing
  /-- The known names and these. -/
  | more (names : List String)
  /-- Exactly these names. -/
  | exactly (names : List String)
  | failure (message : String)

/-- How a global is defined. -/
inductive GlobalSort where
  | plain (value : Expr)
  | readOnly (value : Expr)
  | special (kind : SpecialGlobal)

/-- One command. A body is a list of labelled commands. -/
inductive Command where
  -- control
  | value (v : Expr)
  | setRegister (name : String) (v : Expr)
  | pushItem (target v : Expr)
  | signal (s : SignalExpr)
  | group (body : List (String × Command))
  | branch (condition : Expr) (yes no : List (String × Command))
  | loop (count : Nat) (body : List (String × Command))
  | quietly (body : List (String × Command))
  | procedure (name : String) (body : List (String × Command))
  | call (name : String) (args : Option (List Expr))
  | rescue (body : List (String × Command))
  | dump
  -- calls and blocks
  | block (name : String) (params : Params) (self : Option Expr) (body : List (String × Command))
  | describeBlock (name : String)
  | yield (v receiver cls : Option Expr) (strict : Bool)
  | withBlock (block : String) (body : List (String × Command))
  | invoke (receiver : Expr) (method : String) (body : List (String × Command))
  | openModule (module : Expr) (body : List (String × Command))
  | catchTag (tag : Expr) (body : List (String × Command))
  | iterate (data1 data2 : Expr) (driver body : List (String × Command))
  -- stacks
  | start
  | pushFrame (receiver : Expr) (method : Option String)
  | popFrame
  | previousFrame
  | pushScope (names : Option (List String))
  | popScope
  | saveScope (name : String)
  | setTopScope (name : String)
  | pushBlock (name : String)
  | popBlock
  | pushMark (mark : Attachment)
  | popMark
  | currentMark
  | pushClass (cls : Option Expr)
  | popClass
  | setClass (cls : Option Expr)
  | blockGiven
  | setSelf (v : Expr)
  | saveFrame (name : String)
  | describeFrame (name : String)
  -- variables and namespaces
  | assignLocal (name : String) (v : Expr)
  | declareLocal (name : String) (v : Expr)
  | localNames
  | getDynamic (name : String)
  | setDynamic (name : String) (v : Expr)
  | isDynamicDefined (name : String)
  | dynamicNames
  | saveChain (name : String) (activate : Bool)
  | setChain (name : Option String)
  | saveNamespace (name : String)
  | setNamespace (name : Option String)
  | childNamespace (name : String) (module : Expr)
  | lexicalModule
  | setLexicalModule (module : Expr)
  | constant (name : String)
  -- safe level and globals
  | safeLevel
  | setSafeLevel (level : Nat)
  | secure (level : Nat)
  | getGlobal (name : String)
  | setGlobal (name : String) (v : Expr)
  | aliasGlobal (old new : String)
  | defineGlobal (name : String) (sort : GlobalSort)
  | undefineGlobal (name : String)
  | isGlobalDefined (name : String)
  | globalNames
  | lastLine
  | setLastLine (v : Expr)
  | lastMatch
  | setLastMatch (v : Expr)
  -- classes
  | defineClass (name : String) (superclass : Option Expr)
  | defineClassUnder (name superclass : String)
  | defineModule (name : String)
  | findClass (name : String)
  | classNames
  | setConstant (module : Expr) (name : String) (v : Expr)
  | rename (module : Expr) (name : String)
  | superclass (module : Expr)
  | defineConstant (name : String) (v : Expr)
  | classOf (v : Expr)
  | core
  | exceptions
  | singletons
  | tops
  -- the rest of the context
  | visibility (change : Option Visibility)
  | wrapper
  | setWrapper (module : Option Expr)
  | source (file : Option String) (line : Option Nat)
  | flags
  /-- Enter or leave a nested evaluation, if told to. -/
  | evalDepth (enter : Option Bool)
  | backtrace
  | report (s : SignalExpr)
  | reportBody (body : List (String × Command))
  | output (clear : Bool)
  | compile (source file : String) (line : Nat) (discovery : Discovery)
  | extendSearchPath (directories : List String)
  | searchPath
  | findFile (path : String)

instance : Inhabited Command := ⟨.dump⟩

/-- A labelled command. -/
abbrev Step := String × Command

/-- The code of blocks and callbacks. -/
abbrev Body := List Step

end ExecutionContext.Script
