import ExecutionContext.Files.Path

/-!
# Settings and the error stream

The settings under which a context starts, the default visibility of methods, and
the stream on which escaped signals are reported. Directories are given as texts here,
since only the lossy text of the library's path is ever kept.
-/

namespace ExecutionContext

/-- The highest safe level. -/
def maxSafeLevel : Nat := 4

/-- What a context is told when it is made. -/
structure Config where
  safeLevel : Nat := 0
  verbose : Bool := false
  debug : Bool := false
  /-- The number of frames at which calls fail; `none` means no limit. -/
  maxCallDepth : Option Nat := some 10000
  libraryDir : Option String := none
  homeDir : Option String := none
  scriptName : String := "-"
deriving DecidableEq

/-- Choose a safe level; a higher one than the highest counts as that. -/
def Config.withSafeLevel (config : Config) (level : Nat) : Config :=
  { config with safeLevel := min level maxSafeLevel }

/-- The directory of the standard library: the one given, or its usual place below the home. -/
def Config.libraryPath? (config : Config) : Option String :=
  config.libraryDir.or (config.homeDir.map fun home =>
    (((Path.ofText home).join (.ofText "lib")).join (.ofText "ruby")).lossy)

/-- The visibility that newly defined methods get. -/
inductive Visibility where
  | anyone
  | ownCode
  | family
  | moduleFunction
deriving DecidableEq

def Visibility.name : Visibility -> String
  | .anyone => "Public"
  | .ownCode => "Private"
  | .family => "Protected"
  | .moduleFunction => "ModuleFunction"

/-- Where reports go: to the console, into a buffer, or nowhere. -/
inductive ErrorStream where
  | console
  | buffer (text : String)
  | silent
deriving DecidableEq

namespace ErrorStream

def println (stream : ErrorStream) (line : String) : ErrorStream :=
  match stream with
  | .buffer text => .buffer (text ++ line ++ "\n")
  | other => other

/-- The text captured so far; streams that do not capture have none. -/
def output : ErrorStream -> String
  | .buffer text => text
  | _ => ""

def clear : ErrorStream -> ErrorStream
  | .buffer _ => .buffer ""
  | other => other

end ErrorStream

end ExecutionContext
