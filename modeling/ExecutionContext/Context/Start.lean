import ExecutionContext.Context

/-!
# Starting a context

Starting installs the base context: the first mark, frame and scope, none of which
can be popped afterwards, the built-in classes, the globals every program finds,
and the outermost receiver and namespace. A context is started once; starting it
again changes nothing.
-/

namespace ExecutionContext

variable {H : Host}

def Context.new (config : Config) (errors : ErrorStream) (host : H.State) : Context H :=
  { config := config
    safeLevel := min config.safeLevel maxSafeLevel
    errors := errors
    host := host }

/-- The directories that a search for files starts with. -/
def Config.searchDirectories (config : Config) : List String :=
  config.libraryPath?.toList ++ ["."]

/-- Define the globals that every program finds. -/
def defineStandardGlobals (config : Config) (processId : Int64) (globals : Globals)
    (heap : Heap) : Globals × Heap :=
  let (directories, heap) := heap.newTexts config.searchDirectories
  let (path, heap) := heap.newArray directories
  let (features, heap) := heap.newArray []
  let (separator, heap) := heap.newText "\n"
  let (script, heap) := heap.newText config.scriptName
  let plain (globals : Globals) (name : String) (value : Value) : Globals :=
    (globals.definePlain name value).2
  let globals := (plain globals "$:" path).addAlias "$:" "$LOAD_PATH"
  let globals := (plain globals "$\"" features).addAlias "$\"" "$LOADED_FEATURES"
  let globals := plain globals "$/" separator
  let globals := plain globals "$," .nil
  let globals := plain globals "$;" .nil
  let globals := plain globals "$\\" .nil
  let globals := plain globals "$VERBOSE" (.bool config.verbose)
  let globals := plain globals "$DEBUG" (.bool config.debug)
  let globals := globals.define (.readOnly "$0" script)
  let globals := globals.define (.readOnly "$$" (.int processId))
  let globals := globals.define (.special "$SAFE" .safeLevel)
  let globals := globals.define (.special "$_" .lastLine)
  let globals := globals.define (.special "$~" .lastMatch)
  (globals, heap)

def Context.start (c : Context H) (processId : Int64) : Context H :=
  if c.started then c
  else
    let (core, registry, heap) := Builtin.defineCore c.registry c.heap
    let object := core.get .object
    let (exceptions, registry, heap) := Builtin.defineExceptions object registry heap
    let (globals, heap) := defineStandardGlobals c.config processId c.globals heap
    let (self, heap) := heap.newObject object
    let (ns, levels) := Namespace.top c.levels object
    let (frame, frameCells) := c.frameCells.alloc { self := self, ns := some ns }
    let (scope, scopeCells) := c.scopeCells.alloc (Scope.withLocals [])
    { c with
      started := true
      marks := (c.marks.push .absent).sealBase
      frames := (c.frames.push frame).sealBase
      scopes := (c.scopes.push scope).sealBase
      classes := (c.classes.setCurrent (some object)).2
      visibility := .ownCode
      ns := some ns
      globals := globals
      registry := registry
      core := some core
      exceptions := some exceptions
      topSelf := self
      topFrame := some frame
      topScope := some scope
      topNamespace := some ns
      heap := heap
      frameCells := frameCells
      scopeCells := scopeCells
      levels := levels }

end ExecutionContext
