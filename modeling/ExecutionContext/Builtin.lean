import ExecutionContext.Registry

/-!
# The built-in classes

The core classes and modules, and the hierarchy of exceptions. Both plans list
every superclass before its subclasses.
-/

namespace ExecutionContext

/-- The classes and modules that every context starts with. -/
inductive CoreClass where
  | object | module | cls | kernel | comparable | enumerable | nilClass | trueClass | falseClass
  | numeric | integer | float | string | symbol | array | hash | proc
deriving DecidableEq

namespace CoreClass

def all : List CoreClass :=
  [.object, .module, .cls, .kernel, .comparable, .enumerable, .nilClass, .trueClass, .falseClass,
    .numeric, .integer, .float, .string, .symbol, .array, .hash, .proc]

def blueprint : CoreClass -> Blueprint CoreClass
  | .object => { role := "object", name := "Object" }
  | .module => { role := "module", name := "Module", parent := some .object }
  | .cls => { role := "class", name := "Class", parent := some .module }
  | .kernel => { role := "kernel", name := "Kernel", isClass := false }
  | .comparable => { role := "comparable", name := "Comparable", isClass := false }
  | .enumerable => { role := "enumerable", name := "Enumerable", isClass := false }
  | .nilClass => { role := "nil_class", name := "NilClass", parent := some .object }
  | .trueClass => { role := "true_class", name := "TrueClass", parent := some .object }
  | .falseClass => { role := "false_class", name := "FalseClass", parent := some .object }
  | .numeric => { role := "numeric", name := "Numeric", parent := some .object }
  | .integer => { role := "integer", name := "Integer", parent := some .numeric }
  | .float => { role := "float", name := "Float", parent := some .numeric }
  | .string => { role := "string", name := "String", parent := some .object }
  | .symbol => { role := "symbol", name := "Symbol", parent := some .object }
  | .array => { role := "array", name := "Array", parent := some .object }
  | .hash => { role := "hash", name := "Hash", parent := some .object }
  | .proc => { role := "proc_class", name := "Proc", parent := some .object }

end CoreClass

/-- The classes of exceptions under which failures surface. -/
inductive ExceptionClass where
  | exception | scriptError | loadError | standardError | runtimeError | argumentError | nameError
  | typeError | indexError | localJumpError | securityError | systemStackError | systemExit
  | interrupt
deriving DecidableEq

namespace ExceptionClass

def all : List ExceptionClass :=
  [.exception, .scriptError, .loadError, .standardError, .runtimeError, .argumentError,
    .nameError, .typeError, .indexError, .localJumpError, .securityError, .systemStackError,
    .systemExit, .interrupt]

def blueprint : ExceptionClass -> Blueprint ExceptionClass
  | .exception => { role := "exception", name := "Exception" }
  | .scriptError => { role := "script_error", name := "ScriptError", parent := some .exception }
  | .loadError => { role := "load_error", name := "LoadError", parent := some .scriptError }
  | .standardError =>
      { role := "standard_error", name := "StandardError", parent := some .exception }
  | .runtimeError =>
      { role := "runtime_error", name := "RuntimeError", parent := some .standardError }
  | .argumentError =>
      { role := "argument_error", name := "ArgumentError", parent := some .standardError }
  | .nameError => { role := "name_error", name := "NameError", parent := some .standardError }
  | .typeError => { role := "type_error", name := "TypeError", parent := some .standardError }
  | .indexError => { role := "index_error", name := "IndexError", parent := some .standardError }
  | .localJumpError =>
      { role := "local_jump_error", name := "LocalJumpError", parent := some .standardError }
  | .securityError =>
      { role := "security_error", name := "SecurityError", parent := some .standardError }
  | .systemStackError =>
      { role := "system_stack_error", name := "SystemStackError", parent := some .standardError }
  | .systemExit => { role := "system_exit", name := "SystemExit", parent := some .exception }
  | .interrupt => { role := "interrupt", name := "Interrupt", parent := some .exception }

end ExceptionClass

namespace Builtin

/-- Define the core classes and bind every registered name as a constant of `Object`. -/
def defineCore (registry : Registry) (heap : Heap) : Catalogue CoreClass × Registry × Heap :=
  let (core, registry, heap) :=
    Catalogue.define CoreClass.all CoreClass.blueprint none registry heap
  (core, registry, registry.bindConstants (core.get .object) heap)

/-- Define the classes of exceptions under `object` and bind them as constants of it. -/
def defineExceptions (object : Ref .module) (registry : Registry) (heap : Heap) :
    Catalogue ExceptionClass × Registry × Heap :=
  let (exceptions, registry, heap) :=
    Catalogue.define ExceptionClass.all ExceptionClass.blueprint (some object) registry heap
  (exceptions, registry, registry.bindConstants object heap)

end Builtin

end ExecutionContext
