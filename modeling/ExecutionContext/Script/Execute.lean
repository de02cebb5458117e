import ExecutionContext.Context.Loading
import ExecutionContext.Context.Report
import ExecutionContext.Context.Start
import ExecutionContext.Script.Machine

/-!
# Executing scripts

A body runs its commands in order; the first that does not end with an answer ends
the body, and otherwise the last answer is the body's. Bodies of blocks run on the
yielded arguments and the receiver, drivers and callbacks on arguments of their own,
and all other bodies in the environment around them.

`fuel` bounds the nesting of commands and the number of passes of a loop.
-/

namespace ExecutionContext.Script

variable {ε : Type}

/-- Run commands in order, each by `exec`. -/
def runBody (exec : Step -> Machine Value) : Body -> Machine Value
  | [] => return .nil
  | [step] => exec step
  | step :: rest => do
      let _ ← exec step
      runBody exec rest

/-- Run a body a number of times. -/
def runLoop (body : Machine Value) : Nat -> Machine Value
  | 0 => return .nil
  | count + 1 => do
      let _ ← body
      runLoop body count

/-- Run a body without leaving entries. -/
def runQuietly (body : Machine Value) : Machine Value := do
  let before := (← get).host.quiet
  modifyMemory fun m => { m with quiet := true }
  body.ensuring (modifyMemory fun m => { m with quiet := before })

/-- Run a body and tell how it ended: its answer, the failure its signal becomes, or the fault. -/
def runRescued (body : Machine Value) : Machine Value := fun c =>
  match body c with
  | .ok value c =>
      (do newArray [← newText "ok", value] : Machine Value) c
  | .error (.raised signal) c =>
      (do
        match signal.toFailure? c.heap with
        | some failure =>
            let texts ← newTexts [signal.keyword, failure.exceptionClass, failure.message]
            newArray (texts ++ [moduleOrNil (c.exceptionClassOf? failure)])
        | none => Run.exhausted : Machine Value) c
  | .error (.fault fault) c =>
      (do textArray ["panic", fault.message] : Machine Value) c
  | .error .exhausted c => .error .exhausted c

/-- Run a body and report the signal that ended it, if one did. -/
def runReported (body : Machine Value) : Machine Value := fun c =>
  match body c with
  | .ok _ c => .ok (.bool false) c
  | .error (.raised signal) c =>
      (do
        report signal
        return .bool true : Machine Value) c
  | .error exit c => .error exit c

/-- The names of the top scope's locals. -/
def localNames : Run ε host (List String) := do
  let scope ← currentScope
  return ((← get).scopeCells.read scope).names

/-- The parser of a compile command: its tree is a text, its names are the discovered ones. -/
def parserOf (source file : String) (line : Nat) (discovery : Discovery) :
    Parser (String × List String) := fun known =>
  let tree := (file ++ ":" ++ toString line ++ ":" ++ source, known)
  match discovery with
  | .nothing => .ok (tree, none)
  | .more names => .ok (tree, some (known ++ names))
  | .exactly names => .ok (tree, some names)
  | .failure message => .error { cause := .raised message }

/-- Execute a command that contains no body. -/
def executeSimple (env : Environment) : Command -> Machine Value
  | .value v => evaluate env v
  | .setRegister name v => do
      let value ← evaluate env v
      modifyMemory fun m => { m with registers := m.registers.insert name value }
      return value
  | .pushItem target v => do
      let target ← evaluate env target
      let item ← evaluate env v
      modifyGet fun c =>
        let (pushed, heap) := c.heap.arrayPush target item
        (.bool pushed, { c with heap := heap })
  | .signal s => do Run.raise (← evaluateSignal env s)
  | .dump => do
      let c ← get
      addEntry "dump" (do return .context (← showContext c))
      return .nil
  | .describeBlock name => do
      let block ← slot Memory.blocks name
      let c ← get
      addEntry "block" (do return .block (← showBlock c block))
      return .nil
  -- stacks
  | .start => do
      modify fun c => c.start c.host.processId
      return .bool (← get).started
  | .pushFrame receiver method => do
      let receiver ← evaluate env receiver
      let _ ← Run.signalling (pushFrame receiver method)
      return .nil
  | .popFrame => do
      let frame ← popFrame
      newText ((← get).frameCells.read frame).displayName
  | .previousFrame => do
      let c ← get
      textArray (c.frames.previous?.map (fun frame => (c.frameCells.read frame).displayName)).toList
  | .pushScope names => do
      let _ ← pushScope (match names with
        | some names => Scope.withLocals names
        | none => {})
      return .nil
  | .popScope => do
      let scope ← popScope
      textArray ((← get).scopeCells.read scope).names
  | .saveScope name => do
      let scope ← currentScope
      modifyMemory fun m => { m with scopes := m.scopes.insert name scope }
      return .nil
  | .setTopScope name => do
      let scope ← slot Memory.scopes name
      let old ← setTopScope scope
      textArray ((← get).scopeCells.read old).names
  | .pushBlock name => do
      pushBlock (← slot Memory.blocks name)
      return .nil
  | .popBlock => do
      let block ← popBlock
      let number ← numbering (Numbering.block block.id)
      return .int (Int64.ofNat number)
  | .pushMark mark => do
      pushMark mark
      return .nil
  | .popMark => do newText (← popMark).label
  | .currentMark => do newText (← currentMark).label
  | .pushClass cls => do
      pushClass (← evaluateModuleOption env cls)
      return .nil
  | .popClass => do return moduleOrNil (← popClass)
  | .setClass cls => do return moduleOrNil (← setClass (← evaluateModuleOption env cls))
  | .blockGiven => do
      let c ← get
      newArray [.bool c.isBlockGiven, .bool c.isCallerBlockGiven]
  | .setSelf v => do
      let value ← evaluate env v
      let frame ← currentFrame
      modify fun c =>
        { c with frameCells := c.frameCells.modify frame (fun f => { f with self := value }) }
      return .nil
  | .saveFrame name => do
      let frame ← currentFrame
      modifyMemory fun m => { m with frames := m.frames.insert name frame }
      return .nil
  | .describeFrame name => do
      let frame := (← get).frameCells.read (← slot Memory.frames name)
      let texts ← newTexts [frame.displayName, frame.mark.label]
      newArray (frame.self :: texts)
  -- variables and namespaces
  | .assignLocal name v => do
      let value ← evaluate env v
      let scope ← currentScope
      modifyGet fun c =>
        let (assigned, changed) := (c.scopeCells.read scope).assign name value
        (.bool assigned, { c with scopeCells := c.scopeCells.write scope changed })
  | .declareLocal name v => do
      let value ← evaluate env v
      modifyScope (fun scope => scope.declare name value)
      return .nil
  | .localNames => do textArray (← localNames)
  | .getDynamic name => do
      let c ← get
      optionArray (c.chain.get? c.bindings name)
  | .setDynamic name v => do
      let value ← evaluate env v
      setDynamic name value
      return .nil
  | .isDynamicDefined name => do return .bool ((← get).chain.isDefined name)
  | .dynamicNames => do textArray (← get).chain.names
  | .saveChain name activate => do
      modify fun c =>
        let (chain, bindings) :=
          if activate then c.chain.activate c.bindings else (c.chain, c.bindings)
        { c with
          bindings := bindings
          host := { c.host with chains := c.host.chains.insert name chain } }
      return .nil
  | .setChain name => do
      let chain ←
        match name with
        | some name => slot Memory.chains name
        | none => pure []
      textArray (← setChain chain).names
  | .saveNamespace name => do
      modify fun c =>
        { c with host := { c.host with namespaces := c.host.namespaces.insert name c.ns } }
      return .nil
  | .setNamespace name => do
      let ns ←
        match name with
        | some name => slot Memory.namespaces name
        | none => pure none
      let old ← setNamespace ns
      return moduleOrNil (old.map (·.module (← get).levels))
  | .childNamespace name module => do
      let module ← evaluateModule env module
      modify fun c =>
        let (ns, levels) :=
          match c.ns with
          | some parent => parent.child c.levels module
          | none => Namespace.top c.levels module
        { c with
          levels := levels
          host := { c.host with namespaces := c.host.namespaces.insert name (some ns) } }
      return .nil
  | .lexicalModule => do return moduleOrNil (← get).lexicalModule?
  | .setLexicalModule module => do
      setLexicalModule (← evaluateModule env module)
      return .nil
  | .constant name => do optionArray ((← get).constant? name)
  -- safe level and globals
  | .safeLevel => do return .int (Int64.ofNat (← get).safeLevel)
  | .setSafeLevel level => do
      Run.signalling (setSafeLevel level)
      return .int (Int64.ofNat (← get).safeLevel)
  | .secure level => do
      Run.signalling (secure level)
      return .nil
  | .getGlobal name => globalGet name
  | .setGlobal name v => do
      let value ← evaluate env v
      Run.signalling (globalSet name value)
  | .aliasGlobal old new => do
      Run.signalling (aliasGlobal old new)
      return .nil
  | .defineGlobal name sort => do
      match sort with
      | .plain v => defineGlobal name (← evaluate env v)
      | .readOnly v => defineVariable (.readOnly name (← evaluate env v))
      | .special kind => defineVariable (.special name kind)
      return .nil
  | .undefineGlobal name => do return .bool (← undefineGlobal name)
  | .isGlobalDefined name => do return .bool ((← get).globals.isDefined name)
  | .globalNames => do textArray (← get).globals.names
  | .lastLine => do return (← get).lastLine
  | .setLastLine v => do
      setLastLine (← evaluate env v)
      return .nil
  | .lastMatch => do return (← get).lastMatch
  | .setLastMatch v => do
      setLastMatch (← evaluate env v)
      return .nil
  -- classes
  | .defineClass name superclass => do
      let superclass ← evaluateModuleOption env superclass
      return .module (← defineClass name superclass)
  | .defineClassUnder name superclass => do
      return .module (← Run.signalling (defineClassUnder name superclass))
  | .defineModule name => do return .module (← defineModule name)
  | .findClass name => do
      let c ← get
      let constant ← optionArray (c.topConstant? name)
      newArray [moduleOrNil (c.module? name), moduleOrNil (c.class? name),
        .bool (c.registry.contains name), constant]
  | .classNames => do textArray (← get).registry.names
  | .setConstant module name v => do
      let module ← evaluateModule env module
      let value ← evaluate env v
      setConstant module name value
      return .nil
  | .rename module name => do
      let module ← evaluateModule env module
      modify fun c => { c with heap := c.heap.rename module name }
      return .nil
  | .superclass module => do
      let module ← evaluateModule env module
      return moduleOrNil ((← get).heap.superclass? module)
  | .defineConstant name v => do
      defineConstant name (← evaluate env v)
      return .nil
  | .classOf v => do return .module (← classOf (← evaluate env v))
  | .core => do
      let core ← coreClasses
      let rows := listCatalogue (← get).heap CoreClass.blueprint core
      addEntry "list" (return .catalogue rows)
      return .module (core.get .object)
  | .exceptions => do
      let exceptions ← exceptionClasses
      let rows := listCatalogue (← get).heap ExceptionClass.blueprint exceptions
      addEntry "list" (return .catalogue rows)
      return .nil
  | .singletons => newArray [.nil, .bool true, .bool false]
  | .tops => do
      let c ← get
      addEntry "list" (do
        let frame ← showOption Numbering.frame c.topFrame
        let scope ← showOption Numbering.scope c.topScope
        let ns ← showOption Numbering.level (c.topNamespace.map Namespace.level)
        return .numbers [frame, scope, ns])
      return c.topSelf
  -- the rest of the context
  | .visibility change => do
      match change with
      | some visibility => modify fun c => { c with visibility := visibility }
      | none => pure ()
      let visibility := (← get).visibility
      let all := [Visibility.anyone, .ownCode, .family, .moduleFunction]
      newArray ((← newText visibility.name) :: all.map (fun v => .bool (decide (v = visibility))))
  | .wrapper => do return moduleOrNil (← get).wrapper
  | .setWrapper module => do
      let module ← evaluateModuleOption env module
      modifyGet fun c => (moduleOrNil c.wrapper, { c with wrapper := module })
  | .source file line => do
      modify fun c =>
        { c with
          sourceFile := file.getD c.sourceFile
          sourceLine := line.getD c.sourceLine }
      let c ← get
      let file ← newText c.sourceFile
      let position ← newText (c.sourceFile ++ ":" ++ toString c.sourceLine)
      newArray [file, .int (Int64.ofNat c.sourceLine), position]
  | .flags => do
      let config := (← get).config
      let script ← newText config.scriptName
      let limit :=
        match config.maxCallDepth with
        | some limit => .int (Int64.ofNat limit)
        | none => .nil
      newArray [.bool config.verbose, .bool config.debug, script, limit,
        .int (Int64.ofNat config.safeLevel)]
  | .evalDepth enter => do
      match enter with
      | some true => modify fun c => { c with evalDepth := c.evalDepth + 1 }
      | some false => modify fun c => { c with evalDepth := c.evalDepth - 1 }
      | none => pure ()
      return .bool (decide (0 < (← get).evalDepth))
  | .backtrace => do
      let names := (← get).backtrace
      addEntry "list" (return .runs (runsOf names))
      return .int (Int64.ofNat names.length)
  | .report s => do
      report (← evaluateSignal env s)
      return .bool true
  | .output clear => do
      let text ← newText (← get).errors.output
      if clear then
        modify fun c => { c with errors := c.errors.clear }
      return text
  | .compile source file line discovery => do
      let (tree, known) ← Run.signalling (compile (parserOf source file line discovery))
      let tree ← newText tree
      newArray [tree, ← textArray known]
  | .extendSearchPath directories => do
      let list := (← get).host.searchList.map Utf8.encode
      Run.signalling (extendSearchPath (directories.map Path.ofText) list)
      return .nil
  | .searchPath => do textArray ((← searchPath).map Path.lossy)
  | .findFile path => do
      newText (← Run.signalling (findFile (← get).host.files.hasPath (.ofText path))).lossy
  | _ => return .nil

/-- Execute a labelled command. -/
def execute : Nat -> Environment -> Step -> Machine Value
  | 0, _, _ => Run.exhausted
  | fuel + 1, env, (label, command) =>
      let inside (env : Environment) (body : Body) : Machine Value :=
        runBody (execute fuel env) body
      let evaluator : Evaluator host :=
        { limit := fuel
          runBody := fun body receiver args => inside { args := args, this := receiver } body
          runCallback := fun body yielded data => inside { args := [yielded, data] } body
          bind := bindPattern }
      recorded label <|
        match command with
        | .group body => inside env body
        | .branch condition yes no => do
            if (← evaluate env condition).isTruthy then inside env yes else inside env no
        | .loop count body => runLoop (inside env body) count
        | .quietly body => runQuietly (inside env body)
        | .procedure name body => do
            modifyMemory fun m => { m with procedures := m.procedures.insert name body }
            return .nil
        | .call name args => do
            let body ← slot Memory.procedures name
            match args with
            | some args => inside { env with args := ← evaluateAll env args } body
            | none => inside env body
        | .rescue body => runRescued (inside env body)
        | .reportBody body => runReported (inside env body)
        | .block name params self body => do
            let block ←
              match ← evaluateOption env self with
              | some receiver => newBlockWithSelf params (.body body) receiver
              | none => newBlock params (.body body)
            modifyMemory fun m => { m with blocks := m.blocks.insert name block }
            return .nil
        | .yield v receiver cls strict => do
            let value ← evaluateOption env v
            let receiver ← evaluateOption env receiver
            let cls ← evaluateModuleOption env cls
            yieldBlock evaluator value receiver cls strict
        | .withBlock block body => do
            let block ← slot Memory.blocks block
            callWithBlock evaluator block (inside env body)
        | .invoke receiver method body => do
            let receiver ← evaluate env receiver
            invoke receiver method (inside env body)
        | .openModule module body => do
            let module ← evaluateModule env module
            openModule module (inside env body)
        | .catchTag tag body => do
            let tag ← evaluate env tag
            catchTag tag (inside env body)
        | .iterate data1 data2 driver body => do
            let data1 ← evaluate env data1
            let data2 ← evaluate env data2
            iterate evaluator (fun data => inside { args := [data] } driver) data1 body data2
        | simple => executeSimple env simple

/-- Execute one command at the top level. Whatever ends it, the next one can run; a fault leaves
the only entry of the command. -/
def executeTop (fuel : Nat) (c : Context host) (step : Step) : Context host :=
  match execute fuel {} step c with
  | .ok _ c => c
  | .error (.fault fault) c =>
      let entry : Entry :=
        { label := step.1, content := .fault fault, depths := depthsOf c }
      { c with host := { c.host with trace := c.host.trace.push entry, quiet := false } }
  | .error _ c => c

/-- Execute a script from a context, and answer with its trace. -/
def traceOf (fuel : Nat) (c : Context host) (script : Body) : Array Entry :=
  (script.foldl (executeTop fuel) c).host.trace

end ExecutionContext.Script
