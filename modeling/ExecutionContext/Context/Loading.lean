import ExecutionContext.Context.Variables

/-!
# Compiling and finding files

A parser is offered the names of the locals in scope, and the names it reports
become the scope's. The directories in which files are looked for are the texts of
the array in a global, which programs may replace or change. A directory is put there
as its lossy text, so one that is not UTF-8 is not looked in.
-/

namespace ExecutionContext

variable {H : Host} {α : Type}

/-- What a parser makes of the known locals: a failure, or a tree and perhaps new names. -/
abbrev Parser (α : Type) := List String -> Except Failure (α × Option (List String))

/-- Parse against the locals of the top scope, which takes over the names reported. -/
def compile (parse : Parser α) : Run Failure H α := do
  let scope ← currentScope
  let c ← get
  match parse (c.scopeCells.read scope).names with
  | .error failure => Run.raise (c.attach failure)
  | .ok (tree, none) => return tree
  | .ok (tree, some names) =>
      set { c with scopeCells := c.scopeCells.modify scope (fun s => s.setNames names) }
      return tree

/-- The global that holds the search directories. -/
def searchPathName : String := "$:"

/-- Put directories, and then the entries of a search list, in front of the search path. A search
path that cannot be written stays as it is. -/
def extendSearchPath (directories : List Path) (list : Option Bytes) : Run Failure H Unit := do
  let entries := (list.map Path.searchEntries).getD []
  let front ← newTexts ((directories ++ entries).map Path.lossy)
  let old ← globalGet searchPathName
  let path ← newArray (front ++ ((← get).heap.items? old).getD [])
  fun c =>
    match globalSet searchPathName path c with
    | .error (.raised _) c => .ok () c
    | .ok _ c => .ok () c
    | .error exit c => .error exit c

/-- The directories that the texts on the search path name. -/
def searchPath {ε : Type} : Run ε H (List Path) := do
  let path ← globalGet searchPathName
  let heap := (← get).heap
  return (((heap.items? path).getD []).filterMap heap.asText?).map Path.ofText

/-- Find a file: a relative path in each search directory in turn, and any path as it stands. -/
def findFile (found : Path -> Bool) (path : Path) : Run Failure H Path := do
  let directories ← if path.isAbsolute then pure [] else searchPath
  let candidates := directories.map (fun directory => directory.join path) ++ [path]
  match candidates.find? found with
  | some candidate => return candidate
  | none => failWith (.fileNotFound path.lossy)

end ExecutionContext
