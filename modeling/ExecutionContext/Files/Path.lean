import ExecutionContext.Text.Utf8

/-!
# Paths

A path is any bytes; those of a text are its encoding, and every path has a lossy text.
Joining puts one separator between the two parts, unless the left part is empty or
already ends in one; an absolute right part stands alone. Searching a file tree
follows a path component by component from the working directory, which holds
nothing but the listed files and the directories on the way to them.
-/

namespace ExecutionContext

structure Path where
  bytes : Bytes
deriving DecidableEq

namespace Path

def ofText (text : String) : Path :=
  ⟨Utf8.encode text⟩

def lossy (path : Path) : String :=
  Utf8.lossy path.bytes

/-- The byte of `/`. -/
def separator : UInt8 := 0x2f

def isAbsolute (path : Path) : Bool :=
  path.bytes.head? = some separator

/-- The path `inner` as seen from the directory `outer`. -/
def join (outer inner : Path) : Path :=
  if inner.isAbsolute then inner
  else if outer.bytes.getLast?.all (· = separator) then ⟨outer.bytes ++ inner.bytes⟩
  else ⟨outer.bytes ++ separator :: inner.bytes⟩

/-- Cut bytes at every occurrence of one. -/
def splitAt (mark : UInt8) : Bytes -> List Bytes
  | [] => [[]]
  | byte :: rest =>
      if byte = mark then [] :: splitAt mark rest
      else
        match splitAt mark rest with
        | first :: others => (byte :: first) :: others
        | [] => [[byte]]

/-- The byte of `:`. -/
def listSeparator : UInt8 := 0x3a

/-- The entries of a search list whose parts are separated by colons; empty ones are dropped. -/
def searchEntries (list : Bytes) : List Path :=
  ((splitAt listSeparator list).filter (fun entry => !entry.isEmpty)).map Path.mk

end Path

/-- A place: so many levels above the working directory, and from there down by names. -/
structure Place where
  up : Nat := 0
  down : List Bytes := []
deriving DecidableEq

/-- The place that a component of a path leads to. -/
def Place.enter (place : Place) (component : Bytes) : Place :=
  if component = [] ∨ component = Utf8.encode "." then place
  else if component = Utf8.encode ".." then
    if place.down.isEmpty then { place with up := place.up + 1 }
    else { place with down := place.down.dropLast }
  else { place with down := place.down ++ [component] }

/-- The files and directories that are known around a working directory. -/
structure FileTree where
  directories : List Place := []
  files : List Place := []

namespace FileTree

/-- The longest path that leads anywhere, in bytes. -/
def maxPathBytes : Nat := 4095

def components (path : Path) : List Bytes :=
  Path.splitAt Path.separator path.bytes

/-- Add a file, given by its components, and every directory on the way to it. -/
def insert (tree : FileTree) (path : List Bytes) : FileTree :=
  { directories := tree.directories ++ path.dropLast.scanl Place.enter {}
    files := tree.files ++ [path.foldl Place.enter {}] }

/-- The tree that holds the given files, by relative paths, and the directories they need. -/
def ofPaths (paths : List String) : FileTree :=
  (((paths.map Path.ofText).filter (fun path => !path.isAbsolute)).map components).foldl insert {}

/-- Whether a place is a directory; the working directory and those around it are. -/
def isDirectory (tree : FileTree) (place : Place) : Bool :=
  place.down.isEmpty || tree.directories.contains place

/-- Follow components from a place. Every place on the way must be a directory. -/
def follow (tree : FileTree) : Place -> List Bytes -> Bool
  | place, [] => tree.isDirectory place || tree.files.contains place
  | place, component :: rest => tree.isDirectory place && tree.follow (place.enter component) rest

/-- Components that lead from the root back to it. -/
def stayAtRoot (components : List Bytes) : Bool :=
  components.all (fun part =>
    part = [] || part = Utf8.encode "." || part = Utf8.encode "..")

/-- Whether a path leads to a file or a directory. Of absolute paths only the root is known. -/
def hasPath (tree : FileTree) (path : Path) : Bool :=
  if path.bytes.isEmpty || decide (maxPathBytes < path.bytes.length) then false
  else if path.isAbsolute then stayAtRoot (components path)
  else tree.follow {} (components path)

end FileTree

end ExecutionContext
