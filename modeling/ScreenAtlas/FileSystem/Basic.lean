import ScreenAtlas.Path
/-!
# File systems

A file system binds locations to files, symbolic links and directories. A location lists the names
that lead to it, the innermost first, so that the location of a directory is the tail of those of
its children; the root has the empty location. Of several bindings of one location the first holds.
-/
namespace ScreenAtlas

/-- A name in a directory: it is not empty, holds no slash, and is neither `.` nor `..`. -/
structure Name where
  bytes : List UInt8
  isName : Path.isFiller bytes = false ∧ bytes ≠ [Path.dot, Path.dot] ∧ Path.slash ∉ bytes
  deriving DecidableEq

/-- The name with the given bytes. -/
def Name.ofBytes? (bytes : List UInt8) : Option Name :=
  if h : Path.isFiller bytes = false ∧ bytes ≠ [Path.dot, Path.dot] ∧ Path.slash ∉ bytes then
    some ⟨bytes, h⟩
  else none

/-- The names that lead to a place in the file system, the innermost first. -/
abbrev Location := List Name

/-- What a location is bound to. -/
inductive Node
  | file (bytes : List UInt8)
  | link (target : Path)
  | directory
  deriving DecidableEq

/-- A file system, and the directory that relative paths start from. -/
structure FileSystem where
  bindings : List (Location × Node)
  /-- The working directory. Where it is bound to no directory, the working directory is gone. -/
  workingDir : Location

namespace FileSystem

/-- The file system with nothing but its root. -/
def empty : FileSystem := ⟨[], []⟩

/-- What a location is bound to; the root is a directory. -/
def node? (fs : FileSystem) : Location → Option Node
  | [] => some .directory
  | l => (fs.bindings.find? (·.1 = l)).map (·.2)

/-- The location is a directory. -/
def isDirectory (fs : FileSystem) (l : Location) : Bool :=
  fs.node? l = some .directory

/-- The location is a symbolic link. -/
def isLink (fs : FileSystem) (l : Location) : Bool :=
  match fs.node? l with
  | some (.link _) => true
  | _ => false

/-- The names bound in a directory, each once. -/
def children (fs : FileSystem) (l : Location) : List Name :=
  (fs.bindings.filterMap fun b =>
    match b.1 with
    | name :: parent => if parent = l then some name else none
    | [] => none).eraseDups

/-- The file system with a location bound anew. -/
def insert (fs : FileSystem) (l : Location) (n : Node) : FileSystem :=
  { fs with bindings := (l, n) :: fs.bindings.filter (·.1 ≠ l) }

/-- The file system with every missing directory on the way to a location, the last included. -/
def makeDirectories (fs : FileSystem) : Location → FileSystem
  | [] => fs
  | name :: parent =>
    let fs := fs.makeDirectories parent
    if (fs.node? (name :: parent)).isSome then fs else fs.insert (name :: parent) .directory

/-- The file system without a location and everything below it. -/
def erase (fs : FileSystem) (l : Location) : FileSystem :=
  { fs with bindings := fs.bindings.filter fun b => !l.isSuffixOf b.1 }

/-- The file system with a location and everything below it moved to another location, which then
holds nothing else. -/
def move (fs : FileSystem) (source target : Location) : FileSystem :=
  let moved := fs.bindings.filterMap fun b =>
    if source.isSuffixOf b.1 then
      some (b.1.take (b.1.length - source.length) ++ target, b.2)
    else none
  { fs with bindings := moved ++ ((fs.erase source).erase target).bindings }

/-- The absolute path of a location. -/
def pathOf (l : Location) : Path :=
  ⟨Path.slash :: Path.joined (l.reverse.map (·.bytes))⟩

end FileSystem

end ScreenAtlas
