import ScreenAtlas.FileSystem.Basic
/-!
# Resolving paths

A path is resolved segment by segment from the root or from the working directory. Every segment
needs a directory to stand in. A symbolic link is replaced by its target, and no path may lead over
more than forty links. Names and paths have a greatest length; a longer name is a fault of its own
where it would be looked up. Where the working directory is gone, no relative path leads anywhere.
-/
namespace ScreenAtlas

/-- Why a path cannot be resolved or a file cannot be read. -/
inductive IoFault
  | notFound
  | notDirectory
  | isDirectory
  | tooManyLinks
  /-- A name, or the path as a whole, is longer than the file system allows. -/
  | nameTooLong
  /-- The content is not well-formed UTF-8. -/
  | notText
  /-- The path holds a zero byte. -/
  | zeroByte
  deriving DecidableEq

/-- The message of a fault. -/
def IoFault.message : IoFault → String
  | notFound => "No such file or directory (os error 2)"
  | notDirectory => "Not a directory (os error 20)"
  | isDirectory => "Is a directory (os error 21)"
  | tooManyLinks => "Too many levels of symbolic links (os error 40)"
  | nameTooLong => "File name too long (os error 36)"
  | notText => "stream did not contain valid UTF-8"
  | zeroByte => "file name contained an unexpected NUL byte"

/-- One segment of a path as a step. -/
inductive PathStep
  | stay
  | up
  | into (name : Name)
  deriving DecidableEq

/-- The step of a segment. -/
def PathStep.ofSegment (s : List UInt8) : PathStep :=
  if s = [Path.dot, Path.dot] then up
  else match Name.ofBytes? s with
    | some name => into name
    | none => stay

/-- The steps of a path. -/
def Path.steps (p : Path) : List PathStep :=
  (p.bytes.splitOn Path.slash).map PathStep.ofSegment

namespace FileSystem

/-- The number of links that one path may lead over. -/
def maxLinks : Nat := 40

/-- The greatest number of bytes in a name. -/
def maxNameLength : Nat := 255

/-- The greatest number of bytes in a path. -/
def maxPathLength : Nat := 4095

/-- Where a path starts: at the root if it is absolute, else in the given directory. -/
def start (p : Path) (here : Location) : Location :=
  if p.isAbsolute then [] else here

/-- Why no step leads on from a location that is no directory. -/
def faultAt (fs : FileSystem) (l : Location) : IoFault :=
  if (fs.node? l).isNone then .notFound else .notDirectory

/-- The location that steps lead to, and how many more links may be followed. At a link, `follow`
goes on with the steps of its target and the remaining ones. -/
def walkSteps (fs : FileSystem) (budget : Nat)
    (follow : Location → List PathStep → Except IoFault (Location × Nat)) :
    Location → List PathStep → Except IoFault (Location × Nat)
  | l, [] => .ok (l, budget)
  | l, step :: steps =>
    if fs.isDirectory l then
      match step with
      | .stay => walkSteps fs budget follow l steps
      | .up => walkSteps fs budget follow l.tail steps
      | .into name =>
        if maxNameLength < name.bytes.length then .error .nameTooLong
        else match fs.node? (name :: l) with
          | none => .error .notFound
          | some (.link target) => follow (start target l) (target.steps ++ steps)
          | some _ => walkSteps fs budget follow (name :: l) steps
    else .error (fs.faultAt l)

/-- The location that steps lead to over at most the given number of links, and how many links are
left. -/
def resolveSteps (fs : FileSystem) :
    Nat → Location → List PathStep → Except IoFault (Location × Nat)
  | 0 => fs.walkSteps 0 fun _ _ => .error .tooManyLinks
  | budget + 1 => fs.walkSteps (budget + 1) (resolveSteps fs budget)

/-- The location that a path leads to. -/
def resolve (fs : FileSystem) (p : Path) : Except IoFault Location :=
  if 0 ∈ p.bytes then .error .zeroByte
  else if maxPathLength < p.bytes.length then .error .nameTooLong
  else if p.bytes = [] then .error .notFound
  else (fs.resolveSteps maxLinks (start p fs.workingDir) p.steps).map (·.1)

/-- The location that a path leads to, and what it is bound to. -/
def stat (fs : FileSystem) (p : Path) : Except IoFault (Location × Node) := do
  let l ← fs.resolve p
  match fs.node? l with
  | some n => .ok (l, n)
  | none => .error .notFound

/-- The absolute path of the working directory, unless the directory is gone. -/
def currentDir (fs : FileSystem) : Except IoFault Path :=
  if fs.isDirectory fs.workingDir then .ok (pathOf fs.workingDir) else .error .notFound

/-- The text of a file. -/
def readText (fs : FileSystem) (p : Path) : Except IoFault (List Char) := do
  match ← fs.stat p with
  | (_, .file bytes) =>
    match Utf8.decode? bytes with
    | some s => .ok s
    | none => .error .notText
  | _ => .error .isDirectory

end FileSystem

end ScreenAtlas
