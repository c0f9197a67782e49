import ScreenAtlas.FileSystem.Resolve
/-!
# Changes to a file system

Directories, files and links are made, removed and renamed by path. Writing to a file leads through
a link at the end of the path, also to a file that is not there yet; every other change is made to
the entry itself. What is made gets the directories above it that are missing.
-/
namespace ScreenAtlas

/-- The steps above the entry that a path names, and the name of the entry; none if the path ends
in a directory that it does not name. -/
def Path.entry? (p : Path) : Option (List PathStep × Name) :=
  match p.steps.reverse.dropWhile (· = .stay) with
  | .into name :: above => some (above.reverse, name)
  | _ => none

namespace FileSystem

/-- The file system with every missing directory that steps lead into, and the directory that they
lead to. -/
def makeAlong (fs : FileSystem) :
    Location → List PathStep → Except IoFault (FileSystem × Location)
  | l, [] => if fs.isDirectory l then .ok (fs, l) else .error .notDirectory
  | l, .stay :: steps => fs.makeAlong l steps
  | l, .up :: steps => if fs.isDirectory l then fs.makeAlong l.tail steps else .error .notDirectory
  | l, .into name :: steps =>
    match fs.resolveSteps maxLinks l [.into name] with
    | .ok (next, _) => fs.makeAlong next steps
    | .error fault =>
      if fault = .notFound ∧ fs.node? (name :: l) = none then
        (fs.insert (name :: l) .directory).makeAlong (name :: l) steps
      else .error fault

/-- The file system with the directory that a path leads to. -/
def createDirectories (fs : FileSystem) (p : Path) : Except IoFault FileSystem :=
  (fs.makeAlong (start p fs.workingDir) p.steps).map (·.1)

/-- The file system with the directories above the entry that a path names, and the location of the
entry. -/
def makeParent (fs : FileSystem) (p : Path) : Except IoFault (FileSystem × Location) := do
  match p.entry? with
  | none => .error .isDirectory
  | some (above, name) =>
    let (fs, parent) ← fs.makeAlong (start p fs.workingDir) above
    .ok (fs, name :: parent)

/-- The location of the entry that a path in a directory names. A link at its end is not followed,
and the entry need not be there. -/
def entry (fs : FileSystem) (here : Location) (p : Path) : Except IoFault Location := do
  match p.entry? with
  | none => .error .isDirectory
  | some (above, name) =>
    let (parent, _) ← fs.resolveSteps maxLinks (start p here) (above ++ [.stay])
    .ok (name :: parent)

/-- The location that writing to an entry changes, over at most the given number of links. -/
def written (fs : FileSystem) : Nat → Location → Except IoFault Location
  | budget, l =>
    match fs.node? l, budget with
    | some (.link _), 0 => .error .tooManyLinks
    | some (.link target), budget + 1 => do fs.written budget (← fs.entry l.tail target)
    | _, _ => .ok l

/-- The file system with a file of the given content at a path. -/
def writeFile (fs : FileSystem) (p : Path) (bytes : List UInt8) : Except IoFault FileSystem := do
  let (fs, l) ← fs.makeParent p
  let l ← fs.written maxLinks l
  if fs.isDirectory l then .error .isDirectory else .ok (fs.insert l (.file bytes))

/-- The file system with a link to a target at a path. -/
def createLink (fs : FileSystem) (p target : Path) : Except IoFault FileSystem := do
  let (fs, l) ← fs.makeParent p
  .ok (fs.insert l (.link target))

/-- The file system without the entry that a path names and everything below it. -/
def remove (fs : FileSystem) (p : Path) : Except IoFault FileSystem := do
  .ok (fs.erase (← fs.entry fs.workingDir p))

/-- The file system with the entry that a path names moved, with everything below it, to another
path. -/
def rename (fs : FileSystem) (source target : Path) : Except IoFault FileSystem := do
  let l ← fs.entry fs.workingDir source
  let (fs, l') ← fs.makeParent target
  .ok (fs.move l l')

end FileSystem

end ScreenAtlas
