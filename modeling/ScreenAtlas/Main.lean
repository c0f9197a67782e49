import ScreenAtlas.CommandLine
import Std.Time.DateTime.Timestamp
/-!
# The program

The program copies what it needs of the disk into a `FileSystem`, runs the command line on it, and
prints the outcome. A link is copied with the final place it leads to, and one that goes round in
circles as a link to itself; a link that leads nowhere is left out, and so is a file that cannot be
read.
-/
namespace ScreenAtlas.Program

open FileSystem (pathOf)

/-- The result of an action, or none if it fails. -/
def attempt {α : Type} (action : IO α) : IO (Option α) := do
  match ← action.toBaseIO with
  | .ok a => return some a
  | .error _ => return none

/-- The location of an absolute path without links. -/
def locationOf (path : String) : Location :=
  ((Path.ofString path).components.filterMap Name.ofBytes?).reverse

/-- The part of the disk that was copied, and the directories copied with all their entries. -/
structure Copy where
  files : FileSystem
  whole : List Location

/-- The place that an entry of the disk leads to, and what is there. -/
def lookUp (l : Location) : IO (Option (Location × IO.FS.FileType)) :=
  attempt do
    let place ← IO.FS.realPath (pathOf l).text
    let data ← place.metadata
    return (locationOf place.toString, data.type)

/-- The system refuses to follow the path of an entry: it goes round in circles, or it is too long. A
path that only leads nowhere is another fault. -/
def isRefused (l : Location) : IO Bool := do
  match ← (IO.FS.readBinFile (pathOf l).text).toBaseIO with
  | .error (.invalidArgument ..) => return true
  | _ => return false

/-- What was looked up is a directory. -/
def leadsToDirectory : Option (Location × IO.FS.FileType) → Bool
  | some (_, .dir) => true
  | _ => false

/-- The names in a directory of the disk. -/
def namesIn (l : Location) : IO (List Name) := do
  let entries ← attempt do
    let place ← IO.FS.realPath (pathOf l).text
    place.readDir
  return (entries.getD #[]).toList.filterMap fun e => Name.ofBytes? (Utf8.encode e.fileName.toList)

/-- The copy with the content of a file. -/
def copyFile (c : Copy) (l : Location) : IO Copy := do
  match ← attempt (IO.FS.readBinFile (pathOf l).text) with
  | some content => return { c with files := c.files.insert l (.file content.toList) }
  | none => return c

/-- The copy with an entry of the disk, and the place that it leads to. With `deep`, a directory is
copied with the source files and directories below it. -/
partial def copyEntry (deep : Bool) (c : Copy) (l : Location) : IO (Copy × Option Location) := do
  match ← lookUp l with
  | none =>
    if ← isRefused l then
      let files := c.files.makeDirectories l.tail
      return ({ c with files := files.insert l (.link (pathOf l)) }, none)
    else return (c, none)
  | some (place, kind) =>
    let files := c.files.makeDirectories place.tail
    let files := if place = l then files else files.insert l (.link (pathOf place))
    let c := { c with files }
    match kind with
    | .file => return (← copyFile c place, some place)
    | .dir =>
      let c := { c with files := c.files.makeDirectories place }
      if !deep || c.whole.contains place then return (c, some place)
      let mut copy := { c with whole := place :: c.whole }
      for name in ← namesIn place do
        let child := name :: place
        if (pathOf child).isSource || leadsToDirectory (← lookUp child) then
          copy := (← copyEntry deep copy child).1
      return (copy, some place)
    | _ => return (c, none)

/-- The copy with every entry that a path leads over, from the given place on. -/
def copyAlong (deep : Bool) : Copy → Location → List PathStep → IO Copy
  | c, l, [] => return (← copyEntry deep c l).1
  | c, l, .stay :: steps => copyAlong deep c l steps
  | c, l, .up :: steps => copyAlong deep c l.tail steps
  | c, l, .into name :: steps => do
    match ← copyEntry false c (name :: l) with
    | (c, some place) => copyAlong deep c place steps
    | (c, none) => return c

/-- The copy with what a path leads to. -/
def copyPath (deep : Bool) (c : Copy) (p : Path) : IO Copy := do
  let here := c.files.workingDir
  if p.isAbsolute || c.files.isDirectory here then
    copyAlong deep c (FileSystem.start p here) p.steps
  else return c

/-- A location that nothing on a disk has: its name holds a zero byte. -/
def nowhere : Location :=
  [⟨[0], by decide⟩]

/-- The working directory in an otherwise empty file system; none if it is gone. -/
def startingAt : Option Location → FileSystem
  | some here => { FileSystem.empty.makeDirectories here with workingDir := here }
  | none => { FileSystem.empty with workingDir := nowhere }

/-- The part of the disk that a run with the given options looks at. -/
def copyFor (o : CommandLine.Options) (here? : Option Location) : IO FileSystem := do
  let c : Copy := ⟨startingAt here?, []⟩
  let c ← match o.config with
    | some path => copyPath false c path
    | none => pure c
  match CommandLine.effectiveSettings c.files o with
  | .ok s => return (← copyPath true (← copyPath true c s.viewsRoot) s.componentsRoot).files
  | .error _ => return c.files

/-- The present time. -/
def now : IO Instant := do
  let t ← Std.Time.Timestamp.now
  let nanos := t.toNanosecondsSinceUnixEpoch.val
  return ⟨nanos / Instant.nanosPerSecond, (nanos % Instant.nanosPerSecond).toNat⟩

end ScreenAtlas.Program

open ScreenAtlas in
/-- Runs the program with the given arguments. -/
def main (arguments : List String) : IO UInt32 := do
  let here? ← Program.attempt IO.currentDir
  let files ← match CommandLine.Options.parse (arguments.map .ofString) with
    | .ok o => Program.copyFor o (here?.map fun here => Program.locationOf here.toString)
    | .error _ => pure .empty
  let outcome := CommandLine.run files (← Program.now) arguments
  (← IO.getStdout).putStr outcome.stdout
  (← IO.getStderr).putStr outcome.stderr
  return outcome.exitCode.toUInt32
