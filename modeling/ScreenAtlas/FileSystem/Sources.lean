import ScreenAtlas.FileSystem.Resolve
/-!
# The source files below a directory

The files are found by a walk that follows symbolic links. A link to a directory that the walk is
inside of is passed over, and so is every link that leads nowhere. Other links are followed even
if their directory was seen elsewhere, so one file can be listed under several paths. A file that
stands in a directory itself is listed without following its path once more, so also where that
path is too long to be followed.
-/
namespace ScreenAtlas.FileSystem

/-- The source files below a directory, given by its path and its location. The walk may enter the
given number of further levels; `inside` lists the directories that it is inside of. -/
def walk (fs : FileSystem) : Nat → List Location → Path → Location → List Path
  | 0, _, _, _ => []
  | depth + 1, inside, path, l =>
    (fs.children l).flatMap fun name =>
      let child := path.join ⟨name.bytes⟩
      match fs.node? (name :: l), fs.stat child with
      | some (.file _), _ | _, .ok (_, .file _) => if child.isSource then [child] else []
      | _, .ok (target, .directory) =>
        if fs.isLink (name :: l) && inside.contains target then []
        else fs.walk depth (target :: inside) child target
      | _, _ => []

/-- The greatest number of names that lead to a bound location. -/
def height (fs : FileSystem) : Nat :=
  (fs.bindings.map (·.1.length)).foldr max 0

/-- A number of levels that no walk exceeds. Entering a level either enters a directory that the
walk was not inside of, or goes down to a child that it was inside of already. -/
def depthBound (fs : FileSystem) : Nat :=
  (fs.bindings.length + 2) * (fs.height + 1)

/-- A list in increasing order of the paths' bytes, with one more path in its place unless it is
there already. -/
def insertSorted (p : Path) : List Path → List Path
  | [] => [p]
  | q :: qs =>
    if p.bytes < q.bytes then p :: q :: qs
    else if p = q then q :: qs
    else q :: insertSorted p qs

/-- The source files below a directory, each once, in the order of their paths' bytes; none if the
path does not lead to a directory. -/
def sources (fs : FileSystem) (root : Path) : List Path :=
  match fs.stat root with
  | .ok (l, .directory) => (fs.walk fs.depthBound [l] root l).foldr insertSorted []
  | _ => []

end ScreenAtlas.FileSystem
