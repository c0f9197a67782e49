import ScreenAtlas.Path
/-!
# Groups of shared components

Component files are grouped by the first segment of their path under the components directory. The
groups stand in the order of their first file, and each holds its files in the given order.
-/
namespace ScreenAtlas

/-- The component files under one top-level name. -/
@[ext] structure Group where
  name : String
  files : List String
  deriving DecidableEq

namespace Group

/-- The first segment of a relative path. -/
def topOf (path : String) : String :=
  String.ofList (path.toList.takeWhile (· != '/'))

/-- The groups with one more file, put last into the group of its name or into a new last group. -/
def add : List Group → String → List Group
  | [], path => [⟨topOf path, [path]⟩]
  | g :: groups, path =>
    if g.name = topOf path then ⟨g.name, g.files ++ [path]⟩ :: groups else g :: add groups path

/-- The groups of a list of files under a components directory. -/
def ofFiles (files : List Path) (components : Path) : List Group :=
  (files.map (·.relativeText components)).foldl add []

end Group

end ScreenAtlas
