import ScreenAtlas.Findings.Basic
import ScreenAtlas.Group
import ScreenAtlas.Instant
import ScreenAtlas.Route.Basic
/-!
# The overview of a project

An overview lists the screens with what their files show, the groups of shared components, and the
asset usage of the whole project.
-/
namespace ScreenAtlas

/-- A file of the views directory. -/
@[ext] structure Screen where
  route : Route
  findings : Findings

/-- The overview of a project at one time. -/
@[ext] structure Overview where
  generatedAt : Instant
  /-- The name of the views directory. -/
  viewsLabel : String
  /-- The name of the components directory. -/
  componentsLabel : String
  screens : List Screen
  groups : List Group
  assets : AssetLog
  /-- How many files of a group are listed. -/
  maxGroupFiles : Nat

end ScreenAtlas
