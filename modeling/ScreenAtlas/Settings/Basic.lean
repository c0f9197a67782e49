import ScreenAtlas.Path
import ScreenAtlas.Text.Blank
/-!
# Settings

The settings name the project's root and its two directories, and limit what the overview lists.
-/
namespace ScreenAtlas

/-- The settings of an overview. -/
@[ext] structure Settings where
  /-- The directory that holds the views and the components directory. -/
  root : Path
  viewsDir : String
  componentsDir : String
  /-- How many style samples are kept for each file. -/
  maxStyleSamples : Nat
  /-- How many files are listed for each group. -/
  maxGroupFiles : Nat
  deriving DecidableEq

namespace Settings

/-- The settings that hold where nothing else is said. -/
def standard : Settings where
  root := .ofString "."
  viewsDir := "app"
  componentsDir := "components"
  maxStyleSamples := 6
  maxGroupFiles := 8

/-- The views directory. -/
def viewsRoot (s : Settings) : Path :=
  s.root.join (.ofString s.viewsDir)

/-- The components directory. -/
def componentsRoot (s : Settings) : Path :=
  s.root.join (.ofString s.componentsDir)

/-- Why settings are refused. -/
inductive Fault
  | blankViewsDir
  | blankComponentsDir
  deriving DecidableEq

/-- The message of a fault. -/
def Fault.message : Fault → String
  | blankViewsDir => "views_dir must not be empty"
  | blankComponentsDir => "components_dir must not be empty"

/-- Settings are refused when a directory name is blank; the views directory is looked at first. -/
def check (s : Settings) : Except Fault Unit :=
  if Text.isAllBlank s.viewsDir.toList then .error .blankViewsDir
  else if Text.isAllBlank s.componentsDir.toList then .error .blankComponentsDir
  else .ok ()

end Settings

end ScreenAtlas
