import ScreenAtlas.FileSystem.Sources
import ScreenAtlas.Overview.Basic
import ScreenAtlas.Settings.Basic
/-!
# Surveys

A survey goes over a project in stages. Collecting lists the files of the two directories, scanning
reads them, and an overview can be built at any time from what the last scan found. Each stage
replaces what an earlier run of it had found.
-/
namespace ScreenAtlas

/-- The state of a survey. -/
@[ext] structure Survey where
  settings : Settings
  /-- How many style samples are kept for each file. -/
  sampleLimit : Nat
  viewFiles : List Path
  componentFiles : List Path
  screens : List Screen
  groups : List Group
  assets : AssetLog

namespace Survey

/-- A survey with its own limit on style samples, before any stage. -/
def withLimit (settings : Settings) (sampleLimit : Nat) : Survey :=
  ⟨settings, sampleLimit, [], [], [], [], .empty⟩

/-- A survey before any stage. -/
def new (settings : Settings) : Survey :=
  withLimit settings settings.maxStyleSamples

/-- Lists the source files of the views and the components directory. -/
def collect (fs : FileSystem) (s : Survey) : Survey :=
  { s with
    viewFiles := fs.sources s.settings.viewsRoot
    componentFiles := fs.sources s.settings.componentsRoot }

/-- The survey after one file of the views directory was read: its screen comes last, and its asset
usage is entered. A file that cannot be read still has a screen, with blank findings. -/
def scanView (fs : FileSystem) (s : Survey) (file : Path) : Survey :=
  let route := Route.derive file s.settings.viewsRoot
  match fs.readText file with
  | .ok text =>
    { s with
      screens := s.screens ++ [⟨route, .scan s.sampleLimit text⟩]
      assets := s.assets.insertAll (Findings.assets text) }
  | .error _ => { s with screens := s.screens ++ [⟨route, .blank⟩] }

/-- The survey after one file of the components directory was read: its asset usage is entered. -/
def scanComponent (fs : FileSystem) (s : Survey) (file : Path) : Survey :=
  match fs.readText file with
  | .ok text => { s with assets := s.assets.insertAll (Findings.assets text) }
  | .error _ => s

/-- Reads every listed file, the views first. What an earlier scan found is cleared before. -/
def scan (fs : FileSystem) (s : Survey) : Survey :=
  let cleared := { s with screens := [], assets := .empty }
  let viewed := s.viewFiles.foldl (scanView fs) cleared
  let scanned := s.componentFiles.foldl (scanComponent fs) viewed
  { scanned with groups := Group.ofFiles s.componentFiles s.settings.componentsRoot }

/-- The overview of what the last scan found. -/
def build (t : Instant) (s : Survey) : Overview where
  generatedAt := t
  viewsLabel := s.settings.viewsDir
  componentsLabel := s.settings.componentsDir
  screens := s.screens
  groups := s.groups
  assets := s.assets
  maxGroupFiles := s.settings.maxGroupFiles

/-- The overview of a project: one collection, one scan. -/
def overview (fs : FileSystem) (settings : Settings) (t : Instant) : Overview :=
  (((new settings).collect fs).scan fs).build t

end Survey

end ScreenAtlas
