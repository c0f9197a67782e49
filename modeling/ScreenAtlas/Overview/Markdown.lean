import ScreenAtlas.Overview.Basic
/-!
# The overview as a Markdown document

The document is a list of lines, each ended by a line feed. A screen takes one line, followed by a
line of features and a line of style samples where there are any. A group takes one line and a
line for each file listed, and says how many are not.
-/
namespace ScreenAtlas.Overview

/-- A line of the document, without its end. -/
abbrev Line := List Char

/-- A text between backticks. -/
def code (s : Line) : Line :=
  '\x60' :: s ++ ['\x60']

/-- Texts with a separator between them. -/
def separated (separator : String) (parts : List String) : Line :=
  separator.toList.intercalate (parts.map String.toList)

/-- The lines of a heading of second level, with an empty line before it. -/
def heading (title : Line) : List Line :=
  [[], "## ".toList ++ title]

/-- The line of a section about a directory without files. -/
def nothingFound (directory : String) : Line :=
  "- No files found under ".toList ++ code (directory.toList ++ ['/']) ++ ['.']

/-- The tags of a screen: its role, and its libraries in checklist order. -/
def tags (s : Screen) : List String :=
  s.route.role.toList.map (·.label) ++ s.findings.imports.toList.map (·.tag)

/-- The tags between square brackets, if there are any. -/
def tagPart (s : Screen) : Line :=
  if tags s = [] then [] else " [".toList ++ separated ", " (tags s) ++ [']']

/-- The name of a screen, if its file declares one. -/
def namePart (s : Screen) : Line :=
  match s.findings.name with
  | some name => " — **".toList ++ name.toList ++ "**".toList
  | none => []

/-- The line of a screen. -/
def screenLine (viewsLabel : String) (s : Screen) : Line :=
  "- ".toList ++ code s.route.address.toList ++ " ← ".toList ++
    code (viewsLabel.toList ++ '/' :: s.route.relativePath.toList) ++ namePart s ++ tagPart s

/-- An element and its count. -/
def feature (p : Element × Nat) : String :=
  p.1.label ++ ":" ++ toString p.2

/-- The features of a screen, or a dash. -/
def featureLine (s : Screen) : Line :=
  "  - features: ".toList ++
    match s.findings.counts.positive with
    | [] => "—".toList
    | features => separated ", " (features.map feature)

/-- The style samples of a screen. -/
def sampleLine (s : Screen) : Line :=
  "  - tailwind sample: ".toList ++ code (separated " | " s.findings.styleSamples)

/-- The lines of a screen. -/
def screenLines (viewsLabel : String) (s : Screen) : List Line :=
  screenLine viewsLabel s ::
    ((if s.findings.counts.positive = [] ∧ s.findings.styleSamples = [] then []
      else [featureLine s]) ++
    (if s.findings.styleSamples = [] then [] else [sampleLine s]))

/-- The lines of a group, of which at most `limit` files are listed. -/
def groupLines (limit : Nat) (g : Group) : List Line :=
  ("- **".toList ++ g.name.toList ++ "/** (".toList ++ Nat.toDigits 10 g.files.length ++
      " files)".toList) ::
    (g.files.take limit).map (fun file => "  - ".toList ++ code file.toList) ++
    if limit < g.files.length then
      ["  - … +".toList ++ Nat.toDigits 10 (g.files.length - limit) ++ " more".toList]
    else []

/-- The lines of the screens. -/
def routeSection (o : Overview) : List Line :=
  heading ("Routes (".toList ++ o.viewsLabel.toList ++ "/)".toList) ++
    if o.screens = [] then [nothingFound o.viewsLabel]
    else o.screens.flatMap (screenLines o.viewsLabel)

/-- The lines of the groups. -/
def groupSection (o : Overview) : List Line :=
  heading ("Shared Components (".toList ++ o.componentsLabel.toList ++ "/)".toList) ++
    if o.groups = [] then [nothingFound o.componentsLabel]
    else o.groups.flatMap (groupLines o.maxGroupFiles)

/-- The lines of the asset usage. -/
def assetSection (o : Overview) : List Line :=
  heading "Asset & Icon Signals".toList ++
    if o.assets.toList = [] then ["- No obvious asset/icon usage detected.".toList]
    else o.assets.toList.map fun a => "- ".toList ++ a.label.toList

/-- The lines of the document. -/
def lines (o : Overview) : List Line :=
  ["# UI Overview (auto-generated)".toList, [],
      "Generated: ".toList ++ o.generatedAt.toMillis.toList] ++
    routeSection o ++ groupSection o ++ assetSection o

/-- The Markdown document. -/
def markdown (o : Overview) : String :=
  String.ofList (o.lines.flatMap fun line => line ++ ['\n'])

end ScreenAtlas.Overview
