import ScreenAtlas.Vocabulary.Codec
import ScreenAtlas.Settings.Basic
/-!
# The written form of settings

Settings are an object with the fields `root`, `views_dir`, `components_dir`, `max_style_samples`
and `max_group_files`. A missing field keeps its standard value.
-/
namespace ScreenAtlas.Settings

/-- The value that stands for settings. -/
def toJson (s : Settings) : Json :=
  .object
    [("root", .string s.root.text),
      ("views_dir", .string s.viewsDir),
      ("components_dir", .string s.componentsDir),
      ("max_style_samples", .number s.maxStyleSamples),
      ("max_group_files", .number s.maxGroupFiles)]

/-- Settings that are being read. -/
structure Draft where
  root : Option String
  viewsDir : Option String
  componentsDir : Option String
  maxStyleSamples : Option Nat
  maxGroupFiles : Option Nat

/-- The settings of a draft, with the standard value for each field that it lacks. -/
def ofDraft (d : Draft) : Settings where
  root := (d.root.map .ofString).getD standard.root
  viewsDir := d.viewsDir.getD standard.viewsDir
  componentsDir := d.componentsDir.getD standard.componentsDir
  maxStyleSamples := d.maxStyleSamples.getD standard.maxStyleSamples
  maxGroupFiles := d.maxGroupFiles.getD standard.maxGroupFiles

/-- The format of settings. -/
def format : Json.Format Draft Settings where
  name := "struct ReportConfig"
  fields :=
    [⟨"root", (·.root.isSome), fun d s => do
        let (v, rest) ← Json.readStringAs "path string" s
        .ok ({ d with root := some v }, rest)⟩,
      ⟨"views_dir", (·.viewsDir.isSome), fun d s => do
        let (v, rest) ← Json.readString s
        .ok ({ d with viewsDir := some v }, rest)⟩,
      ⟨"components_dir", (·.componentsDir.isSome), fun d s => do
        let (v, rest) ← Json.readString s
        .ok ({ d with componentsDir := some v }, rest)⟩,
      ⟨"max_style_samples", (·.maxStyleSamples.isSome), fun d s => do
        let (v, rest) ← Json.readNatural s
        .ok ({ d with maxStyleSamples := some v }, rest)⟩,
      ⟨"max_group_files", (·.maxGroupFiles.isSome), fun d s => do
        let (v, rest) ← Json.readNatural s
        .ok ({ d with maxGroupFiles := some v }, rest)⟩]
  draft := ⟨none, none, none, none, none⟩
  mayEndEarly := true
  finish d := .ok (ofDraft d)

/-- Settings. -/
def read : Json.Reader Settings :=
  format.read

end ScreenAtlas.Settings
