import ScreenAtlas.Vocabulary.Codec
import ScreenAtlas.Findings.Basic
/-!
# The written form of findings

Findings are an object with the fields `imports`, `counts`, `uses_style_classes`, `style_samples`
and `name`. The imports are a set: read in any order and with repetitions, written in checklist
order. The counts are a map: the last of several entries for one element holds.
-/
namespace ScreenAtlas

/-- The value that stands for a set of libraries. -/
def LibrarySet.toJson (s : LibrarySet) : Json :=
  .array (s.toList.map Vocabulary.toJson)

/-- A set of libraries. -/
def LibrarySet.read : Json.Reader LibrarySet := fun s => do
  let (ls, rest) ← Json.readList (Json.readVariant Library) s
  .ok (.ofList ls, rest)

/-- The value that stands for a tally. -/
def Tally.toJson (t : Tally) : Json :=
  .object (t.toList.map fun (e, n) => (Vocabulary.name e, .number n))

/-- A tally. -/
def Tally.read : Json.Reader Tally := fun s => do
  let (entries, rest) ← Json.readMap (Json.readVariant Element) Json.readNatural s
  .ok (entries.foldl (fun t (e, n) => t.insert e n) .empty, rest)

namespace Findings

/-- The value that stands for findings. -/
def toJson (f : Findings) : Json :=
  .object
    [("imports", f.imports.toJson),
      ("counts", f.counts.toJson),
      ("uses_style_classes", .bool f.usesStyleClasses),
      ("style_samples", .array (f.styleSamples.map .string)),
      ("name", .ofOption .string f.name)]

/-- Findings that are being read. -/
structure Draft where
  imports : Option LibrarySet
  counts : Option Tally
  usesStyleClasses : Option Bool
  styleSamples : Option (List String)
  name : Option (Option String)

/-- The format of findings: a missing name is none. -/
def format : Json.Format Draft Findings where
  name := "struct ScanResult"
  fields :=
    [⟨"imports", (·.imports.isSome), fun d s => do
        let (v, rest) ← LibrarySet.read s
        .ok ({ d with imports := some v }, rest)⟩,
      ⟨"counts", (·.counts.isSome), fun d s => do
        let (v, rest) ← Tally.read s
        .ok ({ d with counts := some v }, rest)⟩,
      ⟨"uses_style_classes", (·.usesStyleClasses.isSome), fun d s => do
        let (v, rest) ← Json.readBoolean s
        .ok ({ d with usesStyleClasses := some v }, rest)⟩,
      ⟨"style_samples", (·.styleSamples.isSome), fun d s => do
        let (v, rest) ← Json.readList Json.readString s
        .ok ({ d with styleSamples := some v }, rest)⟩,
      ⟨"name", (·.name.isSome), fun d s => do
        let (v, rest) ← Json.readOptional Json.readString s
        .ok ({ d with name := some v }, rest)⟩]
  draft := ⟨none, none, none, none, none⟩
  mayEndEarly := false
  finish d := do
    let imports ← Json.required "imports" d.imports
    let counts ← Json.required "counts" d.counts
    let usesStyleClasses ← Json.required "uses_style_classes" d.usesStyleClasses
    let styleSamples ← Json.required "style_samples" d.styleSamples
    .ok ⟨imports, counts, usesStyleClasses, styleSamples, d.name.join⟩

/-- Findings. -/
def read : Json.Reader Findings :=
  format.read

end Findings

end ScreenAtlas
