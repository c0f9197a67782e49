import ScreenAtlas.Checklist
/-!
# The findings in one source file

`Findings.scan` applies the checklist to the text of one file. Every element has a count, also when
it is zero; findings that were read from a document may record fewer.
-/
namespace ScreenAtlas

/-- What a file's text shows. -/
@[ext] structure Findings where
  /-- The libraries in evidence. -/
  imports : LibrarySet
  /-- How often each element is opened. -/
  counts : Tally
  /-- Some style attribute has a quoted text. -/
  usesStyleClasses : Bool
  /-- The first style texts, trimmed. -/
  styleSamples : List String
  /-- The name that the file seems to declare. -/
  name : Option String

namespace Findings

/-- The findings of a file that was not read. -/
def blank : Findings :=
  ⟨.empty, .zero, false, [], none⟩

/-- Some style attribute has a quoted text. -/
def hasStyleAttribute (s : List Char) : Bool :=
  Checklist.styleAttribute.occursIn s

/-- The style texts that are not blank, trimmed, in their order in the text. -/
def styleTexts (s : List Char) : List (List Char) :=
  ((Checklist.styleLiteral.findAll s).map fun m => Text.trim m.captured).filter fun t => !t.isEmpty

/-- The first style texts, no more than the limit. -/
def samples (limit : Nat) (s : List Char) : List String :=
  ((styleTexts s).take limit).map String.ofList

/-- The name in the leftmost declaration of the most telling form that occurs. -/
def declaredName? (s : List Char) : Option String :=
  Checklist.declarations.findSome? fun p => (p.first? s).map fun m => String.ofList m.captured

/-- The kinds of asset usage in the text, in table order. -/
def assets (s : List Char) : List Asset :=
  (Checklist.assets.filter (·.occursIn s)).map (·.kind)

/-- The libraries in evidence: those of the table, and the style engine wherever a style attribute
has a quoted text. -/
def libraries (s : List Char) : LibrarySet :=
  let found := LibrarySet.ofList ((Checklist.libraries.filter (·.occursIn s)).map (·.kind))
  if hasStyleAttribute s then found.insert .styleEngine else found

/-- The count of every element of the table. -/
def tally (s : List Char) : Tally :=
  ⟨fun e => (Checklist.elements.find? (·.kind = e)).map (·.count s)⟩

/-- The findings in a text, with at most `limit` style samples. -/
def scan (limit : Nat) (s : List Char) : Findings where
  imports := libraries s
  counts := tally s
  usesStyleClasses := hasStyleAttribute s
  styleSamples := samples limit s
  name := declaredName? s

end Findings

end ScreenAtlas
