import ScreenAtlas.Vocabulary.Basic
/-!
# Roles of a screen's file

Some file names mark a file as something else than an ordinary screen.
-/
namespace ScreenAtlas

/-- The role that a file's name marks. -/
inductive Role
  /-- A wrapper of the screens beside and below it. -/
  | layout
  /-- The screen for unknown addresses. -/
  | notFound
  /-- The wrapper of the whole document. -/
  | rawDocument
  /-- A screen that is shown above another. -/
  | modal
  /-- Any other file whose name starts with a plus sign. -/
  | other
  deriving DecidableEq

namespace Role

instance : Vocabulary Role where
  all := [layout, notFound, rawDocument, modal, other]
  name
    | layout => "layout"
    | notFound => "not-found"
    | rawDocument => "raw-document"
    | modal => "modal"
    | other => "other"

/-- The tag on a screen's line. -/
def label : Role → String
  | layout => "layout"
  | notFound => "not-found"
  | rawDocument => "html"
  | modal => "modal"
  | other => "special"

/-- The role that a segment marks when it is the last one of a path without extension. -/
def ofSegment? (segment : List Char) : Option Role :=
  if segment = "_layout".toList then some layout
  else if segment = "+not-found".toList then some notFound
  else if segment = "+html".toList then some rawDocument
  else if segment = "modal".toList then some modal
  else if segment.head? = some '+' then some other
  else none

end Role

end ScreenAtlas
