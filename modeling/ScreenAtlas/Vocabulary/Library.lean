import ScreenAtlas.Vocabulary.Basic
/-!
# Libraries that a screen imports

The libraries of the checklist: a screen's line in the overview carries the tag of each library
that its file draws on.
-/
namespace ScreenAtlas

/-- A user-interface library of the checklist. -/
inductive Library
  /-- The component kit `@gluestack-ui`. -/
  | uiKit
  /-- The utility-class style engine, by its import or by the use of style classes. -/
  | styleEngine
  | lucideIcons
  | vectorIcons
  | expoImage
  | webBrowser
  | svg
  deriving DecidableEq

namespace Library

instance : Vocabulary Library where
  all := [uiKit, styleEngine, lucideIcons, vectorIcons, expoImage, webBrowser, svg]
  name
    | uiKit => "ui-kit"
    | styleEngine => "style-engine"
    | lucideIcons => "lucide-icons"
    | vectorIcons => "vector-icons"
    | expoImage => "expo-image"
    | webBrowser => "web-browser"
    | svg => "svg"

/-- The tag on a screen's line. -/
def tag : Library → String
  | uiKit => "gluestack-ui"
  | styleEngine => "tailwind"
  | lucideIcons => "lucide-icons"
  | vectorIcons => "expo-vector-icons"
  | expoImage => "expo-image"
  | webBrowser => "expo-web-browser"
  | svg => "react-native-svg"

end Library

/-- A set of libraries, given by its members: two sets with the same members are equal. -/
@[ext] structure LibrarySet where
  has : Library → Bool

namespace LibrarySet

/-- The set without members. -/
def empty : LibrarySet := ⟨fun _ => false⟩

/-- The set with one more member. -/
def insert (l : Library) (s : LibrarySet) : LibrarySet :=
  ⟨fun l' => decide (l' = l) || s.has l'⟩

/-- The set of the members of a list, in any order and with repetitions. -/
def ofList (ls : List Library) : LibrarySet :=
  ⟨fun l => ls.contains l⟩

/-- The members in checklist order, each once. -/
def toList (s : LibrarySet) : List Library :=
  (Vocabulary.all : List Library).filter s.has

end LibrarySet

end ScreenAtlas
