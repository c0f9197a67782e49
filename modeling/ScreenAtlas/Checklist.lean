import ScreenAtlas.Pattern
import ScreenAtlas.Vocabulary.Asset
import ScreenAtlas.Vocabulary.Element
import ScreenAtlas.Vocabulary.Library
/-!
# What is looked for in a source file

The tables say which texts are evidence of a library, an element, an asset or a declared name.
Nothing is parsed: a text inside a comment counts like any other.
-/
namespace ScreenAtlas

/-- A row of a table: a kind, and the patterns that are evidence of it. -/
structure Rule (κ : Type) where
  kind : κ
  patterns : List Pattern

namespace Rule

variable {κ : Type}

/-- One of the patterns matches somewhere in the text. -/
def occursIn (r : Rule κ) (s : List Char) : Bool :=
  r.patterns.any (·.occursIn s)

/-- The matches of all patterns together. -/
def count (r : Rule κ) (s : List Char) : Nat :=
  (r.patterns.map (·.count s)).foldr (· + ·) 0

end Rule

namespace Checklist

open Pattern (lit)

/-- An import whose package name starts with the given text. -/
def importOf (package : String) : Pattern :=
  lit "from" ++ [.run₁ .blank, .one .quote] ++ lit package

/-- An import of exactly the given package. -/
def importOfExactly (package : String) : Pattern :=
  importOf package ++ [.one .quote]

/-- The opening of an element with the given tag name. -/
def opening (tag : String) : Pattern :=
  lit ("<" ++ tag) ++ [.one .tagEnd]

/-- The evidence of each library, in checklist order. -/
def libraries : List (Rule Library) :=
  [⟨.uiKit, [importOf "@gluestack-ui/"]⟩,
    ⟨.styleEngine, [importOf "nativewind", lit "className="]⟩,
    ⟨.lucideIcons, [importOfExactly "lucide-react-native"]⟩,
    ⟨.vectorIcons, [importOfExactly "@expo/vector-icons"]⟩,
    ⟨.expoImage, [importOfExactly "expo-image"]⟩,
    ⟨.webBrowser, [importOfExactly "expo-web-browser"]⟩,
    ⟨.svg, [importOfExactly "react-native-svg"]⟩]

/-- The evidence of each element, in checklist order. -/
def elements : List (Rule Element) :=
  [⟨.buttons, [opening "Button"]⟩,
    ⟨.cards, [opening "Card"]⟩,
    ⟨.lists, [opening "FlatList", opening "SectionList"]⟩,
    ⟨.images, [opening "Image"]⟩,
    ⟨.formControls,
      [opening "Input", opening "Select", opening "Textarea", opening "Checkbox", opening "Radio"]⟩,
    ⟨.modals, [opening "Modal", opening "AlertDialog"]⟩,
    ⟨.navigation, [opening "Link", lit "useRouter(", lit "router."]⟩]

/-- The evidence of each kind of asset usage, in the order in which one file's finds are entered. -/
def assets : List (Rule Asset) :=
  [⟨.lucideIcons, [importOfExactly "lucide-react-native"]⟩,
    ⟨.vectorIcons, [importOfExactly "@expo/vector-icons"]⟩,
    ⟨.expoImage, [importOfExactly "expo-image"]⟩,
    ⟨.imageAssets, [lit "assets/images/"]⟩,
    ⟨.iconAssets, [lit "assets/Icons/"]⟩]

/-- The declarations that give a screen its name, the most telling form first. -/
def declarations : List Pattern :=
  [lit "export" ++ [.run₁ .blank] ++ lit "default" ++ [.run₁ .blank] ++ lit "function" ++
      [.run₁ .blank, .capture .word],
    lit "function" ++ [.run₁ .blank, .capture .word, .run .blank] ++ lit "(",
    lit "const" ++ [.run₁ .blank, .capture .word, .run .blank] ++ lit "=" ++ [.run .blank] ++
      lit "("]

/-- The start of a style attribute whose value is a quoted text. -/
def styleAttribute : Pattern :=
  lit "className" ++ [.run .blank] ++ lit "=" ++ [.run .blank, .one .anyQuote]

/-- A style attribute with a quoted text, which is captured. -/
def styleLiteral : Pattern :=
  styleAttribute ++ [.capture .notQuote, .one .anyQuote]

end Checklist

end ScreenAtlas
