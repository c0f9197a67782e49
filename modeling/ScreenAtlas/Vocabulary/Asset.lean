import ScreenAtlas.Vocabulary.Basic
/-!
# Asset and icon usage

The kinds of asset and icon usage that a project's files show, and the log in which they are
entered: each kind once, in the order of first discovery. A log that was read from a document is
kept as written, with its repetitions.
-/
namespace ScreenAtlas

/-- A kind of asset or icon usage. -/
inductive Asset
  | lucideIcons
  | vectorIcons
  | expoImage
  | imageAssets
  | iconAssets
  deriving DecidableEq

namespace Asset

instance : Vocabulary Asset where
  all := [lucideIcons, vectorIcons, expoImage, imageAssets, iconAssets]
  name
    | lucideIcons => "lucide-icons"
    | vectorIcons => "vector-icons"
    | expoImage => "expo-image"
    | imageAssets => "image-assets"
    | iconAssets => "icon-assets"

/-- The bullet text in the overview. -/
def label : Asset → String
  | lucideIcons => "lucide-react-native icons"
  | vectorIcons => "@expo/vector-icons"
  | expoImage => "expo-image"
  | imageAssets => "assets/images/* referenced"
  | iconAssets => "assets/Icons/* referenced"

end Asset

/-- The kinds of usage discovered so far, the earliest first. -/
@[ext] structure AssetLog where
  toList : List Asset
  deriving DecidableEq

namespace AssetLog

/-- The log without entries. -/
def empty : AssetLog := ⟨[]⟩

/-- Whether a kind was entered. -/
def contains (log : AssetLog) (a : Asset) : Bool :=
  log.toList.contains a

/-- The number of entries. -/
def size (log : AssetLog) : Nat :=
  log.toList.length

/-- The log with one more kind, entered last unless it was there. -/
def insert (log : AssetLog) (a : Asset) : AssetLog :=
  if log.contains a then log else ⟨log.toList ++ [a]⟩

/-- One more kind is entered. Tells whether it was new to the log. -/
def enter (log : AssetLog) (a : Asset) : Bool × AssetLog :=
  if log.contains a then (false, log) else (true, log.insert a)

/-- The log with a list of kinds entered one after the other. -/
def insertAll (log : AssetLog) (as : List Asset) : AssetLog :=
  as.foldl insert log

end AssetLog

end ScreenAtlas
