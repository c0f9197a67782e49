import ScreenAtlas.Json.Collection
import ScreenAtlas.Json.Value
import ScreenAtlas.Vocabulary.Asset
/-!
# The written form of words and logs

A word of a vocabulary is written as its name, and a log of asset usage as the list of its entries.
-/
namespace ScreenAtlas

/-- The value that stands for a word of a vocabulary. -/
def Vocabulary.toJson {α : Type} [Vocabulary α] (a : α) : Json :=
  .string (Vocabulary.name a)

namespace AssetLog

/-- The value that stands for a log. -/
def toJson (log : AssetLog) : Json :=
  .array (log.toList.map Vocabulary.toJson)

/-- A log, its repetitions kept. -/
def read : Json.Reader AssetLog := fun s => do
  let (as, rest) ← Json.readList (Json.readVariant Asset) s
  .ok (⟨as⟩, rest)

end AssetLog

end ScreenAtlas
