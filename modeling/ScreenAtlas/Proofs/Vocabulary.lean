import ScreenAtlas.Route.Role
import ScreenAtlas.Vocabulary.Asset
import ScreenAtlas.Vocabulary.Element
import ScreenAtlas.Vocabulary.Library
/-!
# The words of vocabularies

Every vocabulary lists all its words, and no two of them have the same written name.

## Main definitions

* `LawfulVocabulary` — a vocabulary whose words can be told by their names.
-/
namespace ScreenAtlas

/-- A vocabulary that lists all its words, and in which each has a name of its own. -/
class LawfulVocabulary (α : Type) [Vocabulary α] : Prop where
  mem_all : ∀ a : α, a ∈ (Vocabulary.all : List α)
  ofName?_name : ∀ a : α, Vocabulary.ofName? (Vocabulary.name a) = some a

instance : LawfulVocabulary Role where
  mem_all a := by cases a <;> decide
  ofName?_name a := by cases a <;> decide

instance : LawfulVocabulary Library where
  mem_all a := by cases a <;> decide
  ofName?_name a := by cases a <;> decide

instance : LawfulVocabulary Element where
  mem_all a := by cases a <;> decide
  ofName?_name a := by cases a <;> decide

instance : LawfulVocabulary Asset where
  mem_all a := by cases a <;> decide
  ofName?_name a := by cases a <;> decide

end ScreenAtlas
