/-!
# Closed vocabularies

A vocabulary is a type with finitely many words. Each word has a written name, and the words have
an order of declaration, in which checklists and messages list them.
-/
namespace ScreenAtlas

/-- A type whose words are listed in their order of declaration, each with its written name. -/
class Vocabulary (α : Type) where
  all : List α
  name : α → String

namespace Vocabulary

variable {α : Type} [Vocabulary α]

/-- The word with a given written name. -/
def ofName? (s : String) : Option α :=
  all.find? fun a => name a == s

/-- The written names in their order of declaration. -/
def names (α : Type) [Vocabulary α] : List String :=
  (all : List α).map name

end Vocabulary

end ScreenAtlas
