import ScreenAtlas.Vocabulary.Basic
/-!
# Structural elements of a screen

The kinds of element that are counted in a screen's file.
-/
namespace ScreenAtlas

/-- A kind of structural element. -/
inductive Element
  | buttons
  | cards
  | lists
  | images
  | formControls
  | modals
  | navigation
  deriving DecidableEq

namespace Element

instance : Vocabulary Element where
  all := [buttons, cards, lists, images, formControls, modals, navigation]
  name
    | buttons => "buttons"
    | cards => "cards"
    | lists => "lists"
    | images => "images"
    | formControls => "form-controls"
    | modals => "modals"
    | navigation => "navigation"

/-- The label in a screen's list of features. -/
def label : Element → String
  | buttons => "buttons"
  | cards => "cards"
  | lists => "lists"
  | images => "images"
  | formControls => "form-controls"
  | modals => "modals"
  | navigation => "nav"

end Element

/-- Numbers recorded for some of the elements: two tallies that record the same are equal. -/
@[ext] structure Tally where
  get? : Element → Option Nat

namespace Tally

/-- The tally that records nothing. -/
def empty : Tally := ⟨fun _ => none⟩

/-- The tally that records zero for every element. -/
def zero : Tally := ⟨fun _ => some 0⟩

/-- The tally with the number of one element replaced. -/
def insert (e : Element) (n : Nat) (t : Tally) : Tally :=
  ⟨fun e' => if e' = e then some n else t.get? e'⟩

/-- The number of an element; an element without a record counts as zero. -/
def count (t : Tally) (e : Element) : Nat :=
  (t.get? e).getD 0

/-- The recorded elements with their numbers, in checklist order. -/
def toList (t : Tally) : List (Element × Nat) :=
  (Vocabulary.all : List Element).filterMap fun e => (t.get? e).map (e, ·)

/-- The elements with a positive number, in checklist order. -/
def positive (t : Tally) : List (Element × Nat) :=
  ((Vocabulary.all : List Element).map fun e => (e, t.count e)).filter fun p => decide (0 < p.2)

end Tally

end ScreenAtlas
