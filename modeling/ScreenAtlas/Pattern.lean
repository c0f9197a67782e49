import ScreenAtlas.Text.Blank
/-!
# Text patterns

A pattern is a sequence of items: one character of a class, or a run of characters of a class. A run
takes every character it can, and none of the runs in use is followed by an item that could start
with a character of the run's own class, so a shorter run would never help the rest of the pattern.

`Pattern.matchAt` matches at the start of a text, `Pattern.first?` finds the leftmost place, and
`Pattern.findAll` lists the matches that follow one another without overlap.
-/
namespace ScreenAtlas

/-- A class of characters. -/
inductive CharClass
  /-- One given character. -/
  | only (c : Char)
  /-- The blank characters. -/
  | blank
  /-- The letters and digits of ASCII, and the underscore. -/
  | word
  /-- The single and the double quote. -/
  | quote
  /-- The two quotes and the backtick. -/
  | anyQuote
  /-- Every character but the two quotes and the backtick. -/
  | notQuote
  /-- What ends the name of an opened element: a blank, a slash or a closing angle bracket. -/
  | tagEnd

/-- Membership in a class. -/
def CharClass.has : CharClass → Char → Bool
  | only c, x => x == c
  | blank, x => Text.isBlank x
  | word, x => x.isAlphanum || x == '_'
  | quote, x => x == '\x27' || x == '"'
  | anyQuote, x => x == '\x27' || x == '"' || x == '\x60'
  | notQuote, x => !(x == '\x27' || x == '"' || x == '\x60')
  | tagEnd, x => Text.isBlank x || x == '/' || x == '>'

/-- One part of a pattern. -/
inductive Item
  /-- One character of the class. -/
  | one (k : CharClass)
  /-- The longest run of characters of the class, which may be empty. -/
  | run (k : CharClass)
  /-- The longest run of characters of the class, which must not be empty. -/
  | run₁ (k : CharClass)
  /-- A run as `run₁` takes it, which the match reports. -/
  | capture (k : CharClass)

/-- A sequence of items. -/
abbrev Pattern := List Item

/-- A match: how many characters it takes, and the run it captured. -/
structure Match where
  length : Nat
  captured : List Char

/-- The match with more characters in front. -/
def Match.after (n : Nat) (m : Match) : Match :=
  ⟨n + m.length, m.captured⟩

namespace Pattern

/-- The pattern of one fixed text. -/
def lit (s : String) : Pattern :=
  s.toList.map fun c => .one (.only c)

/-- The match at the start of the text. -/
def matchAt : Pattern → List Char → Option Match
  | [], _ => some ⟨0, []⟩
  | .one _ :: _, [] => none
  | .one k :: p, c :: s => if k.has c then (matchAt p s).map (·.after 1) else none
  | .run k :: p, s =>
    (matchAt p (s.dropWhile k.has)).map (·.after (s.takeWhile k.has).length)
  | .run₁ k :: p, s =>
    if (s.takeWhile k.has).isEmpty then none
    else (matchAt p (s.dropWhile k.has)).map (·.after (s.takeWhile k.has).length)
  | .capture k :: p, s =>
    if (s.takeWhile k.has).isEmpty then none
    else (matchAt p (s.dropWhile k.has)).map fun m =>
      ⟨(s.takeWhile k.has).length + m.length, s.takeWhile k.has⟩

/-- The leftmost match. -/
def first? (p : Pattern) : List Char → Option Match
  | [] => p.matchAt []
  | c :: s =>
    match p.matchAt (c :: s) with
    | some m => some m
    | none => first? p s

/-- The pattern matches somewhere in the text. -/
def occursIn (p : Pattern) (s : List Char) : Bool :=
  (p.first? s).isSome

/-- The matches from left to right, none overlapping the one before it; the first characters, as
many as the first argument says, belong to a match already taken. -/
def findFrom (p : Pattern) : Nat → List Char → List Match
  | _, [] => []
  | skip + 1, _ :: s => findFrom p skip s
  | 0, c :: s =>
    match p.matchAt (c :: s) with
    | some m => m :: findFrom p (m.length - 1) s
    | none => findFrom p 0 s

/-- The matches from left to right, each starting at the leftmost place after the one before it. -/
def findAll (p : Pattern) (s : List Char) : List Match :=
  p.findFrom 0 s

/-- The number of matches without overlap. -/
def count (p : Pattern) (s : List Char) : Nat :=
  (p.findAll s).length

end Pattern

end ScreenAtlas
