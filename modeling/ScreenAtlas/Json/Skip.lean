import ScreenAtlas.Json.Number
import ScreenAtlas.Json.Text
/-!
# Reading JSON: values that are not wanted

A member with an unknown key is passed over. Its value must be well-formed, but its numbers may be
of any size, its surrogates unpaired, and its depth is not limited. Each step takes one unit of
fuel; two units for each character are enough, because every other step takes a character.
-/
namespace ScreenAtlas.Json

/-- The rest after a key and its colon. -/
def skipKey : List Char → Except Fault (List Char)
  | [] => .error .endInObject
  | c :: s =>
    if c = '"' then do
      let rest ← skipChars s
      readColon rest
    else .error .keyNotString

mutual

/-- The rest after a value. -/
def skipValueWith : Nat → List Char → Except Fault (List Char)
  | 0, _ => .error .expectedValue
  | fuel + 1, s =>
    match skipSpace s with
    | [] => .error .endInValue
    | '[' :: s => skipElementsWith fuel true s
    | '\x7b' :: s => skipMembersWith fuel true s
    | '"' :: s => skipChars s
    | 'n' :: s => readWord "ull".toList s
    | 't' :: s => readWord "rue".toList s
    | 'f' :: s => readWord "alse".toList s
    | c :: s =>
      if c = '-' ∨ c.isDigit then do
        let (_, rest) ← readNumeral .invalidNumber (c :: s)
        .ok rest
      else .error .expectedValue

/-- The rest after the elements of a list and its closing bracket. -/
def skipElementsWith : Nat → Bool → List Char → Except Fault (List Char)
  | 0, _, _ => .error .expectedValue
  | fuel + 1, first, s =>
    match skipSpace s with
    | [] => .error .endInList
    | ']' :: s => .ok s
    | c :: s =>
      if first then do
        let rest ← skipValueWith fuel (c :: s)
        skipElementsWith fuel false rest
      else if c = ',' then do
        let rest ← skipValueWith fuel s
        skipElementsWith fuel false rest
      else .error .expectedListSeparator

/-- The rest after the members of an object and its closing bracket. -/
def skipMembersWith : Nat → Bool → List Char → Except Fault (List Char)
  | 0, _, _ => .error .expectedValue
  | fuel + 1, first, s =>
    match skipSpace s with
    | [] => .error .endInObject
    | '\x7d' :: s => .ok s
    | c :: s =>
      if first then do
        let rest ← skipKey (c :: s)
        let rest ← skipValueWith fuel rest
        skipMembersWith fuel false rest
      else if c = ',' then do
        let rest ← skipKey (skipSpace s)
        let rest ← skipValueWith fuel rest
        skipMembersWith fuel false rest
      else .error .expectedObjectSeparator

end

/-- The rest after a value that is not wanted. -/
def skipValue (s : List Char) : Except Fault (List Char) :=
  skipValueWith (2 * s.length + 2) s

end ScreenAtlas.Json
