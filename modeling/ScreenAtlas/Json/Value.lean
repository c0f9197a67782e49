/-!
# JSON values and their written form

A value is written compactly, without blanks, or over several lines with two more blanks for each
level. Empty lists and objects have no inside in either layout.
-/
namespace ScreenAtlas

/-- A JSON value whose numbers are natural. Objects keep their members in order. -/
inductive Json
  | null
  | bool (b : Bool)
  | number (n : Nat)
  | string (s : String)
  | array (elements : List Json)
  | object (members : List (String × Json))

namespace Json

/-- What is written between the parts of a value. -/
structure Layout where
  /-- What stands before an element or a closing bracket at the given depth. -/
  lineBreak : Nat → List Char
  /-- What stands between a key and its value. -/
  colon : List Char

/-- No blanks at all. -/
def Layout.compact : Layout :=
  ⟨fun _ => [], [':']⟩

/-- A line for each element and member, two blanks for each level. -/
def Layout.pretty : Layout :=
  ⟨fun depth => '\n' :: List.replicate (2 * depth) ' ', [':', ' ']⟩

/-- The two hexadecimal digits of a number below 256. -/
def hexPair (n : Nat) : List Char :=
  [(n / 16).digitChar, (n % 16).digitChar]

/-- The written form of a character in a string. Only quotes, backslashes and control characters
are escaped. -/
def escapeChar (c : Char) : List Char :=
  if c = '"' ∨ c = '\\' then ['\\', c]
  else if c.toNat < 0x20 then
    match c with
    | '\x08' => ['\\', 'b']
    | '\x0c' => ['\\', 'f']
    | '\n' => ['\\', 'n']
    | '\r' => ['\\', 'r']
    | '\t' => ['\\', 't']
    | _ => '\\' :: 'u' :: '0' :: '0' :: hexPair c.toNat
  else [c]

/-- The written form of a string. -/
def writeString (s : String) : List Char :=
  '"' :: s.toList.flatMap escapeChar ++ ['"']

mutual

/-- The written form of a value at a given depth. -/
def write (l : Layout) (depth : Nat) : Json → List Char
  | .null => "null".toList
  | .bool b => (if b then "true" else "false").toList
  | .number n => Nat.toDigits 10 n
  | .string s => writeString s
  | .array [] => "[]".toList
  | .array (v :: vs) =>
    '[' :: l.lineBreak (depth + 1) ++ write l (depth + 1) v ++ writeElements l (depth + 1) vs ++
      l.lineBreak depth ++ [']']
  | .object [] => ['\x7b', '\x7d']
  | .object (m :: ms) =>
    '\x7b' :: l.lineBreak (depth + 1) ++ writeMember l (depth + 1) m ++
      writeMembers l (depth + 1) ms ++ l.lineBreak depth ++ ['\x7d']

/-- The written form of the elements after the first. -/
def writeElements (l : Layout) (depth : Nat) : List Json → List Char
  | [] => []
  | v :: vs => ',' :: l.lineBreak depth ++ write l depth v ++ writeElements l depth vs

/-- The written form of a member. -/
def writeMember (l : Layout) (depth : Nat) : String × Json → List Char
  | (key, v) => writeString key ++ l.colon ++ write l depth v

/-- The written form of the members after the first. -/
def writeMembers (l : Layout) (depth : Nat) : List (String × Json) → List Char
  | [] => []
  | m :: ms => ',' :: l.lineBreak depth ++ writeMember l depth m ++ writeMembers l depth ms

end

/-- The compact text of a value. -/
def compact (v : Json) : String :=
  String.ofList (write .compact 0 v)

/-- The text of a value over several lines. -/
def pretty (v : Json) : String :=
  String.ofList (write .pretty 0 v)

/-- A value that may be missing. -/
def ofOption {α : Type} (toJson : α → Json) : Option α → Json
  | some a => toJson a
  | none => .null

end Json

end ScreenAtlas
