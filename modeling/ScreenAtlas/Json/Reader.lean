import ScreenAtlas.Json.Fault
/-!
# Reading JSON: blanks, words and separators

A reader takes a value from the front of a text and returns the rest, or the first fault.
-/
namespace ScreenAtlas.Json

/-- A reader of one kind of value: the value and the rest of the text, or the first fault. -/
abbrev Reader (α : Type) := List Char → Except Fault (α × List Char)

/-- The blanks of JSON. -/
def isSpace (c : Char) : Bool :=
  c == ' ' || c == '\t' || c == '\n' || c == '\r'

/-- The text without the blanks at its start. -/
def skipSpace (s : List Char) : List Char :=
  s.dropWhile isSpace

/-- The rest of a text after the given letters. -/
def readWord : List Char → List Char → Except Fault (List Char)
  | [], s => .ok s
  | _ :: _, [] => .error .endInValue
  | c :: word, d :: s => if c = d then readWord word s else .error .expectedWord

/-- The rest of a text after the colon of a member. -/
def readColon (s : List Char) : Except Fault (List Char) :=
  match skipSpace s with
  | ':' :: rest => .ok rest
  | [] => .error .endInObject
  | _ => .error .expectedColon

/-- What stands where an element or a member may start. -/
inductive Next
  /-- The closing bracket, and the rest after it. -/
  | closed (rest : List Char)
  /-- An element or a member, which starts the text. -/
  | more (text : List Char)

/-- The next element of a list. Every element but the first follows a comma. -/
def nextElement (first : Bool) (s : List Char) : Except Fault Next :=
  match skipSpace s with
  | [] => .error .endInList
  | ']' :: rest => .ok (.closed rest)
  | ',' :: rest =>
    if first then .ok (.more (',' :: rest))
    else match skipSpace rest with
      | [] => .error .endInValue
      | ']' :: _ => .error .trailingComma
      | text => .ok (.more text)
  | text => if first then .ok (.more text) else .error .expectedListSeparator

/-- A member of an object starts with the quote of its key. -/
def memberAt : List Char → Except Fault Next
  | [] => .error .endInValue
  | '"' :: text => .ok (.more ('"' :: text))
  | '\x7d' :: _ => .error .trailingComma
  | _ => .error .keyNotString

/-- The next member of an object. Every member but the first follows a comma. -/
def nextMember (first : Bool) (s : List Char) : Except Fault Next :=
  match skipSpace s with
  | [] => .error .endInObject
  | '\x7d' :: rest => .ok (.closed rest)
  | ',' :: rest => if first then .error .keyNotString else memberAt (skipSpace rest)
  | text => if first then memberAt text else .error .expectedObjectSeparator

end ScreenAtlas.Json
