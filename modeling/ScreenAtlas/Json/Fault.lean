import ScreenAtlas.Decimal.Notation
import ScreenAtlas.Text.Quoted
/-!
# Why a JSON text is refused

A text is read from left to right, and reading stops at the first fault. A fault says what is
wrong with the syntax, or which value was found where another kind was expected.
-/
namespace ScreenAtlas.Json

/-- A value that was found where another kind was expected. -/
inductive Found
  | null
  | boolean (b : Bool)
  | integer (n : Int)
  | float (x : Float)
  | string (s : String)
  | sequence
  | map

/-- The first fault of a JSON text. -/
inductive Fault
  /-- The text ends where a value must start or go on. -/
  | endInValue
  | endInList
  | endInObject
  | endInString
  | expectedValue
  /-- The letters do not go on as `null`, `true` or `false`. -/
  | expectedWord
  | expectedColon
  | expectedListSeparator
  | expectedObjectSeparator
  | trailingComma
  | trailingCharacters
  | keyNotString
  | invalidNumber
  | numberOutOfRange
  | invalidEscape
  /-- The first half of a surrogate pair without a second escape. -/
  | unfinishedPair
  /-- A second half of a surrogate pair without a first, or a first half without a second. -/
  | unpairedSurrogate
  | controlCharacter
  | wrongType (found : Found) (expected : String)
  | wrongValue (found : Found) (expected : String)
  | unknownVariant (name : String) (known : List String)
  | duplicateField (key : String)
  | missingField (key : String)
  | wrongLength (length : Nat) (expected : String)

/-- The words for a value that was found. -/
def Found.message : Found → String
  | null => "null"
  | boolean b => "boolean `" ++ (if b then "true" else "false") ++ "`"
  | integer n => "integer `" ++ toString n ++ "`"
  | float x => "floating point `" ++ Decimal.render x ++ "`"
  | string s => "string " ++ Text.quoted s
  | sequence => "sequence"
  | map => "map"

/-- A list of names between backticks, separated by commas. -/
def ticked (names : List String) : String :=
  ", ".intercalate (names.map fun n => "`" ++ n ++ "`")

/-- The message of a fault. -/
def Fault.message : Fault → String
  | endInValue => "EOF while parsing a value"
  | endInList => "EOF while parsing a list"
  | endInObject => "EOF while parsing an object"
  | endInString => "EOF while parsing a string"
  | expectedValue => "expected value"
  | expectedWord => "expected ident"
  | expectedColon => "expected `:`"
  | expectedListSeparator => "expected `,` or `]`"
  | expectedObjectSeparator => "expected `,` or `\x7d`"
  | trailingComma => "trailing comma"
  | trailingCharacters => "trailing characters"
  | keyNotString => "key must be a string"
  | invalidNumber => "invalid number"
  | numberOutOfRange => "number out of range"
  | invalidEscape => "invalid escape"
  | unfinishedPair => "unexpected end of hex escape"
  | unpairedSurrogate => "lone leading surrogate in hex escape"
  | controlCharacter => "control character (\\u0000-\\u001F) found while parsing a string"
  | wrongType found expected => "invalid type: " ++ found.message ++ ", expected " ++ expected
  | wrongValue found expected => "invalid value: " ++ found.message ++ ", expected " ++ expected
  | unknownVariant name known =>
    "unknown variant `" ++ name ++ "`, expected one of " ++ ticked known
  | duplicateField key => "duplicate field `" ++ key ++ "`"
  | missingField key => "missing field `" ++ key ++ "`"
  | wrongLength length expected =>
    "invalid length " ++ toString length ++ ", expected " ++ expected

end ScreenAtlas.Json
