import ScreenAtlas.Json.Number
import ScreenAtlas.Json.Text
import ScreenAtlas.Vocabulary.Basic
/-!
# Reading JSON: values of a known kind

Each reader expects one kind of value. Another kind is a fault that names what was found, unless
the value that was found is itself malformed: then that fault comes first.
-/
namespace ScreenAtlas.Json

/-- The fault of a value that is not of the expected kind. The text starts with the value. -/
def mismatch (expected : String) : List Char → Fault
  | [] => .endInValue
  | '"' :: s =>
    match readChars s with
    | .ok (cs, _) => .wrongType (.string (String.ofList cs)) expected
    | .error fault => fault
  | 'n' :: s => word "ull" .null s
  | 't' :: s => word "rue" (.boolean true) s
  | 'f' :: s => word "alse" (.boolean false) s
  | '[' :: _ => .wrongType .sequence expected
  | '\x7b' :: _ => .wrongType .map expected
  | c :: s =>
    if c = '-' ∨ c.isDigit then
      match readNumber (c :: s) with
      | .ok (n, _) => .wrongType n.found expected
      | .error fault => fault
    else .expectedValue
where
  /-- The fault of a word, given its letters after the first. -/
  word (letters : String) (found : Found) (s : List Char) : Fault :=
    match readWord letters.toList s with
    | .ok _ => .wrongType found expected
    | .error fault => fault

/-- A string, under the given name of its kind. -/
def readStringAs (expected : String) : Reader String := fun s =>
  match skipSpace s with
  | '"' :: s => do
    let (cs, rest) ← readChars s
    .ok (String.ofList cs, rest)
  | s => .error (mismatch expected s)

/-- A string. -/
def readString : Reader String :=
  readStringAs "a string"

/-- A natural number of at most 64 bits. -/
def readNatural : Reader Nat := fun s =>
  match skipSpace s with
  | [] => .error .endInValue
  | c :: s =>
    if c = '-' ∨ c.isDigit then do
      let (n, rest) ← readNumber (c :: s)
      match n with
      | .natural n => .ok (n, rest)
      | .negative _ => .error (.wrongValue n.found "usize")
      | .float _ => .error (.wrongType n.found "usize")
    else .error (mismatch "usize" (c :: s))

/-- A truth value. -/
def readBoolean : Reader Bool := fun s =>
  match skipSpace s with
  | 't' :: s => do
    let rest ← readWord "rue".toList s
    .ok (true, rest)
  | 'f' :: s => do
    let rest ← readWord "alse".toList s
    .ok (false, rest)
  | s => .error (mismatch "a boolean" s)

/-- The value `null`. -/
def readNull : Reader Unit := fun s =>
  match skipSpace s with
  | 'n' :: s => do
    let rest ← readWord "ull".toList s
    .ok ((), rest)
  | s => .error (mismatch "unit" s)

/-- A value, or `null` for none. -/
def readOptional {α : Type} (read : Reader α) : Reader (Option α) := fun s =>
  match skipSpace s with
  | 'n' :: s => do
    let rest ← readWord "ull".toList s
    .ok (none, rest)
  | s => do
    let (a, rest) ← read s
    .ok (some a, rest)

/-- The word of a vocabulary with a given name. -/
def variantOf (α : Type) [Vocabulary α] (name : String) : Except Fault α :=
  match Vocabulary.ofName? name with
  | some a => .ok a
  | none => .error (.unknownVariant name (Vocabulary.names α))

/-- The key of an object that stands for a word of a vocabulary. It follows the opening brace. -/
def readVariantKey (s : List Char) : Except Fault (String × List Char) :=
  match skipSpace s with
  | [] => .error .endInObject
  | '"' :: s => do
    let (name, rest) ← readChars s
    .ok (String.ofList name, rest)
  | '\x7d' :: _ => .error .expectedValue
  | _ => .error .keyNotString

/-- A word of a vocabulary: its name, or an object with its name as the only key and `null`. -/
def readVariant (α : Type) [Vocabulary α] : Reader α := fun s =>
  match skipSpace s with
  | [] => .error .endInValue
  | '"' :: s => do
    let (name, rest) ← readChars s
    let a ← variantOf α (String.ofList name)
    .ok (a, rest)
  | '\x7b' :: s => do
    let (name, rest) ← readVariantKey s
    let a ← variantOf α name
    let rest ← readColon rest
    let (_, rest) ← readNull rest
    match skipSpace rest with
    | '\x7d' :: rest => .ok (a, rest)
    | [] => .error .endInObject
    | _ => .error .expectedValue
  | _ => .error .expectedValue

end ScreenAtlas.Json
