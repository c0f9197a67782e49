import ScreenAtlas.Json.Reader
/-!
# Reading JSON: strings

Inside a string a backslash starts an escape, by a letter or by the number of a UTF-16 unit. Units
of a surrogate pair must come in pairs. Reading to the closing quote goes character by character;
the characters of an escape are counted off after it was read.
-/
namespace ScreenAtlas.Json

/-- The value of a hexadecimal digit. -/
def hexDigit? (c : Char) : Option Nat :=
  if '0' ≤ c ∧ c ≤ '9' then some (c.toNat - 48)
  else if 'a' ≤ c ∧ c ≤ 'f' then some (c.toNat - 87)
  else if 'A' ≤ c ∧ c ≤ 'F' then some (c.toNat - 55)
  else none

/-- The value of four hexadecimal digits. -/
def hexUnit? (a b c d : Char) : Option Nat := do
  let a ← hexDigit? a
  let b ← hexDigit? b
  let c ← hexDigit? c
  let d ← hexDigit? d
  return ((a * 16 + b) * 16 + c) * 16 + d

/-- The unit written by the first four bytes of a text. A text with fewer bytes ends too soon. -/
def readUnit (s : List Char) : Except Fault Nat :=
  match s with
  | a :: b :: c :: d :: _ =>
    match hexUnit? a b c d with
    | some n => .ok n
    | none => .error .invalidEscape
  | _ => if 4 ≤ (String.ofList s).utf8ByteSize then .error .invalidEscape else .error .endInString

/-- The second unit of a pair: the text goes on with another escape by number. -/
def readSecondUnit : List Char → Except Fault Nat
  | [] => .error .endInString
  | '\\' :: [] => .error .endInString
  | '\\' :: 'u' :: s => readUnit s
  | _ => .error .unfinishedPair

/-- The character of an escape by number, and how many characters were taken after the `u`. -/
def readHexEscape (s : List Char) : Except Fault (Char × Nat) := do
  let n ← readUnit s
  if 0xDC00 ≤ n ∧ n ≤ 0xDFFF then .error .unpairedSurrogate
  else if n < 0xD800 ∨ 0xDBFF < n then .ok (Char.ofNat n, 4)
  else
    let m ← readSecondUnit (s.drop 4)
    if m < 0xDC00 ∨ 0xDFFF < m then .error .unpairedSurrogate
    else .ok (Char.ofNat ((n - 0xD800) * 0x400 + (m - 0xDC00) + 0x10000), 10)

/-- The character of an escape by letter. -/
def letterEscape? : Char → Option Char
  | '"' => some '"'
  | '\\' => some '\\'
  | '/' => some '/'
  | 'b' => some '\x08'
  | 'f' => some '\x0c'
  | 'n' => some '\n'
  | 'r' => some '\r'
  | 't' => some '\t'
  | _ => none

/-- The character of an escape, and how many characters were taken after the backslash. -/
def readEscape : List Char → Except Fault (Char × Nat)
  | [] => .error .endInString
  | 'u' :: s => do
    let (c, n) ← readHexEscape s
    .ok (c, n + 1)
  | c :: _ =>
    match letterEscape? c with
    | some d => .ok (d, 1)
    | none => .error .invalidEscape

/-- The characters up to the closing quote, and the rest after it; the first characters, as many
as the first argument says, belong to an escape already read. -/
def readCharsFrom : Nat → List Char → Except Fault (List Char × List Char)
  | _, [] => .error .endInString
  | skip + 1, _ :: s => readCharsFrom skip s
  | 0, c :: s =>
    if c = '"' then .ok ([], s)
    else if c = '\\' then do
      let (d, n) ← readEscape s
      let (ds, rest) ← readCharsFrom n s
      .ok (d :: ds, rest)
    else if c.toNat < 0x20 then .error .controlCharacter
    else do
      let (cs, rest) ← readCharsFrom 0 s
      .ok (c :: cs, rest)

/-- The characters of a string after its opening quote, and the rest after its closing quote. -/
def readChars (s : List Char) : Except Fault (List Char × List Char) :=
  readCharsFrom 0 s

/-- The number of characters of an escape after the backslash, its units left unpaired. -/
def skipEscape : List Char → Except Fault Nat
  | [] => .error .endInString
  | 'u' :: s => do
    let _ ← readUnit s
    .ok 5
  | c :: _ => if (letterEscape? c).isSome then .ok 1 else .error .invalidEscape

/-- The rest after the closing quote of a string whose characters are not wanted. -/
def skipCharsFrom : Nat → List Char → Except Fault (List Char)
  | _, [] => .error .endInString
  | skip + 1, _ :: s => skipCharsFrom skip s
  | 0, c :: s =>
    if c = '"' then .ok s
    else if c = '\\' then do
      let n ← skipEscape s
      skipCharsFrom n s
    else if c.toNat < 0x20 then .error .controlCharacter
    else skipCharsFrom 0 s

/-- The rest after the closing quote of a string whose characters are not wanted. -/
def skipChars (s : List Char) : Except Fault (List Char) :=
  skipCharsFrom 0 s

end ScreenAtlas.Json
