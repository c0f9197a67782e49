import ScreenAtlas.Json.Scalar
import ScreenAtlas.Json.Skip
/-!
# Reading JSON: lists, maps and records

A record has named fields. It is read from an object, whose members may come in any order and
among others, or from a list of its fields in their order. The readers of lists and members take
one unit of fuel for each element; the length of the text is enough.
-/
namespace ScreenAtlas.Json

/-- The elements of a list after its opening bracket. -/
def readElements {α : Type} (read : Reader α) : Nat → Bool → Reader (List α)
  | 0, _, _ => .error .endInList
  | fuel + 1, first, s => do
    match ← nextElement first s with
    | .closed rest => .ok ([], rest)
    | .more text => do
      let (a, rest) ← read text
      let (as, rest) ← readElements read fuel false rest
      .ok (a :: as, rest)

/-- A list. -/
def readList {α : Type} (read : Reader α) : Reader (List α) := fun s =>
  match skipSpace s with
  | '[' :: s => readElements read (s.length + 1) true s
  | s => .error (mismatch "a sequence" s)

/-- The members of a map after its opening bracket. -/
def readEntries {κ ν : Type} (key : Reader κ) (value : Reader ν) :
    Nat → Bool → Reader (List (κ × ν))
  | 0, _, _ => .error .endInObject
  | fuel + 1, first, s => do
    match ← nextMember first s with
    | .closed rest => .ok ([], rest)
    | .more text => do
      let (k, rest) ← key text
      let rest ← readColon rest
      let (v, rest) ← value rest
      let (entries, rest) ← readEntries key value fuel false rest
      .ok ((k, v) :: entries, rest)

/-- A map, as its members in the order of the text. -/
def readMap {κ ν : Type} (key : Reader κ) (value : Reader ν) : Reader (List (κ × ν)) := fun s =>
  match skipSpace s with
  | '\x7b' :: s => readEntries key value (s.length + 1) true s
  | s => .error (mismatch "a map" s)

/-- A field of a record that is being read into a draft: its key, whether the draft has it already,
and how its value is read into the draft. -/
structure Field (δ : Type) where
  key : String
  isSet : δ → Bool
  read : δ → Reader δ

/-- A format of records: the name of the kind in messages, the fields in order, the draft that
has none of them, and the record made of a draft. -/
structure Format (δ α : Type) where
  name : String
  fields : List (Field δ)
  draft : δ
  /-- A list may end before the last field. -/
  mayEndEarly : Bool
  finish : δ → Except Fault α

namespace Format

variable {δ α : Type}

/-- The members of a record after the opening bracket of its object. A repeated field is a fault
as soon as its key was read. -/
def readMembers (f : Format δ α) : Nat → Bool → δ → Reader δ
  | 0, _, _, _ => .error .endInObject
  | fuel + 1, first, draft, s => do
    match ← nextMember first s with
    | .closed rest => .ok (draft, rest)
    | .more text => do
      let (key, rest) ← readChars (text.drop 1)
      match f.fields.find? (·.key == String.ofList key) with
      | some field =>
        if field.isSet draft then .error (.duplicateField field.key)
        else do
          let rest ← readColon rest
          let (draft, rest) ← field.read draft rest
          f.readMembers fuel false draft rest
      | none => do
        let rest ← readColon rest
        let rest ← skipValue rest
        f.readMembers fuel false draft rest

/-- The end of a list that has all fields. -/
def closeList (s : List Char) : Except Fault (List Char) :=
  match skipSpace s with
  | [] => .error .endInList
  | ']' :: rest => .ok rest
  | ',' :: rest =>
    match skipSpace rest with
    | ']' :: _ => .error .trailingComma
    | _ => .error .trailingCharacters
  | _ => .error .trailingCharacters

/-- The words for the expected number of fields. -/
def lengthMessage (f : Format δ α) : String :=
  f.name ++ " with " ++ toString f.fields.length ++ " elements"

/-- The fields of a record after the opening bracket of its list. -/
def readPositions (f : Format δ α) : List (Field δ) → Bool → δ → Reader δ
  | [], _, draft, s => do
    let rest ← closeList s
    .ok (draft, rest)
  | field :: fields, first, draft, s => do
    match ← nextElement first s with
    | .closed rest =>
      if f.mayEndEarly then .ok (draft, rest)
      else .error (.wrongLength (f.fields.length - (fields.length + 1)) f.lengthMessage)
    | .more text => do
      let (draft, rest) ← field.read draft text
      f.readPositions fields false draft rest

/-- A record. -/
def read (f : Format δ α) : Reader α := fun s =>
  match skipSpace s with
  | '\x7b' :: s => do
    let (draft, rest) ← f.readMembers (s.length + 1) true f.draft s
    .ok (← f.finish draft, rest)
  | '[' :: s => do
    let (draft, rest) ← f.readPositions f.fields true f.draft s
    .ok (← f.finish draft, rest)
  | s => .error (mismatch f.name s)

end Format

/-- The value of a field that must not be missing. -/
def required {α : Type} (key : String) : Option α → Except Fault α
  | some a => .ok a
  | none => .error (.missingField key)

/-- The value that makes up a whole text. -/
def decode {α : Type} (read : Reader α) (s : List Char) : Except Fault α := do
  let (a, rest) ← read s
  match skipSpace rest with
  | [] => .ok a
  | _ => .error .trailingCharacters

end ScreenAtlas.Json
