import ScreenAtlas.Utf8
/-!
# Paths

A path is a sequence of bytes. It is read as a head and a list of segments between slashes; empty
segments and segments `.` are filler, and the other segments are the path's components. Two
spellings with the same head and components name the same place, so a root is recognised in front
of a path by components, while what is left after it keeps its own spelling.
-/
namespace ScreenAtlas

/-- A path, as the bytes of its text. -/
@[ext] structure Path where
  bytes : List UInt8
  deriving DecidableEq

namespace Path

/-- The byte that separates segments. -/
def slash : UInt8 := 0x2F

/-- The byte of a full stop. -/
def dot : UInt8 := 0x2E

/-- The path with a given text. -/
def ofString (s : String) : Path :=
  ⟨Utf8.encode s.toList⟩

/-- The text of a path, with U+FFFD for what is not well-formed. -/
def text (p : Path) : String :=
  String.ofList (Utf8.decodeLossy p.bytes)

/-- What a path starts from. -/
inductive Head
  /-- The root of the file system: the path starts with a slash. -/
  | root
  /-- The current directory, named by a first segment `.`. -/
  | here
  /-- The current directory, unnamed. -/
  | unnamed
  deriving DecidableEq

/-- The bytes that a head takes. -/
def Head.bytes : Head → List UInt8
  | root => [slash]
  | here => [dot]
  | unnamed => []

/-- The first segment of a byte sequence. -/
def firstSegment (bytes : List UInt8) : List UInt8 :=
  bytes.takeWhile (· != slash)

/-- The head of a path. -/
def head (p : Path) : Head :=
  if p.bytes.head? = some slash then .root
  else if firstSegment p.bytes = [dot] then .here
  else .unnamed

/-- The path is absolute. -/
def isAbsolute (p : Path) : Bool :=
  p.head = .root

/-- The segments after the head, filler included. -/
def segments (p : Path) : List (List UInt8) :=
  (p.bytes.drop p.head.bytes.length).splitOn slash

/-- A segment that names nothing: it is empty or a single full stop. -/
def isFiller (s : List UInt8) : Bool :=
  s = [] || s = [dot]

/-- The segments that name something. -/
def components (p : Path) : List (List UInt8) :=
  p.segments.filter fun s => !isFiller s

/-- Segments put together with slashes between them. -/
def joined (segments : List (List UInt8)) : List UInt8 :=
  [slash].intercalate segments

/-- Segments without the filler at their end. -/
def trimEnd (segments : List (List UInt8)) : List (List UInt8) :=
  (segments.reverse.dropWhile isFiller).reverse

/-- Segments without the first `n` components and the filler next to them. -/
def dropComponents : Nat → List (List UInt8) → List (List UInt8)
  | _, [] => []
  | 0, s :: segments => if isFiller s then dropComponents 0 segments else s :: segments
  | n + 1, s :: segments =>
    if isFiller s then dropComponents (n + 1) segments else dropComponents n segments

/-- What is left of a path after a root. The empty root leaves the path without the filler at its
end; any other root is taken off by components, and filler goes at both ends. -/
def relativeTo? (p root : Path) : Option Path :=
  if root.bytes = [] then some ⟨p.head.bytes ++ joined (trimEnd p.segments)⟩
  else if p.head = root.head ∧ root.components.isPrefixOf p.components then
    some ⟨joined (trimEnd (dropComponents root.components.length p.segments))⟩
  else none

/-- The text of a path relative to a root, with slashes for backslashes. A path that is not under
the root keeps its whole text. -/
def relativeText (p root : Path) : String :=
  String.ofList (((p.relativeTo? root).getD p).text.toList.map fun c => if c = '\\' then '/' else c)

/-- A path followed by another. An absolute second path stands alone, and a slash is put between
the two unless the first is empty or ends in one. -/
def join (p q : Path) : Path :=
  if q.isAbsolute then q
  else if p.bytes = [] ∨ p.bytes.getLast? = some slash then ⟨p.bytes ++ q.bytes⟩
  else ⟨p.bytes ++ slash :: q.bytes⟩

/-- The name of the file that a path leads to: its last component, unless that leads upwards. -/
def fileName? (p : Path) : Option (List UInt8) :=
  p.components.getLast?.filter fun s => s != [dot, dot]

/-- What follows the last full stop of a file name, unless that stop is its first byte. -/
def nameExtension? (name : List UInt8) : Option (List UInt8) :=
  if 1 < (name.reverse.dropWhile (· != dot)).length then
    some (name.reverse.takeWhile (· != dot)).reverse
  else none

/-- The extension of a path, where its file name has one that is well-formed text. -/
def extension? (p : Path) : Option String :=
  ((p.fileName?.bind nameExtension?).bind Utf8.decode?).map String.ofList

/-- The extensions of source files. -/
def sourceExtensions : List String :=
  ["js", "jsx", "ts", "tsx"]

/-- An extension of source files. -/
def isSourceExtension (e : String) : Bool :=
  sourceExtensions.contains e

/-- The path has the extension of a source file. -/
def isSource (p : Path) : Bool :=
  p.extension?.any isSourceExtension

end Path

end ScreenAtlas
