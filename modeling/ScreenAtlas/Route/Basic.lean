import ScreenAtlas.Path
import ScreenAtlas.Route.Role
/-!
# Routes

The place of a file under the views directory determines its route. Directories in round brackets
only group files, segments that start with `_` or `+` are private, and a last segment `index` stands
for the directory that holds it; all other segments make up the address.
-/
namespace ScreenAtlas

/-- The route of one file. -/
@[ext] structure Route where
  /-- The path under the views directory, with slashes between segments and with its extension. -/
  relativePath : String
  /-- The address, which starts with a slash. -/
  address : String
  /-- The role that the file's name marks. -/
  role : Option Role
  deriving DecidableEq

namespace Route

/-- The endings of source files, in the order in which they are tried. -/
def sourceEndings : List (List Char) :=
  [".tsx".toList, ".jsx".toList, ".ts".toList, ".js".toList]

/-- The path without the ending of a source file, which is taken off once. -/
def stripEnding (path : List Char) : List Char :=
  match sourceEndings.find? (·.isSuffixOf path) with
  | some ending => path.take (path.length - ending.length)
  | none => path

/-- The segments of a relative path without the ending of a source file. -/
def segments (path : List Char) : List (List Char) :=
  (stripEnding path).splitOn '/'

/-- A segment in round brackets. -/
def isGroup (segment : List Char) : Bool :=
  segment.head? = some '(' && segment.getLast? = some ')'

/-- A segment that starts with `_` or `+`. -/
def isPrivate (segment : List Char) : Bool :=
  segment.head? = some '_' || segment.head? = some '+'

/-- The segments that an address is made of, before a last `index` is dropped. -/
def visible (segments : List (List Char)) : List (List Char) :=
  segments.filter fun s => !isGroup s && !isPrivate s

/-- The list without a last segment `index`. -/
def dropIndex (segments : List (List Char)) : List (List Char) :=
  if segments.getLast? = some "index".toList then segments.dropLast else segments

/-- The text without the slashes that follow a slash; the first argument is the character before. -/
def collapseAfter : Char → List Char → List Char
  | _, [] => []
  | before, c :: s =>
    if c = '/' ∧ before = '/' then collapseAfter '/' s else c :: collapseAfter c s

/-- The address made of the given segments. -/
def addressOf (segments : List (List Char)) : List Char :=
  '/' :: collapseAfter '/' (['/'].intercalate segments)

/-- The route of a relative path. -/
def ofRelative (path : String) : Route where
  relativePath := path
  address := String.ofList (addressOf (dropIndex (visible (segments path.toList))))
  role := (segments path.toList).getLast?.bind Role.ofSegment?

/-- The route of a file under a views directory. -/
def derive (file views : Path) : Route :=
  ofRelative (file.relativeText views)

end Route

end ScreenAtlas
