import ScreenAtlas.Vocabulary.Codec
import ScreenAtlas.Route.Basic
/-!
# The written form of a route

A route is an object with the fields `relative_path`, `route` and `special`.
-/
namespace ScreenAtlas.Route

/-- The members of the object that stands for a route. -/
def members (r : Route) : List (String × Json) :=
  [("relative_path", .string r.relativePath), ("route", .string r.address),
    ("special", .ofOption Vocabulary.toJson r.role)]

/-- The value that stands for a route. -/
def toJson (r : Route) : Json :=
  .object r.members

/-- A route that is being read. -/
structure Draft where
  relativePath : Option String
  address : Option String
  role : Option (Option Role)

/-- The format of routes: a missing role is none. -/
def format : Json.Format Draft Route where
  name := "struct RouteEntry"
  fields :=
    [⟨"relative_path", (·.relativePath.isSome), fun d s => do
        let (v, rest) ← Json.readString s
        .ok ({ d with relativePath := some v }, rest)⟩,
      ⟨"route", (·.address.isSome), fun d s => do
        let (v, rest) ← Json.readString s
        .ok ({ d with address := some v }, rest)⟩,
      ⟨"special", (·.role.isSome), fun d s => do
        let (v, rest) ← Json.readOptional (Json.readVariant Role) s
        .ok ({ d with role := some v }, rest)⟩]
  draft := ⟨none, none, none⟩
  mayEndEarly := false
  finish d := do
    let relativePath ← Json.required "relative_path" d.relativePath
    let address ← Json.required "route" d.address
    .ok ⟨relativePath, address, d.role.join⟩

/-- A route. -/
def read : Json.Reader Route :=
  format.read

end ScreenAtlas.Route
