import ScreenAtlas.Findings.Codec
import ScreenAtlas.Route.Codec
import ScreenAtlas.Overview.Basic
/-!
# The overview as a JSON document

The document holds everything that the overview lists, the groups with all their files. A screen is
the object of its route with one more member for its findings.
-/
namespace ScreenAtlas

/-- The value that stands for a screen. -/
def Screen.toJson (s : Screen) : Json :=
  .object (s.route.members ++ [("scan", s.findings.toJson)])

/-- The value that stands for a group. -/
def Group.toJson (g : Group) : Json :=
  .object [("name", .string g.name), ("files", .array (g.files.map .string))]

namespace Overview

/-- The value that stands for an overview. -/
def toJson (o : Overview) : Json :=
  .object
    [("generated_at", .string o.generatedAt.toExact),
      ("views_label", .string o.viewsLabel),
      ("components_label", .string o.componentsLabel),
      ("routes", .array (o.screens.map (·.toJson))),
      ("components", .array (o.groups.map (·.toJson))),
      ("signals", o.assets.toJson)]

/-- The JSON document. -/
def document (o : Overview) : String :=
  o.toJson.pretty

end Overview

end ScreenAtlas
