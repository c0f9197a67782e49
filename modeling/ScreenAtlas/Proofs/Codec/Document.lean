import ScreenAtlas.Proofs.Codec.Findings
import ScreenAtlas.Proofs.Codec.Route
import ScreenAtlas.Overview.Document
/-!
# The document of an overview is read part by part

A document is taken apart by its keys, without a format for the whole. The object of a screen is
read as a route, and what else it has is the findings.

## Main definitions

* `MemberReads` — an object with a member that is read for a given value.
* `Screen.IsRead`, `Group.IsRead`, `Overview.IsRead` — what texts hold screens, groups, overviews.

## Main statements

* `Overview.isRead_document` — the document holds the overview.
-/
namespace ScreenAtlas

open Json

/-- The text is an object with just one member under the key, which the reader takes for the
value. -/
def Json.MemberReads {α : Type} (key : String) (read : Reader α) (text : List Char) (a : α) :
    Prop :=
  ∃ part, memberText? key text = some part ∧ decode read part = .ok a

/-- The text is an object with just one member under the key, a list with one part for each of the
values. -/
def Json.MemberLists {α : Type} (key : String) (isRead : α → List Char → Prop) (text : List Char)
    (as : List α) : Prop :=
  ∃ part parts, memberText? key text = some part ∧ elementTexts? part = some parts ∧
    List.Forall₂ isRead as parts

/-- What a text holds of a screen: read as a route it gives the route, and the findings stand
under a key of their own. -/
structure Screen.IsRead (s : Screen) (text : List Char) : Prop where
  route : decode Route.read text = .ok s.route
  findings : MemberReads "scan" Findings.read text s.findings

/-- What a text holds of a group: its name and all its files. -/
structure Group.IsRead (g : Group) (text : List Char) : Prop where
  name : MemberReads "name" readString text g.name
  files : MemberReads "files" (readList readString) text g.files

/-- What a text holds of an overview: its screens, its groups and its log. -/
structure Overview.IsRead (o : Overview) (text : List Char) : Prop where
  screens : MemberLists "routes" Screen.IsRead text o.screens
  groups : MemberLists "components" Group.IsRead text o.groups
  assets : MemberReads "signals" AssetLog.read text o.assets

variable {l : Layout}

theorem Json.memberReads_write {α : Type} {read : Reader α} {a : α} (hl : l.IsBlank) {key : String}
    {v : Json} {ms : List (String × Json)} (hms : ms.filter (·.1 == key) = [(key, v)])
    (h : ReadsBack l read v a) (depth : Nat) :
    MemberReads key read (write l depth (.object ms)) a :=
  ⟨_, memberText?_write hl hms depth, (h (depth + 1)).decode_eq⟩

theorem Json.memberLists_write {α : Type} {toJson : α → Json} {isRead : α → List Char → Prop}
    {as : List α} (hl : l.IsBlank) {key : String} {ms : List (String × Json)}
    (hms : ms.filter (·.1 == key) = [(key, .array (as.map toJson))]) (depth : Nat)
    (h : ∀ a ∈ as, isRead a (write l (depth + 2) (toJson a))) :
    MemberLists key isRead (write l depth (.object ms)) as := by
  refine ⟨_, _, memberText?_write hl hms depth, elementTexts?_write hl _ (depth + 1), ?_⟩
  rw [List.map_map, List.forall₂_map_right_iff]
  exact List.forall₂_same.mpr h

theorem Screen.isRead_write (hl : l.IsBlank) {s : Screen} (hs : s.findings.counts.Fits)
    (depth : Nat) : s.IsRead (write l depth s.toJson) where
  route := ((s.route.fills (.unknown rfl .nil)).readsBack hl rfl depth).decode_eq
  findings := memberReads_write hl rfl (s.findings.readsBack hl hs) depth

theorem Group.isRead_write (hl : l.IsBlank) (g : Group) (depth : Nat) :
    g.IsRead (write l depth g.toJson) where
  name := memberReads_write hl rfl (readsBack_string g.name _) depth
  files := memberReads_write hl rfl (readsBack_array hl fun s _ => readsBack_string s _) depth

/-- **The document of an overview** holds all of it, the groups with all their files. -/
theorem Overview.isRead_document (o : Overview) (h : ∀ s ∈ o.screens, s.findings.counts.Fits) :
    o.IsRead o.document.toList := by
  rw [document, pretty, String.toList_ofList]
  refine ⟨memberLists_write isBlank_pretty rfl 0 fun s hs => ?_,
    memberLists_write isBlank_pretty rfl 0 fun g _ => ?_,
    memberReads_write isBlank_pretty rfl (o.assets.readsBack isBlank_pretty) 0⟩
  · exact Screen.isRead_write isBlank_pretty (h s hs) 2
  · exact g.isRead_write isBlank_pretty 2

end ScreenAtlas
