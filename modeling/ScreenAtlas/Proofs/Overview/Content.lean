import ScreenAtlas.Proofs.Overview.Groups
/-!
# What the Markdown document says

The document shows the labels, the time to the millisecond, the screens, the groups with the files
that are listed, and the asset usage. It shows nothing else, and all of this can be read back from
it: two overviews have the same document exactly if they show the same.

## Main definitions

* `Overview.IsLegible` — the overviews whose texts can be told apart.
* `Overview.Content` — what the document says.

## Main statements

* `lines_eq_iff` — the lines of an overview.
* `markdown_eq_iff_lines` — the document and its lines.
* `markdown_eq_iff` — the document says what the overview shows, and nothing else.
-/
namespace ScreenAtlas

/-! ## Times -/

namespace Instant

theorem newline_notMem_padded (width n : Nat) : '\n' ∉ padded width n := by
  have hdigits : '\n' ∉ Nat.toDigits 10 n := Overview.notMem_toDigits rfl n
  simp [padded, hdigits, List.mem_replicate]

theorem newline_notMem_writeYear (year : Int) : '\n' ∉ writeYear year := by
  unfold writeYear
  split
  · exact newline_notMem_padded 4 _
  · split <;> simp [newline_notMem_padded]

theorem newline_notMem_toMillis (t : Instant) : '\n' ∉ t.toMillis.toList := by
  simp [toMillis, write, newline_notMem_writeYear, newline_notMem_padded]

end Instant

namespace Overview

/-- An overview whose texts can be told apart in its document. -/
structure IsLegible (o : Overview) : Prop where
  viewsLabel : Inline o.viewsLabel
  componentsLabel : Inline o.componentsLabel
  screens : ∀ s ∈ o.screens, s.IsLegible
  groups : ∀ g ∈ o.groups, g.IsLegible

/-- What the document says. -/
@[ext] structure Content where
  /-- The time, cut off to the millisecond. -/
  generatedAt : String
  viewsLabel : String
  componentsLabel : String
  screens : List Screen.Content
  groups : List Group.Content
  assets : List Asset

/-- What is shown of an overview. -/
def content (o : Overview) : Content where
  generatedAt := o.generatedAt.toMillis
  viewsLabel := o.viewsLabel
  componentsLabel := o.componentsLabel
  screens := o.screens.map Screen.content
  groups := o.groups.map (Group.content o.maxGroupFiles)
  assets := o.assets.toList

/-! ## The sections -/

/-- The line of a kind of asset usage. -/
def assetLine (a : Asset) : Line :=
  "- ".toList ++ a.label.toList

theorem assetLine_inj {a a' : Asset} (h : assetLine a = assetLine a') : a = a' := by
  have hlabel := String.toList_inj.mp (List.append_cancel_left h)
  revert hlabel
  cases a <;> cases a' <;> decide

/-- The lines about the screens, below their heading. -/
def routeLines (o : Overview) : List Line :=
  itemsOr (nothingFound o.viewsLabel) (o.screens.map (screenLines o.viewsLabel))

/-- The lines about the groups, below their heading. -/
def componentLines (o : Overview) : List Line :=
  itemsOr (nothingFound o.componentsLabel) (o.groups.map (groupLines o.maxGroupFiles))

/-- The lines about the asset usage, below their heading. -/
def assetLines (o : Overview) : List Line :=
  itemsOr "- No obvious asset/icon usage detected.".toList
    (o.assets.toList.map fun a => [assetLine a])

/-- The heading of the screens. -/
def routeHeading (viewsLabel : String) : Line :=
  "## ".toList ++ ("Routes (".toList ++ viewsLabel.toList ++ "/)".toList)

/-- The heading of the groups. -/
def componentHeading (componentsLabel : String) : Line :=
  "## ".toList ++ ("Shared Components (".toList ++ componentsLabel.toList ++ "/)".toList)

/-- The heading of the asset usage. -/
def assetHeading : Line :=
  "## ".toList ++ "Asset & Icon Signals".toList

/-- The lines of the items of a list, as the sections write them. -/
theorem itemsOr_map {α : Type} (message : Line) (f : α → List Line) (xs : List α) :
    itemsOr message (xs.map f) = if xs = [] then [message] else xs.flatMap f := by
  simp only [itemsOr, List.map_eq_nil_iff, List.flatMap_def]

theorem routeSection_eq (o : Overview) :
    o.routeSection = [] :: routeHeading o.viewsLabel :: routeLines o := by
  rw [routeLines, itemsOr_map]
  rfl

theorem groupSection_eq (o : Overview) :
    o.groupSection = [] :: componentHeading o.componentsLabel :: componentLines o := by
  rw [componentLines, itemsOr_map]
  rfl

theorem assetSection_eq (o : Overview) : o.assetSection = [] :: assetHeading :: assetLines o := by
  rw [assetLines, itemsOr_map, ← List.map_eq_flatMap]
  rfl

/-- **The parts of the document**: an empty line stands before each heading. -/
theorem lines_eq (o : Overview) : o.lines =
    "# UI Overview (auto-generated)".toList :: [] ::
      ("Generated: ".toList ++ o.generatedAt.toMillis.toList) :: [] ::
      routeHeading o.viewsLabel :: (routeLines o ++ [] ::
      componentHeading o.componentsLabel :: (componentLines o ++ [] ::
      assetHeading :: assetLines o)) := by
  rw [lines, routeSection_eq, groupSection_eq, assetSection_eq]
  simp only [List.cons_append, List.nil_append, List.append_assoc]

theorem routeHeading_inj {label label' : String} (h : routeHeading label = routeHeading label') :
    label = label' :=
  String.toList_inj.mp <| List.append_cancel_left <| List.append_cancel_right <|
    List.append_cancel_left h

theorem componentHeading_inj {label label' : String}
    (h : componentHeading label = componentHeading label') : label = label' :=
  String.toList_inj.mp <| List.append_cancel_left <| List.append_cancel_right <|
    List.append_cancel_left h

/-! ## The items of the sections -/

/-- The line of a section about a directory without files is no line of a screen. -/
theorem head?_screenLines (directory viewsLabel : String) (s : Screen) :
    (screenLines viewsLabel s).head? ≠ some (nothingFound directory) := by
  rw [screenLines_eq, List.head?_cons, Ne, Option.some.injEq, screenLine_eq]
  unfold nothingFound code
  simp

/-- The line of a section about a directory without files is no line of a group. -/
theorem head?_groupLines (directory : String) (limit : Nat) (g : Group) :
    (groupLines limit g).head? ≠ some (nothingFound directory) := by
  rw [groupLines_eq, List.head?_cons, Ne, Option.some.injEq, groupLine_eq]
  unfold nothingFound
  simp

theorem isItem_assetLine (a : Asset) : IsItem [assetLine a] where
  exists_cons := ⟨assetLine a, [], rfl, ⟨_, rfl⟩, by simp⟩

/-- No kind of asset usage is described as none. -/
theorem head?_assetLine (a : Asset) :
    [assetLine a].head? ≠ some "- No obvious asset/icon usage detected.".toList := by
  cases a <;> decide

theorem nothingFound_ne_nil (directory : String) : nothingFound directory ≠ [] := by
  unfold nothingFound
  simp

theorem nil_notMem_routeLines (o : Overview) : [] ∉ routeLines o := by
  refine nil_notMem_itemsOr (nothingFound_ne_nil _) fun item hitem => ?_
  obtain ⟨s, -, rfl⟩ := List.mem_map.mp hitem
  exact isItem_screenLines o.viewsLabel s

theorem nil_notMem_componentLines (o : Overview) : [] ∉ componentLines o := by
  refine nil_notMem_itemsOr (nothingFound_ne_nil _) fun item hitem => ?_
  obtain ⟨g, -, rfl⟩ := List.mem_map.mp hitem
  exact isItem_groupLines o.maxGroupFiles g

/-! ## Everything that is shown -/

variable {o o' : Overview}

theorem routeLines_eq_iff (ho : o.IsLegible) (ho' : o'.IsLegible)
    (hlabel : o.viewsLabel = o'.viewsLabel) : routeLines o = routeLines o' ↔
      o.screens.map Screen.content = o'.screens.map Screen.content := by
  have hitem : ∀ s, IsItem (screenLines o.viewsLabel s) ∧
      (screenLines o.viewsLabel s).head? ≠ some (nothingFound o.viewsLabel) :=
    fun s => ⟨isItem_screenLines _ s, head?_screenLines _ _ s⟩
  unfold routeLines
  rw [← hlabel]
  exact itemsOr_map_eq_iff hitem hitem fun s hs s' hs' =>
    screenLines_eq_iff ho.viewsLabel (ho.screens s hs) (ho'.screens s' hs')

theorem componentLines_eq_iff (ho : o.IsLegible) (ho' : o'.IsLegible)
    (hlabel : o.componentsLabel = o'.componentsLabel) : componentLines o = componentLines o' ↔
      o.groups.map (Group.content o.maxGroupFiles) =
        o'.groups.map (Group.content o'.maxGroupFiles) := by
  have hitem : ∀ limit g, IsItem (groupLines limit g) ∧
      (groupLines limit g).head? ≠ some (nothingFound o.componentsLabel) :=
    fun limit g => ⟨isItem_groupLines limit g, head?_groupLines _ limit g⟩
  unfold componentLines
  rw [← hlabel]
  exact itemsOr_map_eq_iff (hitem _) (hitem _) fun g hg g' hg' =>
    groupLines_eq_iff (ho.groups g hg) (ho'.groups g' hg')

theorem assetLines_eq_iff : assetLines o = assetLines o' ↔ o.assets.toList = o'.assets.toList := by
  have hitem : ∀ a, IsItem [assetLine a] ∧
      [assetLine a].head? ≠ some "- No obvious asset/icon usage detected.".toList :=
    fun a => ⟨isItem_assetLine a, head?_assetLine a⟩
  have hlines : ∀ a a', [assetLine a] = [assetLine a'] ↔ id a = id a' := by
    intro a a'
    rw [List.singleton_inj]
    exact ⟨assetLine_inj, congrArg assetLine⟩
  unfold assetLines
  rw [itemsOr_map_eq_iff hitem hitem fun a _ a' _ => hlines a a', List.map_id, List.map_id]

/-- **The lines of an overview** say what is shown of the overview. -/
theorem lines_eq_iff (ho : o.IsLegible) (ho' : o'.IsLegible) :
    o.lines = o'.lines ↔ o.content = o'.content := by
  rw [lines_eq, lines_eq]
  constructor
  · intro h
    simp only [List.cons.injEq, true_and] at h
    obtain ⟨htime, hviews, h⟩ := h
    obtain ⟨hroutes, h⟩ := append_cons_inj (nil_notMem_routeLines o) (nil_notMem_routeLines o') h
    obtain ⟨hcomponents, h⟩ := List.cons.inj h
    obtain ⟨hgroups, h⟩ :=
      append_cons_inj (nil_notMem_componentLines o) (nil_notMem_componentLines o') h
    have hviews := routeHeading_inj hviews
    have hcomponents := componentHeading_inj hcomponents
    exact Content.ext (String.toList_inj.mp (List.append_cancel_left htime)) hviews hcomponents
      ((routeLines_eq_iff ho ho' hviews).mp hroutes)
      ((componentLines_eq_iff ho ho' hcomponents).mp hgroups)
      (assetLines_eq_iff.mp (List.cons.inj h).2)
  · intro h
    obtain ⟨htime, hviews, hcomponents, hscreens, hgroups, hassets⟩ := Content.mk.inj h
    rw [htime, (routeLines_eq_iff ho ho' hviews).mpr hscreens, hviews,
      (componentLines_eq_iff ho ho' hcomponents).mpr hgroups, hcomponents,
      assetLines_eq_iff.mpr hassets]

/-! ## The document -/

theorem newline_notMem_nothingFound {directory : String} (h : '\n' ∉ directory.toList) :
    '\n' ∉ nothingFound directory := by
  unfold nothingFound
  simp [code, h]

theorem newline_notMem_assetLine (a : Asset) : '\n' ∉ assetLine a := by
  cases a <;> decide

/-- Legible texts leave the lines whole. -/
theorem newline_notMem_lines (ho : o.IsLegible) : ∀ l ∈ o.lines, '\n' ∉ l := by
  have hroutes : ∀ l ∈ routeLines o, '\n' ∉ l := by
    refine forall_mem_itemsOr (newline_notMem_nothingFound ho.viewsLabel.1) fun item hitem => ?_
    obtain ⟨s, hs, rfl⟩ := List.mem_map.mp hitem
    exact newline_notMem_screenLines ho.viewsLabel (ho.screens s hs)
  have hgroups : ∀ l ∈ componentLines o, '\n' ∉ l := by
    refine forall_mem_itemsOr (newline_notMem_nothingFound ho.componentsLabel.1)
      fun item hitem => ?_
    obtain ⟨g, hg, rfl⟩ := List.mem_map.mp hitem
    exact newline_notMem_groupLines o.maxGroupFiles (ho.groups g hg)
  have hassets : ∀ l ∈ assetLines o, '\n' ∉ l := by
    refine forall_mem_itemsOr (by decide) fun item hitem => ?_
    obtain ⟨a, -, rfl⟩ := List.mem_map.mp hitem
    simpa using newline_notMem_assetLine a
  have hviews : '\n' ∉ routeHeading o.viewsLabel := by
    unfold routeHeading
    simp [ho.viewsLabel.1]
  have hcomponents : '\n' ∉ componentHeading o.componentsLabel := by
    unfold componentHeading
    simp [ho.componentsLabel.1]
  rw [lines_eq]
  simp only [List.forall_mem_cons, List.forall_mem_append]
  refine ⟨by decide, List.not_mem_nil, ?_, List.not_mem_nil, hviews, hroutes, List.not_mem_nil,
    hcomponents, hgroups, List.not_mem_nil, by decide, hassets⟩
  simp [Instant.newline_notMem_toMillis]

/-- The lines of a document whose texts hold no line feeds can be read back from it. -/
theorem markdown_eq_iff_lines (ho : o.IsLegible) (ho' : o'.IsLegible) :
    o.markdown = o'.markdown ↔ o.lines = o'.lines := by
  constructor
  · intro h
    have hread := congrArg (fun text => text.toList.splitOn '\n') h
    rw [splitOn_markdown, splitOn_markdown] at hread
    have hlines := List.append_cancel_right hread
    rwa [flatMap_splitOn_of_notMem (newline_notMem_lines ho),
      flatMap_splitOn_of_notMem (newline_notMem_lines ho')] at hlines
  · intro h
    rw [markdown, markdown, h]

/-- **The document says what the overview shows, and nothing else**: the documents of two overviews
are equal exactly if the overviews agree in everything that is shown. -/
theorem markdown_eq_iff (ho : o.IsLegible) (ho' : o'.IsLegible) :
    o.markdown = o'.markdown ↔ o.content = o'.content :=
  (markdown_eq_iff_lines ho ho').trans (lines_eq_iff ho ho')

/-- An overview of one screen and of a group with two files, of which one is listed. -/
def twoFilesOneListed (nanos : Nat) (hidden : String) : Overview where
  generatedAt := ⟨0, nanos⟩
  viewsLabel := "app"
  componentsLabel := "components"
  screens := [⟨⟨"home.tsx", "/home", none⟩, ⟨.empty, .zero, true, ["p-4 m-2"], some "Home"⟩⟩]
  groups := [⟨"cards", ["cards/Card.tsx", hidden]⟩]
  assets := ⟨[.expoImage]⟩
  maxGroupFiles := 1

theorem isLegible_twoFilesOneListed (nanos : Nat) {hidden : String} (h : Inline hidden) :
    (twoFilesOneListed nanos hidden).IsLegible where
  viewsLabel := (by decide : Inline "app")
  componentsLabel := (by decide : Inline "components")
  screens := by
    intro s hs
    obtain rfl := List.mem_singleton.mp hs
    refine ⟨by decide, by decide, ?_, ?_⟩
    · intro name hname
      obtain rfl := Option.some.inj hname
      exact ⟨by decide, List.all_eq_true.mp (by decide)⟩
    · intro sample hsample
      obtain rfl := List.mem_singleton.mp hsample
      decide
  groups := by
    intro g hg
    obtain rfl := List.mem_singleton.mp hg
    refine ⟨(by decide : '\n' ∉ "cards".toList ∧ '/' ∉ "cards".toList), ?_⟩
    intro file hfile
    simp only [List.mem_cons, List.not_mem_nil, or_false] at hfile
    rcases hfile with rfl | rfl
    · decide
    · exact h

/-- A file left out and a part of a millisecond are not shown; one more millisecond is. -/
theorem markdown_eq_twoFilesOneListed :
    (twoFilesOneListed 0 "cards/Old.tsx").markdown =
        (twoFilesOneListed 999999 "cards/New.tsx").markdown ∧
      (twoFilesOneListed 0 "cards/Old.tsx").markdown ≠
        (twoFilesOneListed 1000000 "cards/Old.tsx").markdown := by
  have hold : ∀ nanos, (twoFilesOneListed nanos "cards/Old.tsx").IsLegible :=
    fun nanos => isLegible_twoFilesOneListed nanos (by decide)
  have hnew : (twoFilesOneListed 999999 "cards/New.tsx").IsLegible :=
    isLegible_twoFilesOneListed _ (by decide)
  constructor
  · refine (markdown_eq_iff (hold 0) hnew).mpr (Content.ext ?_ rfl rfl rfl rfl rfl)
    decide +kernel
  · intro h
    have htime := congrArg Content.generatedAt ((markdown_eq_iff (hold 0) (hold 1000000)).mp h)
    exact absurd htime (by decide +kernel)

end Overview

end ScreenAtlas
