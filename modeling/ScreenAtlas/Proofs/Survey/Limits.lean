import ScreenAtlas.Overview.Document
import ScreenAtlas.Proofs.Findings
import ScreenAtlas.Proofs.Overview.Content
import ScreenAtlas.Proofs.Survey.Scan
/-!
# What the two limits limit

One limit counts when files are read and bounds the style samples of each screen. The other one is
only carried along until the Markdown document is written, where it bounds the files that are listed
for a group. Neither of them has any other effect.

## Main definitions

* `Screen.keepSamples` — a screen with fewer style samples.
* `Overview.ListsFirst` — lines that list the first files of a group and count the rest.

## Main statements

* `build_collect_scan` — the overview of one collection and one scan in one equation.
* `listsFirst_groupLines` — the lines of a group under any limit.
* `limits_bound_their_lists` — overviews and documents under changed limits.
-/
namespace ScreenAtlas

/-- The screen with no more than the first `limit` style samples. -/
def Screen.keepSamples (limit : Nat) (s : Screen) : Screen :=
  { s with findings := s.findings.keepSamples limit }

namespace Overview

/-! ## The lines of a group -/

/-- The lines of a group list its first files, as many as the limit allows. Where there are more, a
last line says how many: with those that the limit allows, these are all. -/
structure ListsFirst (limit : Nat) (g : Group) (lines : List Line) : Prop where
  exists_append : ∃ rest,
    lines = groupLine g :: (g.files.take (min limit g.files.length)).map fileLine ++ rest ∧
      (g.files.length ≤ limit → rest = []) ∧
      (limit < g.files.length → ∃ k, k + limit = g.files.length ∧ rest = [restLine k])
  restLine_mem_iff : ∀ k, restLine k ∈ lines ↔ 0 < k ∧ k + limit = g.files.length

theorem restLine_inj {k k' : Nat} (h : restLine k = restLine k') : k = k' :=
  toDigits_inj (List.append_cancel_left (List.append_cancel_right h))

theorem restLine_ne_groupLine (k : Nat) (g : Group) : restLine k ≠ groupLine g := by
  rw [groupLine_eq]
  unfold restLine
  simp

theorem restLine_ne_fileLine (k : Nat) (file : String) : restLine k ≠ fileLine file := by
  unfold restLine fileLine code
  simp

/-- **The lines of a group** under any limit. -/
theorem listsFirst_groupLines (limit : Nat) (g : Group) :
    ListsFirst limit g (groupLines limit g) := by
  have htake : g.files.take (min limit g.files.length) = g.files.take limit := by
    rw [← List.take_take, List.take_length]
  rw [groupLines_eq, listedLines]
  constructor
  case exists_append =>
    refine ⟨_, by rw [htake, List.cons_append], fun hall => if_neg (Nat.not_lt.mpr hall),
      fun hmore => ?_⟩
    exact ⟨g.files.length - limit, Nat.sub_add_cancel hmore.le, if_pos hmore⟩
  case restLine_mem_iff =>
    intro k
    have hlisted : restLine k ∉ (g.files.take limit).map fileLine := by
      intro hmem
      obtain ⟨file, -, hfile⟩ := List.mem_map.mp hmem
      exact restLine_ne_fileLine k file hfile.symm
    rw [List.mem_cons, List.mem_append, List.mem_ite_nil_right, List.mem_singleton]
    constructor
    · rintro (hgroup | hfile | ⟨hmore, hrest⟩)
      · exact absurd hgroup (restLine_ne_groupLine k g)
      · exact absurd hfile hlisted
      · obtain rfl := restLine_inj hrest
        exact ⟨Nat.sub_pos_of_lt hmore, Nat.sub_add_cancel hmore.le⟩
    · rintro ⟨hpos, hsum⟩
      exact .inr (.inr ⟨by omega, congrArg restLine (by omega)⟩)

/-! ## The documents -/

/-- The text of lines. -/
def textOf (lines : List Line) : String :=
  String.ofList (lines.flatMap fun line => line ++ ['\n'])

theorem textOf_append (lines more : List Line) :
    textOf (lines ++ more) = textOf lines ++ textOf more := by
  rw [textOf, textOf, textOf, List.flatMap_append, String.ofList_append]

/-- The limit on listed files is not in the JSON document. -/
theorem document_of_limit (o : Overview) (limit : Nat) :
    { o with maxGroupFiles := limit }.document = o.document :=
  rfl

/-- The limit on listed files is in the lines of the groups, and nowhere else in the Markdown
document. -/
theorem markdown_of_limit (o : Overview) : ∃ before after, ∀ limit,
    { o with maxGroupFiles := limit }.markdown =
      before ++ textOf ([] :: componentHeading o.componentsLabel ::
        if o.groups = [] then [nothingFound o.componentsLabel]
        else o.groups.flatMap (groupLines limit)) ++ after := by
  refine ⟨textOf (["# UI Overview (auto-generated)".toList, [],
    "Generated: ".toList ++ o.generatedAt.toMillis.toList] ++ routeSection o),
    textOf (assetSection o), fun limit => ?_⟩
  rw [← itemsOr_map, ← textOf_append, ← textOf_append]
  exact congrArg textOf (congrArg (_ ++ · ++ _) (groupSection_eq { o with maxGroupFiles := limit }))

end Overview

namespace Survey

/-! ## Overviews under changed limits -/

/-- **The overview of one collection and one scan** in one equation. -/
theorem build_collect_scan (fs fs' : FileSystem) (s : Settings) (t : Instant) :
    (((new s).collect fs).scan fs').build t =
      { generatedAt := t
        viewsLabel := s.viewsDir
        componentsLabel := s.componentsDir
        screens := (fs.sources s.viewsRoot).map fun file =>
          ⟨.derive file s.viewsRoot, findingsOf fs' s.maxStyleSamples file⟩
        groups := Group.ofFiles (fs.sources s.componentsRoot) s.componentsRoot
        assets := AssetLog.empty.insertAll ((texts fs'
          (fs.sources s.viewsRoot ++ fs.sources s.componentsRoot)).flatMap Findings.assets)
        maxGroupFiles := s.maxGroupFiles } := by
  simp only [scan_eq, build, collect, new, withLimit]
  rfl

theorem findingsOf_of_le (fs : FileSystem) {m n : Nat} (h : m ≤ n) (file : Path) :
    findingsOf fs m file = (findingsOf fs n file).keepSamples m := by
  unfold findingsOf
  split
  · exact Findings.scan_of_le h _
  · exact (Findings.keepSamples_blank m).symm

/-- **The limits bound their lists and nothing else**, whatever the files are when they are
collected and when they are scanned. Under another limit on listed files, the overview differs in
that limit only; its JSON document is the same, and its Markdown document differs in the section of
the groups only, where each group lists its first files and counts the others. Under a lower limit
on style samples, the overview differs only in that each screen keeps the first of its samples. -/
theorem limits_bound_their_lists (fs fs' : FileSystem) (s : Settings) (t : Instant) :
    let o := fun s : Settings => (((new s).collect fs).scan fs').build t
    (∀ m, o { s with maxGroupFiles := m } = { o s with maxGroupFiles := m }) ∧
    (∀ m, (o { s with maxGroupFiles := m }).document = (o s).document) ∧
    (∃ before after, ∀ m, (o { s with maxGroupFiles := m }).markdown =
      before ++ Overview.textOf ([] :: Overview.componentHeading s.componentsDir ::
        if (o s).groups = [] then [Overview.nothingFound s.componentsDir]
        else (o s).groups.flatMap (Overview.groupLines m)) ++ after) ∧
    (∀ m g, Overview.ListsFirst m g (Overview.groupLines m g)) ∧
    (∀ m n, m ≤ n → o { s with maxStyleSamples := m } =
      { o { s with maxStyleSamples := n } with
        screens := (o { s with maxStyleSamples := n }).screens.map (·.keepSamples m) }) := by
  intro o
  have ho : ∀ s, o s = _ := fun s => build_collect_scan fs fs' s t
  have hfiles : ∀ m, o { s with maxGroupFiles := m } = { o s with maxGroupFiles := m } := by
    intro m
    simp only [ho, Settings.viewsRoot, Settings.componentsRoot]
  refine ⟨hfiles, ?document, ?markdown, Overview.listsFirst_groupLines, ?samples⟩
  case document =>
    intro m
    rw [hfiles, Overview.document_of_limit]
  case markdown =>
    have hlabel : (o s).componentsLabel = s.componentsDir := by rw [ho]
    obtain ⟨before, after, hmarkdown⟩ := Overview.markdown_of_limit (o s)
    refine ⟨before, after, fun m => ?_⟩
    rw [hfiles m, hmarkdown m, hlabel]
  case samples =>
    intro m n h
    have hscreen : ∀ file, Screen.mk (.derive file s.viewsRoot) (findingsOf fs' m file) =
        (Screen.mk (.derive file s.viewsRoot) (findingsOf fs' n file)).keepSamples m := by
      intro file
      rw [findingsOf_of_le fs' h file]
      rfl
    rw [ho { s with maxStyleSamples := m }, ho { s with maxStyleSamples := n }]
    -- The two directories are the same under every limit, so only the findings are left to compare.
    simp only [Settings.viewsRoot, Settings.componentsRoot] at hscreen ⊢
    rw [List.map_map]
    congr 1
    exact List.map_congr_left fun file _ => hscreen file

end Survey

end ScreenAtlas
