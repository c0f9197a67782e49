import ScreenAtlas.Proofs.Findings.Styles
import ScreenAtlas.Proofs.Overview.Content
import ScreenAtlas.Proofs.Survey.Addresses
/-!
# Untrusted texts in the document

What is found in the project's files is written into a document made of lines. Names of files, as
far as they hold no line feed, and everything that is found in a text but style samples stay within
their line. Style samples are written as they are, so a sample with line feeds is continued on lines
of its own, and these are all that a text can add. Since a sample holds no backtick and does not end
in a blank, none of these lines looks like one that opens a screen.

## Main definitions

* `FileSystem.UnbrokenBelow` — the collected files have no line feed in their names.
* `FileSystem.UnbrokenNames` — no name at all holds a line feed.
* `Findings.IsPlain` — what the findings in any text have in common.
* `Overview.IsBlock` — the lines of one screen, some of which continue a line that was broken.
* `Overview.HasLayout` — the lines about the screens, as the document is read.

## Main statements

* `not_prefix_of_mem_continuation` — a line that continues another opens no screen.
* `hasLayout_of_unbroken` — the layout of an overview whose paths and names hold no line feeds.
* `layout_collect_scan` — the layout after a collection and a scan, whatever the files hold.
* `not_hasLayout_brokenStyle` — a style sample can break a line.
-/
namespace ScreenAtlas

/-- Below a root, the files that are collected have no line feed in their names. -/
def FileSystem.UnbrokenBelow (fs : FileSystem) (root : Path) : Prop :=
  ∀ file ∈ fs.sources root, ∃ names, names ≠ [] ∧ (∀ n ∈ names, n.IsUnbroken) ∧
    file = root.below names

/-- No name that something is bound to holds a line feed. -/
def FileSystem.UnbrokenNames (fs : FileSystem) : Prop :=
  ∀ n l m, fs.node? (n :: l) = some m → n.IsUnbroken

/-- Unbroken names can be told from the bindings. -/
theorem FileSystem.unbrokenNames_of_bindings {fs : FileSystem}
    (h : ∀ b ∈ fs.bindings, ∀ n ∈ b.1, n.IsUnbroken) : fs.UnbrokenNames := by
  intro n l m hnode
  obtain ⟨b, hb, hl⟩ := exists_mem_bindings hnode
  exact h b hb n (by simp [hl])

/-- Where no name holds a line feed, none of a collected file does. -/
theorem FileSystem.UnbrokenNames.below {fs : FileSystem} (h : fs.UnbrokenNames) (root : Path) :
    fs.UnbrokenBelow root := by
  intro file hfile
  obtain ⟨front, n, hwalk, hbelow, -, rfl⟩ := mem_sources.mp hfile
  exact ⟨front ++ [n], by simp, hbelow.forall_of_bound h hwalk, rfl⟩

namespace Overview

/-- The lines of one screen: a line that opens it, at most two lines nested below, and lines that
continue the last of these, none of which looks like a line that opens a screen. -/
structure IsBlock (continued block : List Line) : Prop where
  exists_append : ∃ opening nested, block = opening :: nested ++ continued ∧
    "- \x60".toList <+: opening ∧ nested.length ≤ 2 ∧ ∀ l ∈ nested, "  - ".toList <+: l
  not_prefix : ∀ l ∈ continued, ¬"- \x60".toList <+: l

/-- The lines in front of the screens. -/
def opening (o : Overview) : List Line :=
  ["# UI Overview (auto-generated)".toList, [],
    "Generated: ".toList ++ o.generatedAt.toMillis.toList, [], routeHeading o.viewsLabel]

/-- In the document as it is read, the heading of the screens is followed by one block for each
screen, with the given lines that continue it, and then by the empty line and the heading of the
groups. -/
def HasLayout (o : Overview) (continued : Screen → List Line) : Prop :=
  ∃ blocks rest, List.Forall₂ (fun s block => IsBlock (continued s) block) o.screens blocks ∧
    o.markdown.toList.splitOn '\n' =
      opening o ++ blocks.flatten ++ [] :: componentHeading o.componentsLabel :: rest

/-- The lines that continue the line of style samples. -/
def continuation (s : Screen) : List Line :=
  ((sampleLine s).splitOn '\n').tail

/-- Samples without line feeds are not continued. -/
theorem continuation_eq_nil {s : Screen}
    (h : ∀ sample ∈ s.findings.styleSamples, '\n' ∉ sample.toList) : continuation s = [] := by
  rw [continuation, List.splitOn_eq_singleton (newline_notMem_sampleLine h)]
  rfl

end Overview

namespace Findings

/-- Findings in which the name is a word, and the samples hold no backtick and do not end in a
blank. -/
structure IsPlain (f : Findings) : Prop where
  name : ∀ name, f.name = some name → IsWord name
  backtick : ∀ sample ∈ f.styleSamples, '\x60' ∉ sample.toList
  last : ∀ sample ∈ f.styleSamples, ∃ c, sample.toList.getLast? = some c ∧ Text.isBlank c = false

/-- **The findings in any text** are plain. -/
theorem isPlain_scan (limit : Nat) (text : List Char) : (scan limit text).IsPlain where
  name := fun _ hname => isWord_of_declaredName? hname
  backtick := fun _ hsample hmem => (of_mem_samples hsample).2.2.2 _ hmem (.inr (.inr rfl))
  last := by
    intro sample hsample
    obtain ⟨hne, -, hlast, -⟩ := of_mem_samples hsample
    have hsome : sample.toList ≠ [] := fun hnil => hne (String.toList_eq_nil_iff.mp hnil)
    exact ⟨_, List.getLast?_eq_some_getLast hsome, hlast _ (List.getLast?_eq_some_getLast hsome)⟩

theorem isPlain_blank : blank.IsPlain where
  name := by
    intro _ hname
    cases hname
  backtick := fun _ hsample => absurd hsample List.not_mem_nil
  last := fun _ hsample => absurd hsample List.not_mem_nil

end Findings

/-- A screen whose address and path stay within their line, with findings like those of any text. -/
structure Screen.IsUnbroken (s : Screen) : Prop where
  address : '\n' ∉ s.route.address.toList
  relativePath : '\n' ∉ s.route.relativePath.toList
  findings : s.findings.IsPlain

namespace Overview

theorem prefix_screenLine (viewsLabel : String) (s : Screen) :
    "- \x60".toList <+: screenLine viewsLabel s := by
  rw [screenLine_eq]
  unfold code
  simp

/-- The line of style samples starts like any nested line, wherever it is broken. -/
theorem splitOn_sampleLine (s : Screen) :
    ∃ l, "  - ".toList <+: l ∧ (sampleLine s).splitOn '\n' = l :: continuation s := by
  obtain ⟨front, continued, hsplit, -⟩ :=
    exists_splitOn_append (s := "  - tailwind sample: ".toList) (by decide)
      (code (separated " | " s.findings.styleSamples))
  refine ⟨"  - tailwind sample: ".toList ++ front, by simp, ?_⟩
  have hread : (sampleLine s).splitOn '\n' = _ :: continued := hsplit
  rw [continuation, hread, List.tail_cons]

theorem append_code (s t : Line) : s ++ code t = (s ++ ['\x60']) ++ (t ++ ['\x60']) := by
  simp [code]

/-- Up to the first backtick there is no line feed, so only the samples and the backtick behind them
are continued. -/
theorem continuation_eq (s : Screen) : continuation s =
    ((separated " | " s.findings.styleSamples ++ ['\x60']).splitOn '\n').tail := by
  have hline : sampleLine s = ("  - tailwind sample: ".toList ++ ['\x60']) ++
      (separated " | " s.findings.styleSamples ++ ['\x60']) := append_code _ _
  obtain ⟨front, continued, hsplit, hrest⟩ :=
    exists_splitOn_append (s := "  - tailwind sample: ".toList ++ ['\x60']) (by decide)
      (separated " | " s.findings.styleSamples ++ ['\x60'])
  rw [continuation, hline, hsplit, hrest, List.tail_cons, List.tail_cons]

/-- A text without backtick in front of a last one. -/
theorem eq_of_append_backtick {body front rest : Line} (hbody : '\x60' ∉ body)
    (h : body ++ ['\x60'] = front ++ '\x60' :: rest) : body = front := by
  rcases List.eq_nil_or_concat' rest with rfl | ⟨rest, c, rfl⟩
  · exact (List.append_inj' h rfl).1
  · rw [← List.cons_append, ← List.append_assoc] at h
    refine absurd ?_ hbody
    rw [(List.append_inj' h rfl).1]
    exact List.mem_append_right _ List.mem_cons_self

/-- **A line that continues the samples** does not look like one that opens a screen: the only
backtick is behind the last sample, which does not end in a blank. -/
theorem not_prefix_of_mem_continuation {s : Screen} (hs : s.findings.IsPlain) :
    ∀ l ∈ continuation s, ¬"- \x60".toList <+: l := by
  rintro l hl ⟨rest, rfl⟩
  rw [continuation_eq] at hl
  obtain ⟨before, after, heq⟩ := infix_of_mem_tail_splitOn hl
  have hend : separated " | " s.findings.styleSamples ++ ['\x60'] =
      (before ++ "\n- ".toList) ++ '\x60' :: (rest ++ after) := by
    rw [← heq]
    simp
  have hbody := eq_of_append_backtick (notMem_separated " | " (by decide) hs.backtick) hend
  by_cases hsamples : s.findings.styleSamples = []
  · rw [hsamples] at hbody
    exact absurd hbody (by simp [separated])
  · obtain ⟨c, hc, hblank⟩ := exists_getLast?_separated " | " hsamples hs.last
    rw [hbody, List.getLast?_append] at hc
    obtain rfl : ' ' = c := Option.some.inj hc
    exact absurd hblank (by decide)

/-- **The lines of a screen, as they are read.** -/
theorem isBlock_of_unbroken {viewsLabel : String} (hlabel : '\n' ∉ viewsLabel.toList) {s : Screen}
    (hs : s.IsUnbroken) :
    IsBlock (continuation s) ((screenLines viewsLabel s).flatMap (·.splitOn '\n')) := by
  have hfirst : (screenLine viewsLabel s).splitOn '\n' = [screenLine viewsLabel s] :=
    List.splitOn_eq_singleton
      (newline_notMem_screenLine hlabel hs.address hs.relativePath hs.findings.name)
  have hfeatures : (featureLine s).splitOn '\n' = [featureLine s] :=
    List.splitOn_eq_singleton (newline_notMem_featureLine s)
  rw [screenLines_eq, List.flatMap_cons, hfirst]
  refine ⟨?_, not_prefix_of_mem_continuation hs.findings⟩
  -- Only the line of the samples can be broken, so without samples nothing is continued.
  by_cases hsamples : s.findings.styleSamples = []
  · have hcontinued : continuation s = [] := continuation_eq_nil (by simp [hsamples])
    rw [hcontinued]
    by_cases hbare : nestedLines s = []
    · rw [hbare]
      exact ⟨_, [], by simp, prefix_screenLine viewsLabel s, by simp, by simp⟩
    · rw [nestedLines_of_ne hbare, if_pos hsamples, List.flatMap_singleton, hfeatures]
      refine ⟨_, [featureLine s], by simp, prefix_screenLine viewsLabel s, by simp, ?_⟩
      simpa using prefix_featureLine s
  · have hbare : nestedLines s ≠ [] := fun h => hsamples (nestedLines_eq_nil_iff.mp h).2
    obtain ⟨l, hl, hread⟩ := splitOn_sampleLine s
    rw [nestedLines_of_ne hbare, if_neg hsamples, List.flatMap_cons, List.flatMap_singleton,
      hfeatures, hread]
    refine ⟨_, [featureLine s, l], by simp, prefix_screenLine viewsLabel s, by simp, ?_⟩
    simpa using ⟨prefix_featureLine s, hl⟩

/-- **The layout of an overview** whose labels, addresses, paths and names hold no line feeds, and
whose samples are like those of any text. -/
theorem hasLayout_of_unbroken {o : Overview} (hviews : '\n' ∉ o.viewsLabel.toList)
    (hcomponents : '\n' ∉ o.componentsLabel.toList) (hscreens : ∀ s ∈ o.screens, s.IsUnbroken)
    (hne : o.screens ≠ []) {continued : Screen → List Line}
    (hcontinued : ∀ s ∈ o.screens, continued s = continuation s) : o.HasLayout continued := by
  have hopening : (opening o).flatMap (·.splitOn '\n') = opening o := by
    refine flatMap_splitOn_of_notMem ?_
    have hheading : '\n' ∉ routeHeading o.viewsLabel := by
      unfold routeHeading
      simp [hviews]
    have htime : '\n' ∉ "Generated: ".toList ++ o.generatedAt.toMillis.toList := by
      simp [Instant.newline_notMem_toMillis]
    simp only [opening, List.forall_mem_cons]
    exact ⟨by decide, by simp, htime, by simp, hheading, by simp⟩
  have hheading : (componentHeading o.componentsLabel).splitOn '\n' =
      [componentHeading o.componentsLabel] := by
    refine List.splitOn_eq_singleton ?_
    unfold componentHeading
    simp [hcomponents]
  have hlines : o.lines = opening o ++ (o.screens.flatMap (screenLines o.viewsLabel) ++ [] ::
      componentHeading o.componentsLabel :: (componentLines o ++ [] ::
      assetHeading :: assetLines o)) := by
    rw [lines_eq, routeLines, itemsOr_map, if_neg hne]
    rfl
  have hempty : ([] : Line).splitOn '\n' = [[]] := List.splitOn_nil _
  refine ⟨o.screens.map fun s => (screenLines o.viewsLabel s).flatMap (·.splitOn '\n'),
    (componentLines o ++ [] :: assetHeading :: assetLines o).flatMap (·.splitOn '\n') ++ [[]],
    ?blocks, ?lines⟩
  case blocks =>
    rw [List.forall₂_map_right_iff, List.forall₂_same]
    intro s hs
    rw [hcontinued s hs]
    exact isBlock_of_unbroken hviews (hscreens s hs)
  case lines =>
    rw [splitOn_markdown, hlines, List.flatMap_append, hopening, List.flatMap_append,
      List.flatMap_assoc, List.flatMap_cons, List.flatMap_cons, hheading, hempty,
      ← List.flatMap_def]
    simp only [List.append_assoc, List.cons_append, List.nil_append]

/-- Where no block is continued, every line of the blocks opens one or is nested below. -/
theorem prefix_of_mem_blocks {screens : List Screen} {blocks : List (List Line)}
    (h : List.Forall₂ (fun _ block => IsBlock [] block) screens blocks) :
    ∀ l ∈ blocks.flatten, "- \x60".toList <+: l ∨ "  - ".toList <+: l := by
  induction h with
  | nil => simp
  | cons hblock _ ih =>
      intro l hl
      rw [List.flatten_cons, List.mem_append] at hl
      rcases hl with hl | hl
      · obtain ⟨opening, nested, rfl, hopening, -, hnested⟩ := hblock.exists_append
        rw [List.append_nil] at hl
        rcases List.mem_cons.mp hl with rfl | hl
        · exact .inl hopening
        · exact .inr (hnested l hl)
      · exact ih l hl

/-- Up to the first empty line behind the heading of the screens there is no other line. -/
theorem HasLayout.prefix_line {o : Overview} (h : o.HasLayout fun _ => []) {l : Line}
    (hl : l ∈ ((o.markdown.toList.splitOn '\n').drop (opening o).length).takeWhile (· ≠ [])) :
    "- \x60".toList <+: l ∨ "  - ".toList <+: l := by
  obtain ⟨blocks, rest, hblocks, hlines⟩ := h
  have hprefix := prefix_of_mem_blocks hblocks
  have hne : ∀ l ∈ blocks.flatten, decide (l ≠ []) = true := by
    intro l hl
    rw [decide_eq_true_iff]
    rintro rfl
    rcases hprefix [] hl with hopening | hnested
    · exact absurd (List.prefix_nil.mp hopening) (by simp)
    · exact absurd (List.prefix_nil.mp hnested) (by simp)
  rw [hlines, List.append_assoc, List.drop_left, List.takeWhile_append_of_pos hne,
    List.takeWhile_cons_of_neg (by simp), List.append_nil] at hl
  exact hprefix l hl

end Overview

namespace Survey

variable {fs : FileSystem} (fs' : FileSystem) (s : Survey)

/-- Whatever a file holds, its screen stays within its line. -/
theorem isUnbroken_screenOf (h : fs.UnbrokenBelow s.settings.viewsRoot) {file : Path}
    (hfile : file ∈ fs.sources s.settings.viewsRoot) : (screenOf fs' s file).IsUnbroken := by
  obtain ⟨_, _, hwalk, -⟩ := FileSystem.mem_sources.mp hfile
  obtain ⟨names, hnames, hunbroken, rfl⟩ := h file hfile
  have hpath := Path.newline_notMem_relativeText hwalk.bytes_ne_nil hnames hunbroken
  refine ⟨fun hmem => ?address, hpath, ?findings⟩
  case address =>
    rcases Route.mem_of_mem_address hmem with heq | hmem
    · cases heq
    · exact hpath hmem
  case findings =>
    change (findingsOf fs' s.sampleLimit _).IsPlain
    obtain ⟨text, -, hfound⟩ | hfound := findingsOf_eq_or fs' s.sampleLimit
      (s.settings.viewsRoot.below names)
    · rw [hfound]
      exact Findings.isPlain_scan _ text
    · rw [hfound]
      exact Findings.isPlain_blank

/-- **The layout after a collection and a scan**, whatever the files hold by the time of the scan,
if no label and no name of a collected file holds a line feed and some file was collected. Between
the heading of the screens and the empty line in front of the heading of the groups stands one block
for each screen: a line that opens it, at most two lines nested below, and the lines that continue
the line of style samples behind the line feeds that the samples hold, none of which looks like a
line that opens a screen. Where no sample holds a line feed, no block is continued. -/
theorem layout_collect_scan (t : Instant) (h : fs.UnbrokenBelow s.settings.viewsRoot)
    (hviews : '\n' ∉ s.settings.viewsDir.toList)
    (hcomponents : '\n' ∉ s.settings.componentsDir.toList)
    (hfiles : fs.sources s.settings.viewsRoot ≠ []) :
    let o := ((s.collect fs).scan fs').build t
    o.HasLayout Overview.continuation ∧
    ((∀ s ∈ o.screens, ∀ sample ∈ s.findings.styleSamples, '\n' ∉ sample.toList) →
      o.HasLayout fun _ => []) := by
  intro o
  have hscreens : o.screens =
      (fs.sources s.settings.viewsRoot).map (screenOf fs' (s.collect fs)) := by
    simp only [o, build, screens_collect_scan]
  have hunbroken : ∀ s ∈ o.screens, s.IsUnbroken := by
    intro screen hscreen
    rw [hscreens] at hscreen
    obtain ⟨file, hfile, rfl⟩ := List.mem_map.mp hscreen
    exact isUnbroken_screenOf fs' (s.collect fs) h hfile
  have hne : o.screens ≠ [] := by
    rw [hscreens]
    simpa using hfiles
  have hviewsLabel : '\n' ∉ o.viewsLabel.toList := by
    simpa [o, build, scan_eq, collect] using hviews
  have hcomponentsLabel : '\n' ∉ o.componentsLabel.toList := by
    simpa [o, build, scan_eq, collect] using hcomponents
  constructor
  · exact Overview.hasLayout_of_unbroken hviewsLabel hcomponentsLabel hunbroken hne fun _ _ => rfl
  · intro hsamples
    have hcontinued : ∀ screen ∈ o.screens, [] = Overview.continuation screen :=
      fun screen hscreen => (Overview.continuation_eq_nil (hsamples screen hscreen)).symm
    exact Overview.hasLayout_of_unbroken hviewsLabel hcomponentsLabel hunbroken hne hcontinued

/-- The standard views directory has a name. -/
theorem isName_app : Path.isFiller (Utf8.encode "app".toList) = false ∧
    Utf8.encode "app".toList ≠ [Path.dot, Path.dot] ∧
    Path.slash ∉ Utf8.encode "app".toList := by
  decide

/-- A project of one file, whose style text holds a line feed. -/
def brokenStyle : FileSystem :=
  let app : Name := ⟨Utf8.encode "app".toList, isName_app⟩
  ⟨[([app], .directory), ([⟨Utf8.encode "a.tsx".toList, by decide⟩, app],
    .file (Utf8.encode "className=\"a\nb\"".toList))], []⟩

/-- The overview of the project with the broken style text. -/
def brokenStyleOverview : Overview :=
  (((new .standard).collect brokenStyle).scan brokenStyle).build .epoch

theorem unbrokenNames_brokenStyle : brokenStyle.UnbrokenNames :=
  FileSystem.unbrokenNames_of_bindings (by decide)

theorem sources_brokenStyle : brokenStyle.sources Settings.standard.viewsRoot ≠ [] := by
  decide +kernel

/-- The style text is written on two lines. -/
theorem layout_brokenStyle : brokenStyleOverview.HasLayout Overview.continuation ∧
    brokenStyleOverview.screens.map Overview.continuation = [["b\x60".toList]] :=
  ⟨(layout_collect_scan brokenStyle (new .standard) .epoch (unbrokenNames_brokenStyle.below _)
    (by decide) (by decide) sources_brokenStyle).1, by decide +kernel⟩

/-- **A style text can break a line**: its second line neither opens a block nor is nested. -/
theorem not_hasLayout_brokenStyle : brokenStyle.UnbrokenNames ∧
    '\n' ∉ Settings.standard.viewsDir.toList ∧ '\n' ∉ Settings.standard.componentsDir.toList ∧
    brokenStyle.sources Settings.standard.viewsRoot ≠ [] ∧
    ¬brokenStyleOverview.HasLayout fun _ => [] := by
  refine ⟨unbrokenNames_brokenStyle, by decide, by decide, sources_brokenStyle, fun h => ?_⟩
  have hline : "b\x60".toList ∈ ((brokenStyleOverview.markdown.toList.splitOn '\n').drop
      (Overview.opening brokenStyleOverview).length).takeWhile (· ≠ []) := by
    rw [Overview.splitOn_markdown]
    decide +kernel
  rcases h.prefix_line hline with hopening | hnested
  · exact absurd hopening (by decide)
  · exact absurd hnested (by decide)

end Survey

end ScreenAtlas
