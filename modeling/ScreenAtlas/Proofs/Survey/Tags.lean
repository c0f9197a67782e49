import ScreenAtlas.Proofs.Findings
import ScreenAtlas.Proofs.Survey.History
/-!
# Tags and the asset log

The tags of a screen come from the table of libraries, and the asset log of the whole project from a
table of its own. Three libraries stand in both tables, under one name and with one kind of
evidence. So what a screen is tagged with is in the log, and what is in the log was seen in some
file, though not necessarily in that of a screen.

## Main definitions

* `Library.asset?` — the kind of asset usage with the name of a library.

## Main statements

* `mem_assets_iff_has_libraries` — the two tables agree on every text.
* `mem_assets_scan` — where the entries of the log come from.
* `tags_agree_with_log` — tags and log after any history.
-/
namespace ScreenAtlas

/-- The kind of asset usage with the name of a library. -/
def Library.asset? : Library → Option Asset
  | .lucideIcons => some .lucideIcons
  | .vectorIcons => some .vectorIcons
  | .expoImage => some .expoImage
  | _ => none

/-- They go by one name in both tables. -/
theorem Library.asset?_eq_some_iff {l : Library} {a : Asset} :
    l.asset? = some a ↔ Vocabulary.name l = Vocabulary.name a := by
  cases l <;> cases a <;> decide

variable {l : Library} {a : Asset}

/-- The tables have the same patterns under one name. -/
theorem Checklist.mem_libraries_iff_mem_assets (h : l.asset? = some a) (patterns : List Pattern) :
    (⟨l, patterns⟩ : Rule Library) ∈ libraries ↔ (⟨a, patterns⟩ : Rule Asset) ∈ assets := by
  cases l <;> cases h <;> simp [libraries, assets]

/-- **The two tables agree on every text**: a library of both is found where its kind of asset usage
is found. -/
theorem Findings.mem_assets_iff_has_libraries (h : l.asset? = some a) (limit : Nat)
    (s : List Char) : a ∈ assets s ↔ (scan limit s).imports.has l = true := by
  have hstyle : l ≠ .styleEngine := by
    rintro rfl
    cases h
  have htables := Checklist.mem_libraries_iff_mem_assets h
  change a ∈ assets s ↔ (libraries s).has l = true
  rw [mem_assets, has_libraries]
  constructor
  · rintro ⟨⟨_, patterns⟩, hr, rfl, hs⟩
    exact .inl ⟨⟨l, patterns⟩, (htables patterns).mpr hr, rfl, hs⟩
  · rintro (⟨⟨_, patterns⟩, hr, rfl, hs⟩ | ⟨heq, -⟩)
    · exact ⟨⟨a, patterns⟩, (htables patterns).mp hr, rfl, hs⟩
    · exact absurd heq hstyle

namespace Survey

variable {fs : FileSystem} {s : Survey}

/-- **Where the entries of the log come from**: from the listed files that can be read. -/
theorem mem_assets_scan : a ∈ (s.scan fs).assets.toList ↔
    ∃ file ∈ s.viewFiles ++ s.componentFiles, ∃ text, fs.readText file = .ok text ∧
      a ∈ Findings.assets text := by
  have htext : ∀ file text, (fs.readText file).toOption = some text ↔
      fs.readText file = .ok text := by
    intro file text
    cases fs.readText file <;> simp [Except.toOption]
  rw [scan_eq]
  simp only [AssetLog.mem_insertAll, AssetLog.toList_empty, List.not_mem_nil, false_or,
    List.mem_flatMap, texts, List.mem_filterMap, htext]
  constructor
  · rintro ⟨text, ⟨file, hfile, htext⟩, ha⟩
    exact ⟨file, hfile, text, htext, ha⟩
  · rintro ⟨file, hfile, text, htext, ha⟩
    exact ⟨text, ⟨file, hfile, htext⟩, ha⟩

/-- The log of a scan has no entry twice. -/
theorem nodup_assets_scan : (s.scan fs).assets.toList.Nodup := by
  rw [scan_eq]
  exact AssetLog.nodup_insertAll List.nodup_nil _

/-- The tags of a screen come from a listed file that can be read. -/
theorem exists_readText_of_has {screen : Screen} (hscreen : screen ∈ (s.scan fs).screens)
    (hl : screen.findings.imports.has l = true) :
    ∃ file ∈ s.viewFiles, ∃ text, fs.readText file = .ok text ∧
      (Findings.scan s.sampleLimit text).imports.has l = true := by
  rw [scan_eq] at hscreen
  obtain ⟨file, hfile, rfl⟩ := List.mem_map.mp hscreen
  refine ⟨file, hfile, ?_⟩
  change (findingsOf fs s.sampleLimit file).imports.has l = true at hl
  obtain ⟨text, htext, hfound⟩ | hfound := findingsOf_eq_or fs s.sampleLimit file
  · exact ⟨text, htext, hfound ▸ hl⟩
  · rw [hfound] at hl
    cases hl

/-- What a screen is tagged with is in the log of the same scan. -/
theorem mem_assets_scan_of_has (h : l.asset? = some a) {screen : Screen}
    (hscreen : screen ∈ (s.scan fs).screens) (hl : screen.findings.imports.has l = true) :
    a ∈ (s.scan fs).assets.toList := by
  obtain ⟨file, hfile, text, htext, hl⟩ := exists_readText_of_has hscreen hl
  refine mem_assets_scan.mpr ⟨file, List.mem_append_left _ hfile, text, htext, ?_⟩
  exact (Findings.mem_assets_iff_has_libraries h s.sampleLimit text).mpr hl

end Survey

namespace Session

/-- A history with a scan has a last one. -/
theorem exists_last_scan {history : List Event} (h : .scan ∈ history) :
    ∃ before after, history = before ++ .scan :: after ∧ .scan ∉ after := by
  obtain ⟨after, before, heq, hafter⟩ := List.eq_append_cons_of_mem (List.mem_reverse.mpr h)
  refine ⟨before.reverse, after.reverse, ?_, by simpa using hafter⟩
  simpa using congrArg List.reverse heq

/-- **Tags and log after any history**, with any changes of the files between the stages. The log
has no entry twice. If a screen is tagged with a library that has a kind of asset usage, which is
one of the same name, that kind is in the log. Conversely, for every kind of these in the log there
was a last scan, and one of the files that were listed then, of views or of components, could be
read and shows the library. -/
theorem tags_agree_with_log (settings : Settings) (limit : Nat) (fs : FileSystem)
    (history : List Event) (t : Instant) :
    let x := Session.mk fs (.withLimit settings limit)
    let o := (x.run history).overview t
    o.assets.toList.Nodup ∧
    (∀ (l : Library) (a : Asset), l.asset? = some a ↔ Vocabulary.name l = Vocabulary.name a) ∧
    ∀ (l : Library) (a : Asset), l.asset? = some a →
      (∀ screen ∈ o.screens, screen.findings.imports.has l = true → a ∈ o.assets.toList) ∧
      (a ∈ o.assets.toList →
        ∃ before after, history = before ++ .scan :: after ∧ .scan ∉ after ∧
          let atScan := x.run before
          ∃ file ∈ atScan.survey.viewFiles ++ atScan.survey.componentFiles,
            ∃ text, atScan.files.readText file = .ok text ∧
              (Findings.scan limit text).imports.has l = true) := by
  intro x o
  by_cases hscan : .scan ∈ history
  · obtain ⟨before, after, rfl, hafter⟩ := exists_last_scan hscan
    have ho : o = ((x.run before).survey.scan (x.run before).files).build t :=
      overview_run_scan (.refl _) hafter t
    rw [ho]
    refine ⟨Survey.nodup_assets_scan, fun l a => Library.asset?_eq_some_iff,
      fun l a h => ⟨fun screen hscreen hl => ?listed, ?seen⟩⟩
    case listed => exact Survey.mem_assets_scan_of_has h hscreen hl
    case seen =>
      intro ha
      obtain ⟨file, hfile, text, htext, ha⟩ := Survey.mem_assets_scan.mp ha
      refine ⟨before, after, rfl, hafter, file, hfile, text, htext, ?_⟩
      exact (Findings.mem_assets_iff_has_libraries h limit text).mp ha
  · -- Before the first scan there are neither screens nor entries.
    have ho : o = x.overview t := overview_run hscan x t
    rw [ho]
    exact ⟨List.nodup_nil, fun l a => Library.asset?_eq_some_iff,
      fun l a _ => ⟨fun _ hscreen => absurd hscreen List.not_mem_nil,
        fun ha => absurd ha List.not_mem_nil⟩⟩

/-- A project with an import of icons in a screen and one of images in a component. -/
def iconProject : FileSystem :=
  let place (names : List String) : Location :=
    names.filterMap fun name => Name.ofBytes? (Utf8.encode name.toList)
  ⟨[(place ["app"], .directory),
    (place ["a.tsx", "app"], .file (Utf8.encode "from 'lucide-react-native'".toList)),
    (place ["components"], .directory),
    (place ["b.ts", "components"], .file (Utf8.encode "from \"expo-image\"".toList))], []⟩

/-- The overview of that project after the files are gone and were listed again, but not scanned. -/
def iconOverview : Overview :=
  ((Session.mk iconProject (.withLimit .standard 6)).run
    [.collect, .scan, .change .empty, .collect]).overview .epoch

/-- The overview has the tag of the screen and both entries of the log, though no screen is tagged
with one of them. -/
theorem tags_agree_iconProject :
    (∃ screen ∈ iconOverview.screens, screen.findings.imports.has .lucideIcons = true) ∧
      Asset.lucideIcons ∈ iconOverview.assets.toList ∧
      Asset.expoImage ∈ iconOverview.assets.toList ∧
      ∀ screen ∈ iconOverview.screens, screen.findings.imports.has .expoImage = false := by
  have hscreen : ∃ screen ∈ iconOverview.screens,
      screen.findings.imports.has .lucideIcons = true := by decide +kernel
  obtain ⟨-, -, hagree⟩ := tags_agree_with_log .standard 6 iconProject
    [.collect, .scan, .change .empty, .collect] .epoch
  refine ⟨hscreen, ?_, by decide +kernel, by decide +kernel⟩
  obtain ⟨screen, hmem, hlucide⟩ := hscreen
  exact (hagree .lucideIcons .lucideIcons rfl).1 screen hmem hlucide

end Session

end ScreenAtlas
