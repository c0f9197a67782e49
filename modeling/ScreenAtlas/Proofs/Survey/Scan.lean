import ScreenAtlas.Proofs.AssetLog
import ScreenAtlas.Proofs.FileSystem.Resolve
import ScreenAtlas.Survey
/-!
# What a scan finds

A scan reads the listed files one after the other and keeps one survey for all of them. What it
finds is nevertheless determined file by file: each file of the views directory gives the screen
that it would give alone, and only the asset log gathers something from all files.

## Main definitions

* `findingsOf`, `screenOf` — what a single file gives.
* `texts` — the texts of the files that can be read.
* `SameLists` — two surveys that a scan cannot tell apart.

## Main statements

* `scan_eq` — a scan in one equation.
* `scan_file_by_file` — screens, groups and assets of a scan, and what each of them depends on.
-/
namespace ScreenAtlas.Survey

variable (fs : FileSystem)

/-- The findings in one file; a file that cannot be read has blank findings. -/
def findingsOf (limit : Nat) (file : Path) : Findings :=
  match fs.readText file with
  | .ok text => .scan limit text
  | .error _ => .blank

theorem findingsOf_eq_or (limit : Nat) (file : Path) :
    (∃ text, fs.readText file = .ok text ∧ findingsOf fs limit file = .scan limit text) ∨
      findingsOf fs limit file = .blank := by
  unfold findingsOf
  split
  · next text htext => exact .inl ⟨text, htext, rfl⟩
  · exact .inr rfl

/-- The screen of one file of the views directory. -/
def screenOf (s : Survey) (file : Path) : Screen :=
  ⟨.derive file s.settings.viewsRoot, findingsOf fs s.sampleLimit file⟩

/-- The texts of the files that can be read, in the order of the files. -/
def texts (files : List Path) : List (List Char) :=
  files.filterMap fun file => (fs.readText file).toOption

theorem texts_append (files more : List Path) :
    texts fs (files ++ more) = texts fs files ++ texts fs more :=
  List.filterMap_append

theorem texts_cons (file : Path) (files : List Path) :
    texts fs (file :: files) = texts fs [file] ++ texts fs files :=
  texts_append fs [file] files

/-! ## One file -/

/-- Reading a file of the views directory adds its own screen and enters its own assets. -/
theorem scanView_eq (s : Survey) (file : Path) :
    scanView fs s file =
      { s with
        screens := s.screens ++ [screenOf fs s file]
        assets := s.assets.insertAll ((texts fs [file]).flatMap Findings.assets) } := by
  cases h : fs.readText file <;> simp [scanView, screenOf, findingsOf, texts, Except.toOption, h]

/-- Reading a file of the components directory enters its own assets. -/
theorem scanComponent_eq (s : Survey) (file : Path) :
    scanComponent fs s file =
      { s with assets := s.assets.insertAll ((texts fs [file]).flatMap Findings.assets) } := by
  cases h : fs.readText file <;> simp [scanComponent, texts, Except.toOption, h]

/-! ## All files -/

/-- The loop over the views directory, from any survey. -/
theorem foldl_scanView (files : List Path) (s : Survey) :
    files.foldl (scanView fs) s =
      { s with
        screens := s.screens ++ files.map (screenOf fs s)
        assets := s.assets.insertAll ((texts fs files).flatMap Findings.assets) } := by
  induction files generalizing s with
  | nil => simp [texts]
  | cons file files ih =>
      have hscreen : screenOf fs (scanView fs s file) = screenOf fs s := by
        rw [scanView_eq]
        rfl
      rw [List.foldl_cons, ih, hscreen, scanView_eq, texts_cons fs file files,
        List.flatMap_append, AssetLog.insertAll_append]
      simp

/-- The loop over the components directory, from any survey. -/
theorem foldl_scanComponent (files : List Path) (s : Survey) :
    files.foldl (scanComponent fs) s =
      { s with assets := s.assets.insertAll ((texts fs files).flatMap Findings.assets) } := by
  induction files generalizing s with
  | nil => simp [texts]
  | cons file files ih =>
      rw [List.foldl_cons, ih, scanComponent_eq, texts_cons fs file files, List.flatMap_append,
        AssetLog.insertAll_append]

/-- **A scan in one equation.** Neither the screens nor the groups nor the assets that the survey
had before occur in it. -/
theorem scan_eq (s : Survey) :
    s.scan fs =
      { s with
        screens := s.viewFiles.map (screenOf fs s)
        groups := Group.ofFiles s.componentFiles s.settings.componentsRoot
        assets := AssetLog.empty.insertAll
          ((texts fs (s.viewFiles ++ s.componentFiles)).flatMap Findings.assets) } := by
  have hscreen : screenOf fs { s with screens := [], assets := .empty } = screenOf fs s := rfl
  simp only [scan, foldl_scanView, foldl_scanComponent, hscreen, List.nil_append, texts_append,
    List.flatMap_append, AssetLog.insertAll_append]

/-! ## What a scan depends on -/

/-- Two surveys with the same settings and the same listed files. -/
structure SameLists (s s' : Survey) : Prop where
  settings : s.settings = s'.settings
  sampleLimit : s.sampleLimit = s'.sampleLimit
  viewFiles : s.viewFiles = s'.viewFiles
  componentFiles : s.componentFiles = s'.componentFiles

namespace SameLists

variable {s s' s'' : Survey}

protected theorem refl (s : Survey) : SameLists s s := ⟨rfl, rfl, rfl, rfl⟩

protected theorem trans (h : SameLists s s') (h' : SameLists s' s'') : SameLists s s'' :=
  ⟨h.settings.trans h'.settings, h.sampleLimit.trans h'.sampleLimit,
    h.viewFiles.trans h'.viewFiles, h.componentFiles.trans h'.componentFiles⟩

end SameLists

/-- A scan leaves the lists that it works on. -/
theorem sameLists_scan (s : Survey) : SameLists s (s.scan fs) := by
  rw [scan_eq]
  exact ⟨rfl, rfl, rfl, rfl⟩

/-- A scan forgets everything but the settings and the listed files. -/
theorem scan_eq_of_sameLists {s s' : Survey} (h : SameLists s s') : s.scan fs = s'.scan fs := by
  obtain ⟨hset, hlim, hview, hcomp⟩ := h
  have hscreen : screenOf fs s = screenOf fs s' := by
    funext file
    rw [screenOf, screenOf, hset, hlim]
  rw [scan_eq, scan_eq, hscreen, hset, hlim, hview, hcomp]

/-- The findings in a file are determined by what can be read. -/
theorem findingsOf_congr {fs fs' : FileSystem} (limit : Nat) {file : Path}
    (h : (fs'.readText file).toOption = (fs.readText file).toOption) :
    findingsOf fs' limit file = findingsOf fs limit file := by
  have hread (fs : FileSystem) : findingsOf fs limit file =
      ((fs.readText file).toOption.map (Findings.scan limit)).getD .blank := by
    rw [findingsOf]
    cases fs.readText file <;> rfl
  rw [hread, hread, h]

/-- The screen in one place of the list depends on the file in that place only. -/
theorem scan_screens_getElem? {fs fs' : FileSystem} (s : Survey) {i : Nat} {file : Path}
    (hi : s.viewFiles[i]? = some file)
    (h : (fs'.readText file).toOption = (fs.readText file).toOption) :
    (s.scan fs').screens[i]? = (s.scan fs).screens[i]? := by
  simp only [scan_eq, List.getElem?_map, hi, Option.map_some, screenOf, findingsOf_congr _ h]

/-- **A scan works file by file.** Every file of the views directory has one screen, in the order of
the files, with the route of its path and with the findings in its text, blank if it cannot be read.
The groups hold all files of the components directory, readable or not. The assets are the first
occurrences of those in the readable texts, the views first. A file can be read when its path leads
to a regular file with well-formed content. Another file system changes no route and no group, and
no screen whose own file reads as before; in particular, a file that gets other content or
disappears changes no other file's screen. New content put in the place of a file is such a
change. -/
theorem scan_file_by_file (s : Survey) :
    (s.scan fs).screens = s.viewFiles.map (fun file =>
      ⟨.derive file s.settings.viewsRoot, findingsOf fs s.sampleLimit file⟩) ∧
    (s.scan fs).groups = Group.ofFiles s.componentFiles s.settings.componentsRoot ∧
    (s.scan fs).assets.toList =
      ((texts fs s.viewFiles ++ texts fs s.componentFiles).flatMap Findings.assets).eraseDups ∧
    (∀ file text, fs.readText file = .ok text ↔
      ∃ l, fs.stat file = .ok (l, .file (Utf8.encode text))) ∧
    (∀ fs', (s.scan fs').screens.map (·.route) = (s.scan fs).screens.map (·.route) ∧
      (s.scan fs').groups = (s.scan fs).groups ∧
      ∀ (i : Nat) (file : Path), s.viewFiles[i]? = some file →
        (fs'.readText file).toOption = (fs.readText file).toOption →
        (s.scan fs').screens[i]? = (s.scan fs).screens[i]?) ∧
    (∀ fs' l, fs.FileChanged fs' l → ∀ (i : Nat) (file : Path), s.viewFiles[i]? = some file →
      (∀ n, fs.stat file ≠ .ok (l, n)) →
      (s.scan fs').screens[i]? = (s.scan fs).screens[i]?) ∧
    ∀ l old new, fs.node? l = some (.file old) → fs.FileChanged (fs.insert l (.file new)) l := by
  refine ⟨?screens, ?groups, ?assets, fun _ _ => FileSystem.readText_eq_ok_iff, ?other, ?changed,
    fun l old new hfile => FileSystem.fileChanged_insert hfile new⟩
  case screens =>
    rw [scan_eq]
    rfl
  case groups => rw [scan_eq]
  case assets =>
    rw [scan_eq, ← texts_append]
    exact AssetLog.toList_insertAll_empty _
  case other =>
    intro fs'
    refine ⟨?_, ?_, fun i file hi h => scan_screens_getElem? s hi h⟩
    · simp [scan_eq, screenOf]
    · rw [scan_eq, scan_eq]
  case changed =>
    intro fs' l hchanged i file hi hfile
    exact scan_screens_getElem? s hi (FileSystem.readText_of_fileChanged hchanged hfile)

end ScreenAtlas.Survey
