import ScreenAtlas.Proofs.FileSystem.Resolve
import ScreenAtlas.Proofs.Json.Slots
import ScreenAtlas.Proofs.Settings.Load
/-!
# Settings files

A settings file is an object with any of the five fields, in any order and among any other members.
It is read as the values that are given, and the standard values for the fields that are missing,
and then checked. Whatever fails first is reported: the file, its JSON, or the directory names.

## Main definitions

* `Draft.GivenBy` — the fields that the members of an object give.

## Main statements

* `load_stages` — what is loaded from a file that holds an object, and what is told of others.
* `load_loneUnit_minusZero` — two objects that cannot be loaded.
-/
namespace ScreenAtlas

open Json

namespace Settings

/-! ## Fields -/

/-- The places of the five fields. -/
def slots : List (Slot Draft) :=
  [⟨"root", String, (·.root), fun d v => { d with root := some v }, readStringAs "path string",
      fun _ _ => rfl⟩,
    ⟨"views_dir", String, (·.viewsDir), fun d v => { d with viewsDir := some v }, readString,
      fun _ _ => rfl⟩,
    ⟨"components_dir", String, (·.componentsDir), fun d v => { d with componentsDir := some v },
      readString, fun _ _ => rfl⟩,
    ⟨"max_style_samples", Nat, (·.maxStyleSamples), fun d v => { d with maxStyleSamples := some v },
      readNatural, fun _ _ => rfl⟩,
    ⟨"max_group_files", Nat, (·.maxGroupFiles), fun d v => { d with maxGroupFiles := some v },
      readNatural, fun _ _ => rfl⟩]

theorem hasSlots : format.HasSlots slots where
  fields_eq := rfl
  apart := by
    simp only [slots, List.pairwise_cons, List.forall_mem_cons, List.not_mem_nil, false_imp_iff,
      implies_true, and_true, List.Pairwise.nil]
    refine ⟨⟨?_, ?_, ?_, ?_⟩, ⟨?_, ?_, ?_⟩, ⟨?_, ?_⟩, ?_⟩
    all_goals exact ⟨by decide, fun _ _ => rfl, fun _ _ => rfl⟩
  ext d d' h := by
    simp only [slots, List.forall_mem_cons] at h
    obtain ⟨hroot, hviews, hcomponents, hstyle, hgroup, -⟩ := h
    obtain ⟨root, views, components, style, group⟩ := d
    obtain ⟨root', views', components', style', group'⟩ := d'
    rw [Draft.mk.injEq]
    exact ⟨hroot, hviews, hcomponents, hstyle, hgroup⟩

/-- The members of an object give the fields their values. A field is missing when no member has
its key, and no two members have it. Other members may have any values. -/
structure Draft.GivenBy (d : Draft) (members : List (String × List Char)) : Prop where
  root : Gives IsStringText "root" members d.root
  viewsDir : Gives IsStringText "views_dir" members d.viewsDir
  componentsDir : Gives IsStringText "components_dir" members d.componentsDir
  maxStyleSamples : Gives IsNaturalText "max_style_samples" members d.maxStyleSamples
  maxGroupFiles : Gives IsNaturalText "max_group_files" members d.maxGroupFiles

/-- **Settings are read from any object** that gives their fields. -/
theorem Draft.GivenBy.decode_eq {d : Draft} {text : List Char}
    {spelled : List (List Char × List Char)} {members : List (String × List Char)}
    (h : IsObject text spelled) (hnamed : Named spelled members) (hd : d.GivenBy members) :
    decode Settings.read text = .ok (ofDraft d) := by
  refine hasSlots.decode_object h hnamed ?free ?gives rfl
  case free =>
    simp [slots, format]
  case gives =>
    simp only [slots, List.forall_mem_cons]
    exact ⟨hd.root.imp fun _ _ h => h.takes _, hd.viewsDir.imp fun _ _ h => h.takes _,
      hd.componentsDir.imp fun _ _ h => h.takes _, hd.maxStyleSamples.imp fun _ _ h => h.takes,
      hd.maxGroupFiles.imp fun _ _ h => h.takes, List.forall_mem_nil _⟩

/-! ## Files -/

section
variable {fs : FileSystem} {file : Path} {text : List Char} {s : Settings}

/-- Settings that were read are loaded if they are accepted. -/
theorem load_of_decode (htext : fs.readText file = .ok text)
    (hdecode : decode Settings.read text = .ok s) :
    load fs file = (s.check.mapError .settings).map fun _ => s := by
  simp only [load, htext, hdecode, Except.mapError, bind, Except.bind]
  cases s.check <;> rfl

theorem load_of_blankViewsDir (htext : fs.readText file = .ok text)
    (hdecode : decode Settings.read text = .ok s)
    (hviews : ∀ c ∈ s.viewsDir.toList, Text.isBlank c = true) :
    load fs file = .error (.settings .blankViewsDir) := by
  have hcheck : s.check = .error .blankViewsDir := by
    rw [check, if_pos (isAllBlank_iff.mpr hviews)]
  rw [load_of_decode htext hdecode, hcheck]
  rfl

theorem load_of_blankComponentsDir (htext : fs.readText file = .ok text)
    (hdecode : decode Settings.read text = .ok s)
    (hviews : ∃ c ∈ s.viewsDir.toList, Text.isBlank c = false)
    (hcomponents : ∀ c ∈ s.componentsDir.toList, Text.isBlank c = true) :
    load fs file = .error (.settings .blankComponentsDir) := by
  have hcheck : s.check = .error .blankComponentsDir := by
    rw [check, if_neg (by rw [isAllBlank_eq_false_iff.mpr hviews]; decide),
      if_pos (isAllBlank_iff.mpr hcomponents)]
  rw [load_of_decode htext hdecode, hcheck]
  rfl

theorem load_of_readText_error {fault : IoFault} (h : fs.readText file = .error fault) :
    load fs file = .error (.io fault) := by
  rw [load, h]
  rfl

theorem load_of_decode_error {fault : Json.Fault} (htext : fs.readText file = .ok text)
    (hdecode : decode Settings.read text = .error fault) :
    load fs file = .error (.json fault) := by
  rw [load, htext]
  change ((decode Settings.read text).mapError Failure.json >>= _) = _
  rw [hdecode]
  rfl

end

/-- **Loading a settings file.** From an object it gives the fields that are there, with standard
values for the others, unless a directory name is blank. What is loaded has been accepted. A file
that cannot be read as text and a text that cannot be decoded are told before that. -/
theorem load_stages (fs : FileSystem) (file : Path) :
    (∀ l text spelled members d, fs.stat file = .ok (l, .file (Utf8.encode text)) →
      IsObject text spelled → Named spelled members → Draft.GivenBy d members →
      let s : Settings :=
        { root := .ofString (d.root.getD ".")
          viewsDir := d.viewsDir.getD "app"
          componentsDir := d.componentsDir.getD "components"
          maxStyleSamples := d.maxStyleSamples.getD 6
          maxGroupFiles := d.maxGroupFiles.getD 8 }
      (s.HasNames → load fs file = .ok s) ∧
      ((∀ c ∈ s.viewsDir.toList, Text.isBlank c = true) →
        ∃ fault, load fs file = .error (.settings fault) ∧
          fault.message = "views_dir must not be empty") ∧
      ((∃ c ∈ s.viewsDir.toList, Text.isBlank c = false) →
        (∀ c ∈ s.componentsDir.toList, Text.isBlank c = true) →
        ∃ fault, load fs file = .error (.settings fault) ∧
          fault.message = "components_dir must not be empty")) ∧
    (∀ s, load fs file = .ok s → s.check = .ok ()) ∧
    (∀ fault, fs.readText file = .error fault → load fs file = .error (.io fault)) ∧
    (∀ l bytes, fs.stat file = .ok (l, .file bytes) → (∀ text, bytes ≠ Utf8.encode text) →
      load fs file = .error (.io .notText)) ∧
    (∀ text fault, fs.readText file = .ok text → decode Settings.read text = .error fault →
      load fs file = .error (.json fault)) := by
  refine ⟨?object, ?accepted, fun _ => load_of_readText_error, ?notText,
    fun _ _ => load_of_decode_error⟩
  case object =>
    intro l text spelled members d hstat hobject hnamed hgiven s
    have htext := FileSystem.readText_eq_ok_iff.mpr ⟨l, hstat⟩
    have hdecode : decode Settings.read text = .ok s := by
      have hs : ofDraft d = s := by
        obtain ⟨root, views, components, style, group⟩ := d
        cases root <;> rfl
      rw [← hs]
      exact hgiven.decode_eq hobject hnamed
    refine ⟨fun hnames => ?_, fun hviews => ?_, fun hviews hcomponents => ?_⟩
    · rw [load_of_decode htext hdecode, check_eq_ok_iff.mpr hnames]
      rfl
    · exact ⟨_, load_of_blankViewsDir htext hdecode hviews, rfl⟩
    · exact ⟨_, load_of_blankComponentsDir htext hdecode hviews hcomponents, rfl⟩
  case accepted =>
    intro s h
    obtain ⟨text, d, -, -, hnames, rfl⟩ := load_eq_ok_iff.mp h
    exact check_eq_ok_iff.mpr hnames
  case notText =>
    intro l bytes hstat hbytes
    have hdecode : Utf8.decode? bytes = none :=
      Option.eq_none_iff_forall_ne_some.mpr fun text htext =>
        hbytes text (Utf8.decode?_eq_some_iff.mp htext)
    refine load_of_readText_error ?_
    simp only [FileSystem.readText, hstat, hdecode, bind, Except.bind]

/-- A settings file with an unknown member, an escape in a key, and blanks. -/
def pagesFile : List Char :=
  ("\x7b \"extra\": \x7b\"deep\": [null, -1.5e3]\x7d," ++
    " \"\\u0076iews_dir\": \"pages\", \"max_group_files\": 12 \x7d\n").toList

/-- The keys of the file and the texts of their values. -/
def pagesMembers : List (String × List Char) :=
  [("extra", "\x7b\"deep\": [null, -1.5e3]\x7d".toList), ("views_dir", "\"pages\"".toList),
    ("max_group_files", "12".toList)]

theorem isObject_pagesFile : ∃ spelled, IsObject pagesFile spelled ∧ Named spelled pagesMembers := by
  have hspace : IsBlank [' '] := isBlank_replicate 1 (by decide)
  have hcolon : IsColon [':', ' '] := .intro isBlank_nil hspace
  have hcomma : Lead false [',', ' '] := .later isBlank_nil hspace
  have hextra : StandsFor "extra".toList "extra".toList := standsFor_self (by decide)
  have hdeep : StandsFor "deep".toList "deep".toList := standsFor_self (by decide)
  have hpages : StandsFor "pages".toList "pages".toList := standsFor_self (by decide)
  have hunit : IsUnit "0076".toList (((0 * 16 + 0) * 16 + 7) * 16 + 6) :=
    .intro (by decide) (by decide) (by decide) (by decide)
  have hrest : StandsFor "iews_dir".toList "iews_dir".toList := standsFor_self (by decide)
  have hviews : StandsFor "\\u0076iews_dir".toList "views_dir".toList :=
    .unit hunit (by decide) hrest
  have hfiles : StandsFor "max_group_files".toList "max_group_files".toList :=
    standsFor_self (by decide)
  have hdigit : ∀ c : Char, c.isDigit = true → IsDigits [c] := fun c hc =>
    ⟨List.cons_ne_nil c [], List.forall_mem_singleton.mpr hc⟩
  have hnumber : IsNumber "-1.5e3".toList ⟨true, ['1'], ['5'], some (false, ['3'])⟩ :=
    .intro .minus ⟨hdigit '1' rfl, by decide⟩ (.given (hdigit '5' rfl))
      (.given (.inl rfl) .missing (hdigit '3' rfl))
  have hvalue : IsValue "\x7b\"deep\": [null, -1.5e3]\x7d".toList :=
    .object (.member (.first isBlank_nil) hdeep.isInside hcolon
      (.array (.element (.first isBlank_nil) .null (.element hcomma (.number hnumber)
        (.close isBlank_nil)))) (.close isBlank_nil))
  exact ⟨_, .intro isBlank_nil (.member (.first hspace) hextra.isInside hcolon hvalue
    (.member hcomma hviews.isInside hcolon (.string hpages.isInside)
      (.member hcomma hfiles.isInside hcolon (.number (isNumber_toDigits 12)) (.close hspace))))
    (isBlank_replicate 1 (by decide)),
    .cons ⟨hextra, rfl⟩ (.cons ⟨hviews, rfl⟩ (.cons ⟨hfiles, rfl⟩ .nil))⟩

/-- The fields that the file gives. -/
def pagesDraft : Draft :=
  ⟨none, some "pages", none, none, some 12⟩

theorem givenBy_pagesDraft : pagesDraft.GivenBy pagesMembers where
  root := .nil
  viewsDir := .cons ⟨"pages".toList, rfl, standsFor_self (by decide)⟩ .nil
  componentsDir := .nil
  maxStyleSamples := .nil
  maxGroupFiles := .cons ⟨by decide, by decide⟩ .nil

/-- A file with one member. -/
def oneMember (key value : List Char) : List Char :=
  '\x7b' :: (quote key ++ ':' :: (value ++ ['\x7d']))

theorem isObject_oneMember {key value : List Char} (hkey : IsInside key) (hvalue : IsValue value) :
    IsObject (oneMember key value) [(key, value)] := by
  have hmembers : IsMembers true (quote key ++ ':' :: (value ++ ['\x7d'])) [(key, value)] :=
    .member (.first isBlank_nil) hkey (.intro isBlank_nil isBlank_nil) hvalue (.close isBlank_nil)
  have hobject := IsObject.intro isBlank_nil hmembers isBlank_nil
  rwa [List.append_nil, List.nil_append] at hobject

/-- A key that is the first unit of a pair alone. -/
def loneUnit : List Char :=
  "\\ud800".toList

/-- Settings files of all kinds. -/
def settingsFiles : FileSystem :=
  let place (name : String) : Location := (Name.ofBytes? (Utf8.encode name.toList)).toList
  let file (name : String) (text : List Char) := (place name, Node.file (Utf8.encode text))
  ⟨[file "pages" pagesFile,
    file "views" (oneMember "views_dir".toList (quote [' '])),
    file "components" (oneMember "components_dir".toList (quote [' '])),
    (place "bytes", .file [0xFF]),
    file "unclosed" ['\x7b'],
    file "lone" (oneMember loneUnit ['0']),
    file "minus" (oneMember "max_group_files".toList ['-', '0'])], []⟩

/-- One of them can be used. Of others it is told what is wrong. -/
theorem load_settingsFiles :
    load settingsFiles (.ofString "pages") = .ok ⟨.ofString ".", "pages", "components", 6, 12⟩ ∧
      (∃ fault, load settingsFiles (.ofString "views") = .error (.settings fault) ∧
        fault.message = "views_dir must not be empty") ∧
      (∃ fault, load settingsFiles (.ofString "components") = .error (.settings fault) ∧
        fault.message = "components_dir must not be empty") ∧
      check ⟨.ofString ".", "pages", "components", 6, 12⟩ = .ok () ∧
      load settingsFiles (.ofString "absent") = .error (.io .notFound) ∧
      load settingsFiles (.ofString "bytes") = .error (.io .notText) ∧
      load settingsFiles (.ofString "unclosed") = .error (.json .endInObject) := by
  have hstat : ∀ (name : String) (text : List Char),
      settingsFiles.readText (.ofString name) = .ok text →
        ∃ l, settingsFiles.stat (.ofString name) = .ok (l, .file (Utf8.encode text)) :=
    fun _ _ h => FileSystem.readText_eq_ok_iff.mp h
  have hblank : StandsFor [' '] " ".toList := standsFor_self (by decide)
  have hpages : load settingsFiles (.ofString "pages") =
      .ok ⟨.ofString ".", "pages", "components", 6, 12⟩ := by
    obtain ⟨l, hfile⟩ := hstat "pages" pagesFile (by decide +kernel)
    obtain ⟨spelled, hobject, hnamed⟩ := isObject_pagesFile
    obtain ⟨hload, -⟩ := (load_stages settingsFiles _).1 l _ _ _ _ hfile hobject hnamed
      givenBy_pagesDraft
    exact hload (check_eq_ok_iff.mp (by decide))
  refine ⟨hpages, ?views, ?components, (load_stages settingsFiles _).2.1 _ hpages, ?absent, ?bytes,
    ?unclosed⟩
  case views =>
    obtain ⟨l, hfile⟩ := hstat "views" (oneMember "views_dir".toList (quote [' ']))
      (by decide +kernel)
    have hkey : StandsFor "views_dir".toList "views_dir".toList := standsFor_self (by decide)
    have hgiven : Draft.GivenBy ⟨none, some " ", none, none, none⟩ [("views_dir", quote [' '])] :=
      ⟨.nil, .cons ⟨[' '], rfl, hblank⟩ .nil, .nil, .nil, .nil⟩
    exact ((load_stages settingsFiles _).1 l _ _ _ _ hfile
      (isObject_oneMember hkey.isInside (.string hblank.isInside)) (.cons ⟨hkey, rfl⟩ .nil)
      hgiven).2.1 (isAllBlank_iff.mp (by decide))
  case components =>
    obtain ⟨l, hfile⟩ := hstat "components" (oneMember "components_dir".toList (quote [' ']))
      (by decide +kernel)
    have hkey : StandsFor "components_dir".toList "components_dir".toList :=
      standsFor_self (by decide)
    have hgiven : Draft.GivenBy ⟨none, none, some " ", none, none⟩
        [("components_dir", quote [' '])] :=
      ⟨.nil, .nil, .cons ⟨[' '], rfl, hblank⟩ .nil, .nil, .nil⟩
    exact ((load_stages settingsFiles _).1 l _ _ _ _ hfile
      (isObject_oneMember hkey.isInside (.string hblank.isInside)) (.cons ⟨hkey, rfl⟩ .nil)
      hgiven).2.2 (isAllBlank_eq_false_iff.mp (by decide))
      (isAllBlank_iff.mp (by decide))
  case absent =>
    exact (load_stages settingsFiles _).2.2.1 _ (by decide +kernel)
  case bytes =>
    have hbytes : ∀ text, [0xFF] ≠ Utf8.encode text := by
      intro text htext
      have hdecode := Utf8.decode?_eq_some_iff.mpr htext
      cases hdecode.symm.trans (rfl : Utf8.decode? [0xFF] = none)
    have hfile : settingsFiles.stat (.ofString "bytes") =
        .ok ([⟨Utf8.encode "bytes".toList, by decide⟩], .file [0xFF]) := by
      decide +kernel
    exact (load_stages settingsFiles _).2.2.2.1 _ _ hfile hbytes
  case unclosed =>
    exact (load_stages settingsFiles _).2.2.2.2 ['\x7b'] _ (by decide +kernel) rfl

/-- Two objects that are not loaded: one has no member but an unknown one whose key stands for no
characters, and the other has minus zero for a limit. -/
theorem load_loneUnit_minusZero :
    (IsObject (oneMember loneUnit ['0']) [(loneUnit, ['0'])] ∧
      (∀ s, ¬ StandsFor loneUnit s) ∧
      settingsFiles.readText (.ofString "lone") = .ok (oneMember loneUnit ['0']) ∧
      load settingsFiles (.ofString "lone") = .error (.json .unfinishedPair)) ∧
    (IsObject (oneMember "max_group_files".toList ['-', '0'])
        [("max_group_files".toList, ['-', '0'])] ∧
      IsNumber ['-', '0'] ⟨true, ['0'], [], none⟩ ∧
      settingsFiles.readText (.ofString "minus") =
        .ok (oneMember "max_group_files".toList ['-', '0']) ∧
      ∀ s, load settingsFiles (.ofString "minus") ≠ .ok s) := by
  have hzero : IsDigits ['0'] := ⟨List.cons_ne_nil '0' [], List.forall_mem_singleton.mpr rfl⟩
  have hminus : IsNumber ['-', '0'] ⟨true, ['0'], [], none⟩ :=
    .intro .minus ⟨hzero, fun _ => rfl⟩ .missing .missing
  have hlone : settingsFiles.readText (.ofString "lone") = .ok (oneMember loneUnit ['0']) := by
    decide +kernel
  have hfile : settingsFiles.readText (.ofString "minus") =
      .ok (oneMember "max_group_files".toList ['-', '0']) := by
    decide +kernel
  refine ⟨⟨?object, ?unnamed, hlone, load_of_decode_error hlone rfl⟩, ?object', hminus, hfile,
    ?refused⟩
  case object =>
    have hunit : IsUnit "d800".toList (((13 * 16 + 8) * 16 + 0) * 16 + 0) :=
      .intro (by decide) (by decide) (by decide) (by decide)
    exact isObject_oneMember (.unit hunit .nil) (.number (isNumber_toDigits 0))
  case unnamed =>
    intro s hs
    have hread := hs.isQuoted.read []
    cases hread.symm.trans (rfl : readChars _ = .error .unfinishedPair)
  case object' =>
    exact isObject_oneMember (standsFor_self (by decide)).isInside (.number hminus)
  case refused =>
    intro s hload
    obtain ⟨text, d, htext, h, -⟩ := load_eq_ok_iff.mp hload
    obtain rfl := Except.ok.inj (hfile.symm.trans htext)
    -- The only member has a known key, so its value is read as a natural number.
    obtain ⟨_, h, -⟩ := of_bind_eq_ok h
    obtain ⟨_, h, -⟩ := of_bind_eq_ok h
    obtain ⟨_, hnext, h⟩ := of_bind_eq_ok h
    cases hnext
    obtain ⟨_, hkey, h⟩ := of_bind_eq_ok h
    cases hkey
    obtain ⟨_, hcolon, h⟩ := of_bind_eq_ok h
    cases hcolon
    obtain ⟨_, h, -⟩ := of_bind_eq_ok h
    obtain ⟨r, h, -⟩ := of_bind_eq_ok h
    exact hminus.readNatural_ne_ok rfl (ends_cons (by decide) []) r h

end Settings

end ScreenAtlas
