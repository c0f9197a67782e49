import ScreenAtlas.Proofs.Json.Accepted
import ScreenAtlas.Proofs.Json.Value
import ScreenAtlas.Proofs.Utf8
import ScreenAtlas.Settings.Codec
/-!
# Settings are read as they were written

Settings are written with the text of their root, so a root that is no text is not read back, nor is
a limit beyond 64 bits. Settings that were read have neither.

## Main definitions

* `Settings.Fits` — the settings that have a written form.
* `Settings.Draft.read` — the fields that a text has, and those that it lacks.

## Main statements

* `Settings.readsBack` — they are read as they were written.
* `Settings.decode_eq_ok_iff`, `Settings.Draft.readsBack` — settings are read as the fields that are
  there, whichever of them are missing.
* `Settings.fits_of_read` — settings that were read have a written form.
-/
namespace ScreenAtlas

open Json

variable {l : Layout}

theorem Path.text_ofString (s : String) : (Path.ofString s).text = s := by
  rw [Path.text, Path.ofString, Utf8.decodeLossy_encode, String.ofList_toList]

namespace Settings

/-- The root is a text, and the limits fit 64 bits. -/
structure Fits (s : Settings) : Prop where
  root : ∃ text, s.root = .ofString text
  maxStyleSamples : s.maxStyleSamples < wordLimit
  maxGroupFiles : s.maxGroupFiles < wordLimit

/-- **Settings** are read as they were written. -/
theorem readsBack (hl : l.IsBlank) {s : Settings} (hs : s.Fits) :
    ReadsBack l read s.toJson s := by
  have hroot : ReadsBack l (readStringAs "path string") (.string s.root.text) s.root.text :=
    readsBack_string _ _
  have hviews : ReadsBack l readString (.string s.viewsDir) s.viewsDir := readsBack_string _ _
  have hcomponents : ReadsBack l readString (.string s.componentsDir) s.componentsDir :=
    readsBack_string _ _
  have hstyle := readsBack_number (l := l) hs.maxStyleSamples
  have hgroup := readsBack_number (l := l) hs.maxGroupFiles
  have hfinish : format.finish ⟨some s.root.text, some s.viewsDir, some s.componentsDir,
      some s.maxStyleSamples, some s.maxGroupFiles⟩ = .ok s := by
    -- The only field that is not written as it is: a path is written as its text.
    obtain ⟨text, htext⟩ := hs.root
    have hsame : Path.ofString s.root.text = s.root := by rw [htext, Path.text_ofString]
    exact congrArg (fun root => Except.ok (⟨root, s.viewsDir, s.componentsDir, s.maxStyleSamples,
      s.maxGroupFiles⟩ : Settings)) hsame
  refine Fills.readsBack hl ?_ hfinish
  refine .known rfl rfl (hroot.map fun v => (⟨some v, none, none, none, none⟩ : Draft)) ?_
  refine .known rfl rfl
    (hviews.map fun v => (⟨some s.root.text, some v, none, none, none⟩ : Draft)) ?_
  refine .known rfl rfl
    (hcomponents.map fun v =>
      (⟨some s.root.text, some s.viewsDir, some v, none, none⟩ : Draft)) ?_
  refine .known rfl rfl
    (hstyle.map fun v =>
      (⟨some s.root.text, some s.viewsDir, some s.componentsDir, some v, none⟩ : Draft)) ?_
  exact .known rfl rfl
    (hgroup.map fun v =>
      (⟨some s.root.text, some s.viewsDir, some s.componentsDir, some s.maxStyleSamples,
        some v⟩ : Draft)) .nil

/-! ## Settings that lack fields -/

/-- The fields of settings, without standard values for those that are missing. -/
def Draft.read : Json.Reader Draft :=
  format.drafts.read

/-- **Settings are read** as the fields that are there, and the standard values for the others. -/
theorem decode_eq_ok_iff {s : List Char} {a : Settings} :
    decode read s = .ok a ↔ ∃ d, decode Draft.read s = .ok d ∧ a = ofDraft d := by
  simp only [Json.decode_eq_ok_iff, read, Draft.read, Format.read_eq_ok_iff (f := format)]
  constructor
  · rintro ⟨rest, ⟨d, hread, hfinish⟩, hend⟩
    exact ⟨d, ⟨rest, hread, hend⟩, (Except.ok.inj hfinish).symm⟩
  · rintro ⟨d, ⟨rest, hread, hend⟩, rfl⟩
    exact ⟨rest, ⟨d, hread, rfl⟩, hend⟩

/-- The members of an object for the fields that are there. -/
def Draft.members (d : Draft) : List (String × Json) :=
  d.root.toList.map (fun s => ("root", .string s)) ++
    (d.viewsDir.toList.map (fun s => ("views_dir", .string s)) ++
      (d.componentsDir.toList.map (fun s => ("components_dir", .string s)) ++
        (d.maxStyleSamples.toList.map (fun n => ("max_style_samples", .number n)) ++
          (d.maxGroupFiles.toList.map (fun n => ("max_group_files", .number n)) ++ []))))

/-- The limits that are being read fit 64 bits. -/
structure Draft.Fits (d : Draft) : Prop where
  maxStyleSamples : ∀ n, d.maxStyleSamples = some n → n < wordLimit
  maxGroupFiles : ∀ n, d.maxGroupFiles = some n → n < wordLimit

/-- **Fields of settings** are read as they were written, whichever of them are missing. -/
theorem Draft.readsBack (hl : l.IsBlank) {d : Draft} (hd : d.Fits) :
    ReadsBack l Draft.read (.object d.members) d := by
  obtain ⟨root, views, components, style, group⟩ := d
  refine Fills.readsBack (f := format.drafts) hl ?_ rfl
  refine .ofOption (fun v => (⟨v, none, none, none, none⟩ : Draft)) rfl rfl
    (fun v _ => ?root) ?_
  case root =>
    have hv : ReadsBack l (readStringAs "path string") (.string v) v := readsBack_string _ _
    exact hv.map fun v => (⟨some v, none, none, none, none⟩ : Draft)
  refine .ofOption (fun v => (⟨root, v, none, none, none⟩ : Draft)) rfl rfl
    (fun v _ => ?views) ?_
  case views =>
    have hv : ReadsBack l readString (.string v) v := readsBack_string _ _
    exact hv.map fun v => (⟨root, some v, none, none, none⟩ : Draft)
  refine .ofOption (fun v => (⟨root, views, v, none, none⟩ : Draft)) rfl rfl
    (fun v _ => ?components) ?_
  case components =>
    have hv : ReadsBack l readString (.string v) v := readsBack_string _ _
    exact hv.map fun v => (⟨root, views, some v, none, none⟩ : Draft)
  refine .ofOption (fun n => (⟨root, views, components, n, none⟩ : Draft)) rfl rfl
    (fun n hn => ?style) ?_
  case style =>
    have hv := readsBack_number (l := l) (hd.maxStyleSamples n hn)
    exact hv.map fun n => (⟨root, views, components, some n, none⟩ : Draft)
  refine .ofOption (fun n => (⟨root, views, components, style, n⟩ : Draft)) rfl rfl
    (fun n hn => ?group) .nil
  have hv := readsBack_number (l := l) (hd.maxGroupFiles n hn)
  exact hv.map fun n => (⟨root, views, components, style, some n⟩ : Draft)

theorem keeps_fits : format.Keeps Draft.Fits := by
  refine List.forall_mem_cons.mpr ⟨?root, List.forall_mem_cons.mpr ⟨?views,
    List.forall_mem_cons.mpr ⟨?components, List.forall_mem_cons.mpr ⟨?style,
      List.forall_mem_singleton.mpr ?group⟩⟩⟩⟩
  all_goals
    intro draft draft' s rest h hdraft
    obtain ⟨⟨v, rest'⟩, hv, h⟩ := of_bind_eq_ok h
    obtain ⟨rfl, -⟩ := Prod.mk.inj (Except.ok.inj h)
  case style =>
    refine ⟨fun n hn => ?_, hdraft.maxGroupFiles⟩
    obtain rfl := Option.some.inj hn
    exact lt_wordLimit_of_readNatural hv
  case group =>
    refine ⟨hdraft.maxStyleSamples, fun n hn => ?_⟩
    obtain rfl := Option.some.inj hn
    exact lt_wordLimit_of_readNatural hv
  all_goals exact ⟨hdraft.maxStyleSamples, hdraft.maxGroupFiles⟩

/-- A limit that is missing is the standard one. -/
theorem lt_wordLimit_getD {n? : Option Nat} {n : Nat} (h : ∀ m, n? = some m → m < wordLimit)
    (hn : n < wordLimit) : n?.getD n < wordLimit := by
  cases n? with
  | none => exact hn
  | some m => exact h m rfl

theorem Draft.Fits.ofDraft {d : Draft} (h : d.Fits) : (ofDraft d).Fits where
  root := by
    cases hroot : d.root with
    | none => exact ⟨".", by rw [Settings.ofDraft, hroot]; rfl⟩
    | some text => exact ⟨text, by rw [Settings.ofDraft, hroot]; rfl⟩
  maxStyleSamples := lt_wordLimit_getD h.maxStyleSamples (by decide)
  maxGroupFiles := lt_wordLimit_getD h.maxGroupFiles (by decide)

/-- **Settings that were read** have a written form. -/
theorem fits_of_read {s rest : List Char} {a : Settings} (h : read s = .ok (a, rest)) :
    a.Fits := by
  have hempty : Draft.Fits format.draft := ⟨fun _ h => (nomatch h), fun _ h => (nomatch h)⟩
  obtain ⟨draft, hdraft, hfinish⟩ := Format.exists_of_read keeps_fits hempty h
  obtain rfl := Except.ok.inj hfinish
  exact hdraft.ofDraft

end Settings

end ScreenAtlas
