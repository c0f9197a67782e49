import ScreenAtlas.Proofs.Codec.Settings
import ScreenAtlas.Settings.Load
/-!
# When settings are accepted

Settings are accepted when both directory names are more than blanks. A settings file can be used
when it can be read as text, decoded, and checked, one after the other.

## Main definitions

* `HasNames` — settings with two directory names that are not blank.

## Main statements

* `check_eq_ok_iff` — the settings that are accepted.
* `load_eq_ok_iff` — the settings files that can be used.
-/
namespace ScreenAtlas

/-! ## Steps that may fail -/

/-- Another name for a failure changes no success. -/
theorem mapError_eq_ok_iff {ε ε' α : Type} {x : Except ε α} {f : ε → ε'} {a : α} :
    x.mapError f = .ok a ↔ x = .ok a := by
  cases x <;> simp [Except.mapError]

/-- Two steps succeed when the second one does with what the first one gave. -/
theorem bind_eq_ok_iff {ε α β : Type} {x : Except ε α} {f : α → Except ε β} {b : β} :
    x >>= f = .ok b ↔ ∃ a, x = .ok a ∧ f a = .ok b := by
  refine ⟨Json.of_bind_eq_ok, ?_⟩
  rintro ⟨a, rfl, h⟩
  exact h

/-! ## Settings and settings files -/

namespace Settings

/-- Both directory names have a character that is not blank. -/
structure HasNames (s : Settings) : Prop where
  viewsDir : ∃ c ∈ s.viewsDir.toList, Text.isBlank c = false
  componentsDir : ∃ c ∈ s.componentsDir.toList, Text.isBlank c = false

theorem isAllBlank_iff {s : List Char} :
    Text.isAllBlank s = true ↔ ∀ c ∈ s, Text.isBlank c = true :=
  List.all_eq_true

theorem isAllBlank_eq_false_iff {s : List Char} :
    Text.isAllBlank s = false ↔ ∃ c ∈ s, Text.isBlank c = false := by
  simp [Text.isAllBlank]

/-- **Settings are accepted** when both directory names are more than blanks. -/
theorem check_eq_ok_iff {s : Settings} : s.check = .ok () ↔ s.HasNames := by
  have hnames : s.HasNames ↔ Text.isAllBlank s.viewsDir.toList = false ∧
      Text.isAllBlank s.componentsDir.toList = false := by
    simp only [isAllBlank_eq_false_iff]
    exact ⟨fun h => ⟨h.1, h.2⟩, fun h => ⟨h.1, h.2⟩⟩
  rw [hnames, check]
  cases Text.isAllBlank s.viewsDir.toList <;> cases Text.isAllBlank s.componentsDir.toList <;> simp

/-- **A settings file can be used** when it can be read as fields of settings that are accepted. -/
theorem load_eq_ok_iff {fs : FileSystem} {file : Path} {s : Settings} :
    load fs file = .ok s ↔ ∃ text d, fs.readText file = .ok text ∧
      Json.decode Draft.read text = .ok d ∧ (ofDraft d).HasNames ∧ s = ofDraft d := by
  unfold load
  simp only [bind_eq_ok_iff, mapError_eq_ok_iff, decode_eq_ok_iff]
  constructor
  · rintro ⟨text, htext, _, ⟨d, hd, rfl⟩, ⟨⟩, hcheck, hs⟩
    exact ⟨text, d, htext, hd, check_eq_ok_iff.mp hcheck, (Except.ok.inj hs).symm⟩
  · rintro ⟨text, d, htext, hd, hnames, rfl⟩
    exact ⟨text, htext, _, ⟨d, hd, rfl⟩, (), check_eq_ok_iff.mpr hnames, rfl⟩

end Settings

end ScreenAtlas
