import ScreenAtlas.Proofs.Path.Relative
import ScreenAtlas.Proofs.Settings.Load
/-!
# Directories apart from the root

Blank directory names are refused because an empty one would lead to the project's root itself. But
so does a name that is made of nothing but slashes and segments `.`, and an absolute one that is
another spelling of the root. These are accepted. All other names that are accepted lead elsewhere.

## Main definitions

* `LeadsBack` — the directory names that lead to the root itself.

## Main statements

* `parts_viewsRoot_eq_iff` — the accepted settings with a directory that is the root itself.
* `not_apart_dotViews` — such settings.
-/
namespace ScreenAtlas.Settings

/-- The directory name leads from the root to the root itself: it is absolute and another spelling
of the root, or it is relative and has nothing but slashes and segments `.`. Nothing leads to the
empty root, because it has no name that is not empty. -/
def LeadsBack (root : Path) (dir : String) : Prop :=
  ((Path.ofString dir).isAbsolute = true ∧ (Path.ofString dir).parts = root.parts) ∨
    ((Path.ofString dir).isAbsolute = false ∧ root.bytes ≠ [] ∧
      ∀ s ∈ dir.toList.splitOn '/', s = [] ∨ s = ['.'])

theorem bytes_ofString_ne_nil {dir : String} (h : ∃ c ∈ dir.toList, Text.isBlank c = false) :
    (Path.ofString dir).bytes ≠ [] := by
  intro hnil
  have hdir : dir.toList = [] := Utf8.encode_injective (hnil.trans (by decide))
  obtain ⟨c, hc, -⟩ := h
  rw [hdir] at hc
  cases hc

/-- The directory of a name that is not empty is the root itself when the name leads back. -/
theorem parts_join_ofString_eq_iff {root : Path} {dir : String}
    (hdir : ∃ c ∈ dir.toList, Text.isBlank c = false) :
    (root.join (.ofString dir)).parts = root.parts ↔ LeadsBack root dir := by
  have hne := bytes_ofString_ne_nil hdir
  have hsplit : (Path.ofString dir).bytes.splitOn Path.slash =
      (dir.toList.splitOn '/').map Utf8.encode := Path.splitOn_encode dir.toList
  unfold LeadsBack
  cases habsolute : (Path.ofString dir).isAbsolute with
  | true => simp [Path.join_of_isAbsolute habsolute]
  | false =>
      by_cases hroot : root.bytes = []
      · simp [Path.join_of_bytes_eq_nil hroot, Path.parts_of_bytes_eq_nil hroot,
          Path.parts_eq_nil_iff, hne, hroot]
      · simp [Path.parts_join_eq_iff hroot habsolute, hsplit, Path.isFiller_encode, hroot]

/-- **The accepted settings with a directory that is the root itself** are those with a name that
leads back. -/
theorem parts_viewsRoot_eq_iff {s : Settings} (h : s.check = .ok ()) :
    (s.viewsRoot.parts = s.root.parts ↔ LeadsBack s.root s.viewsDir) ∧
      (s.componentsRoot.parts = s.root.parts ↔ LeadsBack s.root s.componentsDir) := by
  obtain ⟨hviews, hcomponents⟩ := check_eq_ok_iff.mp h
  exact ⟨parts_join_ofString_eq_iff hviews, parts_join_ofString_eq_iff hcomponents⟩

/-- The standard settings with the root's own directory for the views. -/
def dotViews : Settings :=
  { standard with viewsDir := "." }

/-- The views directory is the root itself, and the components directory is not. -/
theorem parts_viewsRoot_dotViews :
    dotViews.check = .ok () ∧ dotViews.viewsRoot.parts = dotViews.root.parts ∧
      dotViews.componentsRoot.parts ≠ dotViews.root.parts := by
  have hcheck : dotViews.check = .ok () := by decide
  obtain ⟨hviews, hcomponents⟩ := parts_viewsRoot_eq_iff hcheck
  exact ⟨hcheck, hviews.mpr (.inr (by decide +kernel)),
    fun hsame => absurd (hcomponents.mp hsame) (by unfold LeadsBack; decide +kernel)⟩

/-- Settings may be accepted although a directory is the root itself. -/
theorem not_apart_dotViews :
    ¬∀ s : Settings, s.check = .ok () →
      s.viewsRoot.parts ≠ s.root.parts ∧ s.componentsRoot.parts ≠ s.root.parts := by
  intro h
  exact (h dotViews (by decide)).1 (by decide +kernel)

end ScreenAtlas.Settings
