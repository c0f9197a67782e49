import Mathlib.Data.List.TakeWhile
import ScreenAtlas.Proofs.Path.Below
import ScreenAtlas.Proofs.Utf8
/-!
# The extension of a file name

The extension is what follows the last full stop of a name, and a full stop at the front of the
name opens none. A path is that of a source file exactly when its last name is a stem, a full stop
and one of the four extensions of source files.

## Main definitions

* `Name.IsSource` — the names of source files.

## Main statements

* `nameExtension?_eq_some_iff` — the names with a given extension.
* `isSource_below` — the source files among names below a path.
-/
namespace ScreenAtlas

/-- A stem that is not empty, a full stop, and an extension of source files. -/
def Name.IsSource (n : Name) : Prop :=
  ∃ stem, stem ≠ [] ∧ ∃ e ∈ Path.sourceExtensions,
    n.bytes = stem ++ Path.dot :: Utf8.encode e.toList

namespace Path

/-- Reading backwards up to a full stop. -/
theorem takeWhile_dropWhile_stop {after : List UInt8} (h : dot ∉ after) (before : List UInt8) :
    (after ++ dot :: before).takeWhile (· != dot) = after ∧
      (after ++ dot :: before).dropWhile (· != dot) = dot :: before := by
  induction after with
  | nil => simp
  | cons b after ih =>
      rw [List.mem_cons, not_or] at h
      have hb : (b != dot) = true := by simpa using Ne.symm h.1
      simp [hb, ih h.2]

/-- **The names with a given extension**: a stem that is not empty, a full stop, and an extension
without one. -/
theorem nameExtension?_eq_some_iff {name e : List UInt8} :
    nameExtension? name = some e ↔ dot ∉ e ∧ ∃ stem, stem ≠ [] ∧ name = stem ++ dot :: e := by
  constructor
  · intro h
    unfold nameExtension? at h
    split at h
    · next hlen =>
      obtain rfl := Option.some.inj h
      have hsplit : name.reverse.takeWhile (· != dot) ++ name.reverse.dropWhile (· != dot) =
          name.reverse := List.takeWhile_append_dropWhile
      have hfree : dot ∉ name.reverse.takeWhile (· != dot) := fun hmem => by
        simpa using List.mem_takeWhile_imp hmem
      cases hrest : name.reverse.dropWhile (· != dot) with
      | nil => simp [hrest] at hlen
      | cons b before =>
          have hb : b = dot := by
            have hne : name.reverse.dropWhile (· != dot) ≠ [] := by simp [hrest]
            have hhead := List.head_dropWhile_not (· != dot) hne
            simpa [hrest] using hhead
          rw [hrest, List.length_cons] at hlen
          refine ⟨by simpa using hfree, before.reverse, ?_, ?_⟩
          · intro hnil
            simp [List.reverse_eq_nil_iff.mp hnil] at hlen
          · have hname := congrArg List.reverse hsplit
            rw [hrest, hb] at hname
            simpa using hname.symm
    · exact absurd h (by simp)
  · rintro ⟨hfree, stem, hstem, rfl⟩
    have hback : (stem ++ dot :: e).reverse = e.reverse ++ dot :: stem.reverse := by simp
    have hfree' : dot ∉ e.reverse := by simpa using hfree
    obtain ⟨htake, hdrop⟩ := takeWhile_dropWhile_stop hfree' stem.reverse
    rw [nameExtension?, hback, htake, hdrop, List.reverse_reverse, if_pos]
    simpa [List.length_pos_iff] using hstem

theorem dot_notMem_encode {e : String} (h : e ∈ sourceExtensions) :
    dot ∉ Utf8.encode e.toList := by
  revert e
  decide

/-- The extension of names below a path is that of the last name. -/
theorem extension?_below {p : Path} (hp : p.bytes ≠ []) (names : List Name) (n : Name)
    (e : String) : (p.below (names ++ [n])).extension? = some e ↔
      nameExtension? n.bytes = some (Utf8.encode e.toList) := by
  simp only [extension?, fileName?_below hp, Option.bind_some, Option.map_eq_some_iff,
    Option.bind_eq_some_iff, Utf8.decode?_eq_some_iff]
  constructor
  · rintro ⟨s, ⟨_, hname, rfl⟩, rfl⟩
    simpa using hname
  · exact fun hname => ⟨e.toList, ⟨_, hname, rfl⟩, by simp⟩

/-- A name of a source file, as its stem and its extension. -/
theorem nameExtension?_eq_some_of_source {n : Name} {stem : List UInt8} {e : String}
    (hstem : stem ≠ []) (he : e ∈ sourceExtensions)
    (hname : n.bytes = stem ++ dot :: Utf8.encode e.toList) :
    nameExtension? n.bytes = some (Utf8.encode e.toList) :=
  nameExtension?_eq_some_iff.mpr ⟨dot_notMem_encode he, stem, hstem, hname⟩

/-- **The source files among names below a path** are told by their last name. -/
theorem isSource_below {p : Path} (hp : p.bytes ≠ []) (names : List Name) (n : Name) :
    (p.below (names ++ [n])).isSource ↔ n.IsSource := by
  calc ((p.below (names ++ [n])).isSource = true)
    _ ↔ ∃ e, (p.below (names ++ [n])).extension? = some e ∧ e ∈ sourceExtensions := by
        rw [isSource, Option.any_eq_true]
        simp [isSourceExtension, and_comm]
    _ ↔ ∃ e ∈ sourceExtensions, nameExtension? n.bytes = some (Utf8.encode e.toList) := by
        simp only [extension?_below hp, and_comm]
    _ ↔ n.IsSource := by
        simp only [nameExtension?_eq_some_iff, Name.IsSource]
        constructor
        · rintro ⟨e, he, _, stem, hstem, hname⟩
          exact ⟨stem, hstem, e, he, hname⟩
        · rintro ⟨stem, hstem, e, he, hname⟩
          exact ⟨e, he, dot_notMem_encode he, stem, hstem, hname⟩

end Path

end ScreenAtlas
