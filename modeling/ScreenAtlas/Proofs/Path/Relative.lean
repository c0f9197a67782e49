import ScreenAtlas.Group
import ScreenAtlas.Proofs.Path.Parts
import ScreenAtlas.Proofs.Path.Text
import ScreenAtlas.Route.Basic
/-!
# Relative texts

A root is put in front of a relative text as text, and it is taken off again part by part. Still the
text comes back as it was, however the root is spelled, unless it has a slash or a segment `.` at
one of its ends. Routes and groups are given the same relative text.

## Main definitions

* `IsSettled` — the relative texts without slashes and segments `.` at their ends.

## Main statements

* `splitOn_encode` — slashes cut a text and its bytes at the same places.
* `relativeText_join` — a settled text comes back as it was.
* `relative_text_of_join` — what routes and groups are given.
-/
namespace ScreenAtlas

namespace Path

/-! ## Texts and their bytes -/

/-- **Slashes cut a text and its bytes** at the same places. -/
theorem splitOn_encode (s : List Char) :
    (Utf8.encode s).splitOn slash = (s.splitOn '/').map Utf8.encode := by
  have hslash : ∀ bytes ∈ (s.splitOn '/').map Utf8.encode, slash ∉ bytes := by
    intro bytes hbytes
    obtain ⟨segment, hsegment, rfl⟩ := List.mem_map.mp hbytes
    exact slash_notMem_encode (notMem_of_mem_splitOn hsegment)
  have hne : (s.splitOn '/').map Utf8.encode ≠ [] := by simp
  calc (Utf8.encode s).splitOn slash
      = (Utf8.encode (['/'].intercalate (s.splitOn '/'))).splitOn slash := by
        rw [List.intercalate_splitOn]
    _ = (joined ((s.splitOn '/').map Utf8.encode)).splitOn slash := by rw [encode_intercalate]
    _ = (s.splitOn '/').map Utf8.encode := List.splitOn_intercalate slash hslash hne

/-- A text that ends with nothing behind a break ends in that break. -/
theorem getLast?_of_splitOn {α : Type} [BEq α] [LawfulBEq α] {a : α} {xs : List α} (hne : xs ≠ [])
    (h : (xs.splitOn a).getLast? = some []) : xs.getLast? = some a := by
  have hxs : [a].intercalate (xs.splitOn a) = xs := List.intercalate_splitOn a
  obtain ⟨front, hfront⟩ := List.getLast?_eq_some_iff.mp h
  rw [hfront] at hxs
  have hfrontne : front ≠ [] := by
    rintro rfl
    exact hne (hxs.symm.trans (by simp))
  rw [← hxs, intercalate_append hfrontne (List.cons_ne_nil [] [])]
  simp

/-! ## Settled texts -/

/-- A relative text that is not empty and has no slash and no segment `.` at its ends, nor anywhere
a backslash, which would be shown as a slash. -/
structure IsSettled (rel : List Char) : Prop where
  ne_nil : rel ≠ []
  head : rel.head? ≠ some '/'
  first : (rel.splitOn '/').head? ≠ some ['.']
  getLast : rel.getLast? ≠ some '/'
  last : (rel.splitOn '/').getLast? ≠ some ['.']
  backslash_notMem : '\\' ∉ rel

instance (rel : List Char) : Decidable (IsSettled rel) :=
  decidable_of_iff (rel ≠ [] ∧ rel.head? ≠ some '/' ∧ (rel.splitOn '/').head? ≠ some ['.'] ∧
      rel.getLast? ≠ some '/' ∧ (rel.splitOn '/').getLast? ≠ some ['.'] ∧ '\\' ∉ rel)
    ⟨fun ⟨h, h₁, h₂, h₃, h₄, h₅⟩ => ⟨h, h₁, h₂, h₃, h₄, h₅⟩,
      fun ⟨h, h₁, h₂, h₃, h₄, h₅⟩ => ⟨h, h₁, h₂, h₃, h₄, h₅⟩⟩

variable {rel : String}

/-- A settled text leads to something at both ends. -/
theorem IsSettled.isTrimmed (h : IsSettled rel.toList) : (ofString rel).IsTrimmed := by
  have hsplit : (ofString rel).bytes.splitOn slash = (rel.toList.splitOn '/').map Utf8.encode :=
    splitOn_encode rel.toList
  constructor
  case first =>
    intro s hs
    have hfirst := head?_splitOn '/' rel.toList
    rw [hsplit, List.head?_map, hfirst] at hs
    obtain rfl : Utf8.encode _ = s := Option.some.inj hs
    have hempty : rel.toList.takeWhile (· != '/') ≠ [] := by
      obtain ⟨c, cs, hcs⟩ := List.exists_cons_of_ne_nil h.ne_nil
      have hc : c ≠ '/' := fun hc => h.head (by rw [hcs, hc]; rfl)
      simp [hcs, hc]
    have hdot : rel.toList.takeWhile (· != '/') ≠ ['.'] :=
      fun hdot => h.first (by rw [hfirst, hdot])
    rw [← Bool.not_eq_true, isFiller_encode]
    exact not_or.mpr ⟨hempty, hdot⟩
  case last =>
    intro s hs
    rw [hsplit, List.getLast?_map] at hs
    obtain ⟨segment, hsegment, rfl⟩ := Option.map_eq_some_iff.mp hs
    rw [← Bool.not_eq_true, isFiller_encode]
    rintro (rfl | rfl)
    · exact h.getLast (getLast?_of_splitOn h.ne_nil hsegment)
    · exact h.last hsegment

/-- **A settled text comes back as it was** from behind any root. -/
theorem relativeText_join (h : IsSettled rel.toList) (root : Path) :
    (root.join (.ofString rel)).relativeText root = rel := by
  rw [← String.toList_inj, toList_relativeText_join h.isTrimmed]
  exact shown_encode h.backslash_notMem

end Path

/-- A single file makes up a group of its own. -/
theorem Group.ofFiles_singleton (p root : Path) :
    ofFiles [p] root = [⟨topOf (p.relativeText root), [p.relativeText root]⟩] :=
  rfl

/-- **What routes and groups are given.** A settled text behind any root is the relative text of the
route and of the only file of the only group, whose name is the first segment. For all other paths,
too, the route has the same relative text as the file in the group, which is the whole text of the
path when the parts of the root do not stand in front of its own. -/
theorem relative_text_of_join (root : Path) :
    (∀ rel : String, Path.IsSettled rel.toList →
      (Route.derive (root.join (.ofString rel)) root).relativePath = rel ∧
        ∃ top, (rel.toList.splitOn '/').head? = some top ∧
          Group.ofFiles [root.join (.ofString rel)] root = [⟨String.ofList top, [rel]⟩]) ∧
      ∀ p : Path,
        (∃ top, Group.ofFiles [p] root = [⟨top, [(Route.derive p root).relativePath]⟩]) ∧
          (¬root.parts <+: p.parts → (Route.derive p root).relativePath =
            String.ofList (p.text.toList.map fun c => if c = '\\' then '/' else c)) := by
  refine ⟨fun rel hrel => ⟨Path.relativeText_join hrel root, _, Path.head?_splitOn '/' _, ?group⟩,
    fun p => ⟨⟨_, Group.ofFiles_singleton p root⟩, fun hparts => ?outside⟩⟩
  case group =>
    rw [Group.ofFiles_singleton, Path.relativeText_join hrel root]
    rfl
  case outside =>
    change p.relativeText root = _
    rw [Path.relativeText, Path.relativeTo?_eq_none_iff.mpr hparts, Option.getD_none]

/-- A root that is spelled with filler, a text with filler inside, and a path that is not under the
root although its text starts with that of the root. -/
theorem relative_text_of_spelledRoot :
    let root := Path.ofString "./p//./app"
    let rel := "ui/.//card/../a b.tsx"
    let other := Path.ofString "./p//./app2\\a.ts"
    (Path.IsSettled rel.toList ∧
      (Route.derive (root.join (.ofString rel)) root).relativePath = rel) ∧
    ¬root.parts <+: other.parts ∧ (Route.derive other root).relativePath = "./p//./app2/a.ts" := by
  intro root rel other
  have hrel : Path.IsSettled rel.toList := by decide +kernel
  have hparts : ¬root.parts <+: other.parts := by decide +kernel
  obtain ⟨hjoin, houtside⟩ := relative_text_of_join root
  exact ⟨⟨hrel, (hjoin rel hrel).1⟩, hparts, ((houtside other).2 hparts).trans (by decide +kernel)⟩

end ScreenAtlas
