import Mathlib.Data.List.DropRight
import ScreenAtlas.Text.Blank
/-!
# Trimmed texts

Trimming takes the blank characters off both ends of a text, and nothing else.

## Main definitions

* `IsTrimmed` — what is left of a text between its blank ends.

## Main statements

* `isTrimmed_iff` — what is left is determined, and trimming leaves it.
-/
namespace ScreenAtlas.Text

variable {s t : List Char}

/-- Of a text, the part between blank ends that has no blank end itself. -/
structure IsTrimmed (s t : List Char) : Prop where
  exists_append : ∃ a b, s = a ++ t ++ b ∧ (∀ c ∈ a, isBlank c = true) ∧ ∀ c ∈ b, isBlank c = true
  head : ∀ c ∈ t.head?, isBlank c = false
  last : ∀ c ∈ t.getLast?, isBlank c = false

theorem trim_eq (s : List Char) : trim s = (s.dropWhile isBlank).rdropWhile isBlank := rfl

theorem isTrimmed_trim (s : List Char) : IsTrimmed s (trim s) := by
  rw [trim_eq]
  generalize hd : s.dropWhile isBlank = d
  constructor
  case exists_append =>
    refine ⟨s.takeWhile isBlank, d.rtakeWhile isBlank, ?_, fun _ => List.mem_takeWhile_imp,
      fun _ => List.mem_rtakeWhile_imp⟩
    rw [List.append_assoc, List.rdropWhile_append_rtakeWhile, ← hd, List.takeWhile_append_dropWhile]
  case head =>
    intro c hc
    obtain ⟨rest, hrest⟩ := List.head?_eq_some_iff.mp hc
    obtain ⟨b, hb⟩ := d.rdropWhile_prefix (p := isBlank)
    have hhead : d.head? = some c := by rw [← hb, hrest]; rfl
    have hnot := List.head?_dropWhile_not isBlank s
    rwa [hd, hhead] at hnot
  case last =>
    intro c hc
    obtain ⟨hne, rfl⟩ := List.mem_getLast?_eq_getLast hc
    simpa using List.rdropWhile_last_not isBlank d hne

/-- A text without blank ends is left as it is. -/
theorem trim_append (h : IsTrimmed s t) : trim s = t := by
  obtain ⟨a, b, rfl, ha, hb⟩ := h.exists_append
  have hdrop : (a ++ t ++ b).dropWhile isBlank = (t ++ b).dropWhile isBlank := by
    rw [List.append_assoc, List.dropWhile_append_of_pos ha]
  have hrdrop : (t ++ b).rdropWhile isBlank = t := by
    rw [List.rdropWhile, List.reverse_append, List.dropWhile_append_of_pos (by simpa using hb),
      ← List.rdropWhile, List.rdropWhile_eq_self_iff]
    intro hne
    rw [h.last _ (List.getLast?_eq_getLast_of_ne_nil hne)]
    exact Bool.false_ne_true
  rw [trim_eq, hdrop]
  cases t with
  | nil =>
      rw [List.nil_append, List.dropWhile_eq_nil_iff.mpr hb]
      rfl
  | cons c t =>
      rw [List.cons_append, List.dropWhile_cons_of_neg (by simp [h.head c rfl])]
      exact hrdrop

/-- **What is left between blank ends** is determined. -/
theorem isTrimmed_iff : IsTrimmed s t ↔ t = trim s :=
  ⟨fun h => (trim_append h).symm, fun h => h ▸ isTrimmed_trim s⟩

end ScreenAtlas.Text
