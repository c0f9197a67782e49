import ScreenAtlas.Findings.Basic
import ScreenAtlas.Proofs.Pattern
/-!
# What is found in any text

Libraries and assets are found by the tables, and whatever a file's text holds, the name that it
seems to declare is a word. The limit on style samples cuts off the end of their list and has no
part in anything else.

## Main definitions

* `IsWord` — the names made of letters, digits and underscores.
* `keepSamples` — findings with fewer style samples.

## Main statements

* `has_libraries`, `mem_assets` — the libraries and assets that are found.
* `isWord_of_declaredName?` — declared names are words.
* `scan_of_le` — a lower limit only shortens the list of style samples.
-/
namespace ScreenAtlas

/-- A name made of letters and digits of ASCII and underscores. -/
def IsWord (s : String) : Prop :=
  s ≠ "" ∧ ∀ c ∈ s.toList, CharClass.word.has c

/-- The kinds of a table that a text is evidence of. -/
theorem Rule.mem_kinds {κ : Type} {rules : List (Rule κ)} {s : List Char} {k : κ} :
    k ∈ (rules.filter (·.occursIn s)).map (·.kind) ↔
      ∃ r ∈ rules, r.kind = k ∧ r.occursIn s = true := by
  simp only [List.mem_map, List.mem_filter]
  exact exists_congr fun r => ⟨fun ⟨⟨hr, hs⟩, hk⟩ => ⟨hr, hk, hs⟩,
    fun ⟨hr, hk, hs⟩ => ⟨⟨hr, hs⟩, hk⟩⟩

/-- All declarations capture a word. -/
theorem Checklist.capture_word_mem_declarations {p : Pattern} (hp : p ∈ Checklist.declarations) :
    Item.capture .word ∈ p ∧ ∀ k, Item.capture k ∈ p → k = .word := by
  simp only [declarations, List.mem_cons, List.not_mem_nil, or_false] at hp
  obtain rfl | rfl | rfl := hp <;> simp [Pattern.lit]

namespace Findings

/-- **The libraries that are found** are those of the table, and the style engine by attributes. -/
theorem has_libraries {s : List Char} {l : Library} : (libraries s).has l = true ↔
    (∃ r ∈ Checklist.libraries, r.kind = l ∧ r.occursIn s = true) ∨
      l = .styleEngine ∧ hasStyleAttribute s = true := by
  rw [← Rule.mem_kinds, libraries]
  by_cases h : hasStyleAttribute s = true <;>
    simp [h, LibrarySet.insert, LibrarySet.ofList, or_comm]

/-- **The assets that are found** are those of the table. -/
theorem mem_assets {s : List Char} {a : Asset} : a ∈ assets s ↔
    ∃ r ∈ Checklist.assets, r.kind = a ∧ r.occursIn s = true :=
  Rule.mem_kinds

/-- **Declared names are words**, whatever the text is. -/
theorem isWord_of_declaredName? {s : List Char} {name : String} (h : declaredName? s = some name) :
    IsWord name := by
  obtain ⟨p, hp, hname⟩ := List.exists_of_findSome?_eq_some h
  obtain ⟨m, hm, rfl⟩ := Option.map_eq_some_iff.mp hname
  obtain ⟨t, -, hmatch⟩ := Pattern.exists_suffix_of_first? hm
  obtain ⟨hword, honly⟩ := Checklist.capture_word_mem_declarations hp
  obtain ⟨-, hnone⟩ | ⟨k, hk, hne, hall⟩ := Pattern.captured_of_matchAt hmatch
  · exact absurd hword (hnone .word)
  · obtain rfl := honly k hk
    refine ⟨fun hempty => hne ?_, ?_⟩
    · rw [← String.toList_ofList (l := m.captured), hempty]
      rfl
    · rwa [String.toList_ofList]

/-! ## The limit on style samples -/

/-- The findings with no more than the first `limit` style samples. -/
def keepSamples (limit : Nat) (f : Findings) : Findings :=
  { f with styleSamples := f.styleSamples.take limit }

theorem keepSamples_blank (limit : Nat) : blank.keepSamples limit = blank := by
  ext1 <;> first | rfl | exact List.take_nil

/-- Under a lower limit the first of the samples are left. -/
theorem samples_of_le {m n : Nat} (h : m ≤ n) (s : List Char) :
    samples m s = (samples n s).take m := by
  rw [samples, samples, ← List.map_take, List.take_take, Nat.min_eq_left h]

/-- **A lower limit** only shortens the list of style samples. -/
theorem scan_of_le {m n : Nat} (h : m ≤ n) (s : List Char) :
    scan m s = (scan n s).keepSamples m := by
  ext1
  case styleSamples => exact samples_of_le h s
  all_goals rfl

end Findings

end ScreenAtlas
