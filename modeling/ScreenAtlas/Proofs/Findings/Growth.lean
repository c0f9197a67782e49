import ScreenAtlas.Proofs.Findings.Counts
import ScreenAtlas.Proofs.Findings.Styles
import ScreenAtlas.Proofs.Pattern.Context
/-!
# Findings in a longer text

Text that is added around a file's text hides nothing that was found in it: libraries, assets and
style attributes are still in evidence, and no count goes down. Style samples are found one behind
the other, so text in front may cut them differently. Text behind a file leaves them as they are and
may add to them: an attribute that the end of the file has cut off holds one quote at most, and so
hides none of those that were found.

## Main statements

* `endsLast_isStyleLiteral` — style attributes stand in one another at the end only.
* `scan_around` — the findings in a text with more text around it.
-/
namespace ScreenAtlas

namespace Checklist

theorem firm_of_mem : (∀ r ∈ libraries, ∀ p ∈ r.patterns, p.firm = true) ∧
    ∀ r ∈ assets, ∀ p ∈ r.patterns, p.firm = true := by
  decide

end Checklist

/-! ## Quotes of a style attribute -/

/-- A style attribute ends in its second quote. -/
theorem IsStyleLiteral.exists_quotes {w value : List Char} (h : IsStyleLiteral w value) :
    ∃ front q, w = front ++ [q] ∧ CharClass.anyQuote.has q = true ∧
      front.countP CharClass.anyQuote.has = 1 := by
  obtain ⟨b, b', q, q', rfl, hblank, hq, hq', -, hvalue⟩ := h
  rw [← CharClass.has_anyQuote] at hq hq'
  obtain ⟨hb, hb'⟩ := List.forall_mem_append.mp hblank
  have hblank_eq_zero : ∀ r : List Char, (∀ c ∈ r, Text.isBlank c = true) →
      r.countP CharClass.anyQuote.has = 0 := fun r hr =>
    List.countP_eq_zero.mpr fun c hc => Bool.eq_false_iff.mp
      (CharClass.not_has_of_apart (k := .blank) (by decide) (hr c hc))
  have hvalue_eq_zero : value.countP CharClass.anyQuote.has = 0 :=
    List.countP_eq_zero.mpr fun c hc => CharClass.has_anyQuote.not.mpr (hvalue c hc)
  have hword : "className".toList.countP CharClass.anyQuote.has = 0 ∧
      "=".toList.countP CharClass.anyQuote.has = 0 := by decide
  refine ⟨"className".toList ++ b ++ "=".toList ++ b' ++ [q] ++ value, q', rfl, hq', ?_⟩
  simp only [List.countP_append, hword, hblank_eq_zero b hb, hblank_eq_zero b' hb', hvalue_eq_zero,
    List.countP_singleton, hq, if_true, Nat.zero_add, Nat.add_zero]

/-- **Style attributes stand in one another at the end only**, since each holds two quotes and ends
in the second one. -/
theorem endsLast_isStyleLiteral : Form.EndsLast IsStyleLiteral := by
  intro a w b v v' hw hw'
  obtain ⟨front, q, rfl, hq, hfront⟩ := hw.exists_quotes
  obtain ⟨front', q', heq, -, hfront'⟩ := hw'.exists_quotes
  obtain rfl | ⟨b, d, rfl⟩ := List.eq_nil_or_concat' b
  · rfl
  · rw [← List.append_assoc] at heq
    obtain ⟨rfl, -⟩ := List.append_inj' heq rfl
    simp only [List.countP_append, List.countP_singleton, hq, if_true, hfront] at hfront'
    omega

namespace Findings

variable (s front rest : List Char)

theorem has_libraries_around {l : Library} (h : (libraries s).has l = true) :
    (libraries (front ++ s ++ rest)).has l = true := by
  rw [has_libraries] at h ⊢
  rcases h with ⟨r, hr, hkind, hs⟩ | ⟨rfl, hs⟩
  · exact .inl ⟨r, hr, hkind, Rule.occursIn_around (Checklist.firm_of_mem.1 r hr) hs front rest⟩
  · exact .inr ⟨rfl, Pattern.occursIn_around Checklist.firm_styleAttribute hs front rest⟩

theorem assets_subset_around : assets s ⊆ assets (front ++ s ++ rest) := by
  intro a ha
  rw [mem_assets] at ha ⊢
  obtain ⟨r, hr, hkind, hs⟩ := ha
  exact ⟨r, hr, hkind, Rule.occursIn_around (Checklist.firm_of_mem.2 r hr) hs front rest⟩

/-- Text behind a file adds to its style texts at the end only. -/
theorem styleTexts_append : styleTexts s <+: styleTexts (s ++ rest) := by
  obtain ⟨hfirm, hlast, hnil⟩ := Checklist.firm_styleLiteral
  have hends : Form.EndsLast Checklist.styleLiteral.Spells := fun hw hw' =>
    endsLast_isStyleLiteral (Checklist.spells_styleLiteral.mp hw)
      (Checklist.spells_styleLiteral.mp hw')
  have hcaptured := Pattern.captured_findAll_append hfirm hlast hnil hends s rest
  have htrimmed := (hcaptured.map Text.trim).filter fun t => !t.isEmpty
  simpa only [styleTexts, List.map_map, Function.comp_def] using htrimmed

theorem samples_append (limit : Nat) : samples limit s <+: samples limit (s ++ rest) :=
  ((styleTexts_append s rest).take limit).map String.ofList

/-- **The findings in a text with more text around it**: each library and each asset that is found
in the text is found in the longer one, style classes that are used there are used, no element has a
lower count, and the style samples are the first ones of the text that goes on. -/
theorem scan_around (limit : Nat) (s front rest : List Char) :
    (∀ l, (scan limit s).imports.has l = true →
      (scan limit (front ++ s ++ rest)).imports.has l = true) ∧
    assets s ⊆ assets (front ++ s ++ rest) ∧
    ((scan limit s).usesStyleClasses = true →
      (scan limit (front ++ s ++ rest)).usesStyleClasses = true) ∧
    (∀ e, (scan limit s).counts.count e ≤ (scan limit (front ++ s ++ rest)).counts.count e) ∧
    (scan limit s).styleSamples <+: (scan limit (s ++ rest)).styleSamples := by
  refine ⟨?imports, assets_subset_around s front rest, ?uses, ?counts, samples_append s rest limit⟩
  case imports =>
    intro l h
    exact has_libraries_around s front rest h
  case uses =>
    intro h
    exact Pattern.occursIn_around Checklist.firm_styleAttribute h front rest
  case counts =>
    intro e
    change (tally s).count e ≤ (tally (front ++ s ++ rest)).count e
    rw [count_tally, count_tally]
    exact Rule.count_le_around (Checklist.isPlaced_rule e) s front rest

/-- A text whose last style attribute is cut off. -/
def cutText : List Char :=
  "import 'x'\nfrom 'expo-image'; <Card className='a' /><Card\nclassName=\"b".toList

/-- The same text, with the attribute completed and another one opened in front. -/
def completedText : List Char :=
  "/* className='".toList ++ cutText ++ "c'".toList

/-- The text behind completes an attribute. With the text in front there would be another sample
first. -/
theorem scan_around_cutText :
    ((scan 6 cutText).imports.has .expoImage = true ∧
      (scan 6 completedText).imports.has .expoImage = true) ∧
    (Asset.expoImage ∈ assets cutText ∧ Asset.expoImage ∈ assets completedText) ∧
    ((scan 6 cutText).usesStyleClasses = true ∧ (scan 6 completedText).usesStyleClasses = true) ∧
    (scan 6 cutText).counts.count .cards ≤ (scan 6 completedText).counts.count .cards ∧
    (scan 6 cutText).styleSamples = ["a"] ∧
    (scan 6 cutText).styleSamples <+: (scan 6 (cutText ++ "c'".toList)).styleSamples ∧
    (scan 6 completedText).styleSamples = ["import", "a", "bc"] := by
  obtain ⟨himports, hassets, huses, hcounts, hsamples⟩ :=
    scan_around 6 cutText "/* className='".toList "c'".toList
  have hfound : (scan 6 cutText).imports.has .expoImage = true ∧
      Asset.expoImage ∈ assets cutText ∧ (scan 6 cutText).usesStyleClasses = true ∧
      (scan 6 cutText).styleSamples = ["a"] := by
    decide +kernel
  have hcompleted : (scan 6 completedText).styleSamples = ["import", "a", "bc"] := by
    decide +kernel
  obtain ⟨himport, hasset, hstyle, hsample⟩ := hfound
  exact ⟨⟨himport, himports _ himport⟩, ⟨hasset, hassets hasset⟩, ⟨hstyle, huses hstyle⟩,
    hcounts .cards, hsample, hsamples, hcompleted⟩

end Findings

end ScreenAtlas
