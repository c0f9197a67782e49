import ScreenAtlas.Proofs.Findings
import ScreenAtlas.Proofs.Pattern.Search
import ScreenAtlas.Proofs.Text.Trim
/-!
# Style samples

The style samples of a file are the quoted texts of its style attributes, found one behind the
other. An attribute is taken as it is written: its two quotes need not be of one kind, and what
stands between them may look like an attribute itself.

## Main definitions

* `IsStyleLiteral` — a style attribute with the text between its quotes.

## Main statements

* `spells_styleLiteral` — style attributes are the texts of their pattern.
* `samples_of_style_literals` — the samples of any text under any limit.
-/
namespace ScreenAtlas

/-- One of the two quotes or the backtick. -/
def IsQuoteMark (c : Char) : Prop :=
  c = '"' ∨ c = '\x27' ∨ c = '\x60'

/-- A style attribute: the word `className` and an equals sign with any blank characters around it,
and a text between two quotes, which is not empty and holds no quote. -/
def IsStyleLiteral (w value : List Char) : Prop :=
  ∃ b b' q q', w = "className".toList ++ b ++ "=".toList ++ b' ++ [q] ++ value ++ [q'] ∧
    (∀ c ∈ b ++ b', Text.isBlank c = true) ∧ IsQuoteMark q ∧ IsQuoteMark q' ∧
    value ≠ [] ∧ ∀ c ∈ value, ¬IsQuoteMark c

theorem CharClass.has_anyQuote {c : Char} : anyQuote.has c = true ↔ IsQuoteMark c := by
  simp only [has, IsQuoteMark, Bool.or_eq_true, beq_iff_eq]
  tauto

theorem CharClass.has_notQuote {c : Char} : notQuote.has c = true ↔ ¬IsQuoteMark c := by
  rw [← has_anyQuote]
  simp [has]

namespace Checklist

theorem firm_styleLiteral : styleLiteral.firm = true ∧ styleLiteral.lastRun? = none ∧
    styleLiteral.matchAt [] = none := by
  decide

theorem firm_styleAttribute : styleAttribute.firm = true := by decide

/-- **Style attributes** are the texts of their pattern. -/
theorem spells_styleLiteral {w value : List Char} :
    styleLiteral.Spells w value ↔ IsStyleLiteral w value := by
  simp only [styleLiteral, styleAttribute, List.append_assoc, Pattern.spells_lit_append,
    List.cons_append, List.nil_append, Pattern.spells_run, Pattern.spells_one,
    Pattern.spells_capture, Pattern.spells_nil, CharClass.IsRun, CharClass.has_anyQuote,
    CharClass.has_notQuote]
  constructor
  · rintro ⟨_, rfl, b, _, rfl, hb, _, rfl, b', _, rfl, hb', q, _, rfl, hq, _, _, rfl, hvalue, q', _,
      rfl, hq', rfl, -⟩
    exact ⟨b, b', q, q', by simp, List.forall_mem_append.mpr ⟨hb, hb'⟩, hq, hq', hvalue⟩
  · rintro ⟨b, b', q, q', rfl, hblank, hq, hq', hvalue⟩
    obtain ⟨hb, hb'⟩ := List.forall_mem_append.mp hblank
    exact ⟨_, by simp, b, _, rfl, hb, _, rfl, b', _, rfl, hb', q, _, rfl, hq, _, _, rfl, hvalue, q',
      _, rfl, hq', rfl, rfl⟩

end Checklist

namespace Findings

variable {s : List Char}

/-- The texts that are found one behind the other are what the pattern captures. -/
theorem successive_isStyleLiteral_iff {vs : List (List Char)} :
    Form.Successive IsStyleLiteral s vs ↔
      vs = (Checklist.styleLiteral.findAll s).map (·.captured) := by
  have hspells : Checklist.styleLiteral.Spells = IsStyleLiteral := by
    funext w value
    exact propext Checklist.spells_styleLiteral
  obtain ⟨hfirm, hlast, hnil⟩ := Checklist.firm_styleLiteral
  rw [← hspells, Pattern.successive_iff hfirm hlast hnil]

/-- The style texts are the values of style attributes, trimmed, as far as they are not blank. -/
theorem styleTexts_of_successive {vs : List (List Char)} (h : Form.Successive IsStyleLiteral s vs) :
    styleTexts s = (vs.map Text.trim).filter (· ≠ []) := by
  rw [successive_isStyleLiteral_iff.mp h, styleTexts, List.map_map]
  exact List.filter_congr fun t _ => by cases t <;> rfl

theorem exists_of_mem_samples {vs : List (List Char)} (h : Form.Successive IsStyleLiteral s vs)
    {limit : Nat} {sample : String} (hsample : sample ∈ samples limit s) :
    ∃ v ∈ vs, sample = String.ofList (Text.trim v) ∧ Text.trim v ≠ [] := by
  rw [samples, styleTexts_of_successive h] at hsample
  obtain ⟨t, ht, rfl⟩ := List.mem_map.mp hsample
  obtain ⟨ht, hne⟩ := List.mem_filter.mp (List.mem_of_mem_take ht)
  obtain ⟨v, hv, rfl⟩ := List.mem_map.mp ht
  exact ⟨v, hv, rfl, by simpa using hne⟩

/-- A style attribute with a text between its quotes is a style attribute. -/
theorem hasStyleAttribute_of_isStyleLiteral {front w rest v : List Char}
    (hs : s = front ++ w ++ rest) (hw : IsStyleLiteral w v) : hasStyleAttribute s = true := by
  obtain ⟨w₁, w₂, v₁, rfl, hw₁⟩ := Pattern.Spells.of_append (Checklist.spells_styleLiteral.mpr hw)
  refine (Pattern.occursIn_iff Checklist.firm_styleAttribute).mpr ?_
  exact ⟨front, w₁, w₂ ++ rest, v₁, by rw [hs]; simp, hw₁⟩

/-- What is left of a quoted text has no blank end and holds no quote. -/
theorem trim_of_isStyleLiteral {w v : List Char} (hw : IsStyleLiteral w v) :
    (∀ c ∈ (Text.trim v).head?, Text.isBlank c = false) ∧
    (∀ c ∈ (Text.trim v).getLast?, Text.isBlank c = false) ∧
    ∀ c ∈ Text.trim v, ¬IsQuoteMark c := by
  obtain ⟨-, -, -, -, -, -, -, -, -, hvalue⟩ := hw
  have htrim := Text.isTrimmed_trim v
  obtain ⟨a, b, hv, -, -⟩ := htrim.exists_append
  refine ⟨htrim.head, htrim.last, fun c hc => hvalue c ?_⟩
  rw [hv]
  exact List.mem_append_left _ (List.mem_append_right _ hc)

/-- **A style sample** is not empty, has no blank end and holds no quote. -/
theorem of_mem_samples {limit : Nat} {sample : String} (h : sample ∈ samples limit s) :
    sample ≠ "" ∧ (∀ c ∈ sample.toList.head?, Text.isBlank c = false) ∧
      (∀ c ∈ sample.toList.getLast?, Text.isBlank c = false) ∧
      ∀ c ∈ sample.toList, ¬IsQuoteMark c := by
  have hvalues := successive_isStyleLiteral_iff (s := s).mpr rfl
  obtain ⟨v, hv, rfl, hne⟩ := exists_of_mem_samples hvalues h
  obtain ⟨front, w, rest, -, hw⟩ := hvalues.exists_of_mem hv
  rw [String.toList_ofList]
  refine ⟨fun hempty => hne ?_, trim_of_isStyleLiteral hw⟩
  simpa using congrArg String.toList hempty

/-- **The style samples of any text under any limit.** The values of the style attributes that are
found one behind the other are determined, and the samples are the first of them, trimmed and
without the blank ones. So no sample is empty, has a blank end or holds a quote, and a lower limit
cuts off the end of the list. A file with samples uses style classes, and where style classes are
used the style engine is in evidence. -/
theorem samples_of_style_literals (s : List Char) : ∃ values,
    (∀ vs, Form.Successive IsStyleLiteral s vs ↔ vs = values) ∧
    (∀ limit, samples limit s =
      (((values.map Text.trim).filter (· ≠ [])).take limit).map String.ofList) ∧
    (∀ limit, ∀ sample ∈ samples limit s, sample ≠ "" ∧
      (∀ c ∈ sample.toList.head?, Text.isBlank c = false) ∧
      (∀ c ∈ sample.toList.getLast?, Text.isBlank c = false) ∧
      ∀ c ∈ sample.toList, ¬IsQuoteMark c) ∧
    (∀ m n, m ≤ n → samples m s <+: samples n s) ∧
    ∀ limit, let f := scan limit s
      f.styleSamples = samples limit s ∧ (f.styleSamples ≠ [] → f.usesStyleClasses = true) ∧
      (f.usesStyleClasses = true → f.imports.has .styleEngine = true) := by
  let values := (Checklist.styleLiteral.findAll s).map (·.captured)
  have hvalues : Form.Successive IsStyleLiteral s values := successive_isStyleLiteral_iff.mpr rfl
  refine ⟨values, fun vs => successive_isStyleLiteral_iff, ?first,
    fun limit sample hsample => of_mem_samples hsample, ?lower, ?evidence⟩
  case first =>
    intro limit
    rw [samples, styleTexts_of_successive hvalues]
  case lower =>
    intro m n hmn
    rw [samples_of_le hmn]
    exact List.take_prefix m _
  case evidence =>
    intro limit f
    refine ⟨rfl, fun hne => ?_, fun huses => has_libraries.mpr (.inr ⟨rfl, huses⟩)⟩
    obtain ⟨sample, hsample⟩ := List.exists_mem_of_ne_nil _ hne
    obtain ⟨v, hv, -, -⟩ := exists_of_mem_samples hvalues hsample
    obtain ⟨front, w, rest, hs, hw⟩ := hvalues.exists_of_mem hv
    exact hasStyleAttribute_of_isStyleLiteral hs hw

/-- A text with style attributes whose quotes are of different kinds. -/
def mixedQuotes : List Char :=
  "className=\"\" className='a b\" className=\" \"className=\x60 c \x60".toList

/-- An empty text between quotes is no style text, so the search goes on inside; a blank one counts
as found but leaves no sample. -/
theorem samples_of_mixedQuotes : samples 6 mixedQuotes = ["a b", "c"] ∧
    samples 1 mixedQuotes <+: samples 6 mixedQuotes ∧ (∀ c ∈ "c".toList, ¬IsQuoteMark c) ∧
    (scan 6 mixedQuotes).usesStyleClasses = true ∧
    (scan 6 mixedQuotes).imports.has .styleEngine = true := by
  obtain ⟨values, -, -, heach, hlower, hevidence⟩ := samples_of_style_literals mixedQuotes
  have hsamples : samples 6 mixedQuotes = ["a b", "c"] := by decide +kernel
  have hne : samples 6 mixedQuotes ≠ [] := by
    rw [hsamples]
    exact List.cons_ne_nil _ _
  have hmem : "c" ∈ samples 6 mixedQuotes := by
    rw [hsamples]
    exact List.mem_cons_of_mem _ List.mem_cons_self
  obtain ⟨-, huses, hengine⟩ := hevidence 6
  exact ⟨hsamples, hlower 1 6 (by decide), (heach 6 "c" hmem).2.2.2, huses hne, hengine (huses hne)⟩

end Findings

end ScreenAtlas
