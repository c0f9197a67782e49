import ScreenAtlas.Proofs.Findings
import ScreenAtlas.Proofs.Pattern.Search
/-!
# The declared name

A file's name is taken from a declaration. There are three forms of declaration, and the most
telling one that occurs anywhere in the text counts, whatever stands in front of it. Of its
occurrences the leftmost one counts, and the name is a whole word there.

## Main definitions

* `DeclarationForm` — a form of declaration by its words and marks.
* `DeclarationForm.Declares` — the declarations of a form, each with its name.
* `IsWholeWord` — a word that cannot be made longer where it stands.

## Main statements

* `DeclarationForm.spells_pattern` — declarations are the texts of their patterns.
* `declaredName?_by_form` — the declared name of any text.
-/
namespace ScreenAtlas

/-- A run of blank characters that is not empty. -/
def IsGap (b : List Char) : Prop :=
  b ≠ [] ∧ ∀ c ∈ b, Text.isBlank c = true

/-- The word stands in the text behind a blank character, and no character of a word follows it. -/
structure IsWholeWord (before : List Char) (name : String) (after : List Char) : Prop where
  isWord : IsWord name
  before : ∃ c ∈ before.getLast?, Text.isBlank c = true
  after : ∀ c ∈ after.head?, CharClass.word.has c = false

/-- A form of declaration: the words in front of the name, with gaps behind them, and the marks
behind it, with any blank characters in front of them. -/
structure DeclarationForm where
  words : List String
  marks : List String

namespace DeclarationForm

/-- The form `export default function Name`. -/
def exported : DeclarationForm := ⟨["export", "default", "function"], []⟩

/-- The form `function Name(`. -/
def function : DeclarationForm := ⟨["function"], ["("]⟩

/-- The form `const Name = (`. -/
def constant : DeclarationForm := ⟨["const"], ["=", "("]⟩

/-- The forms, the most telling one first. -/
def all : List DeclarationForm := [exported, function, constant]

/-- What stands in front of a name: the words, with a gap behind each. -/
def IsLead : List String → List Char → Prop
  | [], lead => lead = []
  | word :: words, lead => ∃ b rest, lead = word.toList ++ b ++ rest ∧ IsGap b ∧ IsLead words rest

/-- What stands behind a name: the marks, with any blank characters in front of each. -/
def IsTail : List String → List Char → Prop
  | [], tail => tail = []
  | mark :: marks, tail => ∃ b rest, tail = b ++ mark.toList ++ rest ∧
      (∀ c ∈ b, Text.isBlank c = true) ∧ IsTail marks rest

/-- The declarations of the form, each with its name. -/
def Declares (form : DeclarationForm) : Form := fun w name =>
  ∃ lead tail, w = lead ++ name ++ tail ∧ IsLead form.words lead ∧
    (name ≠ [] ∧ ∀ c ∈ name, CharClass.word.has c = true) ∧ IsTail form.marks tail

/-- The pattern of a form. -/
def pattern (form : DeclarationForm) : Pattern :=
  form.words.flatMap (fun word => Pattern.lit word ++ [.run₁ .blank]) ++
    .capture .word :: form.marks.flatMap fun mark => .run .blank :: Pattern.lit mark

variable {form : DeclarationForm} {s w name : List Char}

/-- The patterns of the checklist are those of the forms. -/
theorem declarations_eq : Checklist.declarations = all.map pattern := by
  simp [Checklist.declarations, all, pattern, exported, function, constant]

/-! ## Declarations as texts of a pattern -/

theorem spells_words_append {words : List String} {p : Pattern} :
    Pattern.Spells (words.flatMap (fun word => Pattern.lit word ++ [.run₁ .blank]) ++ p) w name ↔
      ∃ lead w', w = lead ++ w' ∧ IsLead words lead ∧ p.Spells w' name := by
  induction words generalizing w with
  | nil => simp [IsLead]
  | cons word words ih =>
      simp only [List.flatMap_cons, List.append_assoc, Pattern.spells_lit_append, List.cons_append,
        List.nil_append, Pattern.spells_run₁, ih, IsLead]
      constructor
      · rintro ⟨_, rfl, b, _, rfl, hb, lead, w', rfl, hlead, hw'⟩
        exact ⟨_, w', by simp, ⟨b, lead, rfl, hb, hlead⟩, hw'⟩
      · rintro ⟨_, w', rfl, ⟨b, lead, rfl, hb, hlead⟩, hw'⟩
        exact ⟨_, by simp, b, _, rfl, hb, lead, w', rfl, hlead, hw'⟩

theorem spells_marks {marks : List String} :
    Pattern.Spells (marks.flatMap fun mark => .run .blank :: Pattern.lit mark) w name ↔
      IsTail marks w ∧ name = [] := by
  induction marks generalizing w with
  | nil => rfl
  | cons mark marks ih =>
      simp only [List.flatMap_cons, List.cons_append, Pattern.spells_run, Pattern.spells_lit_append,
        ih, IsTail]
      constructor
      · rintro ⟨b, _, rfl, hb, rest, rfl, hrest, rfl⟩
        exact ⟨⟨b, rest, by simp, hb, hrest⟩, rfl⟩
      · rintro ⟨⟨b, rest, rfl, hb, hrest⟩, rfl⟩
        exact ⟨b, mark.toList ++ rest, by simp, hb, rest, rfl, hrest, rfl⟩

/-- **Declarations** are the texts of their patterns. -/
theorem spells_pattern : form.pattern.Spells w name ↔ form.Declares w name := by
  simp only [pattern, spells_words_append, Pattern.spells_capture, spells_marks, Declares]
  constructor
  · rintro ⟨lead, _, rfl, hlead, tail, _, rfl, hname, htail, -⟩
    exact ⟨lead, tail, by simp, hlead, hname, htail⟩
  · rintro ⟨lead, tail, rfl, hlead, hname, htail⟩
    exact ⟨lead, _, by simp, hlead, tail, [], rfl, hname, htail, rfl⟩

theorem spells_pattern_eq (form : DeclarationForm) : form.pattern.Spells = form.Declares := by
  funext w name
  exact propext spells_pattern

theorem firm_pattern : ∀ form ∈ all, form.pattern.firm = true := by decide

theorem words_ne_nil : ∀ form ∈ all, form.words ≠ [] := by decide

/-! ## Names in a declaration -/

/-- A lead ends in a gap. -/
theorem exists_getLast?_lead {words : List String} (hwords : words ≠ []) {lead : List Char}
    (h : IsLead words lead) : ∃ c ∈ lead.getLast?, Text.isBlank c = true := by
  induction words generalizing lead with
  | nil => exact absurd rfl hwords
  | cons word words ih =>
      obtain ⟨b, rest, rfl, ⟨hne, hb⟩, hrest⟩ := h
      cases words with
      | nil =>
          obtain rfl : rest = [] := hrest
          obtain ⟨b, c, rfl⟩ := (List.eq_nil_or_concat' b).resolve_left hne
          exact ⟨c, by simp, hb c (by simp)⟩
      | cons word' words =>
          obtain ⟨c, hc, hblank⟩ := ih (List.cons_ne_nil _ _) hrest
          exact ⟨c, List.mem_getLast?_append_of_mem_getLast? hc, hblank⟩

/-- A declaration is matched up to its end if no character of a word follows the name: a mark does
this for a form that has some. -/
theorem ends_pattern (hform : form ∈ all) {tail : List Char} (htail : IsTail form.marks tail)
    (rest : List Char) : form.pattern.Ends rest ↔ CharClass.word.StopsAt (tail ++ rest) := by
  have hmarks : ∀ {marks : List String}, IsTail marks tail →
      (Pattern.shuns .word (marks.flatMap fun mark => .run .blank :: Pattern.lit mark)) = true →
      CharClass.word.StopsAt (tail ++ rest) :=
    fun htail hshuns => Pattern.stopsAt_of_shuns hshuns (spells_marks.mpr ⟨htail, rfl⟩) rest
  have hends : form.pattern.lastRun? = none → form.pattern.Ends rest := fun hlast k hk => by
    rw [hlast] at hk
    cases hk
  simp only [all, List.mem_cons, List.not_mem_nil, or_false] at hform
  obtain rfl | rfl | rfl := hform
  · obtain rfl : tail = [] := htail
    have hlast : exported.pattern.lastRun? = some .word := rfl
    simp [Pattern.Ends, hlast]
  · exact iff_of_true (hends rfl) (hmarks htail (by decide))
  · exact iff_of_true (hends rfl) (hmarks htail (by decide))

/-- The leftmost match of a form's pattern captures the name of its leftmost declaration. -/
theorem first?_pattern_eq_some_iff (hform : form ∈ all) {name : String} :
    (form.pattern.first? s).map (fun m => String.ofList m.captured) = some name ↔
      ∃ front lead tail rest, s = front ++ (lead ++ name.toList ++ tail) ++ rest ∧
        IsLead form.words lead ∧ IsTail form.marks tail ∧
        form.Declares.FreeBefore front.length s ∧
        IsWholeWord (front ++ lead) name (tail ++ rest) := by
  have hfirm := firm_pattern form hform
  simp only [Option.map_eq_some_iff, Pattern.first?_eq_some_iff hfirm, spells_pattern_eq]
  constructor
  · rintro ⟨m, ⟨front, w, rest, hs, -, ⟨lead, tail, rfl, hlead, hname, htail⟩, hends, hfree⟩, rfl⟩
    obtain ⟨c, hc, hblank⟩ := exists_getLast?_lead (words_ne_nil form hform) hlead
    refine ⟨front, lead, tail, rest, by rw [String.toList_ofList, hs], hlead, htail, hfree, ?_⟩
    constructor
    case isWord =>
      rw [IsWord, String.toList_ofList]
      exact ⟨fun hempty => hname.1 (by simpa using congrArg String.toList hempty), hname.2⟩
    case before => exact ⟨c, List.mem_getLast?_append_of_mem_getLast? hc, hblank⟩
    case after => exact (ends_pattern hform htail rest).mp hends
  · rintro ⟨front, lead, tail, rest, hs, hlead, htail, hfree, hword⟩
    have hname : name.toList ≠ [] := fun hempty =>
      hword.isWord.1 (String.toList_eq_nil_iff.mp hempty)
    refine ⟨⟨(lead ++ name.toList ++ tail).length, name.toList⟩, ⟨front, _, rest, hs, rfl, ?_, ?_,
      hfree⟩, String.ofList_toList⟩
    · exact ⟨lead, tail, rfl, hlead, ⟨hname, hword.isWord.2⟩, htail⟩
    · exact (ends_pattern hform htail rest).mpr hword.after

/-- The pattern of a form is found nowhere exactly where no declaration of the form stands. -/
theorem first?_pattern_eq_none_iff (hform : form ∈ all) :
    (form.pattern.first? s).map (fun m => String.ofList m.captured) = none ↔
      ¬form.Declares.OccursIn s := by
  rw [Option.map_eq_none_iff, Pattern.first?_eq_none_iff_not_occursIn (firm_pattern form hform),
    spells_pattern_eq]

end DeclarationForm

namespace Findings

theorem declaredName?_eq (s : List Char) : declaredName? s =
    DeclarationForm.all.findSome? fun form =>
      (form.pattern.first? s).map fun m => String.ofList m.captured := by
  rw [declaredName?, DeclarationForm.declarations_eq, List.findSome?_map]
  rfl

/-- **The declared name of any text.** There is none exactly where no declaration of any form stands
in the text. Otherwise it is read off the first of the forms that occurs anywhere: off the leftmost
declaration of this form, where it is a whole word. -/
theorem declaredName?_by_form (s : List Char) :
    (declaredName? s = none ↔ ∀ form ∈ DeclarationForm.all, ¬form.Declares.OccursIn s) ∧
    ∀ name, declaredName? s = some name ↔
      ∃ above form below, DeclarationForm.all = above ++ form :: below ∧
        (∀ f ∈ above, ¬f.Declares.OccursIn s) ∧
        ∃ front lead tail rest, s = front ++ (lead ++ name.toList ++ tail) ++ rest ∧
          DeclarationForm.IsLead form.words lead ∧ DeclarationForm.IsTail form.marks tail ∧
          form.Declares.FreeBefore front.length s ∧
          IsWholeWord (front ++ lead) name (tail ++ rest) := by
  rw [declaredName?_eq]
  constructor
  · rw [List.findSome?_eq_none_iff]
    exact forall₂_congr fun form hform => DeclarationForm.first?_pattern_eq_none_iff hform
  · intro name
    rw [List.findSome?_eq_some_iff]
    refine exists_congr fun above => exists_congr fun form => exists_congr fun below => ?_
    refine and_congr_right fun hall => ?_
    have habove : ∀ f ∈ above, f ∈ DeclarationForm.all := fun f hf => by
      rw [hall]
      exact List.mem_append_left _ hf
    have hform : form ∈ DeclarationForm.all := by
      rw [hall]
      exact List.mem_append_right _ List.mem_cons_self
    rw [DeclarationForm.first?_pattern_eq_some_iff hform, and_comm]
    refine and_congr_left fun _ => forall₂_congr fun f hf => ?_
    exact DeclarationForm.first?_pattern_eq_none_iff (habove f hf)

/-- The form counts and not the place, and a word that is followed by no mark is no name. -/
example : declaredName? "const A = (\nfunction B C(\nfunction D\n(x_1".toList = some "D" := by
  decide +kernel

end Findings

end ScreenAtlas
