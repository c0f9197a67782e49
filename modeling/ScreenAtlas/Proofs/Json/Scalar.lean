import ScreenAtlas.Proofs.Json.Number
import ScreenAtlas.Proofs.Json.Text
import ScreenAtlas.Proofs.Vocabulary
/-!
# Words are read as they were written

Truth values, `null`, values that may be missing, and the words of vocabularies.

## Main statements

* `takes_boolean`, `takes_none`, `takes_some` — truth values and values that may be missing.
* `IsQuoted.takes_variant` — the words of a vocabulary.
-/
namespace ScreenAtlas.Json

theorem readWord_append (word rest : List Char) : readWord word (word ++ rest) = .ok rest := by
  induction word with
  | nil => cases rest <;> rfl
  | cons c word ih =>
      rw [List.cons_append, readWord, if_pos rfl]
      exact ih

section
variable {α : Type} {read : Reader α}

/-- A value with a word of its own is read by the letters of the word. -/
theorem takes_word {c : Char} {word : List Char} {a : α}
    (hc : isSpace c = false ∧ c ≠ ',' ∧ c ≠ ']')
    (hread : ∀ s t, skipSpace s = c :: t →
      read s = readWord word t >>= fun rest => .ok (a, rest)) : Takes read (c :: word) a where
  starts := ⟨c, word, rfl, hc⟩
  read blanks rest hblanks _ := by
    rw [List.cons_append, hread _ _ (skipSpace_append_cons hblanks hc.1 _), readWord_append]
    rfl

/-- A truth value is read as it was written. -/
theorem takes_boolean (b : Bool) :
    Takes readBoolean (if b then "true" else "false").toList b := by
  cases b with
  | true =>
      change Takes readBoolean ('t' :: "rue".toList) true
      exact takes_word (by decide) fun _ _ h => by rw [readBoolean, h]; rfl
  | false =>
      change Takes readBoolean ('f' :: "alse".toList) false
      exact takes_word (by decide) fun _ _ h => by rw [readBoolean, h]; rfl

/-! ## Values that may be missing -/

/-- No value is read as `null`. -/
theorem takes_none : Takes (readOptional read) "null".toList none := by
  change Takes (readOptional read) ('n' :: "ull".toList) none
  exact takes_word (by decide) fun _ _ h => by rw [readOptional, h]; rfl

/-- A value whose text does not look like `null` is read for itself. -/
theorem takes_some {text : List Char} {a : α} (h : Takes read text a)
    (hnull : text.head? ≠ some 'n') : Takes (readOptional read) text (some a) where
  starts := h.starts
  read blanks rest hblanks hrest := by
    have hread := h.read [] rest isBlank_nil hrest
    obtain ⟨c, s, rfl, hspace, -⟩ := h.starts
    have hc : c ≠ 'n' := fun hc => hnull (congrArg some hc)
    rw [List.nil_append] at hread
    rw [List.cons_append] at hread ⊢
    rw [readOptional, skipSpace_append_cons hblanks hspace]
    split
    · next heq => exact absurd (List.cons.inj heq).1 hc
    · rw [hread]
      rfl

end

/-! ## Words of vocabularies -/

section
variable {α : Type} [Vocabulary α] [LawfulVocabulary α]

theorem variantOf_name (a : α) : variantOf α (Vocabulary.name a) = .ok a := by
  rw [variantOf, LawfulVocabulary.ofName?_name]

/-- **A word of a vocabulary** is read from its name. -/
theorem IsQuoted.takes_variant {text : List Char} {a : α}
    (h : IsQuoted text (Vocabulary.name a).toList) : Takes (readVariant α) ('"' :: text) a where
  starts := ⟨'"', text, rfl, by decide⟩
  read blanks rest hblanks _ := by
    rw [List.cons_append, readVariant, skipSpace_append_cons hblanks (by decide)]
    change (readChars (text ++ rest) >>= fun p =>
      variantOf α (String.ofList p.1) >>= fun a => .ok (a, p.2)) = _
    rw [h.read]
    change (variantOf α (String.ofList (Vocabulary.name a).toList) >>= fun a => .ok (a, rest)) = _
    rw [String.ofList_toList, variantOf_name]
    rfl

end

end ScreenAtlas.Json
