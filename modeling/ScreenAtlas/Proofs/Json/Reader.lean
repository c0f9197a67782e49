import Mathlib.Data.List.TakeWhile
import ScreenAtlas.Json.Collection
/-!
# Texts that a reader takes

A reader passes over the blanks in front of a value, and what it takes does not depend on what
stands behind, as long as a number would not go on there. The value of a text is therefore the same
wherever the text stands.

## Main definitions

* `IsBlank` — the texts made of blanks.
* `Ends` — the texts in front of which a number ends.
* `Takes` — a text that a reader takes for a value.
* `Lead`, `IsColon` — what stands in front of an element or a member, and behind a key.

## Main statements

* `Takes.decode_append` — a text that is taken as a whole.
* `nextElement_lead`, `nextMember_lead`, `readColon_append` — what stands between values.
-/
namespace ScreenAtlas.Json

/-- A text made of blanks. -/
def IsBlank (blanks : List Char) : Prop :=
  ∀ c ∈ blanks, isSpace c = true

/-- A text in front of which a number ends. -/
def Ends (rest : List Char) : Prop :=
  ∀ c, rest.head? = some c → c.isDigit = false ∧ c ≠ '.' ∧ c ≠ 'e' ∧ c ≠ 'E'

/-- The reader takes the text for the value, with blanks in front of it. -/
structure Takes {α : Type} (read : Reader α) (text : List Char) (a : α) : Prop where
  /-- A value starts with none of the characters that stand between values. -/
  starts : ∃ c s, text = c :: s ∧ isSpace c = false ∧ c ≠ ',' ∧ c ≠ ']'
  read : ∀ blanks rest, IsBlank blanks → Ends rest → read (blanks ++ (text ++ rest)) = .ok (a, rest)

/-- What a step that succeeded was made of. -/
theorem of_bind_eq_ok {ε α β : Type} {x : Except ε α} {f : α → Except ε β} {b : β}
    (h : x >>= f = .ok b) : ∃ a, x = .ok a ∧ f a = .ok b := by
  cases x with
  | error e => cases h
  | ok a => exact ⟨a, rfl, h⟩

/-! ## Blanks -/

theorem isBlank_nil : IsBlank [] :=
  fun _ h => absurd h List.not_mem_nil

theorem isBlank_replicate (n : Nat) {c : Char} (hc : isSpace c = true) :
    IsBlank (List.replicate n c) := by
  intro d hd
  rwa [List.eq_of_mem_replicate hd]

theorem skipSpace_append {blanks : List Char} (h : IsBlank blanks) (s : List Char) :
    skipSpace (blanks ++ s) = skipSpace s :=
  List.dropWhile_append_of_pos h

theorem skipSpace_cons {c : Char} (hc : isSpace c = false) (s : List Char) :
    skipSpace (c :: s) = c :: s :=
  List.dropWhile_cons_of_neg (by simp [hc])

/-- The first character behind blanks. -/
theorem skipSpace_append_cons {blanks : List Char} (h : IsBlank blanks) {c : Char}
    (hc : isSpace c = false) (s : List Char) : skipSpace (blanks ++ c :: s) = c :: s := by
  rw [skipSpace_append h, skipSpace_cons hc]

theorem ends_nil : Ends [] := by
  intro c hc
  cases hc

theorem ends_cons {c : Char} (hc : c.isDigit = false ∧ c ≠ '.' ∧ c ≠ 'e' ∧ c ≠ 'E')
    (s : List Char) : Ends (c :: s) := by
  intro d hd
  obtain rfl := Option.some.inj hd
  exact hc

/-- A number ends in front of blanks. -/
theorem ends_append {blanks s : List Char} (h : IsBlank blanks) (hs : Ends s) :
    Ends (blanks ++ s) := by
  cases blanks with
  | nil => exact hs
  | cons c blanks =>
      have hc : isSpace c = true := h c List.mem_cons_self
      simp only [isSpace, Bool.or_eq_true, beq_iff_eq] at hc
      refine ends_cons ?_ _
      rcases hc with ((rfl | rfl) | rfl) | rfl <;> decide

/-- **A text that is taken as a whole**, with blanks around it. -/
theorem Takes.decode_append {α : Type} {read : Reader α} {text : List Char} {a : α}
    (h : Takes read text a) {before after : List Char} (hbefore : IsBlank before)
    (hafter : IsBlank after) : decode read (before ++ (text ++ after)) = .ok a := by
  have hends : Ends after := by
    have hends := ends_append hafter ends_nil
    rwa [List.append_nil] at hends
  have hend : skipSpace after = [] := by
    have hend := skipSpace_append hafter []
    rwa [List.append_nil] at hend
  simp only [decode, h.read before after hbefore hends, hend, bind, Except.bind]

theorem Takes.decode_eq {α : Type} {read : Reader α} {text : List Char} {a : α}
    (h : Takes read text a) : decode read text = .ok a := by
  have hdecode := h.decode_append isBlank_nil isBlank_nil
  rwa [List.nil_append, List.append_nil] at hdecode

/-- A value that is made of one that was taken. -/
theorem Takes.map {α β : Type} {read : Reader α} {text : List Char} {a : α}
    (h : Takes read text a) (f : α → β) :
    Takes (fun s => do
      let (v, rest) ← read s
      .ok (f v, rest)) text (f a) where
  starts := h.starts
  read blanks rest hblanks hrest := by
    simp only [h.read blanks rest hblanks hrest, bind, Except.bind]

theorem Takes.length_pos {α : Type} {read : Reader α} {text : List Char} {a : α}
    (h : Takes read text a) : 0 < text.length := by
  obtain ⟨c, s, rfl, -⟩ := h.starts
  exact Nat.succ_pos _

/-! ## Between values -/

/-- What stands in front of an element or a member: blanks, and a comma unless it is the first. -/
inductive Lead : Bool → List Char → Prop
  | first {blanks : List Char} (h : IsBlank blanks) : Lead true blanks
  | later {before after : List Char} (h : IsBlank before) (h' : IsBlank after) :
      Lead false (before ++ ',' :: after)

/-- What stands between a key and its value. -/
inductive IsColon : List Char → Prop
  | intro {before after : List Char} (h : IsBlank before) (h' : IsBlank after) :
      IsColon (before ++ ':' :: after)

/-- A number ends in front of a later element. -/
theorem Lead.ends {lead : List Char} (h : Lead false lead) (s rest : List Char) :
    Ends (lead ++ s ++ rest) := by
  cases h with
  | later h h' =>
      rw [List.append_assoc, List.append_assoc]
      exact ends_append h (ends_cons (by decide) _)

/-- A number ends in front of a closing bracket. -/
theorem ends_close {blanks : List Char} (h : IsBlank blanks) {c : Char}
    (hc : c.isDigit = false ∧ c ≠ '.' ∧ c ≠ 'e' ∧ c ≠ 'E') (rest : List Char) :
    Ends (blanks ++ [c] ++ rest) := by
  rw [List.append_assoc]
  exact ends_append h (ends_cons hc _)

theorem IsColon.ends {colon : List Char} (h : IsColon colon) (s : List Char) :
    Ends (colon ++ s) := by
  cases h with
  | intro h h' =>
      rw [List.append_assoc]
      exact ends_append h (ends_cons (by decide) _)

/-- The next element starts behind its lead. -/
theorem nextElement_lead {first : Bool} {lead : List Char} (h : Lead first lead) {c : Char}
    (hc : isSpace c = false ∧ c ≠ ',' ∧ c ≠ ']') (s : List Char) :
    nextElement first (lead ++ c :: s) = .ok (.more (c :: s)) := by
  obtain ⟨hspace, hcomma, hbracket⟩ := hc
  cases h with
  | first h =>
      rw [nextElement, skipSpace_append_cons h hspace]
      split <;> simp_all
  | later h h' =>
      rw [nextElement, List.append_assoc, List.cons_append, skipSpace_append_cons h (by decide)]
      simp only [Bool.false_eq_true, if_false, skipSpace_append_cons h' hspace]
      split <;> simp_all

theorem nextElement_close (first : Bool) {blanks : List Char} (h : IsBlank blanks)
    (s : List Char) : nextElement first (blanks ++ ']' :: s) = .ok (.closed s) := by
  rw [nextElement, skipSpace_append_cons h (by decide)]
  rfl

/-- The next member starts behind its lead. -/
theorem nextMember_lead {first : Bool} {lead : List Char} (h : Lead first lead) (s : List Char) :
    nextMember first (lead ++ '"' :: s) = .ok (.more ('"' :: s)) := by
  cases h with
  | first h =>
      rw [nextMember, skipSpace_append_cons h (by decide)]
      rfl
  | later h h' =>
      rw [nextMember, List.append_assoc, List.cons_append, skipSpace_append_cons h (by decide)]
      simp only [Bool.false_eq_true, if_false, skipSpace_append_cons h' (c := '"') (by decide)]
      rfl

theorem nextMember_close (first : Bool) {blanks : List Char} (h : IsBlank blanks)
    (s : List Char) : nextMember first (blanks ++ '\x7d' :: s) = .ok (.closed s) := by
  rw [nextMember, skipSpace_append_cons h (by decide)]
  rfl

/-- Behind a colon there may be blanks in front of the value. -/
theorem readColon_append {colon : List Char} (h : IsColon colon) :
    ∃ blanks, IsBlank blanks ∧ ∀ s, readColon (colon ++ s) = .ok (blanks ++ s) := by
  cases h with
  | @intro before after h h' =>
      refine ⟨after, h', fun s => ?_⟩
      rw [readColon, List.append_assoc, List.cons_append, skipSpace_append_cons h (by decide)]
      rfl

end ScreenAtlas.Json
