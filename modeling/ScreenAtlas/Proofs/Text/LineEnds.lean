import ScreenAtlas.Proofs.Text.Trim
/-!
# Line ends

Files are written with a line feed at the end of a line, or with a carriage return in front of it.
Both characters are blank, so trimming treats the two alike.

## Main definitions

* `withReturns` — a text with a carriage return in front of every line feed.

## Main statements

* `trim_withReturns` — trimming leaves the line ends of what is left.
-/
namespace ScreenAtlas.Text

variable {s t : List Char} {c : Char}

/-- The text with a carriage return in front of every line feed. -/
def withReturns (s : List Char) : List Char :=
  s.flatMap fun c => if c = '\n' then ['\r', '\n'] else [c]

@[simp] theorem withReturns_nil : withReturns [] = [] := rfl

theorem withReturns_newline (s : List Char) :
    withReturns ('\n' :: s) = '\r' :: '\n' :: withReturns s := rfl

theorem withReturns_cons (h : c ≠ '\n') (s : List Char) :
    withReturns (c :: s) = c :: withReturns s := by
  rw [withReturns, List.flatMap_cons, if_neg h]
  rfl

theorem withReturns_append (s t : List Char) :
    withReturns (s ++ t) = withReturns s ++ withReturns t :=
  List.flatMap_append

/-- A text without line feeds is left as it is. -/
theorem withReturns_of_notMem (h : '\n' ∉ s) : withReturns s = s := by
  induction s with
  | nil => rfl
  | cons c s ih =>
      obtain ⟨hc, hs⟩ := not_or.mp fun hmem => h (List.mem_cons.mpr hmem)
      rw [withReturns_cons (Ne.symm hc), ih hs]

theorem withReturns_eq_nil_iff : withReturns s = [] ↔ s = [] := by
  cases s with
  | nil => simp
  | cons c s => by_cases h : c = '\n' <;> simp [withReturns, h]

/-- What a line feed and a carriage return both have, and each other character of the text. -/
theorem forall_mem_withReturns_iff {P : Char → Prop} (h : P '\r' ↔ P '\n') :
    (∀ c ∈ withReturns s, P c) ↔ ∀ c ∈ s, P c := by
  induction s with
  | nil => simp
  | cons c s ih =>
      by_cases hc : c = '\n'
      · rw [hc, withReturns_newline]
        simp only [List.forall_mem_cons, ih, h, ← and_assoc, and_self]
      · rw [withReturns_cons hc, List.forall_mem_cons, List.forall_mem_cons, ih]

theorem isTrimmed_withReturns (h : IsTrimmed s t) : IsTrimmed (withReturns s) (withReturns t) := by
  have hblank : isBlank '\r' = true ↔ isBlank '\n' = true := by decide
  have hne : ∀ {c}, isBlank c = false → c ≠ '\n' := by
    rintro c hc rfl
    cases hc
  constructor
  case exists_append =>
    obtain ⟨a, b, rfl, ha, hb⟩ := h.exists_append
    refine ⟨withReturns a, withReturns b, by rw [withReturns_append, withReturns_append], ?_, ?_⟩
    · exact (forall_mem_withReturns_iff hblank).mpr ha
    · exact (forall_mem_withReturns_iff hblank).mpr hb
  case head =>
    cases t with
    | nil => exact h.head
    | cons c t =>
        rw [withReturns_cons (hne (h.head c rfl))]
        exact h.head
  case last =>
    rcases List.eq_nil_or_concat' t with rfl | ⟨t, c, rfl⟩
    · exact h.last
    · have hc := h.last c (by simp)
      rw [withReturns_append, withReturns_cons (hne hc)]
      simpa using hc

/-- **Trimming leaves the line ends** of what is left. -/
theorem trim_withReturns (s : List Char) : trim (withReturns s) = withReturns (trim s) :=
  (isTrimmed_iff.mp (isTrimmed_withReturns (isTrimmed_trim s))).symm

end ScreenAtlas.Text
