import ScreenAtlas.Json.Scalar
import ScreenAtlas.Json.Skip
import ScreenAtlas.Proofs.Json.Grammar
/-!
# Numbers are read by their grammar

Any numeral is cut from the text as its grammar says, and ends where a number ends. A natural number
is written in digits, without a zero in front, and is read back exactly where it fits 64 bits. No
other number is read as a natural number.

## Main statements

* `IsNumber.readNumeral_append` — the numerals of the grammar.
* `isNumber_toDigits` — the digits of a number of any size.
* `takes_natural` — reading a number that fits 64 bits.
* `lt_wordLimit_of_readNatural` — the numbers that are read.
-/
namespace ScreenAtlas.Json

/-! ## Digits -/

/-- A positive number does not start with a zero. -/
theorem head?_toDigits_ne {n : Nat} (hn : 0 < n) : (Nat.toDigits 10 n).head? ≠ some '0' := by
  induction n using Nat.strongRecOn with
  | ind n ih =>
      -- The first digit of a longer number is that of the number without its last digit.
      by_cases hsmall : n < 10
      · rw [Nat.toDigits_of_lt_base hsmall]
        have hdigit : ∀ m < 10, 0 < m → m.digitChar ≠ '0' := by decide
        simpa using hdigit n hsmall hn
      · rw [Nat.toDigits_of_base_le (by decide) (Nat.le_of_not_lt hsmall),
          List.head?_append]
        obtain ⟨c, s, hcons⟩ :=
          List.exists_cons_of_ne_nil (Nat.toDigits_ne_nil (b := 10) (n := n / 10))
        have hhead := ih (n / 10) (by omega) (by omega)
        rw [hcons, List.head?_cons] at hhead ⊢
        exact hhead

theorem isDigit_toDigits (n : Nat) : ∀ c ∈ Nat.toDigits 10 n, c.isDigit = true :=
  fun _ hc => Nat.isDigit_of_mem_toDigits (by decide) (by decide) hc

theorem digitsValue_toDigits (n : Nat) : digitsValue (Nat.toDigits 10 n) = n :=
  Nat.ofDigitChars_eq_foldl.symm.trans Nat.ofDigitChars_ten_toDigits

theorem isDigits_toDigits (n : Nat) : IsDigits (Nat.toDigits 10 n) :=
  ⟨Nat.toDigits_ne_nil, isDigit_toDigits n⟩

/-- Digits are told from anything else by the first of them. -/
theorem IsDigits.exists_cons {digits : List Char} (h : IsDigits digits) :
    ∃ c s, digits = c :: s ∧ c.isDigit = true := by
  obtain ⟨c, s, rfl⟩ := List.exists_cons_of_ne_nil h.1
  exact ⟨c, s, rfl, h.2 c List.mem_cons_self⟩

theorem isSpace_of_isDigit {c : Char} (h : c.isDigit = true) :
    isSpace c = false ∧ c ≠ ',' ∧ c ≠ ']' := by
  have hne : ∀ d, d.isDigit = false → c ≠ d := by
    rintro d hd rfl
    rw [h] at hd
    cases hd
  refine ⟨?_, hne ',' rfl, hne ']' rfl⟩
  simp [isSpace, hne ' ' rfl, hne '\t' rfl, hne '\n' rfl, hne '\r' rfl]

/-! ## Numerals -/

/-- Digits end where no digit follows. -/
theorem IsDigits.readDigits_append {digits : List Char} (h : IsDigits digits) (short : Fault)
    {rest : List Char} (hrest : ∀ c, rest.head? = some c → c.isDigit = false) :
    readDigits short (digits ++ rest) = .ok (digits, rest) := by
  obtain ⟨c, s, rfl, hc⟩ := h.exists_cons
  have htake : rest.takeWhile Char.isDigit = [] := by
    cases rest with
    | nil => rfl
    | cons d rest => exact List.takeWhile_cons_of_neg (by simp [hrest d rfl])
  have hdrop : rest.dropWhile Char.isDigit = rest := by
    cases rest with
    | nil => rfl
    | cons d rest => exact List.dropWhile_cons_of_neg (by simp [hrest d rfl])
  rw [List.cons_append, readDigits, if_pos hc, ← List.cons_append,
    List.takeWhile_append_of_pos h.2, List.dropWhile_append_of_pos h.2, htake, hdrop,
    List.append_nil]

theorem IsWhole.readWhole_append {digits : List Char} (h : IsWhole digits) (short : Fault)
    {rest : List Char} (hrest : ∀ c, rest.head? = some c → c.isDigit = false) :
    readWhole short (digits ++ rest) = .ok (digits, rest) := by
  simp only [readWhole, h.1.readDigits_append short hrest, bind, Except.bind]
  split
  · next c s => simpa using h.2 rfl
  · rfl

/-- A fraction ends where neither a point nor a digit follows. -/
theorem IsFraction.readFraction_append {fraction digits : List Char}
    (h : IsFraction fraction digits) (short : Fault) {rest : List Char}
    (hrest : ∀ c, rest.head? = some c → c.isDigit = false ∧ c ≠ '.') :
    readFraction short (fraction ++ rest) = .ok (digits, rest) := by
  cases h with
  | missing =>
      rw [List.nil_append]
      unfold readFraction
      split
      · exact absurd rfl (hrest '.' rfl).2
      · rfl
  | given h => exact h.readDigits_append short fun c hc => (hrest c hc).1

/-- An exponent ends where a number ends. -/
theorem IsExponent.readExponent_append {exponent : List Char}
    {exponent? : Option (Bool × List Char)} (h : IsExponent exponent exponent?) (short : Fault)
    {rest : List Char} (hrest : Ends rest) :
    readExponent short (exponent ++ rest) = .ok (exponent?, rest) := by
  cases h with
  | missing =>
      cases rest with
      | nil => rfl
      | cons c rest =>
          obtain ⟨-, -, he, hE⟩ := hrest c rfl
          simp [readExponent, he, hE]
  | @given e sign digits negative he hsign h =>
      have hread := h.readDigits_append short fun c hc => (hrest c hc).1
      cases hsign with
      | missing =>
          -- A digit is none of the signs.
          obtain ⟨c, s, rfl, hc⟩ := h.exists_cons
          unfold readExponent
          rw [List.cons_append] at hread
          simp only [List.cons_append, List.nil_append, if_pos he]
          split
          · next hminus => rw [(List.cons.inj hminus).1] at hc; cases hc
          · next hplus => rw [(List.cons.inj hplus).1] at hc; cases hc
          · simp only [hread, bind, Except.bind]
      | plus =>
          simp only [List.cons_append, List.nil_append, readExponent, if_pos he, hread, bind,
            Except.bind]
      | minus =>
          simp only [List.cons_append, List.nil_append, readExponent, if_pos he, hread, bind,
            Except.bind]

/-- What follows the digits before the exponent is told from them. -/
theorem IsExponent.head {exponent : List Char} {exponent? : Option (Bool × List Char)}
    (h : IsExponent exponent exponent?) {rest : List Char} (hrest : Ends rest) {c : Char}
    (hc : (exponent ++ rest).head? = some c) : c.isDigit = false ∧ c ≠ '.' := by
  cases h with
  | missing => exact ⟨(hrest c hc).1, (hrest c hc).2.1⟩
  | given he =>
      obtain rfl := Option.some.inj hc
      rcases he with rfl | rfl <;> decide

theorem IsFraction.head {fraction digits : List Char} (h : IsFraction fraction digits)
    {rest : List Char} (hrest : ∀ c, rest.head? = some c → c.isDigit = false) {c : Char}
    (hc : (fraction ++ rest).head? = some c) : c.isDigit = false := by
  cases h with
  | missing => exact hrest c hc
  | given h =>
      obtain rfl := Option.some.inj hc
      rfl

/-- **A numeral of the grammar** is cut from a text in front of which a number ends. -/
theorem IsNumber.readNumeral_append {text : List Char} {n : Numeral} (h : IsNumber text n)
    (short : Fault) {rest : List Char} (hrest : Ends rest) :
    readNumeral short (text ++ rest) = .ok (n, rest) := by
  cases h with
  | @intro sign whole fraction digits exponent negative exponent? hsign hwhole hfraction
      hexponent =>
      have hhead := fun c => hexponent.head hrest (c := c)
      have hreadWhole : readWhole short (whole ++ (fraction ++ (exponent ++ rest))) =
          .ok (whole, fraction ++ (exponent ++ rest)) :=
        hwhole.readWhole_append short fun c => hfraction.head fun c hc => (hhead c hc).1
      have hreadFraction := hfraction.readFraction_append short hhead
      have hreadExponent := hexponent.readExponent_append short hrest
      simp only [List.append_assoc]
      unfold readNumeral
      cases hsign with
      | missing =>
          -- A digit is no sign.
          obtain ⟨c, s, rfl, hc⟩ := hwhole.1.exists_cons
          rw [List.cons_append] at hreadWhole
          rw [List.nil_append, List.cons_append]
          split
          next heq =>
            split at heq
            · next hminus => rw [(List.cons.inj hminus).1] at hc; cases hc
            · obtain ⟨rfl, rfl⟩ := Prod.mk.inj heq
              simp only [hreadWhole, hreadFraction, hreadExponent, bind, Except.bind]
      | minus =>
          simp only [List.cons_append, List.nil_append, hreadWhole, hreadFraction, hreadExponent,
            bind, Except.bind]

/-- A numeral starts with a digit or a minus. -/
theorem IsNumber.exists_cons {text : List Char} {n : Numeral} (h : IsNumber text n) :
    ∃ c s, text = c :: s ∧ (c = '-' ∨ c.isDigit = true) ∧
      (isSpace c = false ∧ c ≠ ',' ∧ c ≠ ']') := by
  cases h with
  | intro hsign hwhole =>
      obtain ⟨c, s, rfl, hc⟩ := hwhole.1.exists_cons
      cases hsign with
      | missing => exact ⟨c, _, rfl, .inr hc, isSpace_of_isDigit hc⟩
      | minus => exact ⟨'-', _, rfl, .inl rfl, by decide⟩

/-- **The digits of a number** are a numeral without sign, point and exponent. -/
theorem isNumber_toDigits (n : Nat) :
    IsNumber (Nat.toDigits 10 n) ⟨false, Nat.toDigits 10 n, [], none⟩ := by
  have hzero : (Nat.toDigits 10 n).head? = some '0' → Nat.toDigits 10 n = ['0'] := by
    intro hhead
    have hn : n = 0 := by
      by_contra hne
      exact head?_toDigits_ne (Nat.pos_of_ne_zero hne) hhead
    rw [hn]
    rfl
  have h := IsNumber.intro .missing ⟨isDigits_toDigits n, hzero⟩ .missing .missing
  rwa [List.nil_append, List.append_nil, List.append_nil] at h

/-! ## Natural numbers -/

theorem readNumber_toDigits {n : Nat} (hn : n < wordLimit) {rest : List Char} (hrest : Ends rest) :
    readNumber (Nat.toDigits 10 n ++ rest) = .ok (.natural n, rest) := by
  have hvalue : Numeral.value ⟨false, Nat.toDigits 10 n, [], none⟩ = .ok (.natural n) := by
    simp [Numeral.value, digitsValue_toDigits, hn]
  simp only [readNumber, (isNumber_toDigits n).readNumeral_append .endInValue hrest, hvalue, bind,
    Except.bind]

/-- **A natural number that fits 64 bits** is read as it was written. -/
theorem takes_natural {n : Nat} (hn : n < wordLimit) :
    Takes readNatural (Nat.toDigits 10 n) n := by
  obtain ⟨c, s, hcons, hdigit⟩ := (isDigits_toDigits n).exists_cons
  have hopens := isSpace_of_isDigit hdigit
  refine ⟨⟨c, s, hcons, hopens⟩, fun blanks rest hblanks hrest => ?_⟩
  have hread := readNumber_toDigits hn hrest
  rw [hcons, List.cons_append] at hread ⊢
  rw [readNatural, skipSpace_append_cons hblanks hopens.1]
  simp only [hdigit, or_true, if_true, hread, bind, Except.bind]

theorem IsNaturalText.takes {text : List Char} {n : Nat} (h : IsNaturalText text n) :
    Takes readNatural text n := by
  obtain ⟨rfl, hn⟩ := h
  exact takes_natural hn

/-- The value of a numeral is a natural number only without a sign, a point and an exponent. -/
theorem Numeral.of_value_eq_natural {numeral : Numeral} {n : Nat}
    (h : numeral.value = .ok (.natural n)) :
    numeral.negative = false ∧ numeral.fraction = [] ∧ numeral.exponent = none ∧
      n < wordLimit := by
  unfold Numeral.value at h
  dsimp only at h
  split at h
  · next hfits =>
    obtain rfl := Number.natural.inj (Except.ok.inj h)
    exact ⟨hfits.2.2.1, hfits.1, hfits.2.1, hfits.2.2.2⟩
  · split at h
    · cases h
    · obtain ⟨x, -, h⟩ := of_bind_eq_ok h
      cases h

/-- A natural number that is read is the value of the numeral at the start of the text. -/
theorem exists_numeral_of_readNatural {s rest : List Char} {n : Nat}
    (h : readNatural s = .ok (n, rest)) :
    ∃ numeral : Numeral, readNumeral .endInValue (skipSpace s) = .ok (numeral, rest) ∧
      numeral.value = .ok (.natural n) := by
  unfold readNatural at h
  split at h
  · cases h
  · next c s' hspace =>
    split at h
    · obtain ⟨⟨number, rest'⟩, hnumber, h⟩ := of_bind_eq_ok h
      obtain ⟨⟨numeral, rest''⟩, hnumeral, hnumber⟩ := of_bind_eq_ok hnumber
      obtain ⟨number', hvalue, hnumber⟩ := of_bind_eq_ok hnumber
      obtain ⟨rfl, rfl⟩ := Prod.mk.inj (Except.ok.inj hnumber)
      cases number' with
      | natural m =>
          obtain ⟨rfl, rfl⟩ := Prod.mk.inj (Except.ok.inj h)
          exact ⟨numeral, hspace ▸ hnumeral, hvalue⟩
      | negative m => cases h
      | float x => cases h
    · cases h

/-- **Natural numbers that are read fit 64 bits.** -/
theorem lt_wordLimit_of_readNatural {s rest : List Char} {n : Nat}
    (h : readNatural s = .ok (n, rest)) : n < wordLimit := by
  obtain ⟨numeral, -, hvalue⟩ := exists_numeral_of_readNatural h
  exact (Numeral.of_value_eq_natural hvalue).2.2.2

/-- A number with a sign is not read as a natural number, not even minus zero. -/
theorem IsNumber.readNatural_ne_ok {text : List Char} {numeral : Numeral} (h : IsNumber text numeral)
    (hnegative : numeral.negative = true) {rest : List Char} (hrest : Ends rest)
    (r : Nat × List Char) : readNatural (text ++ rest) ≠ .ok r := by
  intro hread
  obtain ⟨numeral', hnumeral, hvalue⟩ := exists_numeral_of_readNatural hread
  obtain ⟨c, s, rfl, -, hspace, -⟩ := h.exists_cons
  have hsame := h.readNumeral_append .endInValue hrest
  rw [List.cons_append] at hsame hnumeral
  rw [skipSpace_cons hspace, hsame] at hnumeral
  obtain ⟨rfl, -⟩ := Prod.mk.inj (Except.ok.inj hnumeral)
  rw [(Numeral.of_value_eq_natural hvalue).1] at hnegative
  cases hnegative

end ScreenAtlas.Json
