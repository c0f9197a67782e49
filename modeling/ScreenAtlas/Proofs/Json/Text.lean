import Mathlib.Tactic.IntervalCases
import ScreenAtlas.Json.Scalar
import ScreenAtlas.Json.Value
import ScreenAtlas.Proofs.Json.Grammar
/-!
# Strings are read by their grammar

The inside of a string is read character by character, each as itself or as an escape, for what it
stands for. The closing quote ends the string, since no quote stands for itself. A string that is
passed over is only looked through for its end. Written strings are among the strings of the
grammar.

## Main definitions

* `IsQuoted` — the text of a string behind its opening quote.
* `Closes` — such a text that need not stand for anything.

## Main statements

* `IsInside.closes`, `StandsFor.isQuoted` — the strings of the grammar.
* `IsInside.standsFor` — the strings that were read.
* `standsFor_write` — the written form of a string.
* `IsQuoted.takes` — reading a string.
-/
namespace ScreenAtlas.Json

/-- The text of a string behind its opening quote, its closing quote included. -/
structure IsQuoted (text : List Char) (s : List Char) : Prop where
  read : ∀ rest, readChars (text ++ rest) = .ok (s, rest)

/-- The text behind an opening quote is passed over up to its closing quote. -/
def Closes (text : List Char) : Prop :=
  ∀ rest, skipChars (text ++ rest) = .ok rest

/-! ## Escapes -/

theorem IsHexDigit.hexDigit?_eq {c : Char} {n : Nat} (h : IsHexDigit c n) :
    hexDigit? c = some n := by
  have hdigits : ∀ n < 16,
      hexDigit? n.digitChar = some n ∧ hexDigit? n.digitChar.toUpper = some n := by decide
  obtain ⟨hn, rfl | rfl⟩ := h
  · exact (hdigits n hn).1
  · exact (hdigits n hn).2

theorem IsUnit.length_eq {u : List Char} {n : Nat} (h : IsUnit u n) : u.length = 4 := by
  cases h
  rfl

theorem IsUnit.readUnit_append {u : List Char} {n : Nat} (h : IsUnit u n) (s : List Char) :
    readUnit (u ++ s) = .ok n := by
  cases h with
  | intro ha hb hc hd =>
      simp only [List.cons_append, readUnit, hexUnit?, ha.hexDigit?_eq, hb.hexDigit?_eq,
        hc.hexDigit?_eq, hd.hexDigit?_eq, bind, Option.bind, pure]

theorem letterEscape?_of_mem :
    ∀ p ∈ letterEscapes, letterEscape? p.1 = some p.2 ∧ p.1 ≠ 'u' := by
  decide

theorem readEscape_letter {e c : Char} (he : (e, c) ∈ letterEscapes) (s : List Char) :
    readEscape (e :: s) = .ok (c, 1) := by
  obtain ⟨hletter, hne⟩ := letterEscape?_of_mem _ he
  unfold readEscape
  split
  · next heq => cases heq
  · next heq => exact absurd (List.cons.inj heq).1 hne
  · next heq =>
    obtain ⟨rfl, -⟩ := List.cons.inj heq
    rw [hletter]

theorem skipEscape_letter {e c : Char} (he : (e, c) ∈ letterEscapes) (s : List Char) :
    skipEscape (e :: s) = .ok 1 := by
  obtain ⟨hletter, hne⟩ := letterEscape?_of_mem _ he
  unfold skipEscape
  split
  · next heq => cases heq
  · next heq => exact absurd (List.cons.inj heq).1 hne
  · next heq =>
    obtain ⟨rfl, -⟩ := List.cons.inj heq
    rw [hletter]
    rfl

/-- A unit that belongs to no pair is a character by itself. -/
theorem readEscape_unit {u : List Char} {n : Nat} (hu : IsUnit u n)
    (hn : n < 0xD800 ∨ 0xDFFF < n) (s : List Char) :
    readEscape ('u' :: u ++ s) = .ok (Char.ofNat n, ('u' :: u).length) := by
  have hlow : ¬ (0xDC00 ≤ n ∧ n ≤ 0xDFFF) := by omega
  have hhigh : n < 0xD800 ∨ 0xDBFF < n := by omega
  simp only [List.cons_append, List.length_cons, hu.length_eq, readEscape, readHexEscape,
    hu.readUnit_append, bind, Except.bind, if_neg hlow, if_pos hhigh]

/-- Two units of a pair are a character together. -/
theorem readEscape_pair {u v : List Char} {n m : Nat} (hu : IsUnit u n)
    (hn : 0xD800 ≤ n ∧ n ≤ 0xDBFF) (hv : IsUnit v m) (hm : 0xDC00 ≤ m ∧ m ≤ 0xDFFF)
    (s : List Char) :
    readEscape ('u' :: (u ++ '\\' :: 'u' :: v) ++ s) =
      .ok (Char.ofNat ((n - 0xD800) * 0x400 + (m - 0xDC00) + 0x10000),
        ('u' :: (u ++ '\\' :: 'u' :: v)).length) := by
  have hlow : ¬ (0xDC00 ≤ n ∧ n ≤ 0xDFFF) := by omega
  have hhigh : ¬ (n < 0xD800 ∨ 0xDBFF < n) := by omega
  have hsecond : ¬ (m < 0xDC00 ∨ 0xDFFF < m) := by omega
  have hrest : (u ++ '\\' :: 'u' :: (v ++ s)).drop 4 = '\\' :: 'u' :: (v ++ s) := by
    rw [← hu.length_eq, List.drop_left]
  simp only [List.cons_append, List.append_assoc, List.length_cons, List.length_append,
    hu.length_eq, hv.length_eq, readEscape, readHexEscape, hu.readUnit_append, hrest,
    readSecondUnit, hv.readUnit_append, bind, Except.bind, if_neg hlow, if_neg hhigh,
    if_neg hsecond]

theorem skipEscape_unit {u : List Char} {n : Nat} (hu : IsUnit u n) (s : List Char) :
    skipEscape ('u' :: (u ++ s)) = .ok 5 := by
  simp only [skipEscape, hu.readUnit_append, bind, Except.bind]

/-! ## Characters -/

theorem readCharsFrom_length (letters s : List Char) :
    readCharsFrom letters.length (letters ++ s) = readCharsFrom 0 s := by
  induction letters with
  | nil => rfl
  | cons c letters ih => exact ih

theorem skipCharsFrom_length (letters s : List Char) :
    skipCharsFrom letters.length (letters ++ s) = skipCharsFrom 0 s := by
  induction letters with
  | nil => rfl
  | cons c letters ih => exact ih

/-- An escape is read as its character, and what follows it is read from its end on. -/
theorem readCharsFrom_escape {letters : List Char} {c : Char} {s cs rest : List Char}
    (hread : readEscape (letters ++ s) = .ok (c, letters.length))
    (h : readCharsFrom 0 s = .ok (cs, rest)) :
    readCharsFrom 0 ('\\' :: (letters ++ s)) = .ok (c :: cs, rest) := by
  rw [readCharsFrom, if_neg (by decide), if_pos rfl, hread]
  change (readCharsFrom letters.length (letters ++ s) >>= fun p => .ok (c :: p.1, p.2)) = _
  rw [readCharsFrom_length, h]
  rfl

theorem skipCharsFrom_escape {letters s : List Char}
    (hskip : skipEscape (letters ++ s) = .ok letters.length) :
    skipCharsFrom 0 ('\\' :: (letters ++ s)) = skipCharsFrom 0 s := by
  rw [skipCharsFrom, if_neg (by decide), if_pos rfl, hskip]
  exact skipCharsFrom_length letters s

theorem readCharsFrom_cons {c : Char} (hc : StandsForItself c) {s cs rest : List Char}
    (h : readCharsFrom 0 s = .ok (cs, rest)) :
    readCharsFrom 0 (c :: s) = .ok (c :: cs, rest) := by
  obtain ⟨hquote, hbackslash, hcontrol⟩ := hc
  rw [readCharsFrom, if_neg hquote, if_neg hbackslash, if_neg hcontrol, h]
  rfl

theorem skipCharsFrom_cons {c : Char} (hc : StandsForItself c) (s : List Char) :
    skipCharsFrom 0 (c :: s) = skipCharsFrom 0 s := by
  obtain ⟨hquote, hbackslash, hcontrol⟩ := hc
  rw [skipCharsFrom, if_neg hquote, if_neg hbackslash, if_neg hcontrol]

/-! ## Strings -/

/-- **Any inside of a string** is passed over up to the closing quote. -/
theorem IsInside.closes {inside : List Char} (h : IsInside inside) : Closes (inside ++ ['"']) := by
  intro rest
  rw [List.append_assoc, List.singleton_append]
  induction h with
  | nil => rfl
  | plain hc _ ih => exact (skipCharsFrom_cons hc _).trans ih
  | @letter e c s he _ ih =>
      have hskip : skipEscape ([e] ++ (s ++ '"' :: rest)) = .ok [e].length :=
        skipEscape_letter he _
      exact (skipCharsFrom_escape hskip).trans ih
  | @unit u s n hu _ ih =>
      have hskip : skipEscape ('u' :: u ++ (s ++ '"' :: rest)) = .ok ('u' :: u).length := by
        rw [List.length_cons, hu.length_eq]
        exact skipEscape_unit hu _
      rw [List.cons_append, List.cons_append, List.append_assoc]
      exact (skipCharsFrom_escape hskip).trans ih

/-- What stands for characters is the inside of a string. -/
theorem StandsFor.isInside {inside cs : List Char} (h : StandsFor inside cs) : IsInside inside := by
  induction h with
  | nil => exact .nil
  | plain hc _ ih => exact .plain hc ih
  | letter he _ ih => exact .letter he ih
  | unit hu _ _ ih => exact .unit hu ih
  | pair hu _ hv _ _ ih => exact .unit hu (.unit hv ih)

/-- **The inside of a string** is read as what it stands for. -/
theorem StandsFor.isQuoted {inside cs : List Char} (h : StandsFor inside cs) :
    IsQuoted (inside ++ ['"']) cs where
  read rest := by
    rw [List.append_assoc, List.singleton_append]
    induction h with
    | nil => rfl
    | plain hc _ ih => exact readCharsFrom_cons hc ih
    | @letter e c s cs he _ ih =>
        have hread : readEscape ([e] ++ (s ++ '"' :: rest)) = .ok (c, [e].length) :=
          readEscape_letter he _
        have hchars := readCharsFrom_escape hread ih
        exact hchars
    | @unit u s cs n hu hn _ ih =>
        rw [List.cons_append, List.cons_append, List.append_assoc]
        exact readCharsFrom_escape (readEscape_unit hu hn _) ih
    | @pair u v s cs n m hu hn hv hm _ ih =>
        have hchars := readCharsFrom_escape (readEscape_pair hu hn hv hm _) ih
        simp only [List.cons_append, List.append_assoc] at hchars ⊢
        exact hchars

/-! ## Strings that were read -/

/-- A character and the end of an escape: what follows was read from there on. -/
theorem exists_of_readCharsFrom_escape {letters : List Char} {c : Char} {s cs rest : List Char}
    (hescape : readEscape (letters ++ s) = .ok (c, letters.length))
    (h : readCharsFrom 0 ('\\' :: (letters ++ s)) = .ok (cs, rest)) :
    ∃ ds, cs = c :: ds ∧ readCharsFrom 0 s = .ok (ds, rest) := by
  rw [readCharsFrom, if_neg (by decide), if_pos rfl, hescape] at h
  change (readCharsFrom letters.length (letters ++ s) >>= fun p => .ok (c :: p.1, p.2)) = _ at h
  obtain ⟨⟨ds, rest'⟩, hmore, h⟩ := of_bind_eq_ok h
  obtain ⟨rfl, rfl⟩ := Prod.mk.inj (Except.ok.inj h)
  exact ⟨ds, rfl, readCharsFrom_length letters s ▸ hmore⟩

/-- The second unit of a pair is written as an escape. -/
theorem exists_of_readSecondUnit {s : List Char} {m : Nat} (h : readSecondUnit s = .ok m) :
    ∃ t, s = '\\' :: 'u' :: t ∧ readUnit t = .ok m := by
  unfold readSecondUnit at h
  split at h
  · cases h
  · cases h
  · exact ⟨_, rfl, h⟩
  · cases h

/-- A unit of a pair that was read is the first one, and the second one follows. -/
theorem exists_of_readEscape_unit {u s : List Char} {n : Nat} {c : Char × Nat} (hu : IsUnit u n)
    (hn : 0xD800 ≤ n ∧ n ≤ 0xDFFF) (h : readEscape ('u' :: (u ++ s)) = .ok c) :
    n ≤ 0xDBFF ∧ ∃ t m, s = '\\' :: 'u' :: t ∧ readUnit t = .ok m ∧
      (0xDC00 ≤ m ∧ m ≤ 0xDFFF) := by
  obtain ⟨p, h, -⟩ := of_bind_eq_ok h
  obtain ⟨n', hunit, h⟩ := of_bind_eq_ok h
  obtain rfl := Except.ok.inj ((hu.readUnit_append s).symm.trans hunit)
  split at h
  · cases h
  · rw [if_neg (by omega), ← hu.length_eq, List.drop_left] at h
    obtain ⟨m, hsecond, h⟩ := of_bind_eq_ok h
    obtain ⟨t, ht, hm⟩ := exists_of_readSecondUnit hsecond
    split at h
    · cases h
    · exact ⟨by omega, t, m, ht, hm, by omega⟩

/-- An inside that goes on with an escape by number goes on with its unit. -/
theorem IsInside.exists_of_append_eq {s t rest : List Char} (h : IsInside s)
    (hs : s ++ '"' :: rest = '\\' :: 'u' :: t) :
    ∃ v m s', IsUnit v m ∧ IsInside s' ∧ s = '\\' :: 'u' :: (v ++ s') := by
  cases h with
  | nil => cases hs
  | plain hc => exact absurd (List.cons.inj hs).1 hc.2.1
  | letter he =>
      exact absurd (List.cons.inj (List.cons.inj hs).2).1 (letterEscape?_of_mem _ he).2
  | unit hu hs' => exact ⟨_, _, _, hu, hs', rfl⟩

/-- **The inside of a string that was read** stands for what it was read as. -/
theorem IsInside.standsFor {inside : List Char} (h : IsInside inside) {rest cs rest' : List Char}
    (hread : readChars (inside ++ '"' :: rest) = .ok (cs, rest')) : StandsFor inside cs := by
  -- The two escapes of a pair are read at once, so the induction is on the length.
  induction hlength : inside.length using Nat.strong_induction_on generalizing inside cs with
  | h length ih =>
      cases h with
      | nil =>
          obtain ⟨rfl, -⟩ := Prod.mk.inj (Except.ok.inj hread)
          exact .nil
      | @plain c s hc hs =>
          obtain ⟨hquote, hbackslash, hcontrol⟩ := hc
          rw [readChars, List.cons_append, readCharsFrom, if_neg hquote, if_neg hbackslash,
            if_neg hcontrol] at hread
          obtain ⟨⟨ds, rest''⟩, hmore, hread⟩ := of_bind_eq_ok hread
          obtain ⟨rfl, rfl⟩ := Prod.mk.inj (Except.ok.inj hread)
          exact .plain ⟨hquote, hbackslash, hcontrol⟩
            (ih _ (by simp at hlength; omega) hs hmore rfl)
      | @letter e c s he hs =>
          have hescape : readEscape ([e] ++ (s ++ '"' :: rest)) = .ok (c, [e].length) :=
            readEscape_letter he _
          obtain ⟨ds, rfl, hmore⟩ := exists_of_readCharsFrom_escape hescape hread
          exact .letter he (ih _ (by simp at hlength; omega) hs hmore rfl)
      | @unit u s n hu hs =>
          simp only [List.cons_append, List.append_assoc] at hread
          by_cases hn : n < 0xD800 ∨ 0xDFFF < n
          · obtain ⟨ds, rfl, hmore⟩ :=
              exists_of_readCharsFrom_escape (readEscape_unit hu hn _) hread
            exact .unit hu hn (ih _ (by simp at hlength; omega) hs hmore rfl)
          · have hread' := hread
            rw [readChars, readCharsFrom, if_neg (by decide), if_pos rfl] at hread'
            obtain ⟨p, hescape, -⟩ := of_bind_eq_ok hread'
            obtain ⟨hhigh, t, m, ht, hm, hlow⟩ :=
              exists_of_readEscape_unit hu (by omega) hescape
            obtain ⟨v, m', s', hv, hs', rfl⟩ := hs.exists_of_append_eq ht
            obtain rfl : m' = m := by
              obtain rfl : v ++ (s' ++ '"' :: rest) = t := by simpa using ht
              exact Except.ok.inj ((hv.readUnit_append _).symm.trans hm)
            have hchars : readCharsFrom 0
                ('\\' :: ('u' :: (u ++ '\\' :: 'u' :: v) ++ (s' ++ '"' :: rest))) =
                .ok (cs, rest') := by
              simpa [readChars] using hread
            obtain ⟨ds, rfl, hmore⟩ := exists_of_readCharsFrom_escape
              (readEscape_pair hu (by omega) hv hlow _) hchars
            exact .pair hu (by omega) hv hlow (ih _ (by simp at hlength; omega) hs' hmore rfl)

/-- What the inside of a string stands for is read up to the closing quote. -/
theorem StandsFor.readChars_append {inside cs : List Char} (h : StandsFor inside cs)
    (rest : List Char) : readChars (inside ++ '"' :: rest) = .ok (cs, rest) := by
  have hread := h.isQuoted.read rest
  rwa [List.append_assoc, List.singleton_append] at hread

/-- The inside of a string stands for one text. -/
theorem StandsFor.eq {inside cs cs' : List Char} (h : StandsFor inside cs)
    (h' : StandsFor inside cs') : cs = cs' :=
  (Prod.mk.inj (Except.ok.inj ((h.readChars_append []).symm.trans (h'.readChars_append [])))).1

/-! ## Written strings -/

/-- The written form of a control character is an escape by letter or by number. -/
theorem escapeChar_of_control {c : Char} (hc : c.toNat < 0x20) :
    (∃ e, escapeChar c = ['\\', e] ∧ (e, c) ∈ letterEscapes) ∨
      escapeChar c = '\\' :: 'u' :: '0' :: '0' :: hexPair c.toNat := by
  rw [← Char.ofNat_toNat c]
  generalize c.toNat = n at hc
  interval_cases n <;> first | exact .inr rfl | exact .inl ⟨_, rfl, by decide⟩

/-- A number below 32 in four digits. -/
theorem isUnit_hexPair {n : Nat} (hn : n < 0x20) : IsUnit ('0' :: '0' :: hexPair n) n := by
  have hunit : IsUnit ('0' :: '0' :: hexPair n) (((0 * 16 + 0) * 16 + n / 16) * 16 + n % 16) :=
    .intro ⟨by decide, .inl rfl⟩ ⟨by decide, .inl rfl⟩ ⟨by omega, .inl rfl⟩ ⟨by omega, .inl rfl⟩
  have hvalue : ((0 * 16 + 0) * 16 + n / 16) * 16 + n % 16 = n := by omega
  rwa [hvalue] at hunit

/-- A written character stands for itself or is an escape. -/
theorem standsFor_escapeChar_append (c : Char) {s cs : List Char} (h : StandsFor s cs) :
    StandsFor (escapeChar c ++ s) (c :: cs) := by
  by_cases hquote : c = '"' ∨ c = '\\'
  · have hescape : escapeChar c = ['\\', c] := if_pos hquote
    rw [hescape]
    rcases hquote with rfl | rfl
    · exact .letter (by decide) h
    · exact .letter (by decide) h
  · by_cases hcontrol : c.toNat < 0x20
    · obtain ⟨e, hescape, he⟩ | hescape := escapeChar_of_control hcontrol
      · rw [hescape]
        exact .letter he h
      · have hunit := StandsFor.unit (isUnit_hexPair hcontrol) (by omega) h
        rw [Char.ofNat_toNat] at hunit
        rw [hescape]
        exact hunit
    · have hescape : escapeChar c = [c] := (if_neg hquote).trans (if_neg hcontrol)
      rw [hescape]
      rw [not_or] at hquote
      exact .plain ⟨hquote.1, hquote.2, hcontrol⟩ h

/-- **The written form of a string** stands for the string. -/
theorem standsFor_write (s : List Char) : StandsFor (s.flatMap escapeChar) s := by
  induction s with
  | nil => exact .nil
  | cons c s ih => exact standsFor_escapeChar_append c ih

theorem isQuoted_write (s : List Char) : IsQuoted (s.flatMap escapeChar ++ ['"']) s :=
  (standsFor_write s).isQuoted

/-- **Reading a string.** -/
theorem IsQuoted.takes {text s : List Char} (h : IsQuoted text s) (expected : String) :
    Takes (readStringAs expected) ('"' :: text) (String.ofList s) where
  starts := ⟨'"', text, rfl, by decide⟩
  read blanks rest hblanks _ := by
    rw [List.cons_append, readStringAs, skipSpace_append_cons hblanks (by decide)]
    change (readChars (text ++ rest) >>= fun p => .ok (String.ofList p.1, p.2)) = _
    rw [h.read]
    rfl

theorem IsStringText.takes {text : List Char} {s : String} (h : IsStringText text s)
    (expected : String) : Takes (readStringAs expected) text s := by
  obtain ⟨inside, rfl, hinside⟩ := h
  have htakes := hinside.isQuoted.takes expected
  rwa [String.ofList_toList] at htakes

/-- A string is read as it was written. -/
theorem takes_string (s expected : String) : Takes (readStringAs expected) (writeString s) s :=
  IsStringText.takes ⟨_, rfl, standsFor_write s.toList⟩ expected

end ScreenAtlas.Json
