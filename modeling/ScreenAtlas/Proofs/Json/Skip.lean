import ScreenAtlas.Proofs.Json.Collection
/-!
# Values that are passed over

Any value of the grammar can be passed over, whatever is in it. The text that was passed over can be
kept and read later, so that a document can be taken apart before it is known what its parts are.

## Main definitions

* `SkippedElements`, `SkippedMembers` — the inside of a list and of an object.
* `slice` — the reader that keeps the text of a value.

## Main statements

* `SkippedElements.skips_list`, `SkippedMembers.skips_object` — passing over the whole.
* `IsValue.skips` — the values of the grammar.
* `Skips.takes_slice` — the text that is kept.
-/
namespace ScreenAtlas.Json

/-! ## Scalars -/

/-- A value is told by its first character; the rest is passed over as the inside of that kind of
value. -/
theorem skips_cons {c : Char} {s : List Char} (hc : isSpace c = false ∧ c ≠ ',' ∧ c ≠ ']')
    (hskip : ∀ text rest fuel, skipSpace text = c :: (s ++ rest) → Ends rest →
      2 * s.length ≤ fuel → skipValueWith (fuel + 1) text = .ok rest) : Skips (c :: s) where
  starts := ⟨c, s, rfl, hc⟩
  skip blanks rest fuel hblanks hrest hfuel := by
    simp only [List.length_cons] at hfuel
    obtain ⟨fuel, rfl⟩ : ∃ n, fuel = n + 1 := ⟨fuel - 1, by omega⟩
    exact hskip _ rest fuel (skipSpace_append_cons hblanks hc.1 _) hrest (by omega)

theorem skips_string {text : List Char} (h : Closes text) : Skips ('"' :: text) :=
  skips_cons (by decide) fun _ rest _ htext _ _ => by
    rw [skipValueWith, htext]
    exact h rest

/-- A number is passed over whatever its size. -/
theorem skips_number {text : List Char} {n : Numeral} (h : IsNumber text n) : Skips text := by
  obtain ⟨c, s, rfl, hc, hstarts⟩ := h.exists_cons
  have hne : ∀ d, d ≠ '-' → d.isDigit = false → c ≠ d := by
    rintro d hminus hdigit rfl
    obtain rfl | hc := hc
    · exact hminus rfl
    · rw [hdigit] at hc
      cases hc
  refine skips_cons hstarts fun text rest fuel htext hrest _ => ?_
  have hread := h.readNumeral_append .invalidNumber hrest
  rw [List.cons_append] at hread
  rw [skipValueWith, htext]
  -- Neither a digit nor a minus opens any of the other kinds of values.
  split
  case h_1 heq => cases heq
  case h_8 heq =>
    obtain ⟨rfl, rfl⟩ := List.cons.inj heq
    rw [if_pos hc, hread]
    rfl
  all_goals
    next heq => exact absurd (List.cons.inj heq).1 (hne _ (by decide) rfl)

/-- A word is passed over by its letters. -/
theorem skips_word {c : Char} {word : List Char} (hc : isSpace c = false ∧ c ≠ ',' ∧ c ≠ ']')
    (hskip : ∀ fuel s t, skipSpace s = c :: t → skipValueWith (fuel + 1) s = readWord word t) :
    Skips (c :: word) :=
  skips_cons hc fun text rest fuel htext _ _ => by
    rw [hskip fuel text _ htext]
    exact readWord_append word rest

theorem skips_null : Skips "null".toList := by
  change Skips ('n' :: "ull".toList)
  exact skips_word (by decide) fun _ _ _ h => by rw [skipValueWith, h]; rfl

theorem skips_bool (b : Bool) : Skips (if b then "true" else "false").toList := by
  cases b with
  | true =>
      change Skips ('t' :: "rue".toList)
      exact skips_word (by decide) fun _ _ _ h => by rw [skipValueWith, h]; rfl
  | false =>
      change Skips ('f' :: "alse".toList)
      exact skips_word (by decide) fun _ _ _ h => by rw [skipValueWith, h]; rfl

/-! ## Lists and objects -/

/-- The inside of a list that is passed over, and its closing bracket. -/
inductive SkippedElements : Bool → List Char → Prop
  | close {first : Bool} {blanks : List Char} (h : IsBlank blanks) :
      SkippedElements first (blanks ++ [']'])
  | element {first : Bool} {lead text rest : List Char} (hlead : Lead first lead)
      (ha : Skips text) (has : SkippedElements false rest) :
      SkippedElements first (lead ++ (text ++ rest))

/-- The inside of an object that is passed over, and its closing brace. -/
inductive SkippedMembers : Bool → List Char → Prop
  | close {first : Bool} {blanks : List Char} (h : IsBlank blanks) :
      SkippedMembers first (blanks ++ ['\x7d'])
  | member {first : Bool} {lead name colon text rest : List Char} (hlead : Lead first lead)
      (hkey : Closes name) (hcolon : IsColon colon) (hvalue : Skips text)
      (hrest : SkippedMembers false rest) :
      SkippedMembers first (lead ++ ('"' :: name ++ (colon ++ (text ++ rest))))

theorem SkippedElements.ends {text : List Char} (h : SkippedElements false text)
    (rest : List Char) : Ends (text ++ rest) := by
  cases h with
  | close h => exact ends_close h (by decide) rest
  | element hlead => exact hlead.ends _ rest

theorem SkippedMembers.ends {text : List Char} (h : SkippedMembers false text)
    (rest : List Char) : Ends (text ++ rest) := by
  cases h with
  | close h => exact ends_close h (by decide) rest
  | member hlead => exact hlead.ends _ rest

theorem Skips.length_pos {text : List Char} (h : Skips text) : 0 < text.length := by
  obtain ⟨c, s, rfl, -⟩ := h.starts
  exact Nat.succ_pos _

theorem SkippedElements.length_pos {first : Bool} {text : List Char}
    (h : SkippedElements first text) : 0 < text.length := by
  cases h with
  | close h => simp
  | element hlead ha has =>
      have := ha.length_pos
      simp only [List.length_append]
      omega

/-- Two units of fuel for each character are enough. -/
theorem SkippedElements.skip_eq {first : Bool} {text : List Char} (h : SkippedElements first text)
    (fuel : Nat) (hfuel : 2 * text.length ≤ fuel) (rest : List Char) :
    skipElementsWith fuel first (text ++ rest) = .ok rest := by
  induction h generalizing fuel with
  | @close first blanks h =>
      obtain ⟨fuel, rfl⟩ : ∃ n, fuel = n + 1 := ⟨fuel - 1, by simp at hfuel; omega⟩
      rw [skipElementsWith, List.append_assoc, List.singleton_append,
        skipSpace_append_cons h (by decide)]
      rfl
  | @element first lead text more hlead ha has ih =>
      -- One unit opens the list again, so the value and the rest share what is left of it.
      have hpos := has.length_pos
      have hpos' := ha.length_pos
      simp only [List.length_append] at hfuel
      obtain ⟨fuel, rfl⟩ : ∃ n, fuel = n + 1 := ⟨fuel - 1, by omega⟩
      have hmore := ih fuel (by omega)
      have hends := has.ends rest
      cases hlead with
      | first h =>
          have hskip := ha.skip [] (more ++ rest) fuel isBlank_nil hends (by omega)
          obtain ⟨c, s, rfl, hspace, -, hbracket⟩ := ha.starts
          rw [List.nil_append, List.cons_append] at hskip
          rw [skipElementsWith, List.append_assoc, List.append_assoc, List.cons_append,
            skipSpace_append_cons h hspace]
          split
          · next heq => cases heq
          · next heq => exact absurd (List.cons.inj heq).1 hbracket
          · next heq =>
            obtain ⟨rfl, rfl⟩ := List.cons.inj heq
            simp only [if_true, hskip, hmore, bind, Except.bind]
      | @later before after h h' =>
          have hskip := ha.skip after (more ++ rest) fuel h' hends (by omega)
          rw [skipElementsWith, List.append_assoc, List.append_assoc, List.append_assoc,
            List.cons_append, skipSpace_append_cons h (by decide)]
          change (do
            let rest ← skipValueWith fuel (after ++ (text ++ (more ++ rest)))
            skipElementsWith fuel false rest) = _
          rw [hskip]
          exact hmore

theorem skipKey_append {name colon : List Char} (hkey : Closes name)
    (hcolon : IsColon colon) :
    ∃ blanks, IsBlank blanks ∧
      ∀ s, skipKey ('"' :: (name ++ (colon ++ s))) = .ok (blanks ++ s) := by
  obtain ⟨blanks, hblanks, hskip⟩ := readColon_append hcolon
  refine ⟨blanks, hblanks, fun s => ?_⟩
  simp only [skipKey, if_true, hkey _, hskip, bind, Except.bind]

/-- Two units of fuel for each character are enough. -/
theorem SkippedMembers.skip_eq {first : Bool} {text : List Char} (h : SkippedMembers first text)
    (fuel : Nat) (hfuel : 2 * text.length ≤ fuel) (rest : List Char) :
    skipMembersWith fuel first (text ++ rest) = .ok rest := by
  induction h generalizing fuel with
  | @close first blanks h =>
      obtain ⟨fuel, rfl⟩ : ∃ n, fuel = n + 1 := ⟨fuel - 1, by simp at hfuel; omega⟩
      rw [skipMembersWith, List.append_assoc, List.singleton_append,
        skipSpace_append_cons h (by decide)]
      rfl
  | @member first lead name colon text more hlead hkey hcolon hvalue hmore ih =>
      simp only [List.length_append, List.length_cons] at hfuel
      obtain ⟨fuel, rfl⟩ : ∃ n, fuel = n + 1 := ⟨fuel - 1, by omega⟩
      obtain ⟨blanks, hblanks, hname⟩ := skipKey_append hkey hcolon
      have hskip := hvalue.skip blanks (more ++ rest) fuel hblanks (hmore.ends rest) (by omega)
      have hmore := ih fuel (by omega)
      simp only [List.append_assoc, List.cons_append]
      cases hlead with
      | first h =>
          rw [skipMembersWith, skipSpace_append_cons h (by decide)]
          change (do
            let rest ← skipKey ('"' :: (name ++ (colon ++ (text ++ (more ++ rest)))))
            let rest ← skipValueWith fuel rest
            skipMembersWith fuel false rest) = _
          simp only [hname, hskip, hmore, bind, Except.bind]
      | @later before after h h' =>
          rw [skipMembersWith, List.append_assoc, List.cons_append,
            skipSpace_append_cons h (by decide)]
          change (do
            let rest ← skipKey
              (skipSpace (after ++ '"' :: (name ++ (colon ++ (text ++ (more ++ rest))))))
            let rest ← skipValueWith fuel rest
            skipMembersWith fuel false rest) = _
          rw [skipSpace_append_cons h' (by decide)]
          simp only [hname, hskip, hmore, bind, Except.bind]

/-- **Passing over a list.** -/
theorem SkippedElements.skips_list {text : List Char} (h : SkippedElements true text) :
    Skips ('[' :: text) :=
  skips_cons (by decide) fun _ rest fuel htext _ hfuel => by
    rw [skipValueWith, htext]
    exact h.skip_eq fuel hfuel rest

/-- **Passing over an object.** -/
theorem SkippedMembers.skips_object {text : List Char} (h : SkippedMembers true text) :
    Skips ('\x7b' :: text) :=
  skips_cons (by decide) fun _ rest fuel htext _ hfuel => by
    rw [skipValueWith, htext]
    exact h.skip_eq fuel hfuel rest

/-! ## The values of the grammar -/

mutual

/-- **Any value of the grammar** can be passed over. -/
theorem IsValue.skips : ∀ {text : List Char}, IsValue text → Skips text
  | _, .null => skips_null
  | _, .bool b => skips_bool b
  | _, .number h => skips_number h
  | _, .string h => skips_string h.closes
  | _, .array h => h.skipped.skips_list
  | _, .object h => h.skipped.skips_object

theorem IsElements.skipped : ∀ {first : Bool} {text : List Char},
    IsElements first text → SkippedElements first text
  | _, _, .close h => .close h
  | _, _, .element hlead hvalue hrest => .element hlead hvalue.skips hrest.skipped

theorem IsMembers.skipped : ∀ {first : Bool} {text : List Char}
    {members : List (List Char × List Char)},
    IsMembers first text members → SkippedMembers first text
  | _, _, _, .close h => .close h
  | _, _, _, .member hlead hname hcolon hvalue hrest =>
      .member hlead hname.closes hcolon hvalue.skips hrest.skipped

end

/-! ## Parts of a document -/

/-- The text of a value, whatever kind of value it is. -/
def slice : Reader (List Char) := fun s => do
  let rest ← skipValue s
  .ok ((skipSpace s).take ((skipSpace s).length - rest.length), rest)

/-- **The text of a value** is kept without the blanks in front of it. -/
theorem Skips.takes_slice {text : List Char} (h : Skips text) : Takes slice text text where
  starts := h.starts
  read blanks rest hblanks hrest := by
    have hskip := h.skipValue_eq hblanks hrest
    have hspace : skipSpace (blanks ++ (text ++ rest)) = text ++ rest := by
      obtain ⟨c, s, rfl, hspace, -⟩ := h.starts
      exact skipSpace_append_cons hblanks hspace _
    have hlength : (text ++ rest).length - rest.length = text.length := by simp
    simp only [slice, hskip, hspace, hlength, List.take_left, bind, Except.bind]

/-- The texts of the elements, where a text is a list. -/
def elementTexts? (text : List Char) : Option (List (List Char)) :=
  (decode (readList slice) text).toOption

/-- The text of the member with the given key, where a text is an object that has just one. -/
def memberText? (key : String) (text : List Char) : Option (List Char) :=
  match decode (readMap readString slice) text with
  | .ok members =>
    match members.filter (·.1 == key) with
    | [(_, value)] => some value
    | _ => none
  | .error _ => none

end ScreenAtlas.Json
