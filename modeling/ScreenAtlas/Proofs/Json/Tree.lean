import ScreenAtlas.Proofs.Json.Skip
/-!
# JSON texts without their layout

What is left of a JSON text without the blanks between its tokens is a tree. Numbers and strings are
kept in it as they are written, since the readers disagree on what becomes of them: a string that is
wanted must stand for characters, and one that is passed over need not. A tree is spelled by many
texts, which differ in their blanks only.

## Main definitions

* `Tree` — a value as its tokens.
* `Spells`, `SpellsElements`, `SpellsMembers` — the texts of a tree, and of the inside of lists and
  objects.
* `SpellsObject` — the texts that are an object as a whole.
* `Tree.ToldBy` — what the first character of a text tells of the tree.

## Main statements

* `Spells.isValue`, `IsValue.exists_spells` — what is spelled are the values of the grammar.
* `exists_isObject_iff_exists_spellsObject` — and its objects are what is spelled from members.
* `Spells.toldBy` — the tree of a text is told by the first character.
-/
namespace ScreenAtlas.Json

/-- A value as its tokens. Numbers, strings and keys are kept as they are written. -/
inductive Tree
  | null
  | bool (b : Bool)
  | number (text : List Char)
  | string (inside : List Char)
  | list (elements : List Tree)
  | object (members : List (List Char × Tree))

mutual

/-- The texts of a tree. -/
inductive Spells : Tree → List Char → Prop
  | null : Spells .null "null".toList
  | bool (b : Bool) : Spells (.bool b) (if b then "true" else "false").toList
  | number {text : List Char} {n : Numeral} (h : IsNumber text n) : Spells (.number text) text
  | string {inside : List Char} (h : IsInside inside) : Spells (.string inside) (quote inside)
  | list {vs : List Tree} {text : List Char} (h : SpellsElements true vs text) :
      Spells (.list vs) ('[' :: text)
  | object {ms : List (List Char × Tree)} {text : List Char} (h : SpellsMembers true ms text) :
      Spells (.object ms) ('\x7b' :: text)

/-- The texts of the inside of a list and its closing bracket. The first argument says whether the
first element comes next. -/
inductive SpellsElements : Bool → List Tree → List Char → Prop
  | close {first : Bool} {blanks : List Char} (h : IsBlank blanks) :
      SpellsElements first [] (blanks ++ [']'])
  | element {first : Bool} {v : Tree} {vs : List Tree} {lead text rest : List Char}
      (hlead : Lead first lead) (hvalue : Spells v text) (hrest : SpellsElements false vs rest) :
      SpellsElements first (v :: vs) (lead ++ (text ++ rest))

/-- The texts of the inside of an object and its closing brace. -/
inductive SpellsMembers : Bool → List (List Char × Tree) → List Char → Prop
  | close {first : Bool} {blanks : List Char} (h : IsBlank blanks) :
      SpellsMembers first [] (blanks ++ ['\x7d'])
  | member {first : Bool} {v : Tree} {ms : List (List Char × Tree)}
      {lead name colon text rest : List Char} (hlead : Lead first lead) (hname : IsInside name)
      (hcolon : IsColon colon) (hvalue : Spells v text) (hrest : SpellsMembers false ms rest) :
      SpellsMembers first ((name, v) :: ms)
        (lead ++ (quote name ++ (colon ++ (text ++ rest))))

end

/-- The texts that are an object as a whole, with blanks around it. -/
inductive SpellsObject (ms : List (List Char × Tree)) : List Char → Prop
  | intro {before inside after : List Char} (hbefore : IsBlank before)
      (h : SpellsMembers true ms inside) (hafter : IsBlank after) :
      SpellsObject ms (before ++ '\x7b' :: (inside ++ after))

/-! ## Values of the grammar -/

mutual

/-- **What is spelled** is a value of the grammar. -/
theorem Spells.isValue : ∀ {v : Tree} {text : List Char}, Spells v text → IsValue text
  | _, _, .null => .null
  | _, _, .bool b => .bool b
  | _, _, .number h => .number h
  | _, _, .string h => .string h
  | _, _, .list h => .array h.isElements
  | _, _, .object h =>
      have ⟨_, hmembers⟩ := h.exists_isMembers
      .object hmembers

theorem SpellsElements.isElements : ∀ {first : Bool} {vs : List Tree} {text : List Char},
    SpellsElements first vs text → IsElements first text
  | _, _, _, .close h => .close h
  | _, _, _, .element hlead hvalue hrest => .element hlead hvalue.isValue hrest.isElements

theorem SpellsMembers.exists_isMembers :
    ∀ {first : Bool} {ms : List (List Char × Tree)} {text : List Char},
      SpellsMembers first ms text → ∃ members, IsMembers first text members
  | _, _, _, .close h => ⟨[], .close h⟩
  | _, _, _, .member hlead hname hcolon hvalue hrest =>
      have ⟨_, hmembers⟩ := hrest.exists_isMembers
      ⟨_, .member hlead hname hcolon hvalue.isValue hmembers⟩

end

mutual

/-- **Every value of the grammar** is spelled from a tree. -/
theorem IsValue.exists_spells : ∀ {text : List Char}, IsValue text → ∃ v, Spells v text
  | _, .null => ⟨_, .null⟩
  | _, .bool b => ⟨_, .bool b⟩
  | _, .number h => ⟨_, .number h⟩
  | _, .string h => ⟨_, .string h⟩
  | _, .array h =>
      have ⟨_, helements⟩ := h.exists_spells
      ⟨_, .list helements⟩
  | _, .object h =>
      have ⟨_, hmembers⟩ := h.exists_spells
      ⟨_, .object hmembers⟩

theorem IsElements.exists_spells : ∀ {first : Bool} {text : List Char},
    IsElements first text → ∃ vs, SpellsElements first vs text
  | _, _, .close h => ⟨[], .close h⟩
  | _, _, .element hlead hvalue hrest =>
      have ⟨_, htext⟩ := hvalue.exists_spells
      have ⟨_, hmore⟩ := hrest.exists_spells
      ⟨_, .element hlead htext hmore⟩

theorem IsMembers.exists_spells : ∀ {first : Bool} {text : List Char}
    {members : List (List Char × List Char)},
    IsMembers first text members → ∃ ms, SpellsMembers first ms text
  | _, _, _, .close h => ⟨[], .close h⟩
  | _, _, _, .member hlead hname hcolon hvalue hrest =>
      have ⟨_, htext⟩ := hvalue.exists_spells
      have ⟨_, hmore⟩ := hrest.exists_spells
      ⟨_, .member hlead hname hcolon htext hmore⟩

end

/-- **The objects of the grammar** are the texts that are spelled from members. -/
theorem exists_isObject_iff_exists_spellsObject {text : List Char} :
    (∃ members, IsObject text members) ↔ ∃ ms, SpellsObject ms text := by
  constructor
  · rintro ⟨_, ⟨hbefore, h, hafter⟩⟩
    obtain ⟨ms, hms⟩ := h.exists_spells
    exact ⟨ms, .intro hbefore hms hafter⟩
  · rintro ⟨_, ⟨hbefore, h, hafter⟩⟩
    obtain ⟨members, hmembers⟩ := h.exists_isMembers
    exact ⟨members, .intro hbefore hmembers hafter⟩

variable {v : Tree} {vs : List Tree} {ms : List (List Char × Tree)} {text : List Char}

theorem Spells.starts (h : Spells v text) :
    ∃ c s, text = c :: s ∧ isSpace c = false ∧ c ≠ ',' ∧ c ≠ ']' :=
  h.isValue.skips.starts

/-- A number ends in front of a later element and of the closing bracket. -/
theorem SpellsElements.ends (h : SpellsElements false vs text) (rest : List Char) :
    Ends (text ++ rest) :=
  h.isElements.skipped.ends rest

theorem SpellsMembers.ends (h : SpellsMembers false ms text) (rest : List Char) :
    Ends (text ++ rest) := by
  obtain ⟨members, hmembers⟩ := h.exists_isMembers
  exact hmembers.skipped.ends rest

/-- A value is not changed by the blanks in front of it. -/
theorem Spells.skipSpace_append (h : Spells v text) {blanks : List Char} (hblanks : IsBlank blanks)
    (rest : List Char) : skipSpace (blanks ++ (text ++ rest)) = text ++ rest := by
  obtain ⟨c, s, rfl, hspace, -⟩ := h.starts
  exact skipSpace_append_cons hblanks hspace _

/-! ## First characters -/

/-- What the first character of its text tells of a tree. -/
structure Tree.ToldBy (v : Tree) (c : Char) : Prop where
  null : c = 'n' → v = .null
  yes : c = 't' → v = .bool true
  no : c = 'f' → v = .bool false
  number : c = '-' ∨ c.isDigit = true → ∃ text, v = .number text
  string : c = '"' → ∃ inside, v = .string inside
  list : c = '[' → ∃ vs, v = .list vs
  object : c = '\x7b' → ∃ ms, v = .object ms

variable {c : Char} {rest t : List Char}

theorem Spells.toldBy (h : Spells v text) (ht : text ++ rest = c :: t) : v.ToldBy c := by
  cases h with
  | null =>
      obtain rfl : 'n' = c := (List.cons.inj ht).1
      constructor <;> simp
  | bool b =>
      cases b with
      | true =>
          obtain rfl : 't' = c := (List.cons.inj ht).1
          constructor <;> simp
      | false =>
          obtain rfl : 'f' = c := (List.cons.inj ht).1
          constructor <;> simp
  | number h =>
      obtain ⟨d, s, rfl, hd, -⟩ := h.exists_cons
      obtain ⟨rfl, -⟩ := List.cons.inj ht
      refine ⟨?_, ?_, ?_, fun _ => ⟨_, rfl⟩, ?_, ?_, ?_⟩
      all_goals
        rintro rfl
        simp at hd
  | string =>
      obtain rfl : '"' = c := (List.cons.inj ht).1
      constructor <;> simp
  | list =>
      obtain rfl : '[' = c := (List.cons.inj ht).1
      constructor <;> simp
  | object =>
      obtain rfl : '\x7b' = c := (List.cons.inj ht).1
      constructor <;> simp

theorem Spells.of_null (h : Spells v text) (ht : text ++ rest = 'n' :: t) :
    v = .null ∧ t = "ull".toList ++ rest := by
  obtain rfl := (h.toldBy ht).null rfl
  cases h
  exact ⟨rfl, (List.cons.inj ht).2.symm⟩

theorem Spells.of_true (h : Spells v text) (ht : text ++ rest = 't' :: t) :
    v = .bool true ∧ t = "rue".toList ++ rest := by
  obtain rfl := (h.toldBy ht).yes rfl
  cases h
  exact ⟨rfl, (List.cons.inj ht).2.symm⟩

theorem Spells.of_false (h : Spells v text) (ht : text ++ rest = 'f' :: t) :
    v = .bool false ∧ t = "alse".toList ++ rest := by
  obtain rfl := (h.toldBy ht).no rfl
  cases h
  exact ⟨rfl, (List.cons.inj ht).2.symm⟩

theorem Spells.of_digit (h : Spells v text) (hc : c = '-' ∨ c.isDigit = true)
    (ht : text ++ rest = c :: t) : v = .number text ∧ ∃ n, IsNumber text n := by
  obtain ⟨text', rfl⟩ := (h.toldBy ht).number hc
  cases h with
  | number h => exact ⟨rfl, _, h⟩

theorem Spells.of_quote (h : Spells v text) (ht : text ++ rest = '"' :: t) :
    ∃ inside, v = .string inside ∧ IsInside inside ∧ t = inside ++ '"' :: rest := by
  obtain ⟨inside, rfl⟩ := (h.toldBy ht).string rfl
  cases h with
  | string h => exact ⟨inside, rfl, h, by simpa [quote] using ht.symm⟩

theorem Spells.of_bracket (h : Spells v text) (ht : text ++ rest = '[' :: t) :
    ∃ vs inside, v = .list vs ∧ SpellsElements true vs inside ∧ t = inside ++ rest := by
  obtain ⟨vs, rfl⟩ := (h.toldBy ht).list rfl
  cases h with
  | list h => exact ⟨vs, _, rfl, h, (List.cons.inj ht).2.symm⟩

theorem Spells.of_brace (h : Spells v text) (ht : text ++ rest = '\x7b' :: t) :
    ∃ ms inside, v = .object ms ∧ SpellsMembers true ms inside ∧ t = inside ++ rest := by
  obtain ⟨ms, rfl⟩ := (h.toldBy ht).object rfl
  cases h with
  | object h => exact ⟨ms, _, rfl, h, (List.cons.inj ht).2.symm⟩

end ScreenAtlas.Json
