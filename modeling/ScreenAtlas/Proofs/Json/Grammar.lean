import Mathlib.Data.List.Forall2
import ScreenAtlas.Json.Number
import ScreenAtlas.Proofs.Json.Reader
/-!
# The grammar of JSON

What JSON texts are, apart from any reader. A value that nobody wants need only be well-formed: its
strings may have units of surrogate pairs that stand alone, its numbers may be of any size, and its
depth is not limited. A string that is wanted must stand for characters.

## Main definitions

* `IsInside`, `StandsFor` — the inside of a string, and the characters that it stands for.
* `IsNumber` — the text of a numeral.
* `IsStringText`, `IsNaturalText` — the texts of given strings and natural numbers.
* `IsValue`, `IsElements`, `IsMembers` — values, and the inside of lists and objects.
* `IsObject` — a text that is an object as a whole.
-/
namespace ScreenAtlas.Json

/-! ## Strings -/

/-- Characters that stand for themselves in a string: no quotes, backslashes and control
characters. -/
def StandsForItself (c : Char) : Prop :=
  c ≠ '"' ∧ c ≠ '\\' ∧ ¬ c.toNat < 0x20

instance (c : Char) : Decidable (StandsForItself c) :=
  inferInstanceAs (Decidable (_ ∧ _ ∧ _))

/-- The letters of escapes, and the characters that they stand for. -/
def letterEscapes : List (Char × Char) :=
  [('"', '"'), ('\\', '\\'), ('/', '/'), ('b', '\x08'), ('f', '\x0c'), ('n', '\n'), ('r', '\r'),
    ('t', '\t')]

/-- A hexadecimal digit in either case, and its value. -/
def IsHexDigit (c : Char) (n : Nat) : Prop :=
  n < 16 ∧ (c = n.digitChar ∨ c = n.digitChar.toUpper)

instance (c : Char) (n : Nat) : Decidable (IsHexDigit c n) :=
  inferInstanceAs (Decidable (_ ∧ _))

/-- The four digits of a UTF-16 unit, and the unit. -/
inductive IsUnit : List Char → Nat → Prop
  | intro {a b c d : Char} {i j k l : Nat} (ha : IsHexDigit a i) (hb : IsHexDigit b j)
      (hc : IsHexDigit c k) (hd : IsHexDigit d l) :
      IsUnit [a, b, c, d] (((i * 16 + j) * 16 + k) * 16 + l)

/-- The inside of a string. It need not stand for anything. -/
inductive IsInside : List Char → Prop
  | nil : IsInside []
  | plain {c : Char} {s : List Char} (hc : StandsForItself c) (hs : IsInside s) : IsInside (c :: s)
  | letter {e c : Char} {s : List Char} (he : (e, c) ∈ letterEscapes) (hs : IsInside s) :
      IsInside ('\\' :: e :: s)
  | unit {u s : List Char} {n : Nat} (hu : IsUnit u n) (hs : IsInside s) :
      IsInside ('\\' :: 'u' :: (u ++ s))

/-- The inside of a string and the characters that it stands for. A character beyond U+FFFF may be
escaped by its surrogate pair; a unit of a pair alone stands for nothing. -/
inductive StandsFor : List Char → List Char → Prop
  | nil : StandsFor [] []
  | plain {c : Char} {s cs : List Char} (hc : StandsForItself c) (hs : StandsFor s cs) :
      StandsFor (c :: s) (c :: cs)
  | letter {e c : Char} {s cs : List Char} (he : (e, c) ∈ letterEscapes) (hs : StandsFor s cs) :
      StandsFor ('\\' :: e :: s) (c :: cs)
  | unit {u s cs : List Char} {n : Nat} (hu : IsUnit u n) (hn : n < 0xD800 ∨ 0xDFFF < n)
      (hs : StandsFor s cs) : StandsFor ('\\' :: 'u' :: (u ++ s)) (Char.ofNat n :: cs)
  | pair {u v s cs : List Char} {n m : Nat} (hu : IsUnit u n) (hn : 0xD800 ≤ n ∧ n ≤ 0xDBFF)
      (hv : IsUnit v m) (hm : 0xDC00 ≤ m ∧ m ≤ 0xDFFF) (hs : StandsFor s cs) :
      StandsFor ('\\' :: 'u' :: (u ++ '\\' :: 'u' :: (v ++ s)))
        (Char.ofNat ((n - 0xD800) * 0x400 + (m - 0xDC00) + 0x10000) :: cs)

/-- Characters that stand for themselves need no escapes. -/
theorem standsFor_self {s : List Char} (h : s.all (StandsForItself ·) = true) : StandsFor s s := by
  induction s with
  | nil => exact .nil
  | cons c s ih =>
      rw [List.all_cons, Bool.and_eq_true, decide_eq_true_iff] at h
      exact .plain h.1 (ih h.2)

/-- A string with the given inside. -/
def quote (inside : List Char) : List Char :=
  '"' :: (inside ++ ['"'])

/-- A string, and what it stands for. -/
def IsStringText (text : List Char) (s : String) : Prop :=
  ∃ inside, text = quote inside ∧ StandsFor inside s.toList

/-! ## Numbers -/

/-- One or more digits. -/
def IsDigits (digits : List Char) : Prop :=
  digits ≠ [] ∧ ∀ c ∈ digits, c.isDigit = true

/-- The digits before the point: a zero stands alone. -/
def IsWhole (digits : List Char) : Prop :=
  IsDigits digits ∧ (digits.head? = some '0' → digits = ['0'])

/-- The minus of a negative number. -/
inductive IsSign : List Char → Bool → Prop
  | missing : IsSign [] false
  | minus : IsSign ['-'] true

/-- A point and the digits behind it, which may both be missing. -/
inductive IsFraction : List Char → List Char → Prop
  | missing : IsFraction [] []
  | given {digits : List Char} (h : IsDigits digits) : IsFraction ('.' :: digits) digits

/-- The sign of an exponent, which may also be a plus. -/
inductive IsExponentSign : List Char → Bool → Prop
  | missing : IsExponentSign [] false
  | plus : IsExponentSign ['+'] false
  | minus : IsExponentSign ['-'] true

/-- An exponent, which may be missing. -/
inductive IsExponent : List Char → Option (Bool × List Char) → Prop
  | missing : IsExponent [] none
  | given {e : Char} {sign digits : List Char} {negative : Bool} (he : e = 'e' ∨ e = 'E')
      (hsign : IsExponentSign sign negative) (h : IsDigits digits) :
      IsExponent (e :: (sign ++ digits)) (some (negative, digits))

/-- The text of a numeral. -/
inductive IsNumber : List Char → Numeral → Prop
  | intro {sign whole fraction fractionDigits exponent : List Char} {negative : Bool}
      {exponent? : Option (Bool × List Char)} (hsign : IsSign sign negative) (hwhole : IsWhole whole)
      (hfraction : IsFraction fraction fractionDigits) (hexponent : IsExponent exponent exponent?) :
      IsNumber (sign ++ (whole ++ (fraction ++ exponent)))
        ⟨negative, whole, fractionDigits, exponent?⟩

/-- The digits of a natural number that fits 64 bits. -/
def IsNaturalText (text : List Char) (n : Nat) : Prop :=
  text = Nat.toDigits 10 n ∧ n < wordLimit

/-! ## Values -/

mutual

/-- The text of a value. -/
inductive IsValue : List Char → Prop
  | null : IsValue "null".toList
  | bool (b : Bool) : IsValue (if b then "true" else "false").toList
  | number {text : List Char} {n : Numeral} (h : IsNumber text n) : IsValue text
  | string {inside : List Char} (h : IsInside inside) : IsValue (quote inside)
  | array {text : List Char} (h : IsElements true text) : IsValue ('[' :: text)
  | object {text : List Char} {members : List (List Char × List Char)}
      (h : IsMembers true text members) : IsValue ('\x7b' :: text)

/-- The inside of a list and its closing bracket. The first argument says whether the first element
comes next. -/
inductive IsElements : Bool → List Char → Prop
  | close {first : Bool} {blanks : List Char} (h : IsBlank blanks) :
      IsElements first (blanks ++ [']'])
  | element {first : Bool} {lead text rest : List Char} (hlead : Lead first lead)
      (hvalue : IsValue text) (hrest : IsElements false rest) :
      IsElements first (lead ++ (text ++ rest))

/-- The inside of an object and its closing brace, with the insides of the keys and the texts of the
values. -/
inductive IsMembers : Bool → List Char → List (List Char × List Char) → Prop
  | close {first : Bool} {blanks : List Char} (h : IsBlank blanks) :
      IsMembers first (blanks ++ ['\x7d']) []
  | member {first : Bool} {lead name colon text rest : List Char}
      {members : List (List Char × List Char)} (hlead : Lead first lead) (hname : IsInside name)
      (hcolon : IsColon colon) (hvalue : IsValue text) (hrest : IsMembers false rest members) :
      IsMembers first (lead ++ (quote name ++ (colon ++ (text ++ rest)))) ((name, text) :: members)

end

/-- A text that is an object as a whole. -/
inductive IsObject : List Char → List (List Char × List Char) → Prop
  | intro {before inside after : List Char} {members : List (List Char × List Char)}
      (hbefore : IsBlank before) (h : IsMembers true inside members) (hafter : IsBlank after) :
      IsObject (before ++ '\x7b' :: (inside ++ after)) members

/-- The keys of members, where each of them stands for characters. -/
def Named (members : List (List Char × List Char)) (named : List (String × List Char)) : Prop :=
  List.Forall₂ (fun m p => StandsFor m.1 p.1.toList ∧ m.2 = p.2) members named

end ScreenAtlas.Json
