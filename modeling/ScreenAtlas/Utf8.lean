/-!
# UTF-8

Bytes are decoded by a machine that reads one byte at a time and keeps the character it is in the
middle of. A byte sequence that no character can have is cut into its longest ill-formed pieces:
each piece is a proper start of some character's bytes, or a single byte that starts none.

`decode` shows every piece as `none`. `decode?` refuses a text with such a piece, and
`decodeLossy` writes U+FFFD for it.
-/
namespace ScreenAtlas.Utf8

/-- A character of which the first bytes were read: the range the next byte must lie in, how many
bytes follow that one, and the bits collected so far. -/
structure Pending where
  low : Nat
  high : Nat
  owed : Nat
  bits : Nat

/-- The outcome of one byte: the pieces it completes, and the character it leaves unfinished. -/
structure Step where
  pieces : List (Option Char)
  pending : Option Pending

/-- The step of a byte between two characters. A first byte narrows the range of the second one so
that no character has two spellings, none is a surrogate and none lies above U+10FFFF. -/
def Step.first (b : UInt8) : Step :=
  let n := b.toNat
  if n < 0x80 then ⟨[some (Char.ofNat n)], none⟩
  else if n < 0xC2 then ⟨[none], none⟩
  else if n < 0xE0 then ⟨[], some ⟨0x80, 0xBF, 0, n - 0xC0⟩⟩
  else if n < 0xF0 then
    ⟨[], some ⟨if n = 0xE0 then 0xA0 else 0x80, if n = 0xED then 0x9F else 0xBF, 1, n - 0xE0⟩⟩
  else if n < 0xF5 then
    ⟨[], some ⟨if n = 0xF0 then 0x90 else 0x80, if n = 0xF4 then 0x8F else 0xBF, 2, n - 0xF0⟩⟩
  else ⟨[none], none⟩

/-- The step of any byte. A byte that cannot continue the pending character ends it as ill-formed
and is then read as a first byte. -/
def Step.next : Option Pending → UInt8 → Step
  | none, b => .first b
  | some p, b =>
    if p.low ≤ b.toNat ∧ b.toNat ≤ p.high then
      let bits := p.bits * 64 + (b.toNat - 0x80)
      match p.owed with
      | 0 => ⟨[some (Char.ofNat bits)], none⟩
      | owed + 1 => ⟨[], some ⟨0x80, 0xBF, owed, bits⟩⟩
    else
      let s := Step.first b
      ⟨none :: s.pieces, s.pending⟩

/-- Decoding from the middle of a character; an unfinished character at the end is ill-formed. -/
def decodeFrom : Option Pending → List UInt8 → List (Option Char)
  | none, [] => []
  | some _, [] => [none]
  | p, b :: bytes => (Step.next p b).pieces ++ decodeFrom (Step.next p b).pending bytes

/-- The characters of a byte sequence, with `none` for each longest ill-formed piece. -/
def decode (bytes : List UInt8) : List (Option Char) :=
  decodeFrom none bytes

/-- The characters of a well-formed byte sequence. -/
def decode? (bytes : List UInt8) : Option (List Char) :=
  (decode bytes).mapM id

/-- The characters of a byte sequence, with U+FFFD for each longest ill-formed piece. -/
def decodeLossy (bytes : List UInt8) : List Char :=
  (decode bytes).map (·.getD '\uFFFD')

/-- The bytes of a text. -/
def encode (s : List Char) : List UInt8 :=
  s.flatMap String.utf8EncodeChar

end ScreenAtlas.Utf8
