import Mathlib.Data.List.Induction
import ScreenAtlas.Utf8
/-!
# Encoding and decoding agree

The decoder reads the bytes of a text back as that text, and every byte sequence in which it finds
no ill-formed piece is the encoding of what it reads.

## Main statements

* `decode_encode` — decoding an encoded text.
* `decode?_eq_some_iff` — the byte sequences that are well-formed.
* `exists_of_encode_eq_append` — texts that end in bytes below 0x80.
* `mem_of_mem_decodeLossy` — characters below 0x80 stand for their own bytes.
-/
namespace ScreenAtlas.Utf8

/-! ## Single bytes -/

theorem toNat_ofNat {n : Nat} (h : n < 0x100) : (UInt8.ofNat n).toNat = n :=
  UInt8.toNat_ofNat_of_lt h

theorem first_ascii {b : UInt8} (h : b.toNat < 0x80) :
    Step.first b = ⟨[some (Char.ofNat b.toNat)], none⟩ :=
  if_pos h

theorem first_of_two {b : UInt8} (h : 0xC2 ≤ b.toNat) (h' : b.toNat < 0xE0) :
    Step.first b = ⟨[], some ⟨0x80, 0xBF, 0, b.toNat - 0xC0⟩⟩ := by
  simp only [Step.first]
  rw [if_neg (by omega), if_neg (by omega), if_pos h']

theorem first_of_three {b : UInt8} (h : 0xE0 ≤ b.toNat) (h' : b.toNat < 0xF0) :
    Step.first b = ⟨[], some ⟨if b.toNat = 0xE0 then 0xA0 else 0x80,
      if b.toNat = 0xED then 0x9F else 0xBF, 1, b.toNat - 0xE0⟩⟩ := by
  simp only [Step.first]
  rw [if_neg (by omega), if_neg (by omega), if_neg (by omega), if_pos h']

theorem first_of_four {b : UInt8} (h : 0xF0 ≤ b.toNat) (h' : b.toNat < 0xF5) :
    Step.first b = ⟨[], some ⟨if b.toNat = 0xF0 then 0x90 else 0x80,
      if b.toNat = 0xF4 then 0x8F else 0xBF, 2, b.toNat - 0xF0⟩⟩ := by
  simp only [Step.first]
  rw [if_neg (by omega), if_neg (by omega), if_neg (by omega), if_neg (by omega), if_pos h']

/-- The last byte of a character. -/
theorem decodeFrom_last {low high bits : Nat} {b : UInt8} (h : low ≤ b.toNat)
    (h' : b.toNat ≤ high) (rest : List UInt8) :
    decodeFrom (some ⟨low, high, 0, bits⟩) (b :: rest) =
      some (Char.ofNat (bits * 64 + (b.toNat - 0x80))) :: decodeFrom none rest := by
  simp [decodeFrom, Step.next, h, h']

/-- A byte within a character. -/
theorem decodeFrom_inner {low high owed bits : Nat} {b : UInt8} (h : low ≤ b.toNat)
    (h' : b.toNat ≤ high) (rest : List UInt8) :
    decodeFrom (some ⟨low, high, owed + 1, bits⟩) (b :: rest) =
      decodeFrom (some ⟨0x80, 0xBF, owed, bits * 64 + (b.toNat - 0x80)⟩) rest := by
  simp [decodeFrom, Step.next, h, h']

/-- A byte that opens a character of several bytes. -/
theorem decodeFrom_opening {b : UInt8} {p : Pending} (h : Step.first b = ⟨[], some p⟩)
    (rest : List UInt8) : decodeFrom none (b :: rest) = decodeFrom (some p) rest := by
  simp [decodeFrom, Step.next, h]

/-! ## Decoding what was encoded -/

theorem decodeFrom_encodeChar (c : Char) (rest : List UInt8) :
    decodeFrom none (String.utf8EncodeChar c ++ rest) = some c :: decodeFrom none rest := by
  have hvalid : c.val.toNat < 0xD800 ∨ 0xDFFF < c.val.toNat ∧ c.val.toNat < 0x110000 := c.valid
  have hchar : Char.ofNat c.val.toNat = c := Char.ofNat_toNat c
  unfold String.utf8EncodeChar
  dsimp only
  generalize c.val.toNat = n at hvalid hchar ⊢
  split
  · have hb := toNat_ofNat (n := n) (by omega)
    simp [decodeFrom, Step.next, first_ascii (b := UInt8.ofNat n) (by omega), hb, hchar]
  · split
    · have hb := toNat_ofNat (n := n / 64 % 0x20 + 0xC0) (by omega)
      have hb' := toNat_ofNat (n := n % 0x40 + 0x80) (by omega)
      rw [List.cons_append, decodeFrom_opening (first_of_two (by omega) (by omega)),
        List.cons_append, decodeFrom_last (by omega) (by omega), hb, hb']
      have hn : (n / 64 % 0x20 + 0xC0 - 0xC0) * 64 + (n % 0x40 + 0x80 - 0x80) = n := by omega
      rw [hn, hchar, List.nil_append]
    · split
      · have hb := toNat_ofNat (n := n / 4096 % 0x10 + 0xE0) (by omega)
        have hb' := toNat_ofNat (n := n / 64 % 0x40 + 0x80) (by omega)
        have hb'' := toNat_ofNat (n := n % 0x40 + 0x80) (by omega)
        rw [List.cons_append, decodeFrom_opening (first_of_three (by omega) (by omega)),
          List.cons_append, decodeFrom_inner (by split <;> omega) (by split <;> omega),
          List.cons_append, decodeFrom_last (by omega) (by omega), hb, hb', hb'']
        have hn : ((n / 4096 % 0x10 + 0xE0 - 0xE0) * 64 + (n / 64 % 0x40 + 0x80 - 0x80)) * 64 +
            (n % 0x40 + 0x80 - 0x80) = n := by omega
        rw [hn, hchar, List.nil_append]
      · have hb := toNat_ofNat (n := n / 262144 % 0x08 + 0xF0) (by omega)
        have hb' := toNat_ofNat (n := n / 4096 % 0x40 + 0x80) (by omega)
        have hb'' := toNat_ofNat (n := n / 64 % 0x40 + 0x80) (by omega)
        have hb''' := toNat_ofNat (n := n % 0x40 + 0x80) (by omega)
        rw [List.cons_append, decodeFrom_opening (first_of_four (by omega) (by omega)),
          List.cons_append, decodeFrom_inner (by split <;> omega) (by split <;> omega),
          List.cons_append, decodeFrom_inner (by omega) (by omega),
          List.cons_append, decodeFrom_last (by omega) (by omega), hb, hb', hb'', hb''']
        have hn : (((n / 262144 % 0x08 + 0xF0 - 0xF0) * 64 +
            (n / 4096 % 0x40 + 0x80 - 0x80)) * 64 + (n / 64 % 0x40 + 0x80 - 0x80)) * 64 +
            (n % 0x40 + 0x80 - 0x80) = n := by omega
        rw [hn, hchar, List.nil_append]

theorem encode_cons (c : Char) (s : List Char) :
    encode (c :: s) = String.utf8EncodeChar c ++ encode s :=
  List.flatMap_cons

theorem encode_append (s t : List Char) : encode (s ++ t) = encode s ++ encode t :=
  List.flatMap_append

/-- **Decoding an encoded text** gives its characters, with no ill-formed piece among them. -/
theorem decode_encode (s : List Char) : decode (encode s) = s.map some := by
  induction s with
  | nil => rfl
  | cons c s ih =>
      rw [encode_cons, decode, decodeFrom_encodeChar, List.map_cons]
      exact congrArg _ ih

theorem decodeLossy_encode (s : List Char) : decodeLossy (encode s) = s := by
  simp [decodeLossy, decode_encode, Function.comp_def]

/-! ## Encoding what was decoded -/

/-- Where no piece is ill-formed, an unfinished character goes on with a byte in its range. -/
theorem exists_cons_of_decodeFrom {low high owed bits : Nat} {bytes : List UInt8} {s : List Char}
    (h : decodeFrom (some ⟨low, high, owed, bits⟩) bytes = s.map some) :
    ∃ b rest, bytes = b :: rest ∧ low ≤ b.toNat ∧ b.toNat ≤ high := by
  cases bytes with
  | nil => cases s <;> simp [decodeFrom] at h
  | cons b rest =>
      refine ⟨b, rest, rfl, Decidable.byContradiction fun hrange => ?_⟩
      cases s <;> simp [decodeFrom, Step.next, hrange] at h

theorem toNat_val_ofNat {n : Nat} (h : n < 0xD800 ∨ 0xDFFF < n ∧ n < 0x110000) :
    (Char.ofNat n).val.toNat = n := by
  have hvalid : n.isValidChar := h
  rw [Char.ofNat, dif_pos hvalid]
  rfl

theorem encodeChar_one {b : UInt8} (h : b.toNat < 0x80) :
    String.utf8EncodeChar (Char.ofNat b.toNat) = [b] := by
  rw [String.utf8EncodeChar, toNat_val_ofNat (by omega), if_pos (by omega), UInt8.ofNat_toNat]

theorem encodeChar_two {b b' : UInt8} (h : 0xC2 ≤ b.toNat) (h' : b.toNat < 0xE0)
    (k : 0x80 ≤ b'.toNat) (k' : b'.toNat ≤ 0xBF) :
    String.utf8EncodeChar (Char.ofNat ((b.toNat - 0xC0) * 64 + (b'.toNat - 0x80))) = [b, b'] := by
  have hb : ((b.toNat - 0xC0) * 64 + (b'.toNat - 0x80)) / 64 % 0x20 + 0xC0 = b.toNat := by omega
  have hb' : ((b.toNat - 0xC0) * 64 + (b'.toNat - 0x80)) % 0x40 + 0x80 = b'.toNat := by omega
  rw [String.utf8EncodeChar, toNat_val_ofNat (by omega), if_neg (by omega), if_pos (by omega),
    hb, hb', UInt8.ofNat_toNat, UInt8.ofNat_toNat]

theorem encodeChar_three {b₀ b₁ b₂ : UInt8} (h : 0xE0 ≤ b₀.toNat) (h' : b₀.toNat < 0xF0)
    (k : 0x80 ≤ b₁.toNat) (k' : b₁.toNat ≤ 0xBF) (hlow : b₀.toNat = 0xE0 → 0xA0 ≤ b₁.toNat)
    (hhigh : b₀.toNat = 0xED → b₁.toNat ≤ 0x9F) (l : 0x80 ≤ b₂.toNat) (l' : b₂.toNat ≤ 0xBF) :
    String.utf8EncodeChar (Char.ofNat (((b₀.toNat - 0xE0) * 64 + (b₁.toNat - 0x80)) * 64 +
      (b₂.toNat - 0x80))) = [b₀, b₁, b₂] := by
  generalize hn : ((b₀.toNat - 0xE0) * 64 + (b₁.toNat - 0x80)) * 64 + (b₂.toNat - 0x80) = n
  have hb₀ : n / 4096 % 0x10 + 0xE0 = b₀.toNat := by omega
  have hb₁ : n / 64 % 0x40 + 0x80 = b₁.toNat := by omega
  have hb₂ : n % 0x40 + 0x80 = b₂.toNat := by omega
  rw [String.utf8EncodeChar, toNat_val_ofNat (by omega), if_neg (by omega), if_neg (by omega),
    if_pos (by omega), hb₀, hb₁, hb₂, UInt8.ofNat_toNat, UInt8.ofNat_toNat, UInt8.ofNat_toNat]

theorem encodeChar_four {b₀ b₁ b₂ b₃ : UInt8} (h : 0xF0 ≤ b₀.toNat) (h' : b₀.toNat < 0xF5)
    (k : 0x80 ≤ b₁.toNat) (k' : b₁.toNat ≤ 0xBF) (hlow : b₀.toNat = 0xF0 → 0x90 ≤ b₁.toNat)
    (hhigh : b₀.toNat = 0xF4 → b₁.toNat ≤ 0x8F) (l : 0x80 ≤ b₂.toNat) (l' : b₂.toNat ≤ 0xBF)
    (m : 0x80 ≤ b₃.toNat) (m' : b₃.toNat ≤ 0xBF) :
    String.utf8EncodeChar (Char.ofNat ((((b₀.toNat - 0xF0) * 64 + (b₁.toNat - 0x80)) * 64 +
      (b₂.toNat - 0x80)) * 64 + (b₃.toNat - 0x80))) = [b₀, b₁, b₂, b₃] := by
  generalize hn : (((b₀.toNat - 0xF0) * 64 + (b₁.toNat - 0x80)) * 64 + (b₂.toNat - 0x80)) * 64 +
    (b₃.toNat - 0x80) = n
  have hb₀ : n / 262144 % 0x08 + 0xF0 = b₀.toNat := by omega
  have hb₁ : n / 4096 % 0x40 + 0x80 = b₁.toNat := by omega
  have hb₂ : n / 64 % 0x40 + 0x80 = b₂.toNat := by omega
  have hb₃ : n % 0x40 + 0x80 = b₃.toNat := by omega
  rw [String.utf8EncodeChar, toNat_val_ofNat (by omega), if_neg (by omega), if_neg (by omega),
    if_neg (by omega), hb₀, hb₁, hb₂, hb₃, UInt8.ofNat_toNat, UInt8.ofNat_toNat,
    UInt8.ofNat_toNat, UInt8.ofNat_toNat]

/-- A byte sequence without ill-formed pieces starts with an encoded character. -/
theorem exists_encodeChar_append {b₀ : UInt8} {bytes : List UInt8} {s : List Char}
    (h : decodeFrom none (b₀ :: bytes) = s.map some) :
    ∃ c rest, b₀ :: bytes = String.utf8EncodeChar c ++ rest := by
  by_cases h1 : b₀.toNat < 0x80
  · exact ⟨Char.ofNat b₀.toNat, bytes, by rw [encodeChar_one h1, List.singleton_append]⟩
  by_cases h2 : b₀.toNat < 0xC2
  · cases s <;> simp [decodeFrom, Step.next, Step.first, h1, h2] at h
  by_cases h3 : b₀.toNat < 0xE0
  · rw [decodeFrom_opening (first_of_two (by omega) h3)] at h
    obtain ⟨b₁, rest, rfl, k, k'⟩ := exists_cons_of_decodeFrom h
    exact ⟨_, rest, by rw [encodeChar_two (by omega) h3 k k']; rfl⟩
  by_cases h4 : b₀.toNat < 0xF0
  · rw [decodeFrom_opening (first_of_three (by omega) h4)] at h
    obtain ⟨b₁, rest, rfl, k, k'⟩ := exists_cons_of_decodeFrom h
    rw [decodeFrom_inner k k'] at h
    obtain ⟨b₂, rest, rfl, l, l'⟩ := exists_cons_of_decodeFrom h
    refine ⟨_, rest, (congrArg (· ++ rest) (encodeChar_three ?_ h4 ?_ ?_ ?_ ?_ l l')).symm⟩ <;>
      split at k <;> split at k' <;> omega
  by_cases h5 : b₀.toNat < 0xF5
  · rw [decodeFrom_opening (first_of_four (by omega) h5)] at h
    obtain ⟨b₁, rest, rfl, k, k'⟩ := exists_cons_of_decodeFrom h
    rw [decodeFrom_inner k k'] at h
    obtain ⟨b₂, rest, rfl, l, l'⟩ := exists_cons_of_decodeFrom h
    rw [decodeFrom_inner l l'] at h
    obtain ⟨b₃, rest, rfl, m, m'⟩ := exists_cons_of_decodeFrom h
    refine ⟨_, rest, (congrArg (· ++ rest) (encodeChar_four ?_ h5 ?_ ?_ ?_ ?_ l l' m m')).symm⟩ <;>
      split at k <;> split at k' <;> omega
  · cases s <;> simp [decodeFrom, Step.next, Step.first, h1, h2, h3, h4, h5] at h

theorem eq_encode_of_decodeFrom {bytes : List UInt8} {s : List Char}
    (h : decodeFrom none bytes = s.map some) : bytes = encode s := by
  induction s generalizing bytes with
  | nil =>
      cases bytes with
      | nil => rfl
      | cons b bytes =>
          obtain ⟨c, rest, hbytes⟩ := exists_encodeChar_append h
          rw [hbytes, decodeFrom_encodeChar] at h
          simp at h
  | cons c s ih =>
      cases bytes with
      | nil => simp [decodeFrom] at h
      | cons b bytes =>
          obtain ⟨c', rest, hbytes⟩ := exists_encodeChar_append h
          rw [hbytes, decodeFrom_encodeChar, List.map_cons, List.cons.injEq, Option.some.injEq] at h
          rw [hbytes, encode_cons, h.1, ih h.2]

/-- All pieces are well-formed exactly when they are the characters of a text. -/
theorem mapM_id_eq_some_iff {pieces : List (Option Char)} {s : List Char} :
    pieces.mapM id = some s ↔ pieces = s.map some := by
  induction pieces generalizing s with
  | nil => cases s <;> simp
  | cons piece pieces ih =>
      cases piece with
      | none => cases s <;> simp
      | some c =>
          cases s with
          | nil => simp [Option.bind_eq_some_iff]
          | cons c' s =>
              simp only [List.mapM_cons, id_eq, List.map_cons, List.cons.injEq, Option.some.injEq,
                ← ih]
              cases List.mapM id pieces <;> simp [and_comm]

/-- **The well-formed byte sequences** are the encoded texts, each of one text only. -/
theorem decode?_eq_some_iff {bytes : List UInt8} {s : List Char} :
    decode? bytes = some s ↔ bytes = encode s := by
  rw [decode?, mapM_id_eq_some_iff]
  constructor
  · exact eq_encode_of_decodeFrom
  · rintro rfl
    exact decode_encode s

/-! ## The end of a text -/

theorem encode_singleton (c : Char) : encode [c] = String.utf8EncodeChar c :=
  List.flatMap_singleton _ c

theorem encode_injective {s t : List Char} (h : encode s = encode t) : s = t := by
  rw [← decodeLossy_encode s, h, decodeLossy_encode]

theorem encodeChar_ascii {c : Char} (h : c.val.toNat < 0x80) :
    String.utf8EncodeChar c = [UInt8.ofNat c.val.toNat] :=
  if_pos (Nat.le_of_lt_succ h)

/-- A character is a single byte below 0x80, or its last byte is not below 0x80. -/
theorem encodeChar_last (c : Char) :
    c.val.toNat < 0x80 ∨
      ∃ front last, String.utf8EncodeChar c = front ++ [last] ∧ 0x80 ≤ last.toNat := by
  unfold String.utf8EncodeChar
  dsimp only
  generalize c.val.toNat = n
  have hlast : 0x80 ≤ (UInt8.ofNat (n % 0x40 + 0x80)).toNat := by
    rw [toNat_ofNat (by omega)]
    omega
  split
  · exact .inl (by omega)
  · right
    split
    · exact ⟨[_], _, rfl, hlast⟩
    · split
      · exact ⟨[_, _], _, rfl, hlast⟩
      · exact ⟨[_, _, _], _, rfl, hlast⟩

/-- **A text that ends in bytes below 0x80** ends in the characters of these bytes. -/
theorem exists_of_encode_eq_append {s ascii : List Char} {bytes : List UInt8}
    (hascii : ∀ c ∈ ascii, c.val.toNat < 0x80) (h : encode s = bytes ++ encode ascii) :
    ∃ s', s = s' ++ ascii ∧ encode s' = bytes := by
  induction ascii using List.reverseRecOn generalizing s with
  | nil => exact ⟨s, by simp, by simpa [encode] using h⟩
  | append_singleton ascii c ih =>
      have hc : c.val.toNat < 0x80 := hascii c (by simp)
      have hbyte := toNat_ofNat (n := c.val.toNat) (by omega)
      rw [encode_append, encode_singleton, encodeChar_ascii hc, ← List.append_assoc] at h
      cases s using List.reverseRecOn with
      | nil => simp [encode] at h
      | append_singleton s d =>
          rw [encode_append, encode_singleton] at h
          obtain hd | ⟨front, last, hd, hlast⟩ := encodeChar_last d
          · rw [encodeChar_ascii hd] at h
            obtain ⟨hfront, hlast⟩ := List.append_inj' h rfl
            obtain ⟨s', rfl, hs'⟩ := ih (fun c' hc' => hascii c' (by simp [hc'])) hfront
            have hdc : [d] = [c] := encode_injective (by
              rw [encode_singleton, encode_singleton, encodeChar_ascii hd, encodeChar_ascii hc,
                hlast])
            exact ⟨s', by rw [hdc, List.append_assoc], hs'⟩
          · rw [hd, ← List.append_assoc] at h
            obtain ⟨-, heq⟩ := List.append_inj' h rfl
            obtain rfl := List.singleton_inj.mp heq
            omega

/-! ## Characters below 0x80 -/

/-- Whatever bytes continue a pending character, it lies above 0x7F. -/
structure Pending.IsWide (p : Pending) : Prop where
  next : 2 ≤ p.bits * 64 + (p.low - 0x80)
  last : p.owed = 0 → 0x80 ≤ p.bits * 64 + (p.low - 0x80)

theorem isWide_of_first {b : UInt8} {p : Pending} (h : (Step.first b).pending = some p) :
    p.IsWide := by
  unfold Step.first at h
  generalize b.toNat = n at h
  dsimp only at h
  split at h
  · cases h
  · split at h
    · cases h
    · split at h
      · obtain rfl := Option.some.inj h
        constructor <;> dsimp only <;> omega
      · split at h
        · obtain rfl := Option.some.inj h
          constructor <;> dsimp only <;> split <;> omega
        · split at h
          · obtain rfl := Option.some.inj h
            constructor <;> dsimp only <;> split <;> omega
          · cases h

/-- No step leaves a character pending that could end below 0x80. -/
theorem isWide_of_next {p : Option Pending} (hp : ∀ q, p = some q → q.IsWide) {b : UInt8}
    {q : Pending} (h : (Step.next p b).pending = some q) : q.IsWide := by
  cases p with
  | none => exact isWide_of_first h
  | some p =>
      obtain ⟨hnext, -⟩ := hp p rfl
      rw [Step.next] at h
      split at h
      · dsimp only at h
        split at h
        · cases h
        · obtain rfl := Option.some.inj h
          constructor <;> dsimp only <;> omega
      · exact isWide_of_first h

theorem eq_nul_of_ofNat {n : Nat} (hn : 0x80 ≤ n) (h : (Char.ofNat n).val.toNat < 0x80) :
    Char.ofNat n = '\x00' := by
  by_cases hvalid : n.isValidChar
  · rw [toNat_val_ofNat hvalid] at h
    omega
  · rw [Char.ofNat, dif_neg hvalid]
    rfl

/-- A step completes a character below 0x80 only as that character's own byte. -/
theorem toNat_of_mem_pieces_first {c : Char} {b : UInt8}
    (h : some c ∈ (Step.first b).pieces) : b.toNat = c.val.toNat := by
  by_cases hb : b.toNat < 0x80
  · rw [first_ascii hb, List.mem_singleton, Option.some.injEq] at h
    rw [h, toNat_val_ofNat (by omega)]
  · have hnone : ∀ piece ∈ (Step.first b).pieces, piece = none := by
      unfold Step.first
      rw [if_neg hb]
      repeat' split
      all_goals simp
    cases hnone _ h

theorem toNat_of_mem_pieces_next {c : Char} (hc : c.val.toNat < 0x80) (hnul : c ≠ '\x00')
    {p : Option Pending} (hp : ∀ q, p = some q → q.IsWide) {b : UInt8}
    (h : some c ∈ (Step.next p b).pieces) : b.toNat = c.val.toNat := by
  cases p with
  | none => exact toNat_of_mem_pieces_first h
  | some p =>
      obtain ⟨-, hlast⟩ := hp p rfl
      rw [Step.next] at h
      split at h
      · dsimp only at h
        split at h
        · next howed =>
          have hwide := hlast howed
          have hn : 0x80 ≤ p.bits * 64 + (b.toNat - 0x80) := by omega
          have heq : c = Char.ofNat _ := Option.some.inj (List.mem_singleton.mp h)
          rw [heq] at hc hnul
          exact absurd (eq_nul_of_ofNat hn hc) hnul
        · cases h
      · rcases List.mem_cons.mp h with hnone | h
        · cases hnone
        · exact toNat_of_mem_pieces_first h

theorem mem_of_mem_decodeFrom {c : Char} (hc : c.val.toNat < 0x80) (hnul : c ≠ '\x00')
    {p : Option Pending} (hp : ∀ q, p = some q → q.IsWide) {bytes : List UInt8}
    (h : some c ∈ decodeFrom p bytes) : UInt8.ofNat c.val.toNat ∈ bytes := by
  induction bytes generalizing p with
  | nil => cases p <;> simp [decodeFrom] at h
  | cons b bytes ih =>
      rw [decodeFrom, List.mem_append] at h
      rcases h with hpieces | hrest
      · rw [← toNat_of_mem_pieces_next hc hnul hp hpieces, UInt8.ofNat_toNat]
        exact List.mem_cons_self
      · exact List.mem_cons_of_mem _ (ih (fun _ => isWide_of_next hp) hrest)

/-- **Characters below 0x80 stand for their own bytes**, also where the rest is ill-formed. -/
theorem mem_of_mem_decodeLossy {c : Char} (hc : c.val.toNat < 0x80) (hnul : c ≠ '\x00')
    {bytes : List UInt8} (h : c ∈ decodeLossy bytes) : UInt8.ofNat c.val.toNat ∈ bytes := by
  obtain ⟨piece, hpiece, hshown⟩ := List.mem_map.mp h
  cases piece with
  | none =>
      obtain rfl : '\uFFFD' = c := hshown
      exact absurd hc (by decide)
  | some d =>
      obtain rfl : d = c := hshown
      exact mem_of_mem_decodeFrom hc hnul (fun _ hq => absurd hq (by simp)) hpiece

/-- A character is not continued by bytes below 0x80. -/
theorem low_of_first {b : UInt8} {p : Pending} (h : (Step.first b).pending = some p) :
    0x80 ≤ p.low := by
  unfold Step.first at h
  dsimp only at h
  split_ifs at h
  all_goals
    obtain rfl := Option.some.inj h
    simp

theorem low_of_next {p : Option Pending} {b : UInt8} {q : Pending}
    (h : (Step.next p b).pending = some q) : 0x80 ≤ q.low := by
  cases p with
  | none => exact low_of_first h
  | some p =>
      rw [Step.next] at h
      split at h
      · dsimp only at h
        split at h
        · cases h
        · obtain rfl := Option.some.inj h
          exact Nat.le_refl 0x80
      · exact low_of_first h

/-- A byte below 0x80 ends a pending character, and is then read as a character of its own. -/
theorem decodeFrom_ascii {p : Option Pending} (hp : ∀ q, p = some q → 0x80 ≤ q.low) {b : UInt8}
    (hb : b.toNat < 0x80) (rest : List UInt8) : decodeFrom p (b :: rest) =
      decodeFrom p [] ++ some (Char.ofNat b.toNat) :: decodeFrom none rest := by
  cases p with
  | none => simp [decodeFrom, Step.next, first_ascii hb]
  | some p =>
      have hlow : ¬p.low ≤ b.toNat := by
        have := hp p rfl
        omega
      simp [decodeFrom, Step.next, first_ascii hb, hlow]

theorem decodeFrom_append_ascii {p : Option Pending} (hp : ∀ q, p = some q → 0x80 ≤ q.low)
    {b : UInt8} (hb : b.toNat < 0x80) (bytes rest : List UInt8) :
    decodeFrom p (bytes ++ b :: rest) =
      decodeFrom p bytes ++ some (Char.ofNat b.toNat) :: decodeFrom none rest := by
  induction bytes generalizing p with
  | nil => exact decodeFrom_ascii hp hb rest
  | cons b' bytes ih =>
      rw [List.cons_append, decodeFrom, decodeFrom, ih fun q hq => low_of_next hq,
        List.append_assoc]

/-- **A byte below 0x80 cuts a byte sequence in two**, whatever is ill-formed in front of it. -/
theorem decodeLossy_append_ascii {b : UInt8} (hb : b.toNat < 0x80) (bytes rest : List UInt8) :
    decodeLossy (bytes ++ b :: rest) =
      decodeLossy bytes ++ Char.ofNat b.toNat :: decodeLossy rest := by
  simp only [decodeLossy, decode]
  rw [decodeFrom_append_ascii (by simp) hb, List.map_append, List.map_cons, Option.getD_some]

end ScreenAtlas.Utf8
