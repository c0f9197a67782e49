import ScreenAtlas.Proofs.Json.Scalar
/-!
# Lists, maps and records are read part by part

The inside of a list is a text of elements, each behind its lead, up to the closing bracket. If the
reader of elements takes each of these texts, the reader of lists takes the whole. The same holds of
maps, and of records, where each known member fills a field of the draft and all others are passed
over. The fuel of the readers is never used up.

## Main definitions

* `Elements`, `Entries`, `Members` — the inside of a list, a map and the object of a record.
* `Skips` — a text of a value that can be passed over.

## Main statements

* `Elements.takes_list`, `Entries.takes_map`, `Members.takes_record` — reading the whole.
-/
namespace ScreenAtlas.Json

/-! ## Lists -/

section
variable {α : Type} {read : Reader α}

/-- The inside of a list and its closing bracket, with the elements that it is read for. The first
argument says whether the first element comes next. -/
inductive Elements (read : Reader α) : Bool → List Char → List α → Prop
  | close {first : Bool} {blanks : List Char} (h : IsBlank blanks) :
      Elements read first (blanks ++ [']']) []
  | element {first : Bool} {lead text rest : List Char} {a : α} {as : List α}
      (hlead : Lead first lead) (ha : Takes read text a) (has : Elements read false rest as) :
      Elements read first (lead ++ (text ++ rest)) (a :: as)

/-- A number ends in front of a later element and of the closing bracket. -/
theorem Elements.ends {text : List Char} {as : List α} (h : Elements read false text as)
    (rest : List Char) : Ends (text ++ rest) := by
  cases h with
  | close h => exact ends_close h (by decide) rest
  | element hlead => exact hlead.ends _ rest

/-- As much fuel as the text is long is enough. -/
theorem Elements.readElements_eq {first : Bool} {text : List Char} {as : List α}
    (h : Elements read first text as) (fuel : Nat) (hfuel : text.length ≤ fuel)
    (rest : List Char) : readElements read fuel first (text ++ rest) = .ok (as, rest) := by
  -- On the elements and not on the fuel: each takes one unit and is at least one character long.
  induction h generalizing fuel with
  | @close first blanks h =>
      obtain ⟨fuel, rfl⟩ : ∃ n, fuel = n + 1 := ⟨fuel - 1, by simp at hfuel; omega⟩
      rw [readElements, List.append_assoc, List.singleton_append, nextElement_close first h]
      rfl
  | @element first lead text more a as hlead ha has ih =>
      have hpos := ha.length_pos
      simp only [List.length_append] at hfuel
      obtain ⟨fuel, rfl⟩ : ∃ n, fuel = n + 1 := ⟨fuel - 1, by omega⟩
      have hread := ha.read [] (more ++ rest) isBlank_nil (has.ends rest)
      -- The lead is told from the element by the first character of the element.
      obtain ⟨c, s, rfl, hc⟩ := ha.starts
      rw [List.nil_append, List.cons_append] at hread
      rw [readElements, List.append_assoc, List.append_assoc, List.cons_append,
        nextElement_lead hlead hc]
      simp only [bind, Except.bind, hread, ih fuel (by omega)]

/-- **Reading a list.** -/
theorem Elements.takes_list {text : List Char} {as : List α} (h : Elements read true text as) :
    Takes (readList read) ('[' :: text) as where
  starts := ⟨'[', text, rfl, by decide⟩
  read blanks rest hblanks _ := by
    rw [List.cons_append, readList, skipSpace_append_cons hblanks (by decide)]
    exact h.readElements_eq _ (by simp; omega) rest

end

/-! ## Maps -/

section
variable {κ ν : Type} {key : Reader κ} {value : Reader ν}

/-- The inside of a map and its closing brace, with the entries that it is read for. -/
inductive Entries (key : Reader κ) (value : Reader ν) : Bool → List Char → List (κ × ν) → Prop
  | close {first : Bool} {blanks : List Char} (h : IsBlank blanks) :
      Entries key value first (blanks ++ ['\x7d']) []
  | entry {first : Bool} {lead name colon text rest : List Char} {k : κ} {v : ν}
      {entries : List (κ × ν)} (hlead : Lead first lead) (hk : Takes key ('"' :: name) k)
      (hcolon : IsColon colon) (hv : Takes value text v)
      (hrest : Entries key value false rest entries) :
      Entries key value first (lead ++ ('"' :: name ++ (colon ++ (text ++ rest))))
        ((k, v) :: entries)

theorem Entries.ends {text : List Char} {entries : List (κ × ν)}
    (h : Entries key value false text entries) (rest : List Char) : Ends (text ++ rest) := by
  cases h with
  | close h => exact ends_close h (by decide) rest
  | entry hlead => exact hlead.ends _ rest

/-- As much fuel as the text is long is enough. -/
theorem Entries.readEntries_eq {first : Bool} {text : List Char} {entries : List (κ × ν)}
    (h : Entries key value first text entries) (fuel : Nat) (hfuel : text.length ≤ fuel)
    (rest : List Char) : readEntries key value fuel first (text ++ rest) = .ok (entries, rest) := by
  induction h generalizing fuel with
  | @close first blanks h =>
      obtain ⟨fuel, rfl⟩ : ∃ n, fuel = n + 1 := ⟨fuel - 1, by simp at hfuel; omega⟩
      rw [readEntries, List.append_assoc, List.singleton_append, nextMember_close first h]
      rfl
  | @entry first lead name colon text more k v entries hlead hk hcolon hv hmore ih =>
      simp only [List.length_append, List.length_cons] at hfuel
      obtain ⟨fuel, rfl⟩ : ∃ n, fuel = n + 1 := ⟨fuel - 1, by omega⟩
      obtain ⟨blanks, hblanks, hskip⟩ := readColon_append hcolon
      have hkey := hk.read [] (colon ++ (text ++ (more ++ rest))) isBlank_nil (hcolon.ends _)
      have hvalue := hv.read blanks (more ++ rest) hblanks (hmore.ends rest)
      rw [List.nil_append, List.cons_append] at hkey
      simp only [List.append_assoc, List.cons_append]
      rw [readEntries, nextMember_lead hlead]
      simp only [bind, Except.bind, hkey, hskip, hvalue, ih fuel (by omega)]

/-- **Reading a map.** -/
theorem Entries.takes_map {text : List Char} {entries : List (κ × ν)}
    (h : Entries key value true text entries) :
    Takes (readMap key value) ('\x7b' :: text) entries where
  starts := ⟨'\x7b', text, rfl, by decide⟩
  read blanks rest hblanks _ := by
    rw [List.cons_append, readMap, skipSpace_append_cons hblanks (by decide)]
    exact h.readEntries_eq _ (by simp; omega) rest

end

/-! ## Records -/

/-- A text of a value that can be passed over, with as much fuel as two units for each character. -/
structure Skips (text : List Char) : Prop where
  starts : ∃ c s, text = c :: s ∧ isSpace c = false ∧ c ≠ ',' ∧ c ≠ ']'
  skip : ∀ blanks rest fuel, IsBlank blanks → Ends rest → 2 * text.length ≤ fuel →
    skipValueWith fuel (blanks ++ (text ++ rest)) = .ok rest

theorem Skips.skipValue_eq {text : List Char} (h : Skips text) {blanks rest : List Char}
    (hblanks : IsBlank blanks) (hrest : Ends rest) :
    skipValue (blanks ++ (text ++ rest)) = .ok rest :=
  h.skip blanks rest _ hblanks hrest (by simp; omega)

section
variable {δ α : Type} {f : Format δ α}

/-- The inside of a record's object and its closing brace, with the draft before and after. -/
inductive Members (f : Format δ α) : Bool → δ → List Char → δ → Prop
  | close {first : Bool} {blanks : List Char} {draft : δ} (h : IsBlank blanks) :
      Members f first draft (blanks ++ ['\x7d']) draft
  | known {first : Bool} {lead name colon text rest : List Char} {key : String} {field : Field δ}
      {draft draft' final : δ} (hlead : Lead first lead) (hkey : IsQuoted name key.toList)
      (hfield : f.fields.find? (·.key == key) = some field) (hfree : field.isSet draft = false)
      (hcolon : IsColon colon) (hvalue : Takes (field.read draft) text draft')
      (hrest : Members f false draft' rest final) :
      Members f first draft (lead ++ ('"' :: name ++ (colon ++ (text ++ rest)))) final
  | unknown {first : Bool} {lead name colon text rest : List Char} {key : String}
      {draft final : δ} (hlead : Lead first lead) (hkey : IsQuoted name key.toList)
      (hfield : f.fields.find? (·.key == key) = none) (hcolon : IsColon colon)
      (hvalue : Skips text) (hrest : Members f false draft rest final) :
      Members f first draft (lead ++ ('"' :: name ++ (colon ++ (text ++ rest)))) final

theorem Members.ends {text : List Char} {draft final : δ} (h : Members f false draft text final)
    (rest : List Char) : Ends (text ++ rest) := by
  cases h with
  | close h => exact ends_close h (by decide) rest
  | known hlead => exact hlead.ends _ rest
  | unknown hlead => exact hlead.ends _ rest

/-- As much fuel as the text is long is enough. -/
theorem Members.readMembers_eq {first : Bool} {text : List Char} {draft final : δ}
    (h : Members f first draft text final) (fuel : Nat) (hfuel : text.length ≤ fuel)
    (rest : List Char) : f.readMembers fuel first draft (text ++ rest) = .ok (final, rest) := by
  induction h generalizing fuel with
  | @close first blanks draft h =>
      obtain ⟨fuel, rfl⟩ : ∃ n, fuel = n + 1 := ⟨fuel - 1, by simp at hfuel; omega⟩
      rw [Format.readMembers, List.append_assoc, List.singleton_append, nextMember_close first h]
      rfl
  | @known first lead name colon text more key field draft draft' final hlead hkey hfield hfree
      hcolon hvalue hmore ih =>
      simp only [List.length_append, List.length_cons] at hfuel
      obtain ⟨fuel, rfl⟩ : ∃ n, fuel = n + 1 := ⟨fuel - 1, by omega⟩
      obtain ⟨blanks, hblanks, hskip⟩ := readColon_append hcolon
      have hread := hvalue.read blanks (more ++ rest) hblanks (hmore.ends rest)
      simp only [List.append_assoc, List.cons_append]
      rw [Format.readMembers, nextMember_lead hlead]
      simp only [bind, Except.bind, List.drop_succ_cons, List.drop_zero, hkey.read,
        String.ofList_toList, hfield, hfree, Bool.false_eq_true, if_false, hskip, hread,
        ih fuel (by omega)]
  | @unknown first lead name colon text more key draft final hlead hkey hfield hcolon hvalue
      hmore ih =>
      simp only [List.length_append, List.length_cons] at hfuel
      obtain ⟨fuel, rfl⟩ : ∃ n, fuel = n + 1 := ⟨fuel - 1, by omega⟩
      obtain ⟨blanks, hblanks, hskip⟩ := readColon_append hcolon
      have hread := hvalue.skipValue_eq hblanks (hmore.ends rest)
      simp only [List.append_assoc, List.cons_append]
      rw [Format.readMembers, nextMember_lead hlead]
      simp only [bind, Except.bind, List.drop_succ_cons, List.drop_zero, hkey.read,
        String.ofList_toList, hfield, hskip, hread, ih fuel (by omega)]

/-- **Reading a record** from an object. -/
theorem Members.takes_record {text : List Char} {draft : δ} {a : α}
    (h : Members f true f.draft text draft) (ha : f.finish draft = .ok a) :
    Takes f.read ('\x7b' :: text) a where
  starts := ⟨'\x7b', text, rfl, by decide⟩
  read blanks rest hblanks _ := by
    have hread := h.readMembers_eq ((text ++ rest).length + 1) (by simp; omega) rest
    rw [List.cons_append, Format.read, skipSpace_append_cons hblanks (by decide)]
    simp only [hread, ha, bind, Except.bind]

end

end ScreenAtlas.Json
