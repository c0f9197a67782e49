import Mathlib.Data.List.Forall2
import ScreenAtlas.Proofs.Json.Skip
import ScreenAtlas.Vocabulary.Codec
/-!
# Values are read as they were written

The layouts differ in nothing but blanks, so what is written in one of them is read back as it would
be in any other: lists by their elements, maps by their entries, and records by the fields that
their members fill.

## Main definitions

* `Layout.IsBlank` — the layouts that differ in blanks only.
* `ReadsBack` — a value that a reader takes for something, at whatever depth it is written.
* `Fills` — members that fill the fields of a record.

## Main statements

* `takes_array`, `takes_object`, `Fills.readsBack` — lists, maps and records.
* `isValue_write` — every written value is one of the grammar.
* `elementTexts?_write`, `memberText?_write` — the parts of a written value.
-/
namespace ScreenAtlas.Json

/-- A layout of blanks. -/
structure Layout.IsBlank (l : Layout) : Prop where
  lineBreak : ∀ depth, Json.IsBlank (l.lineBreak depth)
  colon : IsColon l.colon

theorem isBlank_compact : Layout.compact.IsBlank where
  lineBreak _ := isBlank_nil
  colon := .intro isBlank_nil isBlank_nil

theorem isBlank_pretty : Layout.pretty.IsBlank where
  lineBreak _ := List.forall_mem_cons.mpr ⟨rfl, isBlank_replicate _ rfl⟩
  colon := .intro isBlank_nil (List.forall_mem_singleton.mpr rfl)

/-- At whatever depth the value is written, the reader takes its text. -/
def ReadsBack {α : Type} (l : Layout) (read : Reader α) (v : Json) (a : α) : Prop :=
  ∀ depth, Takes read (write l depth v) a

variable {l : Layout}

theorem ReadsBack.map {α β : Type} {read : Reader α} {v : Json} {a : α}
    (h : ReadsBack l read v a) (f : α → β) :
    ReadsBack l (fun s => do
      let (v, rest) ← read s
      .ok (f v, rest)) v (f a) :=
  fun depth => (h depth).map f

/-! ## Scalars -/

section
variable {α : Type} {read : Reader α}

theorem readsBack_string (s expected : String) :
    ReadsBack l (readStringAs expected) (.string s) s :=
  fun _ => takes_string s expected

theorem readsBack_number {n : Nat} (hn : n < wordLimit) : ReadsBack l readNatural (.number n) n :=
  fun _ => takes_natural hn

theorem readsBack_bool (b : Bool) : ReadsBack l readBoolean (.bool b) b :=
  fun _ => takes_boolean b

theorem readsBack_word [Vocabulary α] [LawfulVocabulary α] (a : α) :
    ReadsBack l (readVariant α) (Vocabulary.toJson a) a :=
  fun _ => (isQuoted_write _).takes_variant

/-- A value that may be missing, where the values that are there are written as strings. -/
theorem readsBack_ofOption {toJson : α → Json} (hstring : ∀ a, ∃ s, toJson a = .string s)
    (h : ∀ a, ReadsBack l read (toJson a) a) (a : Option α) :
    ReadsBack l (readOptional read) (.ofOption toJson a) a := by
  intro depth
  cases a with
  | none => exact takes_none
  | some a =>
      refine takes_some (h a depth) ?_
      obtain ⟨s, hs⟩ := hstring a
      -- A string opens with its quote, so it is not taken for `null`.
      rw [ofOption, hs]
      simp [write, writeString]

end

/-! ## Lists -/

section
variable {α : Type} {read : Reader α}

theorem elements_write (hl : l.IsBlank) {depth : Nat} {vs : List Json} {as : List α}
    (h : List.Forall₂ (fun v a => Takes read (write l depth v) a) vs as) (outer : Nat) :
    Elements read false (writeElements l depth vs ++ (l.lineBreak outer ++ [']'])) as := by
  induction h with
  | nil => exact .close (hl.lineBreak outer)
  | @cons v a vs as hv _ ih =>
      rw [writeElements, List.append_assoc, List.append_assoc]
      exact .element (.later isBlank_nil (hl.lineBreak depth)) hv ih

/-- **A list** is taken by its elements. -/
theorem takes_array (hl : l.IsBlank) {depth : Nat} {vs : List Json} {as : List α}
    (h : List.Forall₂ (fun v a => Takes read (write l (depth + 1) v) a) vs as) :
    Takes (readList read) (write l depth (.array vs)) as := by
  cases h with
  | nil => exact (Elements.close isBlank_nil).takes_list
  | @cons v a vs as hv hvs =>
      rw [write]
      simp only [List.append_assoc, List.cons_append]
      exact (Elements.element (.first (hl.lineBreak (depth + 1))) hv
        (elements_write hl hvs depth)).takes_list

/-- A list is read back if every element is. -/
theorem readsBack_array (hl : l.IsBlank) {toJson : α → Json} {as : List α}
    (h : ∀ a ∈ as, ReadsBack l read (toJson a) a) :
    ReadsBack l (readList read) (.array (as.map toJson)) as := by
  intro depth
  exact takes_array hl (List.forall₂_map_left_iff.mpr
    (List.forall₂_same.mpr fun a ha => h a ha (depth + 1)))

end

/-! ## Maps -/

section
variable {κ ν : Type} {key : Reader κ} {value : Reader ν}

/-- A member that is taken for an entry of a map. -/
structure TakesEntry (l : Layout) (depth : Nat) (key : Reader κ) (value : Reader ν)
    (m : String × Json) (e : κ × ν) : Prop where
  key : Takes key (writeString m.1) e.1
  value : Takes value (write l depth m.2) e.2

theorem writeMember_eq (depth : Nat) (m : String × Json) :
    writeMember l depth m = writeString m.1 ++ (l.colon ++ write l depth m.2) := by
  rw [writeMember, List.append_assoc]

theorem entries_write (hl : l.IsBlank) {depth : Nat} {ms : List (String × Json)}
    {entries : List (κ × ν)} (h : List.Forall₂ (TakesEntry l depth key value) ms entries)
    (outer : Nat) :
    Entries key value false (writeMembers l depth ms ++ (l.lineBreak outer ++ ['\x7d']))
      entries := by
  induction h with
  | nil => exact .close (hl.lineBreak outer)
  | @cons m e ms entries hm _ ih =>
      simp only [writeMembers, writeMember_eq, List.append_assoc]
      exact .entry (.later isBlank_nil (hl.lineBreak depth)) hm.key hl.colon hm.value ih

/-- **A map** is taken by its entries. -/
theorem takes_object (hl : l.IsBlank) {depth : Nat} {ms : List (String × Json)}
    {entries : List (κ × ν)} (h : List.Forall₂ (TakesEntry l (depth + 1) key value) ms entries) :
    Takes (readMap key value) (write l depth (.object ms)) entries := by
  cases h with
  | nil => exact (Entries.close isBlank_nil).takes_map
  | @cons m e ms entries hm hms =>
      simp only [write, writeMember_eq, List.append_assoc, List.cons_append]
      exact (Entries.entry (.first (hl.lineBreak (depth + 1))) hm.key hl.colon hm.value
        (entries_write hl hms depth)).takes_map

end

/-! ## The grammar -/

mutual

/-- **Every written value** is a value of the grammar. -/
theorem isValue_write (hl : l.IsBlank) : ∀ (v : Json) (depth : Nat), IsValue (write l depth v)
  | .null, _ => .null
  | .bool b, _ => .bool b
  | .number n, _ => .number (isNumber_toDigits n)
  | .string s, _ => .string (standsFor_write s.toList).isInside
  | .array [], _ => .array (.close isBlank_nil)
  | .array (v :: vs), depth => by
      simp only [write, List.append_assoc, List.cons_append]
      exact .array (.element (.first (hl.lineBreak (depth + 1))) (isValue_write hl v (depth + 1))
        (isElements_write hl vs (depth + 1) depth))
  | .object [], _ => .object (.close isBlank_nil)
  | .object ((key, v) :: ms), depth => by
      simp only [write, writeMember_eq, List.append_assoc, List.cons_append]
      exact .object (.member (.first (hl.lineBreak (depth + 1)))
        (standsFor_write key.toList).isInside hl.colon (isValue_write hl v (depth + 1))
        (isMembers_write hl ms (depth + 1) depth))

theorem isElements_write (hl : l.IsBlank) : ∀ (vs : List Json) (depth outer : Nat),
    IsElements false (writeElements l depth vs ++ (l.lineBreak outer ++ [']']))
  | [], _, outer => .close (hl.lineBreak outer)
  | v :: vs, depth, outer => by
      simp only [writeElements, List.append_assoc]
      exact .element (.later isBlank_nil (hl.lineBreak depth)) (isValue_write hl v depth)
        (isElements_write hl vs depth outer)

theorem isMembers_write (hl : l.IsBlank) : ∀ (ms : List (String × Json)) (depth outer : Nat),
    IsMembers false (writeMembers l depth ms ++ (l.lineBreak outer ++ ['\x7d']))
      (ms.map fun m => (m.1.toList.flatMap escapeChar, write l depth m.2))
  | [], _, outer => .close (hl.lineBreak outer)
  | (key, v) :: ms, depth, outer => by
      simp only [writeMembers, writeMember_eq, List.append_assoc]
      exact .member (.later isBlank_nil (hl.lineBreak depth)) (standsFor_write key.toList).isInside
        hl.colon (isValue_write hl v depth) (isMembers_write hl ms depth outer)

end

/-- Every written value can be passed over. -/
theorem skips_write (hl : l.IsBlank) (v : Json) (depth : Nat) : Skips (write l depth v) :=
  (isValue_write hl v depth).skips

/-! ## Records -/

section
variable {δ α : Type} {f : Format δ α}

/-- Members that take a draft to another one: each fills a field that is still free, or has a key
that the record does not know. -/
inductive Fills (l : Layout) (f : Format δ α) : δ → List (String × Json) → δ → Prop
  | nil {draft : δ} : Fills l f draft [] draft
  | known {key : String} {v : Json} {ms : List (String × Json)} {field : Field δ}
      {draft draft' final : δ} (hfield : f.fields.find? (·.key == key) = some field)
      (hfree : field.isSet draft = false) (hvalue : ReadsBack l (field.read draft) v draft')
      (hrest : Fills l f draft' ms final) : Fills l f draft ((key, v) :: ms) final
  | unknown {key : String} {v : Json} {ms : List (String × Json)} {draft final : δ}
      (hfield : f.fields.find? (·.key == key) = none) (hrest : Fills l f draft ms final) :
      Fills l f draft ((key, v) :: ms) final

theorem members_write (hl : l.IsBlank) {ms : List (String × Json)} {draft final : δ}
    (h : Fills l f draft ms final) (depth outer : Nat) :
    Members f false draft (writeMembers l depth ms ++ (l.lineBreak outer ++ ['\x7d'])) final := by
  induction h with
  | nil => exact .close (hl.lineBreak outer)
  | @known key v ms field draft draft' final hfield hfree hvalue _ ih =>
      simp only [writeMembers, writeMember_eq, List.append_assoc]
      exact .known (.later isBlank_nil (hl.lineBreak depth)) (isQuoted_write key.toList) hfield
        hfree hl.colon (hvalue depth) ih
  | @unknown key v ms draft final hfield _ ih =>
      simp only [writeMembers, writeMember_eq, List.append_assoc]
      exact .unknown (.later isBlank_nil (hl.lineBreak depth)) (isQuoted_write key.toList) hfield
        hl.colon (skips_write hl v depth) ih

/-- A member that may be missing fills its field with what it has. -/
theorem Fills.ofOption {ν : Type} {key : String} {toJson : ν → Json} {v? : Option ν}
    {ms : List (String × Json)} {field : Field δ} (draft : Option ν → δ) {final : δ}
    (hfield : f.fields.find? (·.key == key) = some field)
    (hfree : field.isSet (draft none) = false)
    (hvalue : ∀ v, v? = some v →
      ReadsBack l (field.read (draft none)) (toJson v) (draft (some v)))
    (hrest : Fills l f (draft v?) ms final) :
    Fills l f (draft none) (v?.toList.map (fun v => (key, toJson v)) ++ ms) final := by
  cases v? with
  | none => exact hrest
  | some v => exact .known hfield hfree (hvalue v rfl) hrest

/-- **A record** is read back by the fields that its members fill. -/
theorem Fills.readsBack (hl : l.IsBlank) {ms : List (String × Json)} {draft : δ} {a : α}
    (h : Fills l f f.draft ms draft) (ha : f.finish draft = .ok a) :
    ReadsBack l f.read (.object ms) a := by
  intro depth
  cases h with
  | nil => exact (Members.close isBlank_nil).takes_record ha
  | @known key v ms field _ draft' _ hfield hfree hvalue hrest =>
      simp only [write, writeMember_eq, List.append_assoc, List.cons_append]
      exact (Members.known (.first (hl.lineBreak (depth + 1))) (isQuoted_write key.toList) hfield
        hfree hl.colon (hvalue (depth + 1)) (members_write hl hrest (depth + 1) depth)).takes_record
        ha
  | @unknown key v ms _ _ hfield hrest =>
      simp only [write, writeMember_eq, List.append_assoc, List.cons_append]
      exact (Members.unknown (.first (hl.lineBreak (depth + 1))) (isQuoted_write key.toList) hfield
        hl.colon (skips_write hl v (depth + 1))
        (members_write hl hrest (depth + 1) depth)).takes_record ha

end

/-! ## Parts of a written value -/

/-- **The parts of a written list** are its elements. -/
theorem elementTexts?_write (hl : l.IsBlank) (vs : List Json) (depth : Nat) :
    elementTexts? (write l depth (.array vs)) = some (vs.map (write l (depth + 1))) := by
  have htakes : Takes (readList slice) (write l depth (.array vs)) (vs.map (write l (depth + 1))) :=
    takes_array hl (List.forall₂_map_right_iff.mpr
      (List.forall₂_same.mpr fun v _ => (skips_write hl v (depth + 1)).takes_slice))
  rw [elementTexts?, htakes.decode_eq]
  rfl

/-- **The parts of a written object** are its members. -/
theorem memberText?_write (hl : l.IsBlank) {key : String} {v : Json} {ms : List (String × Json)}
    (h : ms.filter (·.1 == key) = [(key, v)]) (depth : Nat) :
    memberText? key (write l depth (.object ms)) = some (write l (depth + 1) v) := by
  have htakes : Takes (readMap readString slice) (write l depth (.object ms))
      (ms.map fun m => (m.1, write l (depth + 1) m.2)) :=
    takes_object hl (List.forall₂_map_right_iff.mpr
      (List.forall₂_same.mpr fun m _ =>
        ⟨takes_string m.1 "a string", (skips_write hl m.2 (depth + 1)).takes_slice⟩))
  have hfilter : (ms.map fun m => (m.1, write l (depth + 1) m.2)).filter (·.1 == key) =
      [(key, write l (depth + 1) v)] := by
    rw [List.filter_map]
    exact congrArg (List.map _) h
  rw [memberText?, htakes.decode_eq]
  simp only [hfilter]

end ScreenAtlas.Json
