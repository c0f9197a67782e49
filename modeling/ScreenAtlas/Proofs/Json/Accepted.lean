import ScreenAtlas.Proofs.Json.Reader
/-!
# What accepted texts are read as

A fact about what a reader gives for every text that it accepts goes over from the values of a map
to the map, and from the fields of a record to the record. A record is read as a draft first, which
keeps apart the fields that the text has from those that it lacks.

## Main definitions

* `Format.drafts` — the format that reads no more than the draft of a record.

## Main statements

* `forall_of_readMap` — the values of a map.
* `Format.exists_of_read` — the draft that a record is made of.
* `Format.read_eq_ok_iff` — a record is accepted with the draft that it is made of.
-/
namespace ScreenAtlas.Json

/-! ## Maps -/

section
variable {κ ν : Type} {key : Reader κ} {value : Reader ν} {P : ν → Prop}

theorem forall_of_readEntries (hvalue : ∀ s v rest, value s = .ok (v, rest) → P v) {fuel : Nat}
    {first : Bool} {s rest : List Char} {entries : List (κ × ν)}
    (h : readEntries key value fuel first s = .ok (entries, rest)) : ∀ e ∈ entries, P e.2 := by
  induction fuel generalizing first s entries with
  | zero => cases h
  | succ fuel ih =>
      obtain ⟨next, -, h⟩ := of_bind_eq_ok h
      cases next with
      | closed rest' =>
          obtain ⟨rfl, -⟩ := Prod.mk.inj (Except.ok.inj h)
          exact List.forall_mem_nil _
      | more text =>
          obtain ⟨⟨k, afterKey⟩, -, h⟩ := of_bind_eq_ok h
          obtain ⟨afterColon, -, h⟩ := of_bind_eq_ok h
          obtain ⟨⟨v, afterValue⟩, hv, h⟩ := of_bind_eq_ok h
          obtain ⟨⟨others, afterOthers⟩, hothers, h⟩ := of_bind_eq_ok h
          obtain ⟨rfl, rfl⟩ := Prod.mk.inj (Except.ok.inj h)
          exact List.forall_mem_cons.mpr ⟨hvalue _ _ _ hv, ih hothers⟩

/-- **The values of a map** have what all values of their reader have. -/
theorem forall_of_readMap (hvalue : ∀ s v rest, value s = .ok (v, rest) → P v)
    {s rest : List Char} {entries : List (κ × ν)}
    (h : readMap key value s = .ok (entries, rest)) : ∀ e ∈ entries, P e.2 := by
  unfold readMap at h
  split at h
  · exact forall_of_readEntries hvalue h
  · cases h

end

/-! ## Records -/

namespace Format

variable {δ α : Type} {f : Format δ α} {P : δ → Prop}

/-- Every field that is read keeps what holds of the draft. -/
def Keeps (f : Format δ α) (P : δ → Prop) : Prop :=
  ∀ field ∈ f.fields, ∀ draft draft' s rest,
    field.read draft s = .ok (draft', rest) → P draft → P draft'

theorem of_readMembers (hkeeps : f.Keeps P) {fuel : Nat} {first : Bool} {draft final : δ}
    {s rest : List Char} (h : f.readMembers fuel first draft s = .ok (final, rest))
    (hdraft : P draft) : P final := by
  induction fuel generalizing first draft s with
  | zero => cases h
  | succ fuel ih =>
      obtain ⟨next, -, h⟩ := of_bind_eq_ok h
      cases next with
      | closed rest' =>
          obtain ⟨rfl, -⟩ := Prod.mk.inj (Except.ok.inj h)
          exact hdraft
      | more text =>
          obtain ⟨⟨key, afterKey⟩, -, h⟩ := of_bind_eq_ok h
          dsimp only at h
          split at h
          · next field hfield =>
            split at h
            · cases h
            · obtain ⟨afterColon, -, h⟩ := of_bind_eq_ok h
              obtain ⟨⟨draft', afterValue⟩, hread, h⟩ := of_bind_eq_ok h
              exact ih h (hkeeps field (List.mem_of_find?_eq_some hfield) _ _ _ _ hread hdraft)
          · -- A member that is passed over leaves the draft as it is.
            obtain ⟨afterColon, -, h⟩ := of_bind_eq_ok h
            obtain ⟨afterValue, -, h⟩ := of_bind_eq_ok h
            exact ih h hdraft

theorem of_readPositions (hkeeps : f.Keeps P) {fields : List (Field δ)}
    (hfields : ∀ field ∈ fields, field ∈ f.fields) {first : Bool} {draft final : δ}
    {s rest : List Char} (h : f.readPositions fields first draft s = .ok (final, rest))
    (hdraft : P draft) : P final := by
  induction fields generalizing first draft s with
  | nil =>
      obtain ⟨afterList, -, h⟩ := of_bind_eq_ok h
      obtain ⟨rfl, -⟩ := Prod.mk.inj (Except.ok.inj h)
      exact hdraft
  | cons field fields ih =>
      obtain ⟨next, -, h⟩ := of_bind_eq_ok h
      cases next with
      | closed rest' =>
          dsimp only at h
          split at h
          · obtain ⟨rfl, -⟩ := Prod.mk.inj (Except.ok.inj h)
            exact hdraft
          · cases h
      | more text =>
          obtain ⟨⟨draft', afterValue⟩, hread, h⟩ := of_bind_eq_ok h
          obtain ⟨hfield, hfields⟩ := List.forall_mem_cons.mp hfields
          exact ih hfields h (hkeeps field hfield _ _ _ _ hread hdraft)

/-- **The draft that a record is made of** has what every field keeps. -/
theorem exists_of_read (hkeeps : f.Keeps P) (hdraft : P f.draft) {s rest : List Char} {a : α}
    (h : f.read s = .ok (a, rest)) : ∃ draft, P draft ∧ f.finish draft = .ok a := by
  unfold read at h
  split at h
  · obtain ⟨⟨draft, rest'⟩, hread, h⟩ := of_bind_eq_ok h
    obtain ⟨b, hfinish, h⟩ := of_bind_eq_ok h
    obtain ⟨rfl, -⟩ := Prod.mk.inj (Except.ok.inj h)
    exact ⟨draft, of_readMembers hkeeps hread hdraft, hfinish⟩
  · obtain ⟨⟨draft, rest'⟩, hread, h⟩ := of_bind_eq_ok h
    obtain ⟨b, hfinish, h⟩ := of_bind_eq_ok h
    obtain ⟨rfl, -⟩ := Prod.mk.inj (Except.ok.inj h)
    exact ⟨draft, of_readPositions hkeeps (fun _ hfield => hfield) hread hdraft, hfinish⟩
  · cases h

/-- The format that leaves the draft as it was read. -/
def drafts (f : Format δ α) : Format δ δ :=
  ⟨f.name, f.fields, f.draft, f.mayEndEarly, .ok⟩

@[simp] theorem fields_drafts (f : Format δ α) : f.drafts.fields = f.fields := rfl

@[simp] theorem draft_drafts (f : Format δ α) : f.drafts.draft = f.draft := rfl

theorem readMembers_drafts (f : Format δ α) (fuel : Nat) (first : Bool) (draft : δ)
    (s : List Char) :
    f.drafts.readMembers fuel first draft s = f.readMembers fuel first draft s := by
  induction fuel generalizing first draft s with
  | zero => rfl
  | succ fuel ih => simp only [readMembers, fields_drafts, ih]

theorem readPositions_drafts (f : Format δ α) (fields : List (Field δ)) (first : Bool) (draft : δ)
    (s : List Char) :
    f.drafts.readPositions fields first draft s = f.readPositions fields first draft s := by
  induction fields generalizing first draft s with
  | nil => rfl
  | cons field fields ih =>
      simp only [readPositions, ih]
      rfl

/-- A record is read as its draft, which is then finished. -/
theorem read_eq (f : Format δ α) (s : List Char) :
    f.read s = (do
      let (draft, rest) ← f.drafts.read s
      .ok (← f.finish draft, rest)) := by
  unfold read
  split
  · rw [readMembers_drafts, draft_drafts]
    cases f.readMembers _ true f.draft _ <;> rfl
  · rw [readPositions_drafts, fields_drafts, draft_drafts]
    cases f.readPositions f.fields true f.draft _ <;> rfl
  · rfl

/-- **A record is accepted** with the draft that it is made of. -/
theorem read_eq_ok_iff {f : Format δ α} {s rest : List Char} {a : α} :
    f.read s = .ok (a, rest) ↔
      ∃ draft, f.drafts.read s = .ok (draft, rest) ∧ f.finish draft = .ok a := by
  rw [read_eq]
  constructor
  · intro h
    obtain ⟨⟨draft, rest'⟩, hread, h⟩ := of_bind_eq_ok h
    obtain ⟨b, hfinish, h⟩ := of_bind_eq_ok h
    obtain ⟨rfl, rfl⟩ := Prod.mk.inj (Except.ok.inj h)
    exact ⟨draft, hread, hfinish⟩
  · rintro ⟨draft, hread, hfinish⟩
    rw [hread]
    exact congrArg (· >>= fun b => .ok (b, rest)) hfinish

end Format

theorem eq_some_of_required {α : Type} {key : String} {a? : Option α} {a : α}
    (h : required key a? = .ok a) : a? = some a := by
  cases a? with
  | none => cases h
  | some b => exact congrArg some (Except.ok.inj h)

/-- A text is accepted as a whole when only blanks are left behind its value. -/
theorem decode_eq_ok_iff {α : Type} {read : Reader α} {s : List Char} {a : α} :
    decode read s = .ok a ↔ ∃ rest, read s = .ok (a, rest) ∧ skipSpace rest = [] := by
  constructor
  · intro h
    obtain ⟨⟨b, rest⟩, hread, h⟩ := of_bind_eq_ok h
    dsimp only at h
    split at h
    · next hend =>
      obtain rfl := Except.ok.inj h
      exact ⟨rest, hread, hend⟩
    · cases h
  · rintro ⟨rest, hread, hend⟩
    simp [decode, hread, bind, Except.bind, hend]

/-- A text that is accepted as a whole starts with a value that the reader accepts. -/
theorem exists_of_decode {α : Type} {read : Reader α} {s : List Char} {a : α}
    (h : decode read s = .ok a) : ∃ rest, read s = .ok (a, rest) := by
  obtain ⟨rest, hread, -⟩ := decode_eq_ok_iff.mp h
  exact ⟨rest, hread⟩

end ScreenAtlas.Json
