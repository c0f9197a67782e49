import Mathlib.Data.List.Pairwise
import ScreenAtlas.Proofs.Json.Skip
/-!
# Records are read whatever the order of their members

Where each field of a record is read into a place of its own, the record depends on the members with
known keys only, and not on their order or on what stands between them.

## Main definitions

* `Slot` — the place of a draft that one field is read into.
* `Format.HasSlots` — the formats whose fields have places of their own.
* `Gives` — the members give a field its value.

## Main statements

* `Format.HasSlots.members` — the draft after all members of an object.
* `Format.HasSlots.decode_object` — reading a record from any object.
-/
namespace ScreenAtlas.Json

/-! ## Slots -/

/-- A place of a draft that holds one value, once it was read. -/
structure Slot (δ : Type) where
  key : String
  ν : Type
  get : δ → Option ν
  put : δ → ν → δ
  read : Reader ν
  get_put : ∀ d v, get (put d v) = some v

variable {δ : Type}

/-- The field that is read into the slot. -/
def Slot.field (s : Slot δ) : Field δ where
  key := s.key
  isSet d := (s.get d).isSome
  read d text := do
    let (v, rest) ← s.read text
    .ok (s.put d v, rest)

/-- Slots with different keys, neither of which is changed with the other. -/
structure Slot.Apart (s t : Slot δ) : Prop where
  key_ne : s.key ≠ t.key
  get_put : ∀ d v, s.get (t.put d v) = s.get d
  get_put' : ∀ d v, t.get (s.put d v) = t.get d

instance : Std.Symm (@Slot.Apart δ) where
  symm _ _ h := ⟨h.key_ne.symm, h.get_put', h.get_put⟩

/-- The format has a slot for each field, and a draft is what its slots hold. -/
structure Format.HasSlots {α : Type} (f : Format δ α) (slots : List (Slot δ)) : Prop where
  fields_eq : f.fields = slots.map Slot.field
  apart : slots.Pairwise Slot.Apart
  ext : ∀ d d', (∀ s ∈ slots, s.get d = s.get d') → d = d'

/-! ## Members -/

/-- The texts of the members with the given key. -/
def textsOf (key : String) (members : List (String × List Char)) : List (List Char) :=
  (members.filter (·.1 == key)).map Prod.snd

theorem textsOf_cons_self (key : String) (text : List Char)
    (members : List (String × List Char)) :
    textsOf key ((key, text) :: members) = text :: textsOf key members := by
  simp [textsOf]

theorem textsOf_cons_of_ne {key key' : String} (h : key' ≠ key) (text : List Char)
    (members : List (String × List Char)) :
    textsOf key ((key', text) :: members) = textsOf key members := by
  simp [textsOf, h]

/-- The members give a field its value: one member has the key, and its text is one for the value;
or none has, and there is no value. -/
def Gives {ν : Type} (IsText : List Char → ν → Prop) (key : String)
    (members : List (String × List Char)) (v? : Option ν) : Prop :=
  List.Forall₂ IsText (textsOf key members) v?.toList

theorem Gives.imp {ν : Type} {IsText IsText' : List Char → ν → Prop} {key : String}
    {members : List (String × List Char)} {v? : Option ν}
    (himp : ∀ text v, IsText text v → IsText' text v) (h : Gives IsText key members v?) :
    Gives IsText' key members v? :=
  List.Forall₂.imp himp h

/-- The first member with a key is the only one. -/
theorem Gives.exists_of_cons {ν : Type} {IsText : List Char → ν → Prop} {key : String}
    {text : List Char} {members : List (String × List Char)} {v? : Option ν}
    (h : Gives IsText key ((key, text) :: members) v?) :
    ∃ v, v? = some v ∧ IsText text v ∧ textsOf key members = [] := by
  unfold Gives at h
  rw [textsOf_cons_self] at h
  cases v? with
  | none => cases h
  | some v =>
      obtain ⟨hv, hnone⟩ := List.forall₂_cons.mp h
      exact ⟨v, rfl, hv, List.forall₂_nil_right_iff.mp hnone⟩

/-- What members do to a slot: it has been filled and they do not have its key, or it is free and
they give it its value. -/
inductive Slot.Fills (s : Slot δ) (d : δ) (members : List (String × List Char)) (final : δ) : Prop
  | done (hget : s.get d = s.get final) (hnone : textsOf s.key members = [])
  | free (hfree : s.get d = none) (hgives : Gives (Takes s.read) s.key members (s.get final))

namespace Slot.Fills

variable {s : Slot δ} {d d' final : δ} {key : String} {text : List Char}
  {members : List (String × List Char)}

theorem get_eq_of_nil (h : s.Fills d [] final) : s.get d = s.get final := by
  cases h with
  | done hget => exact hget
  | free hfree hgives =>
      rw [hfree]
      cases hfinal : s.get final with
      | none => rfl
      | some v =>
          rw [hfinal] at hgives
          cases hgives

/-- A member with the key of a slot fills it. -/
theorem exists_of_cons_self (h : s.Fills d ((s.key, text) :: members) final) :
    ∃ v, s.get d = none ∧ Takes s.read text v ∧ s.Fills (s.put d v) members final := by
  cases h with
  | done _ hnone =>
      rw [textsOf_cons_self] at hnone
      cases hnone
  | free hfree hgives =>
      obtain ⟨v, hfinal, hv, hnone⟩ := hgives.exists_of_cons
      exact ⟨v, hfree, hv, .done (by rw [s.get_put, hfinal]) hnone⟩

/-- A member with another key leaves a slot as it is. -/
theorem of_cons_of_ne (h : s.Fills d ((key, text) :: members) final) (hkey : key ≠ s.key)
    (hget : s.get d' = s.get d) : s.Fills d' members final := by
  cases h with
  | done hdone hnone =>
      rw [textsOf_cons_of_ne hkey] at hnone
      exact .done (hget.trans hdone) hnone
  | free hfree hgives =>
      unfold Gives at hgives
      rw [textsOf_cons_of_ne hkey] at hgives
      exact .free (hget.trans hfree) hgives

end Slot.Fills

/-! ## Records -/

namespace Format.HasSlots

variable {α : Type} {f : Format δ α} {slots : List (Slot δ)}

/-- The field with a key is that of the slot with the key. -/
theorem find?_fields (hf : f.HasSlots slots) (key : String) :
    f.fields.find? (·.key == key) = (slots.find? (·.key == key)).map Slot.field := by
  rw [hf.fields_eq, List.find?_map]
  rfl

theorem key_ne_of_find?_eq_none {key : String} (h : slots.find? (·.key == key) = none)
    {s : Slot δ} (hs : s ∈ slots) : key ≠ s.key := by
  rintro rfl
  simpa using List.find?_eq_none.mp h s hs

/-- **The draft after all members** has what they give each slot. -/
theorem members (hf : f.HasSlots slots) {final : δ} :
    ∀ {first : Bool} {text : List Char} {spelled : List (List Char × List Char)}
      {named : List (String × List Char)} {d : δ}, IsMembers first text spelled →
      Named spelled named → (∀ s ∈ slots, s.Fills d named final) → Members f first d text final
  | _, _, _, _, d, .close h, .nil, hfills => by
      obtain rfl : d = final := hf.ext d final fun s hs => (hfills s hs).get_eq_of_nil
      exact .close h
  | _, _, _, (key, _) :: named, d, .member hlead _ hcolon hvalue hrest,
      .cons ⟨hkey, rfl⟩ hnamed, hfills => by
      cases hslot : slots.find? (·.key == key) with
      | none =>
          have hfield := hf.find?_fields key
          rw [hslot] at hfield
          have hmore := hf.members hrest hnamed fun s hs =>
            (hfills s hs).of_cons_of_ne (key_ne_of_find?_eq_none hslot hs) rfl
          exact .unknown hlead hkey.isQuoted hfield hcolon hvalue.skips hmore
      | some s =>
          have hfield := hf.find?_fields key
          rw [hslot] at hfield
          obtain rfl : s.key = key := by simpa using List.find?_some hslot
          have hs := List.mem_of_find?_eq_some hslot
          obtain ⟨v, hfree, hv, hdone⟩ := (hfills s hs).exists_of_cons_self
          have hset : s.field.isSet d = false := by simp only [Slot.field, hfree, Option.isSome_none]
          have hothers : ∀ t ∈ slots, t.Fills (s.put d v) named final := by
            intro t ht
            by_cases hst : s = t
            · rw [← hst]
              exact hdone
            · have hapart : s.Apart t := hf.apart.forall hs ht hst
              exact (hfills t ht).of_cons_of_ne hapart.key_ne (hapart.get_put' d v)
          exact .known hlead hkey.isQuoted hfield hset hcolon (hv.map (s.put d))
            (hf.members hrest hnamed hothers)

/-- **Reading a record from any object** whose members give each slot its value. -/
theorem decode_object (hf : f.HasSlots slots) {text : List Char}
    {spelled : List (List Char × List Char)} {named : List (String × List Char)} {d : δ} {a : α}
    (h : IsObject text spelled) (hnamed : Named spelled named)
    (hfree : ∀ s ∈ slots, s.get f.draft = none)
    (hgives : ∀ s ∈ slots, Gives (Takes s.read) s.key named (s.get d)) (ha : f.finish d = .ok a) :
    decode f.read text = .ok a := by
  cases h with
  | intro hbefore h hafter =>
      have hmembers := hf.members h hnamed fun s hs => .free (hfree s hs) (hgives s hs)
      exact (hmembers.takes_record ha).decode_append hbefore hafter

end Format.HasSlots

end ScreenAtlas.Json
