import ScreenAtlas.Proofs.Path.Join
import ScreenAtlas.Proofs.Utf8
/-!
# Paths as text

A relative path is shown as text with slashes for backslashes. Slashes cut its bytes and its text at
the same places, also where the bytes between them are not well-formed.

## Main definitions

* `shown` — the text by which bytes of a path are shown.

## Main statements

* `toList_relativeText_join` — the relative text of a path behind another.
* `shown_append_slash` — a slash between two texts.
* `shown_encode` — text without backslashes is shown as it is.
-/
namespace ScreenAtlas.Path

/-- The text of bytes, with slashes for backslashes. -/
def shown (bytes : List UInt8) : List Char :=
  (Utf8.decodeLossy bytes).map fun c => if c = '\\' then '/' else c

theorem toList_relativeText (p root : Path) :
    (p.relativeText root).toList = shown ((p.relativeTo? root).getD p).bytes := by
  simp [relativeText, text, shown]

/-- **The relative text of a path behind another.** -/
theorem toList_relativeText_join {p q : Path} (hq : q.IsTrimmed) :
    ((p.join q).relativeText p).toList = shown q.bytes := by
  rw [toList_relativeText, relativeTo?_join hq, Option.getD_some]

theorem shown_append_ascii {b : UInt8} (hb : b.toNat < 0x80) (hslash : Char.ofNat b.toNat ≠ '\\')
    (bytes rest : List UInt8) :
    shown (bytes ++ b :: rest) = shown bytes ++ Char.ofNat b.toNat :: shown rest := by
  simp [shown, Utf8.decodeLossy_append_ascii hb, hslash]

/-- **A slash between two texts** stands between what is shown of them. -/
theorem shown_append_slash (bytes rest : List UInt8) :
    shown (bytes ++ slash :: rest) = shown bytes ++ '/' :: shown rest :=
  shown_append_ascii (b := slash) (by decide) (by decide) bytes rest

/-- **Text without backslashes is shown as it is.** -/
theorem shown_encode {s : List Char} (h : '\\' ∉ s) : shown (Utf8.encode s) = s := by
  rw [shown, Utf8.decodeLossy_encode]
  refine (List.map_congr_left fun c hc => if_neg ?_).trans (List.map_id s)
  rintro rfl
  exact h hc

/-- Filler is written as filler, and nothing else is. -/
theorem isFiller_encode (s : List Char) :
    isFiller (Utf8.encode s) = true ↔ s = [] ∨ s = ['.'] := by
  have hnil : Utf8.encode s = [] ↔ s = [] :=
    ⟨fun h => Utf8.encode_injective (h.trans (by decide)), fun h => by rw [h]; decide⟩
  have hdot : Utf8.encode s = [dot] ↔ s = ['.'] :=
    ⟨fun h => Utf8.encode_injective (h.trans (by decide)), fun h => by rw [h]; decide⟩
  simp [isFiller, hnil, hdot]

/-- Only slashes are written with the byte of a slash. -/
theorem slash_notMem_encode {s : List Char} (hslash : '/' ∉ s) : slash ∉ Utf8.encode s := by
  intro hmem
  obtain ⟨front, rest, hbytes⟩ := List.append_of_mem hmem
  refine hslash ?_
  rw [← Utf8.decodeLossy_encode s, hbytes, Utf8.decodeLossy_append_ascii (by decide)]
  exact List.mem_append_right _ List.mem_cons_self

/-- Text of a name without slashes is a component. -/
theorem isComponent_encode {s : List Char} (hne : s ≠ []) (hdot : s ≠ ['.']) (hslash : '/' ∉ s) :
    IsComponent (Utf8.encode s) where
  isFiller_eq := by simp [← Bool.not_eq_true, isFiller_encode, hne, hdot]
  slash_notMem := slash_notMem_encode hslash

/-- No backslash is shown. -/
theorem backslash_notMem_shown (bytes : List UInt8) : '\\' ∉ shown bytes := by
  intro hmem
  obtain ⟨c, -, hc⟩ := List.mem_map.mp hmem
  split at hc
  · cases hc
  · contradiction

/-- Other characters below 0x80 are shown for their own bytes. -/
theorem mem_of_mem_shown {c : Char} (hc : c.val.toNat < 0x80) (hnul : c ≠ '\x00') (hslash : c ≠ '/')
    {bytes : List UInt8} (h : c ∈ shown bytes) : UInt8.ofNat c.val.toNat ∈ bytes := by
  obtain ⟨d, hd, hshown⟩ := List.mem_map.mp h
  split at hshown
  · exact absurd hshown.symm hslash
  · subst hshown
    exact Utf8.mem_of_mem_decodeLossy hc hnul hd

/-- Slashes are shown for slashes and backslashes only. -/
theorem slash_notMem_shown {bytes : List UInt8} (hslash : slash ∉ bytes)
    (hbackslash : 0x5C ∉ bytes) : '/' ∉ shown bytes := by
  intro hmem
  obtain ⟨c, hc, hshown⟩ := List.mem_map.mp hmem
  split at hshown
  · next h =>
    subst h
    exact hbackslash (Utf8.mem_of_mem_decodeLossy (by decide) (by decide) hc)
  · subst hshown
    exact hslash (Utf8.mem_of_mem_decodeLossy (by decide) (by decide) hc)

end ScreenAtlas.Path
