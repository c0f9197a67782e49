import Mathlib.Data.List.Infix
import ScreenAtlas.Proofs.Path.Join
/-!
# Paths part by part

Paths are compared by their parts: what they start from, where they say so, and the segments that
name something. Empty segments and segments `.` are no parts, so paths that differ in these alone
have the same parts. A path is relative to another one just when the parts of that one stand in
front of its own.

## Main definitions

* `Part`, `parts` — what a path names, in order.

## Main statements

* `parts_join` — the parts of a path behind another.
* `relativeTo?_eq_none_iff` — the paths that are not under a root.
* `parts_join_eq_iff` — the second paths that lead nowhere else.
-/
namespace ScreenAtlas.Path

/-- One part of a path. -/
inductive Part
  /-- The root of the file system, in front of all others. -/
  | root
  /-- A first segment `.`. -/
  | here
  /-- A segment that names something. -/
  | named (segment : List UInt8)
  deriving DecidableEq

/-- The part that a head stands for. -/
def Head.part? : Head → Option Part
  | root => some .root
  | here => some .here
  | unnamed => none

/-- The parts of a path. -/
def parts (p : Path) : List Part :=
  p.head.part?.toList ++ p.components.map .named

variable {p q : Path}

theorem named_injective : Function.Injective Part.named :=
  fun _ _ h => Part.named.inj h

/-! ## Prefixes -/

/-- A path that does not say where it starts from names something, unless it is empty. -/
theorem components_ne_nil (hp : p.bytes ≠ []) (hhead : p.head = .unnamed) : p.components ≠ [] := by
  have hslash : p.bytes.head? ≠ some slash := fun h => by simp [head, h] at hhead
  have hdot : firstSegment p.bytes ≠ [dot] := fun h => by
    rw [head, if_neg hslash, if_pos h] at hhead
    cases hhead
  have hempty : firstSegment p.bytes ≠ [] := fun h => by
    obtain ⟨b, bytes, hbytes⟩ := List.exists_cons_of_ne_nil hp
    have hb : b = slash := by
      by_contra hb
      simp [hbytes, firstSegment, hb] at h
    exact hslash (by rw [hbytes, hb]; rfl)
  have hmem : firstSegment p.bytes ∈ p.segments := by
    rw [segments, hhead]
    exact List.mem_of_head? (head?_splitOn_slash p.bytes)
  refine List.ne_nil_of_mem (List.mem_filter.mpr ⟨hmem, ?_⟩)
  simp [isFiller, hempty, hdot]

/-- The parts of a path are in front of another's when both start from the same place and the
components are in front of the other's. -/
theorem parts_prefix_iff {root : Path} (hroot : root.bytes ≠ []) :
    root.parts <+: p.parts ↔ p.head = root.head ∧ root.components <+: p.components := by
  have hcomponents : root.components.map Part.named <+: p.components.map Part.named ↔
      root.components <+: p.components := List.prefix_map_iff_of_injective named_injective
  unfold parts
  cases hhead : root.head with
  | unnamed =>
      -- The root's first part is a component, so it stands in front of no part of a head.
      obtain ⟨c, cs, hcs⟩ := List.exists_cons_of_ne_nil (components_ne_nil hroot hhead)
      cases p.head <;> simp_all [Head.part?, List.cons_prefix_cons]
  | root =>
      cases p.head with
      | unnamed => cases p.components <;> simp [Head.part?]
      | root => simp [Head.part?, hcomponents]
      | here => simp [Head.part?]
  | here =>
      cases p.head with
      | unnamed => cases p.components <;> simp [Head.part?]
      | root => simp [Head.part?]
      | here => simp [Head.part?, hcomponents]

theorem parts_of_bytes_eq_nil (hp : p.bytes = []) : p.parts = [] := by
  obtain ⟨bytes⟩ := p
  obtain rfl : bytes = [] := hp
  rfl

theorem parts_eq_nil_iff : p.parts = [] ↔ p.bytes = [] := by
  refine ⟨fun h => ?_, parts_of_bytes_eq_nil⟩
  by_contra hp
  obtain ⟨hhead, hcomponents⟩ := List.append_eq_nil_iff.mp h
  have hunnamed : p.head = .unnamed := by
    cases hp' : p.head with
    | unnamed => rfl
    | root => simp [hp', Head.part?] at hhead
    | here => simp [hp', Head.part?] at hhead
  exact components_ne_nil hp hunnamed (List.map_eq_nil_iff.mp hcomponents)

/-- **A path is not under a root** just when the root's parts do not stand in front of its own. -/
theorem relativeTo?_eq_none_iff {root : Path} :
    p.relativeTo? root = none ↔ ¬root.parts <+: p.parts := by
  by_cases hroot : root.bytes = []
  · simp [relativeTo?, hroot, parts_of_bytes_eq_nil hroot]
  · rw [relativeTo?, if_neg hroot, parts_prefix_iff hroot, ← List.isPrefixOf_iff_prefix]
    split <;> simp_all

/-! ## A path behind another -/

theorem join_of_isAbsolute (hq : q.isAbsolute = true) : p.join q = q :=
  if_pos hq

theorem join_of_bytes_eq_nil (hp : p.bytes = []) : p.join q = q := by
  simp [join, hp]

/-- The parts of a relative path behind another are those of the first one, and then what the second
one names. -/
theorem parts_join (hp : p.bytes ≠ []) (hq : q.isAbsolute = false) :
    (p.join q).parts =
      p.parts ++ ((q.bytes.splitOn slash).filter fun s => !isFiller s).map .named := by
  obtain ⟨front, hsegments, hfront⟩ := exists_segments_join hp hq
  rw [parts, head_join hp hq, components, hsegments, List.filter_append, hfront, List.map_append,
    ← List.append_assoc, ← parts]

/-- **A second path that adds nothing** to the first one is made of slashes and segments `.`. -/
theorem parts_join_eq_iff (hp : p.bytes ≠ []) (hq : q.isAbsolute = false) :
    (p.join q).parts = p.parts ↔ ∀ s ∈ q.bytes.splitOn slash, isFiller s = true := by
  rw [parts_join hp hq, List.append_right_eq_self, List.map_eq_nil_iff, List.filter_eq_nil_iff]
  simp

end ScreenAtlas.Path
