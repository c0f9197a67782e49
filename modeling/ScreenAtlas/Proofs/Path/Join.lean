import Mathlib.Data.List.Basic
import Mathlib.Tactic.Conv
import ScreenAtlas.Path
/-!
# A path behind another

A relative path is put behind another one with a single slash between the two. The whole starts from
where the first path starts, and its components are those of the first path and then those of the
second. If the second path has no filler at its ends, it is what is left of the whole relative to
the first path, however that one is spelled.

## Main definitions

* `trunk` — the text that a further path is put after.
* `IsTrimmed` — the paths without filler at their ends.
* `IsComponent` — the segments that name something.

## Main statements

* `bytes_join` — the text of a path behind another.
* `exists_segments_join` — its segments.
* `relativeTo?_join` — what is left of it relative to the first path.
-/
namespace ScreenAtlas.Path

/-- The bytes of a path without a slash at its end. -/
def trunk (p : Path) : List UInt8 :=
  if p.bytes.getLast? = some slash then p.bytes.dropLast else p.bytes

variable {p q : Path}

/-! ## The text -/

theorem bytes_eq_trunk (p : Path) : p.bytes = p.trunk ∨ p.bytes = p.trunk ++ [slash] := by
  unfold trunk
  split
  · next h => exact .inr (List.dropLast_append_getLast? slash h).symm
  · exact .inl rfl

theorem isAbsolute_iff : p.isAbsolute = true ↔ p.bytes.head? = some slash := by
  unfold isAbsolute head
  split_ifs <;> simp_all

theorem isAbsolute_of_head? {bytes : List UInt8} (h : bytes.head? ≠ some slash) :
    isAbsolute ⟨bytes⟩ = false :=
  Bool.eq_false_iff.mpr (mt isAbsolute_iff.mp h)

/-- A relative path is put behind a slash, whether the path in front ends in one or not. -/
theorem bytes_join (hp : p.bytes ≠ []) (hq : q.isAbsolute = false) :
    (p.join q).bytes = p.trunk ++ slash :: q.bytes := by
  rw [join, if_neg (by simp [hq])]
  by_cases hlast : p.bytes.getLast? = some slash
  · rw [if_pos (.inr hlast), trunk, if_pos hlast]
    conv_lhs => rw [← List.dropLast_append_getLast? slash hlast]
    simp
  · rw [if_neg (by simp [hp, hlast]), trunk, if_neg hlast]

theorem firstSegment_append_slash (bytes more : List UInt8) :
    firstSegment (bytes ++ slash :: more) = firstSegment bytes := by
  induction bytes with
  | nil => simp [firstSegment]
  | cons b bytes ih => by_cases h : b = slash <;> simp_all [firstSegment]

theorem head_join (hp : p.bytes ≠ []) (hq : q.isAbsolute = false) : (p.join q).head = p.head := by
  have hfirst : firstSegment (p.join q).bytes = firstSegment p.bytes := by
    rw [bytes_join hp hq, firstSegment_append_slash]
    obtain h | h := p.bytes_eq_trunk
    · rw [← h]
    · conv_rhs => rw [h, firstSegment_append_slash]
  have hhead : (p.join q).bytes.head? = p.bytes.head? := by
    rw [bytes_join hp hq]
    obtain h | h := p.bytes_eq_trunk
    · rw [← h]
      cases hb : p.bytes with
      | nil => exact absurd hb hp
      | cons b bytes => rfl
    · conv_rhs => rw [h]
      cases p.trunk <;> rfl
  simp only [head, hfirst, hhead]

/-- A head takes no more than the text in front of a name, unless that text is empty. -/
theorem drop_head_trunk (hp : p.trunk ≠ []) (more : List UInt8) :
    (p.trunk ++ more).drop p.head.bytes.length = p.trunk.drop p.head.bytes.length ++ more := by
  have hlen : 0 < p.trunk.length := List.length_pos_iff.mpr hp
  have hle : p.head.bytes.length ≤ p.trunk.length := by
    cases p.head <;> simp [Head.bytes] <;> omega
  rw [List.drop_append_of_le_length hle]

/-- A path behind another has further segments behind those that hold the first one's components. -/
theorem exists_segments_join (hp : p.bytes ≠ []) (hq : q.isAbsolute = false) :
    ∃ front, (p.join q).segments = front ++ q.bytes.splitOn slash ∧
      front.filter (fun s => !isFiller s) = p.components := by
  simp only [components, segments, head_join hp hq, bytes_join hp hq]
  by_cases htrunk : p.trunk = []
  · -- The path is a single slash, which its head takes.
    have hbytes : p.bytes = [slash] := by
      obtain h | h := p.bytes_eq_trunk
      · exact absurd (h.trans htrunk) hp
      · rwa [htrunk] at h
    have hhead : p.head = .root := by simp [head, hbytes]
    refine ⟨[], ?_, ?_⟩
    · simp [htrunk, hhead, Head.bytes]
    · simp [hhead, hbytes, Head.bytes, isFiller]
  · refine ⟨(p.trunk.drop p.head.bytes.length).splitOn slash, ?_, ?_⟩
    · rw [drop_head_trunk htrunk, List.splitOn_append_cons_self]
    · obtain h | h := p.bytes_eq_trunk
      · rw [← h]
      · rw [h, drop_head_trunk htrunk, List.splitOn_append_cons_self]
        simp [isFiller]

/-! ## Relative to the first path -/

/-- A path without filler at its ends. -/
structure IsTrimmed (q : Path) : Prop where
  first : ∀ s ∈ (q.bytes.splitOn slash).head?, isFiller s = false
  last : ∀ s ∈ (q.bytes.splitOn slash).getLast?, isFiller s = false

/-- What stands in front of the first break. -/
theorem head?_splitOn {α : Type} [BEq α] [LawfulBEq α] (a : α) (xs : List α) :
    (xs.splitOn a).head? = some (xs.takeWhile (· != a)) := by
  induction xs with
  | nil => rfl
  | cons x xs ih =>
      rw [List.splitOn_cons_eq_if_modifyHead]
      by_cases hx : x = a
      · simp [hx]
      · simp [hx, List.head?_modifyHead, ih]

theorem head?_splitOn_slash (bytes : List UInt8) :
    (bytes.splitOn slash).head? = some (firstSegment bytes) :=
  head?_splitOn slash bytes

/-- A path without filler at its ends starts from the current directory, and does not name it. -/
theorem IsTrimmed.head_eq (h : q.IsTrimmed) : q.head = .unnamed := by
  have hfirst := h.first _ (head?_splitOn_slash q.bytes)
  have hslash : q.bytes.head? ≠ some slash := fun hhead => by
    obtain ⟨bytes, hbytes⟩ := List.head?_eq_some_iff.mp hhead
    simp [hbytes, firstSegment, isFiller] at hfirst
  have hdot : firstSegment q.bytes ≠ [dot] := fun hdot => by
    simp [hdot, isFiller] at hfirst
  rw [head, if_neg hslash, if_neg hdot]

theorem IsTrimmed.isAbsolute_eq (h : q.IsTrimmed) : q.isAbsolute = false := by
  simp [isAbsolute, h.head_eq]

/-- Two lists of texts with a value between each two of them. -/
theorem intercalate_append {α : Type} {a : α} {front back : List (List α)} (hfront : front ≠ [])
    (hback : back ≠ []) : [a].intercalate (front ++ back) =
      [a].intercalate front ++ a :: [a].intercalate back := by
  induction front with
  | nil => exact absurd rfl hfront
  | cons s front ih =>
      cases front with
      | nil => simp [List.intercalate_cons_of_ne_nil hback]
      | cons s' front =>
          rw [List.cons_append, List.cons_append, List.intercalate_cons_cons,
            List.intercalate_cons_cons, ← List.cons_append, ih (List.cons_ne_nil s' front)]
          simp

theorem joined_singleton (s : List UInt8) : joined [s] = s :=
  List.intercalate_singleton

theorem joined_append {front back : List (List UInt8)} (hfront : front ≠ []) (hback : back ≠ []) :
    joined (front ++ back) = joined front ++ slash :: joined back :=
  intercalate_append hfront hback

/-- A segment that names something, be it the directory above. -/
structure IsComponent (s : List UInt8) : Prop where
  isFiller_eq : isFiller s = false
  slash_notMem : slash ∉ s

instance (s : List UInt8) : Decidable (IsComponent s) :=
  decidable_of_iff (isFiller s = false ∧ slash ∉ s) ⟨fun ⟨h, h'⟩ => ⟨h, h'⟩, fun ⟨h, h'⟩ => ⟨h, h'⟩⟩

theorem splitOn_joined {segments : List (List UInt8)} (hne : segments ≠ [])
    (h : ∀ s ∈ segments, IsComponent s) : (joined segments).splitOn slash = segments :=
  List.splitOn_intercalate slash (fun s hs => (h s hs).slash_notMem) hne

/-- Components with slashes between them have no filler at their ends. -/
theorem isTrimmed_joined {segments : List (List UInt8)} (hne : segments ≠ [])
    (h : ∀ s ∈ segments, IsComponent s) : IsTrimmed ⟨joined segments⟩ := by
  have hsplit := splitOn_joined hne h
  constructor
  · intro s hs
    rw [hsplit] at hs
    exact (h s (List.mem_of_head? hs)).isFiller_eq
  · intro s hs
    rw [hsplit] at hs
    exact (h s (List.mem_of_getLast? hs)).isFiller_eq

theorem dropComponents_append (front rest : List (List UInt8)) :
    dropComponents (front.filter fun s => !isFiller s).length (front ++ rest) =
      dropComponents 0 rest := by
  induction front with
  | nil => rfl
  | cons s front ih =>
      by_cases hs : isFiller s
      · cases hn : (front.filter fun s => !isFiller s).length <;>
          simp [dropComponents, hs, hn, ← ih]
      · simp [dropComponents, hs, ih]

theorem dropComponents_zero {segments : List (List UInt8)}
    (h : ∀ s ∈ segments.head?, isFiller s = false) : dropComponents 0 segments = segments := by
  cases segments with
  | nil => rfl
  | cons s segments => simp [dropComponents, h s rfl]

theorem trimEnd_eq_self {segments : List (List UInt8)}
    (h : ∀ s ∈ segments.getLast?, isFiller s = false) : trimEnd segments = segments := by
  rw [← List.head?_reverse] at h
  rw [trimEnd, List.reverse_eq_iff]
  cases hback : segments.reverse with
  | nil => rfl
  | cons s back =>
      rw [hback] at h
      simp [h s rfl]

/-- **What is left of a path behind another** relative to that one is the path as it is, whatever
slashes and `.` segments the first one is spelled with. -/
theorem relativeTo?_join (hq : q.IsTrimmed) : (p.join q).relativeTo? p = some q := by
  have habsolute := hq.isAbsolute_eq
  by_cases hp : p.bytes = []
  · have hjoin : p.join q = q := by simp [join, habsolute, hp]
    have hsegments : q.segments = q.bytes.splitOn slash := by
      simp [segments, hq.head_eq, Head.bytes]
    rw [relativeTo?, if_pos hp, hjoin, hsegments, trimEnd_eq_self hq.last, hq.head_eq, joined,
      List.intercalate_splitOn]
    rfl
  · obtain ⟨front, hsegments, hfront⟩ := exists_segments_join hp habsolute
    have hprefix : p.components.isPrefixOf (p.join q).components := by
      rw [components, components, hsegments, List.filter_append, hfront, ← components,
        List.isPrefixOf_iff_prefix]
      exact List.prefix_append _ _
    rw [relativeTo?, if_neg hp, if_pos ⟨head_join hp habsolute, hprefix⟩, hsegments, ← hfront,
      dropComponents_append, dropComponents_zero hq.first, trimEnd_eq_self hq.last, joined,
      List.intercalate_splitOn]

end ScreenAtlas.Path
