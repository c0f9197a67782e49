import Mathlib.Data.List.Induction
import Mathlib.Data.List.Infix
import ScreenAtlas.Proofs.Path.Text
import ScreenAtlas.Route.Basic
/-!
# Addresses

An address is made of those segments of a relative path that can be seen. Where no segment is empty
or holds a slash, it is these segments with a slash in front of each, and nothing has to be
collapsed.

## Main definitions

* `AddressOf` — an address as its segments.

## Main statements

* `stripEnding_append` — the ending of a source file is taken off once.
* `segments_of_source` — the segments of a source file's relative path.
* `addressOf_visible` — the address of segments.
* `not_doubled_address` — no address has two slashes in a row.
* `mem_of_mem_address` — the characters of an address.
-/
namespace ScreenAtlas.Route

/-! ## The ending -/

/-- **The ending of a source file is taken off once**, whatever the path ends in then. -/
theorem stripEnding_append (path : List Char) {e : String} (he : e ∈ Path.sourceExtensions) :
    stripEnding (path ++ '.' :: e.toList) = path := by
  have hfind : sourceEndings.find? (·.isSuffixOf (path ++ '.' :: e.toList)) =
      some ('.' :: e.toList) := by
    simp only [Path.sourceExtensions, List.mem_cons, List.not_mem_nil, or_false] at he
    obtain rfl | rfl | rfl | rfl := he <;>
      simp [sourceEndings, List.isSuffixOf, List.isPrefixOf]
  rw [stripEnding, hfind]
  simp

theorem intercalate_append_last (front : List (List Char)) (last more : List Char) :
    ['/'].intercalate (front ++ [last ++ more]) = ['/'].intercalate (front ++ [last]) ++ more := by
  induction front with
  | nil => simp
  | cons s front ih =>
      cases front <;> simp_all [List.intercalate_cons_cons]

/-- **The segments of a source file's relative path** are its directories and its stem. -/
theorem segments_of_source {front : List (List Char)} {stem : List Char} {e : String}
    (hslash : ∀ s ∈ front ++ [stem], '/' ∉ s) (he : e ∈ Path.sourceExtensions) :
    segments (['/'].intercalate (front ++ [stem ++ '.' :: e.toList])) = front ++ [stem] := by
  rw [segments, intercalate_append_last, stripEnding_append _ he]
  exact List.splitOn_intercalate '/' hslash (by simp)

/-! ## Slashes -/

theorem collapseAfter_segment (c : Char) {s : List Char} (hs : '/' ∉ s) :
    collapseAfter c s = s := by
  induction s generalizing c with
  | nil => rfl
  | cons c' s ih =>
      rw [List.mem_cons, not_or] at hs
      rw [collapseAfter, if_neg fun h => hs.1 h.1.symm, ih c' hs.2]

/-- After a segment, one slash is kept. -/
theorem collapseAfter_append_slash {c : Char} {s : List Char} (h : c ≠ '/' ∨ s ≠ [])
    (hs : '/' ∉ s) (rest : List Char) :
    collapseAfter c (s ++ '/' :: rest) = s ++ '/' :: collapseAfter '/' rest := by
  induction s generalizing c with
  | nil =>
      have hc : c ≠ '/' := h.resolve_right fun hnil => hnil rfl
      exact if_neg fun hslash => hc hslash.2
  | cons c' s ih =>
      rw [List.mem_cons, not_or] at hs
      rw [List.cons_append, collapseAfter, if_neg fun hslash => hs.1 hslash.1.symm,
        ih (.inl (Ne.symm hs.1)) hs.2, List.cons_append]

/-- The segments that are not empty. -/
def nonempty (segments : List (List Char)) : List (List Char) :=
  segments.filter (· ≠ [])

theorem nonempty_eq_nil_iff {segments : List (List Char)} :
    nonempty segments = [] ↔ ∀ s ∈ segments, s = [] := by
  simp [nonempty, List.filter_eq_nil_iff]

@[simp] theorem nonempty_nil_cons (segments : List (List Char)) :
    nonempty ([] :: segments) = nonempty segments :=
  rfl

theorem nonempty_append (segments more : List (List Char)) :
    nonempty (segments ++ more) = nonempty segments ++ nonempty more :=
  List.filter_append ..

theorem nonempty_eq_self {segments : List (List Char)} (h : ∀ s ∈ segments, s ≠ []) :
    nonempty segments = segments :=
  List.filter_eq_self.mpr fun s hs => by simpa using h s hs

theorem ne_nil_of_mem_nonempty {segments : List (List Char)} :
    ∀ s ∈ nonempty segments, s ≠ [] := by
  simp [nonempty]

theorem nonempty_cons {s : List Char} (hs : s ≠ []) (segments : List (List Char)) :
    nonempty (s :: segments) = s :: nonempty segments :=
  List.filter_cons_of_pos (by simpa using hs)

/-- What a last empty segment leaves of a text of segments: a slash, if there is anything in front
of it. -/
def lastSlash (segments : List (List Char)) : List Char :=
  if nonempty segments ≠ [] ∧ segments.getLast? = some [] then ['/'] else []

/-- Nothing is left of empty segments alone. -/
theorem lastSlash_of_nonempty_eq_nil {segments : List (List Char)} (h : nonempty segments = []) :
    lastSlash segments = [] :=
  if_neg fun hslash => hslash.1 h

theorem lastSlash_nil_cons {s' : List Char} {segments : List (List Char)} :
    lastSlash ([] :: s' :: segments) = lastSlash (s' :: segments) := by
  rw [lastSlash, nonempty_nil_cons, List.getLast?_cons_cons]
  rfl

/-- Behind a segment that is not empty, a slash is left of empty segments. -/
theorem lastSlash_cons {s s' : List Char} (hs : s ≠ []) {segments : List (List Char)} :
    lastSlash (s :: s' :: segments) =
      if nonempty (s' :: segments) = [] then ['/'] else lastSlash (s' :: segments) := by
  have hcons : nonempty (s :: s' :: segments) ≠ [] := by
    rw [nonempty_cons hs]
    exact List.cons_ne_nil s _
  by_cases h : nonempty (s' :: segments) = []
  · have hlast : (s' :: segments).getLast? = some [] := by
      rw [List.getLast?_eq_some_getLast (List.cons_ne_nil _ _),
        nonempty_eq_nil_iff.mp h _ (List.getLast_mem _)]
    rw [if_pos h, lastSlash, List.getLast?_cons_cons, if_pos ⟨hcons, hlast⟩]
  · rw [if_neg h, lastSlash, lastSlash, List.getLast?_cons_cons]
    simp only [ne_eq, hcons, h, not_false_eq_true, true_and]

/-- **Collapsing leaves the segments that are not empty**, and the slash in front of a last empty
one. -/
theorem collapseAfter_intercalate {segments : List (List Char)} (h : ∀ s ∈ segments, '/' ∉ s) :
    collapseAfter '/' (['/'].intercalate segments) =
      ['/'].intercalate (nonempty segments) ++ lastSlash segments := by
  induction segments with
  | nil => rfl
  | cons s segments ih =>
      obtain ⟨hs, hrest⟩ := List.forall_mem_cons.mp h
      cases segments with
      | nil =>
          rw [List.intercalate_singleton, collapseAfter_segment '/' hs]
          by_cases hempty : s = [] <;> simp [hempty, nonempty, lastSlash]
      | cons s' segments =>
          rw [List.intercalate_cons_cons, List.append_assoc, List.singleton_append]
          by_cases hempty : s = []
          · subst hempty
            rw [List.nil_append, collapseAfter, if_pos ⟨rfl, rfl⟩, ih hrest, nonempty_nil_cons,
              lastSlash_nil_cons]
          · rw [collapseAfter_append_slash (.inr hempty) hs, ih hrest, lastSlash_cons hempty,
              nonempty_cons hempty]
            by_cases hnone : nonempty (s' :: segments) = []
            · rw [if_pos hnone, hnone, lastSlash_of_nonempty_eq_nil hnone]
              simp
            · obtain ⟨t, ts, hts⟩ := List.exists_cons_of_ne_nil hnone
              rw [if_neg hnone, hts, List.intercalate_cons_cons]
              simp

/-- Segments that are not empty and hold no slash have nothing to collapse between them. -/
theorem collapseAfter_intercalate_of_ne {segments : List (List Char)}
    (h : ∀ s ∈ segments, s ≠ [] ∧ '/' ∉ s) :
    collapseAfter '/' (['/'].intercalate segments) = ['/'].intercalate segments := by
  have hall : nonempty segments = segments := nonempty_eq_self fun s hs => (h s hs).1
  have hlast : segments.getLast? ≠ some [] := fun hmem => (h [] (List.mem_of_getLast? hmem)).1 rfl
  rw [collapseAfter_intercalate fun s hs => (h s hs).2, hall, lastSlash,
    if_neg fun hslash => hlast hslash.2, List.append_nil]

/-- Collapsing leaves no two slashes in a row. -/
theorem not_doubled_collapseAfter (c : Char) (s : List Char) :
    ¬['/', '/'] <:+: c :: collapseAfter c s := by
  induction s generalizing c with
  | nil => exact fun h => absurd h.length_le (by simp [collapseAfter])
  | cons c' s ih =>
      rw [collapseAfter]
      split
      · next h =>
        rw [h.2]
        exact ih '/'
      · next h =>
        rw [List.infix_cons_iff, not_or]
        refine ⟨fun hfront => h ?_, ih c'⟩
        simp only [List.cons_prefix_cons, List.nil_prefix, and_true] at hfront
        exact ⟨hfront.2.symm, hfront.1.symm⟩

theorem toList_address (path : String) :
    (ofRelative path).address.toList = addressOf (dropIndex (visible (segments path.toList))) :=
  String.toList_ofList

/-- **No address has two slashes in a row.** -/
theorem not_doubled_address (path : String) :
    ¬['/', '/'] <:+: (ofRelative path).address.toList := by
  rw [toList_address]
  exact not_doubled_collapseAfter '/' _

/-! ## Visible segments -/

/-- An address as its segments: it is these with a slash in front of each, or a single slash if
there are none. No segment is empty, holds a slash, or is one that an address leaves out. -/
structure AddressOf (address : List Char) (segments : List (List Char)) : Prop where
  eq : address = '/' :: ['/'].intercalate segments
  segment : ∀ s ∈ segments, s ≠ [] ∧ '/' ∉ s
  visible : ∀ s ∈ segments, isGroup s = false ∧ isPrivate s = false

/-- What an address is made of are segments that can be seen. -/
theorem of_mem_dropIndex_visible {segments : List (List Char)} {s : List Char}
    (h : s ∈ dropIndex (visible segments)) :
    s ∈ segments ∧ isGroup s = false ∧ isPrivate s = false := by
  have hmem : s ∈ visible segments := by
    unfold dropIndex at h
    split at h
    · exact List.mem_of_mem_dropLast h
    · exact h
  simpa [visible] using hmem

/-- **The address of segments** that are not empty and hold no slash. -/
theorem addressOf_visible {segments : List (List Char)} (h : ∀ s ∈ segments, s ≠ [] ∧ '/' ∉ s) :
    AddressOf (addressOf (dropIndex (visible segments))) (dropIndex (visible segments)) := by
  have hsegment : ∀ s ∈ dropIndex (visible segments), s ≠ [] ∧ '/' ∉ s :=
    fun s hs => h s (of_mem_dropIndex_visible hs).1
  refine ⟨?_, hsegment, fun s hs => (of_mem_dropIndex_visible hs).2⟩
  rw [addressOf, collapseAfter_intercalate_of_ne hsegment]

/-- The address of a source file's relative path has segments that can be seen. -/
theorem addressOf_source {path : String} {front : List (List Char)} {stem : List Char} {e : String}
    (hpath : path.toList = ['/'].intercalate (front ++ [stem ++ '.' :: e.toList]))
    (h : ∀ s ∈ front ++ [stem], s ≠ [] ∧ '/' ∉ s) (he : e ∈ Path.sourceExtensions) :
    AddressOf (ofRelative path).address.toList (dropIndex (visible (front ++ [stem]))) := by
  rw [toList_address, hpath, segments_of_source (fun s hs => (h s hs).2) he]
  exact addressOf_visible h

/-- An address that has segments does not end in a slash. -/
theorem AddressOf.getLast?_ne {address : String} {segments : List (List Char)}
    (h : AddressOf address.toList segments) (hne : address ≠ "/") :
    address.toList.getLast? ≠ some '/' := by
  obtain ⟨heq, hsegment, -⟩ := h
  cases segments using List.reverseRecOn with
  | nil => exact absurd (String.toList_inj.mp heq) hne
  | append_singleton front last =>
      obtain ⟨hlast, hslash⟩ := hsegment last (by simp)
      have hend := intercalate_append_last front [] last
      rw [List.nil_append] at hend
      rw [heq, hend, ← List.cons_append, List.getLast?_append_of_ne_nil _ hlast]
      exact fun hmem => hslash (List.mem_of_getLast? hmem)

/-! ## Characters -/

theorem mem_of_mem_collapseAfter {c before : Char} {s : List Char}
    (h : c ∈ collapseAfter before s) : c ∈ s := by
  induction s generalizing before with
  | nil => exact h
  | cons d s ih =>
      rw [collapseAfter] at h
      split at h
      · exact List.mem_cons_of_mem _ (ih h)
      · rcases List.mem_cons.mp h with rfl | h
        · exact List.mem_cons_self
        · exact List.mem_cons_of_mem _ (ih h)

theorem mem_of_mem_stripEnding {c : Char} {path : List Char} (h : c ∈ stripEnding path) :
    c ∈ path := by
  unfold stripEnding at h
  split at h
  · exact List.mem_of_mem_take h
  · exact h

/-- **The characters of an address** are slashes and characters of the relative path. -/
theorem mem_of_mem_address {c : Char} {path : String} (h : c ∈ (ofRelative path).address.toList) :
    c = '/' ∨ c ∈ path.toList := by
  rw [toList_address, addressOf, List.mem_cons] at h
  rcases h with rfl | h
  · exact .inl rfl
  · rcases Path.mem_of_mem_intercalate (mem_of_mem_collapseAfter h) with rfl | ⟨s, hs, hc⟩
    · exact .inl rfl
    · have hmem := Path.mem_intercalate_of_mem (a := '/') (of_mem_dropIndex_visible hs).1 hc
      rw [segments, List.intercalate_splitOn] at hmem
      exact .inr (mem_of_mem_stripEnding hmem)

end ScreenAtlas.Route
