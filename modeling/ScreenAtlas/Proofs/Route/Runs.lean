import ScreenAtlas.Proofs.Path.Runs
import ScreenAtlas.Proofs.Route.Segments
/-!
# Routes of paths with runs of slashes

A run of slashes leaves empty segments in a relative path. They are no names of the address, but one
that stands last among the segments that can be seen leaves a slash at the end of the address, and
keeps a last `index` in front of it from being dropped. So merging the runs of a path may change its
address, if the file's own segment is one that the address leaves out. The role is never changed.

## Main definitions

* `IsOpen` — segments that end with an empty one behind others.
* `SameNames` — relative paths that differ in runs of slashes only.

## Main statements

* `sameNames_of_runsMerged` — the segments of paths with merged runs.
* `address_eq_iff_of_sameNames` — which relative paths have the same address.
* `address_eq_iff_of_runsMerged` — the same of paths under any root.
* `not_address_eq_indexRun` — a path whose address is changed.
-/
namespace ScreenAtlas.Route

/-! ## Segments -/

/-- Relative paths with the same segments, empty ones apart, and the same last segment, which may be
empty. -/
structure SameNames (path path' : List Char) : Prop where
  nonempty_eq : nonempty (segments path) = nonempty (segments path')
  getLast?_eq : (segments path).getLast? = (segments path').getLast?

namespace SameNames

variable {a b c : List Char}

theorem refl (a : List Char) : SameNames a a :=
  ⟨rfl, rfl⟩

theorem trans (h : SameNames a b) (h' : SameNames b c) : SameNames a c :=
  ⟨h.nonempty_eq.trans h'.nonempty_eq, h.getLast?_eq.trans h'.getLast?_eq⟩

end SameNames

/-- A slash more in a run makes an empty segment, which is not the last one. -/
theorem sameNames_of_doubled (front back : List Char) :
    SameNames (front ++ '/' :: '/' :: back) (front ++ '/' :: back) := by
  have hback : segments ('/' :: back) = [] :: segments back := by
    simpa using segments_append_slash [] back
  obtain ⟨s, rest, hrest⟩ := List.exists_cons_of_ne_nil (List.splitOn_ne_nil '/' (stripEnding back))
  change segments back = s :: rest at hrest
  constructor
  · rw [segments_append_slash, segments_append_slash, hback, nonempty_append, nonempty_append,
      nonempty_nil_cons]
  · rw [segments_append_slash, segments_append_slash, hback, hrest, List.getLast?_append,
      List.getLast?_append, List.getLast?_cons_cons]

/-- **The segments of paths with merged runs** are the same, empty ones apart. -/
theorem sameNames_of_runsMerged {p q : Path} (h : Path.RunsMerged p.bytes q.bytes) (root : Path) :
    SameNames (p.relativeText root).toList (q.relativeText root).toList := by
  have hstep : ∀ front back : List UInt8,
      SameNames ((⟨front ++ Path.slash :: Path.slash :: back⟩ : Path).relativeText root).toList
        ((⟨front ++ Path.slash :: back⟩ : Path).relativeText root).toList := by
    intro front back
    obtain hsame | ⟨before, after, hdouble, hsingle⟩ :=
      Path.relativeText_of_doubled (p := ⟨front ++ Path.slash :: Path.slash :: back⟩)
        (q := ⟨front ++ Path.slash :: back⟩) rfl rfl root
    · rw [hsame]
      exact .refl _
    · rw [hdouble, hsingle]
      exact sameNames_of_doubled before after
  exact h.of_step
    (R := fun bytes bytes' => SameNames ((⟨bytes⟩ : Path).relativeText root).toList
      ((⟨bytes'⟩ : Path).relativeText root).toList)
    (fun _ => .refl _) .trans hstep []

/-! ## Open ends -/

/-- Segments that end with an empty one, and have others that are not empty. -/
def IsOpen (segments : List (List Char)) : Prop :=
  (∃ s ∈ segments, s ≠ []) ∧ segments.getLast? = some []

instance (segments : List (List Char)) : Decidable (IsOpen segments) :=
  inferInstanceAs (Decidable (_ ∧ _))

variable {segs segs' : List (List Char)}

theorem isOpen_iff : IsOpen segs ↔ nonempty segs ≠ [] ∧ segs.getLast? = some [] := by
  simp [IsOpen, nonempty_eq_nil_iff]

theorem lastSlash_eq_ite (segs : List (List Char)) :
    lastSlash segs = if IsOpen segs then ['/'] else [] := by
  simp only [lastSlash, isOpen_iff]

/-- A slash is left where segments end with an empty one. -/
theorem lastSlash_eq_iff : lastSlash segs = lastSlash segs' ↔ (IsOpen segs ↔ IsOpen segs') := by
  rw [lastSlash_eq_ite, lastSlash_eq_ite]
  by_cases h : IsOpen segs <;> by_cases h' : IsOpen segs' <;> simp [h, h']

/-- The last of the segments that are not empty is the last of all, unless that one is empty. -/
theorem getLast?_nonempty (hne : nonempty segs ≠ []) (hopen : ¬IsOpen segs) :
    segs.getLast? = (nonempty segs).getLast? := by
  cases segs using List.reverseRecOn with
  | nil => rfl
  | append_singleton front last =>
      have hlast : last ≠ [] := by
        rintro rfl
        exact hopen (isOpen_iff.mpr ⟨hne, List.getLast?_concat⟩)
      have hself : nonempty [last] = [last] := nonempty_eq_self (by simpa using hlast)
      rw [nonempty_append, hself, List.getLast?_concat, List.getLast?_concat]

/-- An empty last segment keeps a segment `index` in front of it. -/
theorem dropIndex_of_isOpen (hopen : IsOpen segs) : dropIndex segs = segs := by
  rw [dropIndex, if_neg]
  rw [hopen.2]
  decide

/-- Without an empty last segment, `index` is dropped just where it is the last name. -/
theorem nonempty_dropIndex (hopen : ¬IsOpen segs) :
    nonempty (dropIndex segs) = dropIndex (nonempty segs) := by
  by_cases hne : nonempty segs = []
  · have hall := nonempty_eq_nil_iff.mp hne
    have hlast : segs.getLast? ≠ some "index".toList := fun h =>
      absurd (hall _ (List.mem_of_getLast? h)) (by decide)
    rw [dropIndex, if_neg hlast, hne]
    rfl
  · rw [dropIndex, dropIndex, getLast?_nonempty hne hopen]
    split
    · next hindex =>
      obtain ⟨front, rfl⟩ := List.getLast?_eq_some_iff.mp
        ((getLast?_nonempty hne hopen).trans hindex)
      have hself : nonempty ["index".toList] = ["index".toList] := nonempty_eq_self (by decide)
      rw [List.dropLast_concat, nonempty_append, hself, List.dropLast_concat]
    · rfl

/-! ## Addresses -/

/-- Where one of two lists with the same names ends with an empty segment and the other does not,
the names that are kept differ, or the second list is kept as it is. -/
theorem not_isOpen_dropIndex (hnames : nonempty segs = nonempty segs') (hopen : IsOpen segs)
    (hclosed : ¬IsOpen segs') (hkept : nonempty (dropIndex segs) = nonempty (dropIndex segs')) :
    ¬IsOpen (dropIndex segs') := by
  have hne : nonempty segs' ≠ [] := hnames ▸ (isOpen_iff.mp hopen).1
  -- Nothing is dropped from the first list, so nothing is dropped from the second one.
  have hindex : (nonempty segs').getLast? ≠ some "index".toList := by
    intro hlast
    rw [dropIndex_of_isOpen hopen, nonempty_dropIndex hclosed, hnames, dropIndex, if_pos hlast]
      at hkept
    obtain ⟨front, hfront⟩ := List.getLast?_eq_some_iff.mp hlast
    rw [hfront, List.dropLast_concat] at hkept
    simpa using congrArg List.length hkept
  rw [dropIndex, getLast?_nonempty hne hclosed, if_neg hindex]
  exact hclosed

/-- Segments that end alike, before and after `index` is dropped, keep the same names. -/
theorem nonempty_dropIndex_eq (hnames : nonempty segs = nonempty segs')
    (hends : IsOpen segs ↔ IsOpen segs') :
    nonempty (dropIndex segs) = nonempty (dropIndex segs') := by
  by_cases hopen : IsOpen segs
  · rw [dropIndex_of_isOpen hopen, dropIndex_of_isOpen (hends.mp hopen), hnames]
  · rw [nonempty_dropIndex hopen, nonempty_dropIndex (mt hends.mpr hopen), hnames]

variable {path path' : String}

/-- The names of an address and the slash at its end make the address. -/
theorem address_eq_iff :
    (ofRelative path).address = (ofRelative path').address ↔
      nonempty (dropIndex (visible (segments path.toList))) =
          nonempty (dropIndex (visible (segments path'.toList))) ∧
        (IsOpen (dropIndex (visible (segments path.toList))) ↔
          IsOpen (dropIndex (visible (segments path'.toList)))) := by
  rw [← lastSlash_eq_iff]
  constructor
  · intro h
    have hnames := addressNames_ofRelative path
    rw [addressNames, h, ← addressNames, addressNames_ofRelative] at hnames
    rw [← String.toList_inj, address_ofRelative path rfl, address_ofRelative path' rfl, hnames] at h
    exact ⟨hnames.symm, List.append_cancel_left (List.cons.inj h).2⟩
  · rintro ⟨hnames, hslash⟩
    rw [← String.toList_inj, address_ofRelative path rfl, address_ofRelative path' rfl, hnames,
      hslash]

theorem SameNames.nonempty_visible (h : SameNames path.toList path'.toList) :
    nonempty (visible (segments path.toList)) = nonempty (visible (segments path'.toList)) := by
  have hcomm : ∀ segments, nonempty (visible segments) = visible (nonempty segments) :=
    fun segments => List.filter_comm ..
  rw [hcomm, hcomm, h.nonempty_eq]

/-- **Which relative paths that differ in runs have the same address:** those whose segments that
can be seen end alike, with an empty one or not, before and after `index` is dropped. -/
theorem address_eq_iff_of_sameNames (h : SameNames path.toList path'.toList) :
    (ofRelative path).address = (ofRelative path').address ↔
      (IsOpen (visible (segments path.toList)) ↔ IsOpen (visible (segments path'.toList))) ∧
        (IsOpen (dropIndex (visible (segments path.toList))) ↔
          IsOpen (dropIndex (visible (segments path'.toList)))) := by
  have hnames := h.nonempty_visible
  rw [address_eq_iff]
  refine ⟨fun ⟨hkept, hends⟩ => ⟨⟨fun hopen => ?_, fun hopen => ?_⟩, hends⟩,
    fun ⟨hends, hends'⟩ => ⟨nonempty_dropIndex_eq hnames hends, hends'⟩⟩
  · by_contra hclosed
    refine not_isOpen_dropIndex hnames hopen hclosed hkept (hends.mp ?_)
    rwa [dropIndex_of_isOpen hopen]
  · by_contra hclosed
    refine not_isOpen_dropIndex hnames.symm hopen hclosed hkept.symm (hends.mpr ?_)
    rwa [dropIndex_of_isOpen hopen]

/-- A last segment that can be seen is the last one that can be seen. -/
theorem getLast?_visible {last : List Char} (h : segs.getLast? = some last)
    (hseen : ¬InBrackets last ∧ ¬IsMarked last) : (visible segs).getLast? = some last := by
  obtain ⟨front, rfl⟩ := List.getLast?_eq_some_iff.mp h
  have hkept : visible [last] = [last] := by
    rw [visible_eq]
    exact List.filter_cons_of_pos (by simpa using hseen)
  rw [visible_append, hkept, List.getLast?_concat]

/-- A file whose own segment can be seen and is not `index` has an address that does not depend on
the runs in front of it. -/
theorem address_eq_of_sameNames (h : SameNames path.toList path'.toList) {last : List Char}
    (hlast : (segments path.toList).getLast? = some last)
    (hseen : ¬InBrackets last ∧ ¬IsMarked last) (hindex : last ≠ "index".toList) :
    (ofRelative path).address = (ofRelative path').address := by
  have hend := getLast?_visible hlast hseen
  have hend' := getLast?_visible (h.getLast?_eq.symm.trans hlast) hseen
  have hends : IsOpen (visible (segments path.toList)) ↔
      IsOpen (visible (segments path'.toList)) := by
    rw [isOpen_iff, isOpen_iff, h.nonempty_visible, hend, hend']
  have hkept : ∀ {segs : List (List Char)}, segs.getLast? = some last → dropIndex segs = segs :=
    fun hsegs => if_neg fun heq => hindex (Option.some.inj (hsegs.symm.trans heq))
  rw [address_eq_iff_of_sameNames h, hkept hend, hkept hend']
  exact ⟨hends, hends⟩

/-- **Which paths with merged runs have the same address.** They do if the segments that can be seen
end with an empty one in both or in neither of them, before and after a last `index` is dropped; and
only then. So they do wherever the file's own segment can be seen and is not `index`. The role is
the same in any case. -/
theorem address_eq_iff_of_runsMerged {p q : Path} (h : Path.RunsMerged p.bytes q.bytes)
    (root : Path) :
    let segs := segments (derive p root).relativePath.toList
    let segs' := segments (derive q root).relativePath.toList
    ((derive p root).address = (derive q root).address ↔
      (IsOpen (visible segs) ↔ IsOpen (visible segs')) ∧
        (IsOpen (dropIndex (visible segs)) ↔ IsOpen (dropIndex (visible segs')))) ∧
    (∀ last, segs.getLast? = some last → ¬InBrackets last → ¬IsMarked last →
      last ≠ "index".toList → (derive p root).address = (derive q root).address) ∧
    (derive p root).role = (derive q root).role := by
  intro segs segs'
  have hsame := sameNames_of_runsMerged h root
  refine ⟨address_eq_iff_of_sameNames hsame, fun last hlast hbrackets hmarked hindex =>
    address_eq_of_sameNames hsame hlast ⟨hbrackets, hmarked⟩ hindex, ?role⟩
  case role =>
    change (ofRelative _).role = (ofRelative _).role
    rw [ofRelative, ofRelative, hsame.getLast?_eq]

/-- A path with runs of slashes outside the views directory, one of them in front of a private
directory, and the path with one of the runs merged. -/
theorem address_eq_ordersRun :
    let root := Path.ofString "/elsewhere"
    let p := Path.ofString "/shop//_beta///orders.tsx"
    let q := Path.ofString "/shop//_beta/orders.tsx"
    Path.RunsMerged p.bytes q.bytes ∧
      (segments (derive p root).relativePath.toList).getLast? = some "orders".toList ∧
      (derive p root).address = (derive q root).address ∧
      (derive p root).address = "/shop/orders" := by
  intro root p q
  have hmerged : Path.RunsMerged p.bytes q.bytes := by
    have hback : Path.RunsMerged (Utf8.encode "orders.tsx".toList)
        (Utf8.encode "orders.tsx".toList) := .refl _
    exact .append_left (Utf8.encode "/shop//_beta".toList) (.run 2 hback)
  have hlast : (segments (derive p root).relativePath.toList).getLast? =
      some "orders".toList := by decide +kernel
  obtain ⟨-, hsame, -⟩ := address_eq_iff_of_runsMerged hmerged root
  exact ⟨hmerged, hlast, hsame _ hlast (by decide) (by decide) (by decide), by decide +kernel⟩

/-- Two slashes in front of `index` leave one at the end of the address, so merging them changes the
address. -/
theorem not_address_eq_indexRun :
    ¬∀ p q root : Path, Path.RunsMerged p.bytes q.bytes →
      (derive p root).address = (derive q root).address := by
  intro h
  have hback : Path.RunsMerged (Utf8.encode "index.tsx".toList) (Utf8.encode "index.tsx".toList) :=
    .refl _
  have hmerged : Path.RunsMerged (Path.ofString "/project/app/a//index.tsx").bytes
      (Path.ofString "/project/app/a/index.tsx").bytes :=
    .append_left (Utf8.encode "/project/app/a".toList) (.run 1 hback)
  have heq := h _ _ (.ofString "/elsewhere") hmerged
  revert heq
  decide +kernel

end ScreenAtlas.Route
