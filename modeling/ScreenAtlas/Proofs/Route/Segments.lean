import ScreenAtlas.Proofs.Route
/-!
# Routes by segments

Whatever a path holds, its route is told by the segments of its relative path: backslashes, empty
segments and segments that look like nothing in particular included. The address is made of the
segments that it keeps, and the role is that of the last segment of all, kept or not.

## Main definitions

* `IsStem` — a relative path without its ending.
* `IsKept` — the segments that an address keeps.
* `IsRole` — the role of a last segment.
* `addressNames` — the segments of an address.

## Main statements

* `isStem_iff`, `isKept_iff` — both are determined.
* `segments_append_slash` — the segments on both sides of a slash.
* `addressOf_eq` — the address of any segments.
* `addressNames_ofRelative` — what an address keeps can be read off.
* `derive_by_segments` — the route of any path under any root.
-/
namespace ScreenAtlas.Route

/-! ## The stem -/

/-- The path without the ending of a source file, if it has one. -/
def IsStem (path stem : List Char) : Prop :=
  (∃ e ∈ Path.sourceExtensions, path = stem ++ '.' :: e.toList) ∨
    stem = path ∧ ∀ e ∈ Path.sourceExtensions, ¬ '.' :: e.toList <:+ path

theorem mem_sourceEndings {ending : List Char} :
    ending ∈ sourceEndings ↔ ∃ e ∈ Path.sourceExtensions, '.' :: e.toList = ending := by
  simp only [sourceEndings, Path.sourceExtensions, List.mem_cons, List.not_mem_nil, or_false,
    exists_eq_or_imp, exists_eq_left]
  simp only [eq_comm (b := ending)]
  tauto

/-- A path without ending is left as it is. -/
theorem stripEnding_of_forall {path : List Char}
    (h : ∀ e ∈ Path.sourceExtensions, ¬ '.' :: e.toList <:+ path) : stripEnding path = path := by
  have hnone : sourceEndings.find? (·.isSuffixOf path) = none := by
    refine List.find?_eq_none.mpr fun ending hending hsuffix => ?_
    obtain ⟨e, he, rfl⟩ := mem_sourceEndings.mp hending
    exact h e he (List.isSuffixOf_iff_suffix.mp hsuffix)
  rw [stripEnding, hnone]

/-- **The stem of a path is determined**: it has at most one ending. -/
theorem isStem_iff {path stem : List Char} : IsStem path stem ↔ stem = stripEnding path := by
  constructor
  · rintro (⟨e, he, rfl⟩ | ⟨rfl, hnone⟩)
    · exact (stripEnding_append stem he).symm
    · exact (stripEnding_of_forall hnone).symm
  · rintro rfl
    by_cases h : ∃ e ∈ Path.sourceExtensions, '.' :: e.toList <:+ path
    · obtain ⟨e, he, stem, rfl⟩ := h
      exact .inl ⟨e, he, by rw [stripEnding_append stem he]⟩
    · have hnone : ∀ e ∈ Path.sourceExtensions, ¬ '.' :: e.toList <:+ path :=
        fun e he hsuffix => h ⟨e, he, hsuffix⟩
      exact .inr ⟨stripEnding_of_forall hnone, hnone⟩

/-! ## Slashes of a path -/

/-- An ending goes back to the last slash at most. -/
theorem suffix_of_suffix_append_slash {ending front rest : List Char} (hslash : '/' ∉ ending)
    (h : ending <:+ front ++ '/' :: rest) : ending <:+ rest := by
  have hback : '/' :: rest <:+ front ++ '/' :: rest := List.suffix_append front _
  rcases List.suffix_or_suffix_of_suffix h hback with hwithin | hbeyond
  · rcases List.suffix_cons_iff.mp hwithin with rfl | hrest
    · exact absurd List.mem_cons_self hslash
    · exact hrest
  · exact absurd (hbeyond.subset List.mem_cons_self) hslash

theorem stripEnding_append_slash (front rest : List Char) :
    stripEnding (front ++ '/' :: rest) = front ++ '/' :: stripEnding rest := by
  by_cases h : ∃ e ∈ Path.sourceExtensions, '.' :: e.toList <:+ rest
  · obtain ⟨e, he, stem, rfl⟩ := h
    have hmore := stripEnding_append (front ++ '/' :: stem) he
    rw [List.append_assoc, List.cons_append] at hmore
    rw [hmore, stripEnding_append stem he]
  · have hslash : ∀ e ∈ Path.sourceExtensions, '/' ∉ '.' :: e.toList := by decide
    rw [stripEnding_of_forall fun e he hsuffix => h ⟨e, he, hsuffix⟩, stripEnding_of_forall]
    intro e he hsuffix
    exact h ⟨e, he, suffix_of_suffix_append_slash (hslash e he) hsuffix⟩

/-- **The segments on both sides of a slash.** -/
theorem segments_append_slash (front rest : List Char) :
    segments (front ++ '/' :: rest) = front.splitOn '/' ++ segments rest := by
  rw [segments, stripEnding_append_slash, List.splitOn_append_cons_self, segments]

theorem segments_of_notMem {path : List Char} (h : '/' ∉ path) :
    segments path = [stripEnding path] := by
  have hslash : '/' ∉ stripEnding path := fun hmem => h (mem_of_mem_stripEnding hmem)
  rw [segments, List.splitOn_eq_singleton hslash]

/-- The segments of a path are those between its slashes, the last one without its ending. -/
theorem segments_of_splitOn {path : List Char} {front : List (List Char)} {last : List Char}
    (h : path.splitOn '/' = front ++ [last]) : segments path = front ++ [stripEnding last] := by
  have hslash : ∀ s ∈ front ++ [last], '/' ∉ s := fun s hs =>
    Path.notMem_of_mem_splitOn (h ▸ hs)
  have hpath : path = ['/'].intercalate (front ++ [last]) := by
    rw [← h, List.intercalate_splitOn]
  have hlast : segments last = [stripEnding last] := segments_of_notMem (hslash last (by simp))
  rcases eq_or_ne front [] with rfl | hne
  · rw [hpath]
    simpa using hlast
  · have hfront : (['/'].intercalate front).splitOn '/' = front :=
      List.splitOn_intercalate '/' (fun s hs => hslash s (by simp [hs])) hne
    rw [hpath, Path.intercalate_append hne (List.cons_ne_nil last []), List.intercalate_singleton,
      segments_append_slash, hfront, hlast]

/-! ## Kept segments -/

/-- A segment of the form `(…)`. -/
def InBrackets (s : List Char) : Prop :=
  2 ≤ s.length ∧ s.head? = some '(' ∧ s.getLast? = some ')'

instance (s : List Char) : Decidable (InBrackets s) :=
  inferInstanceAs (Decidable (_ ∧ _))

/-- A segment that starts with `_` or `+`. -/
def IsMarked (s : List Char) : Prop :=
  s.head? = some '_' ∨ s.head? = some '+'

instance (s : List Char) : Decidable (IsMarked s) :=
  inferInstanceAs (Decidable (_ ∨ _))

/-- The segments that an address keeps of all segments: those that are neither in brackets nor
marked, without the last of them if that is `index`. -/
def IsKept (segments kept : List (List Char)) : Prop :=
  let seen := segments.filter fun s => ¬InBrackets s ∧ ¬IsMarked s
  seen = kept ++ ["index".toList] ∨ kept = seen ∧ seen.getLast? ≠ some "index".toList

theorem isGroup_iff {s : List Char} : isGroup s = true ↔ InBrackets s := by
  simp only [isGroup, InBrackets, Bool.and_eq_true, decide_eq_true_iff]
  refine ⟨fun h => ⟨?_, h⟩, fun h => h.2⟩
  -- One character is not both brackets.
  obtain ⟨hhead, hlast⟩ := h
  match s with
  | [] => cases hhead
  | [c] =>
      obtain rfl := Option.some.inj hhead
      cases hlast
  | c :: d :: s => simp

theorem isPrivate_iff {s : List Char} : isPrivate s = true ↔ IsMarked s := by
  simp [isPrivate, IsMarked]

theorem visible_append (front back : List (List Char)) :
    visible (front ++ back) = visible front ++ visible back :=
  List.filter_append ..

theorem visible_eq (segments : List (List Char)) :
    visible segments = segments.filter fun s => ¬InBrackets s ∧ ¬IsMarked s := by
  refine List.filter_congr fun s _ => ?_
  rw [Bool.eq_iff_iff]
  simp [← isGroup_iff, ← isPrivate_iff]

/-- **What an address keeps is determined.** -/
theorem isKept_iff {segments kept : List (List Char)} :
    IsKept segments kept ↔ kept = dropIndex (visible segments) := by
  rw [IsKept, ← visible_eq, dropIndex]
  generalize visible segments = seen
  by_cases hindex : seen.getLast? = some "index".toList
  · obtain ⟨front, rfl⟩ := List.getLast?_eq_some_iff.mp hindex
    simp [eq_comm]
  · rw [if_neg hindex]
    refine ⟨?_, fun h => .inr ⟨h, hindex⟩⟩
    rintro (rfl | ⟨rfl, -⟩)
    · exact absurd List.getLast?_concat hindex
    · rfl

/-! ## The route -/

/-- The role of a file by the last segment of its path. -/
structure IsRole (last : List Char) (role : Option Role) : Prop where
  layout : role = some .layout ↔ last = "_layout".toList
  notFound : role = some .notFound ↔ last = "+not-found".toList
  rawDocument : role = some .rawDocument ↔ last = "+html".toList
  modal : role = some .modal ↔ last = "modal".toList
  other : role = some .other ↔
    last.head? = some '+' ∧ last ≠ "+not-found".toList ∧ last ≠ "+html".toList

theorem isRole_ofSegment? (last : List Char) : IsRole last (Role.ofSegment? last) := by
  unfold Role.ofSegment?
  constructor <;> split_ifs <;> simp_all

/-- **The address of any segments**: those that are not empty, each behind a slash, and a slash for
a last segment that is empty. -/
theorem addressOf_eq {segments : List (List Char)} (h : ∀ s ∈ segments, '/' ∉ s) :
    addressOf segments =
      '/' :: (['/'].intercalate (nonempty segments) ++ lastSlash segments) := by
  rw [addressOf, collapseAfter_intercalate h]

variable (path : String)

/-- The address of a relative path. -/
theorem address_ofRelative {kept : List (List Char)}
    (hkept : kept = dropIndex (visible (segments path.toList))) :
    (ofRelative path).address.toList =
      '/' :: (['/'].intercalate (nonempty kept) ++ lastSlash kept) := by
  have hslash : ∀ s ∈ kept, '/' ∉ s := by
    intro s hs
    rw [hkept] at hs
    exact Path.notMem_of_mem_splitOn (of_mem_dropIndex_visible hs).1
  rw [toList_address, ← hkept, addressOf_eq hslash]

/-- The segments of an address, those that are empty apart. -/
def addressNames (r : Route) : List (List Char) :=
  nonempty (r.address.toList.splitOn '/')

/-- **The kept segments can be read off an address**, those that are empty apart. -/
theorem addressNames_ofRelative : (ofRelative path).addressNames =
    nonempty (dropIndex (visible (segments path.toList))) := by
  rw [addressNames, address_ofRelative path rfl]
  have hslash : ∀ s ∈ nonempty (dropIndex (visible (segments path.toList))), '/' ∉ s := by
    intro s hs
    exact Path.notMem_of_mem_splitOn (of_mem_dropIndex_visible (List.mem_of_mem_filter hs)).1
  have hself : nonempty (nonempty (dropIndex (visible (segments path.toList)))) = _ :=
    nonempty_eq_self ne_nil_of_mem_nonempty
  rw [lastSlash]
  generalize nonempty (dropIndex (visible (segments path.toList))) = names at hslash hself ⊢
  have hfront : ∀ rest : List Char, ('/' :: rest).splitOn '/' = [] :: rest.splitOn '/' :=
    fun rest => by simpa using List.splitOn_append_cons_self (a := '/') [] rest
  by_cases hnone : names = []
  · simp [hnone, hfront, nonempty]
  · have hsplit : (['/'].intercalate names).splitOn '/' = names :=
      List.splitOn_intercalate '/' hslash hnone
    rw [hfront, nonempty_nil_cons]
    split
    · rw [List.splitOn_append_cons_self, hsplit, nonempty_append, hself]
      simp [nonempty]
    · rw [List.append_nil, hsplit, hself]

/-- The role of a relative path. -/
theorem isRole_ofRelative {front : List (List Char)} {last : List Char}
    (h : segments path.toList = front ++ [last]) : IsRole last (ofRelative path).role := by
  have hrole : (ofRelative path).role = Role.ofSegment? last := by
    rw [ofRelative, h, List.getLast?_concat, Option.bind_some]
  rw [hrole]
  exact isRole_ofSegment? last

/-- **The route of any path under any root**, by the segments of its relative path. One ending of a
source file is taken off the relative path, if there is one; the address keeps the segments of the
stem that are neither in brackets nor marked, without a last `index`. It is a slash, the kept
segments that are not empty with slashes between them, and one more slash if the last kept segment
is empty and another is not. So it starts with a slash and has no two in a row. The role is told by
the last segment of the stem. -/
theorem derive_by_segments (file views : Path) :
    let r := derive file views
    ∃ stem kept, (∀ s, IsStem r.relativePath.toList s ↔ s = stem) ∧
      (∀ k, IsKept (stem.splitOn '/') k ↔ k = kept) ∧
      r.address.toList = '/' :: (['/'].intercalate (kept.filter (· ≠ [])) ++
        if (∃ s ∈ kept, s ≠ []) ∧ kept.getLast? = some [] then ['/'] else []) ∧
      r.address.toList.head? = some '/' ∧ ¬['/', '/'] <:+: r.address.toList ∧
      ∃ front last, stem.splitOn '/' = front ++ [last] ∧ IsRole last r.role := by
  intro r
  let path := file.relativeText views
  let kept := dropIndex (visible (segments path.toList))
  have haddress : r.address.toList =
      '/' :: (['/'].intercalate (nonempty kept) ++ lastSlash kept) := address_ofRelative path rfl
  have hsome : nonempty kept ≠ [] ↔ ∃ s ∈ kept, s ≠ [] := by simp [nonempty_eq_nil_iff]
  obtain ⟨front, last, hlast⟩ :=
    (List.eq_nil_or_concat' (segments path.toList)).resolve_left (List.splitOn_ne_nil '/' _)
  refine ⟨stripEnding path.toList, kept, fun s => isStem_iff, fun k => isKept_iff, ?address, ?head,
    not_doubled_address path, front, last, hlast, isRole_ofRelative path hlast⟩
  case address =>
    simp only [haddress, lastSlash, hsome]
    rfl
  case head => rw [haddress, List.head?_cons]

/-- Of a last `index`, the slash in front of it is left where an empty segment comes before. -/
example : (derive (.ofString "/p/app/(tabs)//a/_b//index.tsx") (.ofString "/p/app")).address =
    "/a/" := by decide +kernel

end ScreenAtlas.Route
