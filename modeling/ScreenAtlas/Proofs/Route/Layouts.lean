import ScreenAtlas.Proofs.Path.Shown
import ScreenAtlas.Proofs.Route.Segments
/-!
# Layouts and the screens below them

A layout wraps the screens beside and below it, so its address has to lead to theirs. The layout
file itself adds nothing to the address of its directory, and neither does any other private file.
But a last `index` is dropped: the address of a layout may go without the name of its directory,
which the screens below keep. What is left is still the start of their addresses.

## Main definitions

* `IsPrivateName` — the stems of private files.

## Main statements

* `dropIndex_prefix_append` — what is kept of some segments, and of more.
* `addressNames_below` — the address of a directory is the start of those below it.
* `exists_segments_join` — the segments of a path below a directory.
* `layout_above` — the address of a private file.
-/
namespace ScreenAtlas.Route

/-! ## More segments -/

theorem dropIndex_isPrefix (segments : List (List Char)) : dropIndex segments <+: segments := by
  unfold dropIndex
  split
  · exact List.dropLast_prefix segments
  · exact List.prefix_rfl

theorem dropIndex_append (front : List (List Char)) {back : List (List Char)} (h : back ≠ []) :
    dropIndex (front ++ back) = front ++ dropIndex back := by
  rw [dropIndex, dropIndex, List.getLast?_append_of_ne_nil front h,
    List.dropLast_append_of_ne_nil h]
  split <;> rfl

/-- Behind further segments nothing is dropped any more, and else no less is kept. -/
theorem dropIndex_prefix_append (front back : List (List Char)) :
    dropIndex front <+: dropIndex (front ++ back) := by
  rcases eq_or_ne back [] with rfl | hback
  · rw [List.append_nil]
  · rw [dropIndex_append front hback]
    exact (dropIndex_isPrefix front).trans (List.prefix_append front _)

/-- **The address of a directory is the start of those below it**, also for a file in it that has
nothing but segments that cannot be seen. -/
theorem addressNames_below {path path' : String} {front hidden back : List (List Char)}
    (h : segments path.toList = front ++ hidden) (h' : segments path'.toList = front ++ back)
    (hhidden : visible hidden = []) :
    (ofRelative path).addressNames <+: (ofRelative path').addressNames := by
  rw [addressNames_ofRelative, addressNames_ofRelative, h, h', visible_append, visible_append,
    hhidden, List.append_nil]
  exact (dropIndex_prefix_append _ _).filter _

/-! ## Segments of a path -/

/-- The directories in front of some components are segments of their own, whatever these are. -/
theorem exists_segments_join (views : Path) {d : List (List UInt8)}
    (hd : ∀ s ∈ d, Path.IsComponent s) :
    ∃ front, ∀ r, r ≠ [] → (∀ s ∈ r, Path.IsComponent s) →
      segments ((views.join ⟨Path.joined (d ++ r)⟩).relativeText views).toList =
        front ++ segments (Path.shown (Path.joined r)) := by
  have hshown : ∀ r, r ≠ [] → (∀ s ∈ r, Path.IsComponent s) →
      ((views.join ⟨Path.joined (d ++ r)⟩).relativeText views).toList =
        Path.shown (Path.joined (d ++ r)) := by
    intro r hne hr
    have hcomponents : ∀ s ∈ d ++ r, Path.IsComponent s := List.forall_mem_append.mpr ⟨hd, hr⟩
    exact Path.toList_relativeText_join (Path.isTrimmed_joined (by simp [hne]) hcomponents)
  rcases eq_or_ne d [] with rfl | hnil
  · refine ⟨[], fun r hne hr => ?_⟩
    rw [hshown r hne hr, List.nil_append, List.nil_append]
  · refine ⟨(Path.shown (Path.joined d)).splitOn '/', fun r hne hr => ?_⟩
    rw [hshown r hne hr, Path.joined_append hnil hne, Path.shown_append_slash,
      segments_append_slash]

/-- The stem of a private file: it starts with `_` or `+`, and holds no slash and no backslash. -/
structure IsPrivateName (base : List UInt8) : Prop where
  mark : base.head? = some 0x5F ∨ base.head? = some 0x2B
  slash_notMem : Path.slash ∉ base
  backslash_notMem : 0x5C ∉ base

instance (base : List UInt8) : Decidable (IsPrivateName base) :=
  decidable_of_iff ((base.head? = some 0x5F ∨ base.head? = some 0x2B) ∧ Path.slash ∉ base ∧
    0x5C ∉ base) ⟨fun ⟨h, h', h''⟩ => ⟨h, h', h''⟩, fun ⟨h, h', h''⟩ => ⟨h, h', h''⟩⟩

namespace IsPrivateName

variable {base : List UInt8}

theorem isMarked (h : IsPrivateName base) : IsMarked (Path.shown base) := by
  have hcons : ∀ {b : UInt8} {rest : List UInt8}, b.toNat < 0x80 → Char.ofNat b.toNat ≠ '\\' →
      Path.shown (b :: rest) = Char.ofNat b.toNat :: Path.shown rest := fun hb hslash =>
    Path.shown_append_ascii hb hslash [] _
  rcases h.mark with hmark | hmark
  · obtain ⟨rest, rfl⟩ := List.head?_eq_some_iff.mp hmark
    rw [hcons (by decide) (by decide)]
    exact .inl rfl
  · obtain ⟨rest, rfl⟩ := List.head?_eq_some_iff.mp hmark
    rw [hcons (by decide) (by decide)]
    exact .inr rfl

/-- The bytes of a source file with the given stem. -/
theorem isComponent (h : IsPrivateName base) {e : String} (he : e ∈ Path.sourceExtensions) :
    Path.IsComponent (base ++ Path.dot :: Utf8.encode e.toList) := by
  have hslash : ∀ e ∈ Path.sourceExtensions, Path.slash ∉ Path.dot :: Utf8.encode e.toList := by
    decide
  refine ⟨?_, ?_⟩
  · rcases h.mark with hmark | hmark
    all_goals
      obtain ⟨rest, rfl⟩ := List.head?_eq_some_iff.mp hmark
      simp [Path.isFiller, Path.dot]
  · rw [List.mem_append, not_or]
    exact ⟨h.slash_notMem, hslash e he⟩

/-- A source file with the given stem has that segment only. -/
theorem segments_eq (h : IsPrivateName base) {e : String} (he : e ∈ Path.sourceExtensions) :
    segments (Path.shown (base ++ Path.dot :: Utf8.encode e.toList)) = [Path.shown base] := by
  have hbackslash : ∀ e ∈ Path.sourceExtensions, '\\' ∉ e.toList := by decide
  have hshown : Path.shown (base ++ Path.dot :: Utf8.encode e.toList) =
      Path.shown base ++ '.' :: e.toList := by
    rw [Path.shown_append_ascii (by decide) (by decide), Path.shown_encode (hbackslash e he)]
    rfl
  rw [hshown, segments, stripEnding_append _ he,
    List.splitOn_eq_singleton (Path.slash_notMem_shown h.slash_notMem h.backslash_notMem)]

end IsPrivateName

/-- **The address of a layout is an ancestor of every address below it.** In any directory below any
views directory, a layout of any source extension, and any other file with a private name, has an
address whose segments are the first ones of the address of every path in or below the directory. The
directories and the path are any components, also such that are not well-formed text or hold
backslashes. -/
theorem layout_above (views : Path) {d r : List (List UInt8)} {base : List UInt8} {e : String}
    (hd : ∀ s ∈ d, Path.IsComponent s) (hr : ∀ s ∈ r, Path.IsComponent s) (hne : r ≠ [])
    (hbase : IsPrivateName base) (he : e ∈ Path.sourceExtensions) :
    let layout := views.join ⟨Path.joined (d ++ [base ++ Path.dot :: Utf8.encode e.toList])⟩
    let below := views.join ⟨Path.joined (d ++ r)⟩
    (derive layout views).addressNames <+: (derive below views).addressNames := by
  intro layout below
  obtain ⟨front, hfront⟩ := exists_segments_join views hd
  have hlayout := hfront [base ++ Path.dot :: Utf8.encode e.toList] (List.cons_ne_nil _ [])
    (by simpa using hbase.isComponent he)
  rw [Path.joined_singleton, hbase.segments_eq he] at hlayout
  have hhidden : visible [Path.shown base] = [] := by
    rw [visible_eq]
    simp [hbase.isMarked]
  exact addressNames_below hlayout (hfront r hne hr) hhidden

/-- Components of the given texts. -/
def componentsOf (texts : List String) : List (List UInt8) :=
  texts.map fun s => Utf8.encode s.toList

/-- The layout of a directory `index` has the address of the directory above, which leads to the
screen all the same. -/
theorem layout_above_index :
    let views := Path.ofString "/p/./app/"
    let layout := views.join ⟨Path.joined (componentsOf ["users", "index"] ++
      [Utf8.encode "_layout".toList ++ Path.dot :: Utf8.encode "tsx".toList])⟩
    let screen := views.join
      ⟨Path.joined (componentsOf ["users", "index"] ++ componentsOf ["(tabs)", "a.tsx"])⟩
    (derive layout views).address = "/users" ∧ (derive screen views).address = "/users/index/a" ∧
      (derive layout views).addressNames <+: (derive screen views).addressNames := by
  refine ⟨by decide +kernel, by decide +kernel, ?_⟩
  have hd : ∀ s ∈ componentsOf ["users", "index"], Path.IsComponent s := by decide +kernel
  have hr : ∀ s ∈ componentsOf ["(tabs)", "a.tsx"], Path.IsComponent s := by decide +kernel
  have hbase : IsPrivateName (Utf8.encode "_layout".toList) := by decide +kernel
  exact layout_above (.ofString "/p/./app/") hd hr (List.cons_ne_nil _ _) hbase (by decide)

end ScreenAtlas.Route
