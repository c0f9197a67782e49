import ScreenAtlas.Proofs.Path.Text
import ScreenAtlas.Proofs.Route.Segments
/-!
# Routes that collide

Two files have the same address exactly if their addresses keep the same segments, as long as no
segment of theirs is empty. So a directory that only groups files or is private may be put in
anywhere on the way to a file, or taken out, and the route of the file stays the same.

## Main definitions

* `Keeps` — a relative path, and the segments that its address keeps.
* `SameSeen` — directories that differ by groups and private ones only.

## Main statements

* `Keeps.addressNames_eq` — the kept segments are those of the address.
* `ofRelative_of_sameSeen` — the route in other groups and private directories.
* `address_eq_iff_kept_eq` — the routes of any two paths.
-/
namespace ScreenAtlas.Route

/-- The stem of the relative path has no segment that is empty or a single full stop, and its address
keeps the given segments. -/
def Keeps (path : String) (kept : List (List Char)) : Prop :=
  ∃ stem, IsStem path.toList stem ∧ (∀ s ∈ stem.splitOn '/', s ≠ [] ∧ s ≠ ['.']) ∧
    IsKept (stem.splitOn '/') kept

/-- A route is determined by its relative path. -/
theorem ofRelative_relativePath (file views : Path) :
    ofRelative (derive file views).relativePath = derive file views :=
  rfl

variable {path path' : String} {kept kept' : List (List Char)}

theorem keeps_iff : Keeps path kept ↔
    (∀ s ∈ segments path.toList, s ≠ [] ∧ s ≠ ['.']) ∧
      kept = dropIndex (visible (segments path.toList)) := by
  simp only [Keeps, isStem_iff, isKept_iff, exists_eq_left, segments]

instance (path : String) (kept : List (List Char)) : Decidable (Keeps path kept) :=
  decidable_of_iff _ keeps_iff.symm

/-- **The kept segments are those of the address.** -/
theorem Keeps.addressNames_eq (h : Keeps path kept) : (ofRelative path).addressNames = kept := by
  obtain ⟨hnamed, rfl⟩ := keeps_iff.mp h
  rw [addressNames_ofRelative]
  exact nonempty_eq_self fun s hs => (hnamed s (of_mem_dropIndex_visible hs).1).1

/-- Addresses that keep the same segments are equal. -/
theorem address_eq_of_keeps (h : Keeps path kept) (h' : Keeps path' kept) :
    (ofRelative path).address = (ofRelative path').address := by
  rw [← String.toList_inj, address_ofRelative path (keeps_iff.mp h).2,
    address_ofRelative path' (keeps_iff.mp h').2]

/-! ## Other groups and private directories -/

/-- Directories that are the same but for those in brackets and the marked ones, of which either list
may have any. -/
def SameSeen (front front' : List (List Char)) : Prop :=
  (front.filter fun s => ¬InBrackets s ∧ ¬IsMarked s) =
    front'.filter fun s => ¬InBrackets s ∧ ¬IsMarked s

instance (front front' : List (List Char)) : Decidable (SameSeen front front') :=
  inferInstanceAs (Decidable (_ = _))

variable {front front' : List (List Char)} {last : List Char}

/-- **The route in other groups and private directories** has the same address and role. -/
theorem ofRelative_of_sameSeen (h : path.toList.splitOn '/' = front ++ [last])
    (h' : path'.toList.splitOn '/' = front' ++ [last]) (hsame : SameSeen front front') :
    (ofRelative path').address = (ofRelative path).address ∧
      (ofRelative path').role = (ofRelative path).role := by
  have hvisible : visible front' = visible front := by
    rw [visible_eq, visible_eq]
    exact hsame.symm
  simp only [ofRelative, segments_of_splitOn h, segments_of_splitOn h', visible_append, hvisible,
    List.getLast?_concat, and_self]

/-- A directory in brackets or with a mark is neither empty nor a full stop. -/
theorem ne_of_hidden {s : List Char} (h : InBrackets s ∨ IsMarked s) : s ≠ [] ∧ s ≠ ['.'] := by
  constructor
  · rintro rfl
    revert h
    decide
  · rintro rfl
    revert h
    decide

/-- Among the directories put in there is none that is empty or a full stop. -/
theorem SameSeen.forall_ne (hsame : SameSeen front front')
    (hfront : ∀ s ∈ front, s ≠ [] ∧ s ≠ ['.']) : ∀ s ∈ front', s ≠ [] ∧ s ≠ ['.'] := by
  intro s hs
  by_cases hhidden : InBrackets s ∨ IsMarked s
  · exact ne_of_hidden hhidden
  · have hseen : s ∈ front.filter fun s => ¬InBrackets s ∧ ¬IsMarked s := by
      rw [hsame, List.mem_filter]
      exact ⟨hs, by simpa using hhidden⟩
    exact hfront s (List.mem_of_mem_filter hseen)

/-- A path of names, none of which holds a slash or a backslash, is the relative path of a file. -/
theorem relativePath_of_names (views : Path) {names : List (List Char)} (hne : names ≠ [])
    (hnamed : ∀ s ∈ names, s ≠ [] ∧ s ≠ ['.']) (hplain : ∀ s ∈ names, '/' ∉ s ∧ '\\' ∉ s) :
    let file := views.join (.ofString (String.ofList (['/'].intercalate names)))
    (derive file views).relativePath.toList = ['/'].intercalate names := by
  intro file
  have hpath : Path.ofString (String.ofList (['/'].intercalate names)) =
      ⟨Path.joined (names.map Utf8.encode)⟩ := by
    ext1
    rw [Path.bytes_ofString, Path.encode_intercalate]
  have hcomponents : ∀ s ∈ names.map Utf8.encode, Path.IsComponent s := by
    intro bytes hmem
    obtain ⟨s, hs, rfl⟩ := List.mem_map.mp hmem
    exact Path.isComponent_encode (hnamed s hs).1 (hnamed s hs).2 (hplain s hs).1
  have hbackslash : '\\' ∉ ['/'].intercalate names := by
    intro hmem
    obtain hslash | ⟨s, hs, hmem⟩ := Path.mem_of_mem_intercalate hmem
    · exact absurd hslash (by decide)
    · exact (hplain s hs).2 hmem
  change (file.relativeText views).toList = _
  simp only [file, hpath]
  rw [Path.toList_relativeText_join (Path.isTrimmed_joined (by simpa using hne) hcomponents),
    ← Path.encode_intercalate, Path.shown_encode hbackslash]

/-- The names of a relative path hold no slash and no backslash. -/
theorem notMem_of_relativePath {file views : Path} {names : List (List Char)}
    (h : (derive file views).relativePath.toList.splitOn '/' = names) :
    ∀ s ∈ names, '/' ∉ s ∧ '\\' ∉ s := by
  subst h
  intro s hs
  refine ⟨Path.notMem_of_mem_splitOn hs, fun hmem => ?_⟩
  have hshown := Path.mem_intercalate_of_mem (a := '/') hs hmem
  rw [List.intercalate_splitOn] at hshown
  change '\\' ∈ (file.relativeText views).toList at hshown
  rw [Path.toList_relativeText] at hshown
  exact Path.backslash_notMem_shown _ hshown

/-- A name is empty or a full stop if it is so without its ending. -/
theorem ne_of_stripEnding_ne (h : stripEnding last ≠ [] ∧ stripEnding last ≠ ['.']) :
    last ≠ [] ∧ last ≠ ['.'] := by
  constructor
  · rintro rfl
    exact h.1 rfl
  · rintro rfl
    exact h.2 (by decide)

/-- **The routes of any two paths** whose stems have no empty segment and no full stop for one: their
addresses are equal exactly if they keep the same segments. And if groups or private directories are
put in or taken out anywhere in front of the last name of such a relative path, then the outcome is
the relative path of a file, and every file with that relative path has the same address and the
same role. -/
theorem address_eq_iff_kept_eq {file views : Path} {kept : List (List Char)}
    (h : Keeps (derive file views).relativePath kept) :
    (∀ file' views' kept', Keeps (derive file' views').relativePath kept' →
      ((derive file views).address = (derive file' views').address ↔ kept = kept')) ∧
    ∀ front last front', (derive file views).relativePath.toList.splitOn '/' = front ++ [last] →
      SameSeen front front' → (∀ s ∈ front', '/' ∉ s ∧ '\\' ∉ s) →
      let path' := ['/'].intercalate (front' ++ [last])
      (derive (views.join (.ofString (String.ofList path'))) views).relativePath.toList = path' ∧
      ∀ file' views', (derive file' views').relativePath.toList = path' →
        (derive file' views').address = (derive file views).address ∧
          (derive file' views').role = (derive file views).role := by
  constructor
  · intro file' views' kept' h'
    have hnames := h.addressNames_eq
    have hnames' := h'.addressNames_eq
    rw [ofRelative_relativePath] at hnames hnames'
    constructor
    · intro haddress
      rw [← hnames, ← hnames', addressNames, haddress, addressNames]
    · rintro rfl
      exact address_eq_of_keeps h h'
  · intro front last front' hsplit hsame hplain path'
    obtain ⟨hnamed, -⟩ := keeps_iff.mp h
    rw [segments_of_splitOn hsplit] at hnamed
    obtain ⟨hfront, hlast⟩ := List.forall_mem_append.mp hnamed
    have hlast' := ne_of_stripEnding_ne (hlast _ List.mem_cons_self)
    have hnames : ∀ s ∈ front' ++ [last], '/' ∉ s ∧ '\\' ∉ s := by
      have hplainLast := notMem_of_relativePath hsplit last (by simp)
      exact List.forall_mem_append.mpr ⟨hplain, by simpa using hplainLast⟩
    refine ⟨relativePath_of_names views (by simp) ?_ hnames, ?_⟩
    · exact List.forall_mem_append.mpr ⟨hsame.forall_ne hfront, by simpa using hlast'⟩
    · intro file' views' hfile'
      have hsplit' : (derive file' views').relativePath.toList.splitOn '/' = front' ++ [last] := by
        rw [hfile']
        exact List.splitOn_intercalate '/' (fun s hs => (hnames s hs).1) (by simp)
      have hroute := ofRelative_of_sameSeen hsplit hsplit' hsame
      rwa [ofRelative_relativePath, ofRelative_relativePath] at hroute

/-- The first screen of a group, the file of the same address outside the views directory, and the
same screen with a private directory for the group. -/
theorem address_eq_usersIndex :
    let views := Path.ofString "/p/app"
    let file := Path.ofString "/p/app/users/(tabs)/index.tsx"
    let other := Path.ofString "users.js"
    let moved := Path.ofString "/p/app/+list/users/index.tsx"
    (Keeps (derive file views).relativePath ["users".toList] ∧
      Keeps (derive other views).relativePath ["users".toList] ∧
      (derive file views).address = (derive other views).address) ∧
    SameSeen ["users".toList, "(tabs)".toList] ["+list".toList, "users".toList] ∧
      (derive moved views).address = (derive file views).address ∧
      (derive moved views).role = (derive file views).role := by
  intro views file other moved
  have hfile : Keeps (derive file views).relativePath ["users".toList] := by decide +kernel
  have hother : Keeps (derive other views).relativePath ["users".toList] := by decide +kernel
  have hsame : SameSeen ["users".toList, "(tabs)".toList] ["+list".toList, "users".toList] := by
    decide +kernel
  obtain ⟨hiff, hmoved⟩ := address_eq_iff_kept_eq hfile
  refine ⟨⟨hfile, hother, (hiff other views _ hother).mpr rfl⟩, hsame, ?_⟩
  have hroute := hmoved ["users".toList, "(tabs)".toList] "index.tsx".toList _
    (by decide +kernel) hsame (by decide +kernel)
  exact hroute.2 moved views (by decide +kernel)

end ScreenAtlas.Route
