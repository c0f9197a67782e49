import ScreenAtlas.FileSystem.Basic
import ScreenAtlas.Proofs.Path.Join
/-!
# Names below a path

A path followed by names, one after the other, is its text without a last slash, a slash, and the
names with slashes between them. It starts from where the path starts, its components are those of
the path and then the names, and relative to the path it is the names alone, however the path is
spelled.

## Main definitions

* `below` — a path followed by names.

## Main statements

* `bytes_below` — the text of names below a path.
* `exists_segments_below` — the segments of names below a path.
* `relativeTo?_below` — names below a path are what is left of it relative to the path.
-/
namespace ScreenAtlas

namespace Name

theorem isFiller_bytes (n : Name) : Path.isFiller n.bytes = false := n.isName.1

theorem bytes_ne_up (n : Name) : n.bytes ≠ [Path.dot, Path.dot] := n.isName.2.1

theorem slash_notMem (n : Name) : Path.slash ∉ n.bytes := n.isName.2.2

theorem bytes_ne_nil (n : Name) : n.bytes ≠ [] := by
  intro h
  simpa [h, Path.isFiller] using n.isFiller_bytes

end Name

namespace Path

/-- A path followed by names, one after the other. -/
def below (p : Path) (names : List Name) : Path :=
  names.foldl (fun q n => q.join ⟨n.bytes⟩) p

@[simp] theorem below_nil (p : Path) : p.below [] = p := rfl

@[simp] theorem below_cons (p : Path) (n : Name) (names : List Name) :
    p.below (n :: names) = (p.join ⟨n.bytes⟩).below names := rfl

theorem below_append (p : Path) (names more : List Name) :
    p.below (names ++ more) = (p.below names).below more :=
  List.foldl_append

/-! ## The text -/

theorem isAbsolute_name (n : Name) : isAbsolute ⟨n.bytes⟩ = false :=
  isAbsolute_of_head? fun h => n.slash_notMem (List.mem_of_head? h)

theorem bytes_join_name {p : Path} (hp : p.bytes ≠ []) (n : Name) :
    (p.join ⟨n.bytes⟩).bytes = p.trunk ++ slash :: n.bytes :=
  bytes_join hp (isAbsolute_name n)

theorem trunk_join_name {p : Path} (hp : p.bytes ≠ []) (n : Name) :
    (p.join ⟨n.bytes⟩).trunk = p.trunk ++ slash :: n.bytes := by
  have hlast : (p.trunk ++ slash :: n.bytes).getLast? ≠ some slash := by
    rw [List.append_cons, List.getLast?_append_of_ne_nil _ n.bytes_ne_nil]
    exact fun h => n.slash_notMem (List.mem_of_getLast? h)
  rw [trunk, bytes_join_name hp, if_neg hlast]

theorem bytes_join_name_ne_nil {p : Path} (hp : p.bytes ≠ []) (n : Name) :
    (p.join ⟨n.bytes⟩).bytes ≠ [] := by
  simp [bytes_join_name hp]

/-- **The text of names below a path.** -/
theorem bytes_below {p : Path} (hp : p.bytes ≠ []) {names : List Name} (hnames : names ≠ []) :
    (p.below names).bytes = p.trunk ++ slash :: joined (names.map (·.bytes)) := by
  induction names generalizing p with
  | nil => exact absurd rfl hnames
  | cons n names ih =>
      rw [below_cons]
      cases names with
      | nil => simp [bytes_join_name hp, joined]
      | cons m names =>
          rw [ih (bytes_join_name_ne_nil hp n) (List.cons_ne_nil m names), trunk_join_name hp]
          simp [joined, List.intercalate_cons_cons]

theorem isComponent_of_mem_names {names : List Name} :
    ∀ s ∈ names.map (·.bytes), IsComponent s := by
  intro s hs
  obtain ⟨n, -, rfl⟩ := List.mem_map.mp hs
  exact ⟨n.isFiller_bytes, n.slash_notMem⟩

theorem isTrimmed_names {names : List Name} (hnames : names ≠ []) :
    IsTrimmed ⟨joined (names.map (·.bytes))⟩ :=
  isTrimmed_joined (by simpa using hnames) isComponent_of_mem_names

/-- Names put together are relative to the path that they are below. -/
theorem join_joined {p : Path} (hp : p.bytes ≠ []) {names : List Name} (hnames : names ≠ []) :
    p.join ⟨joined (names.map (·.bytes))⟩ = p.below names := by
  ext1
  rw [bytes_join hp (isTrimmed_names hnames).isAbsolute_eq, bytes_below hp hnames]

/-! ## Head and components -/

theorem head_below {p : Path} (hp : p.bytes ≠ []) (names : List Name) :
    (p.below names).head = p.head := by
  by_cases hnames : names = []
  · rw [hnames, below_nil]
  · rw [← join_joined hp hnames, head_join hp (isTrimmed_names hnames).isAbsolute_eq]

theorem filter_names (names : List Name) :
    (names.map (·.bytes)).filter (fun s => !isFiller s) = names.map (·.bytes) := by
  simp [List.filter_eq_self, Name.isFiller_bytes]

/-- Names below a path are further segments behind those that hold the path's components. -/
theorem exists_segments_below {p : Path} (hp : p.bytes ≠ []) {names : List Name}
    (hnames : names ≠ []) :
    ∃ front, (p.below names).segments = front ++ names.map (·.bytes) ∧
      front.filter (fun s => !isFiller s) = p.components := by
  obtain ⟨front, hsegments, hfront⟩ :=
    exists_segments_join hp (isTrimmed_names hnames).isAbsolute_eq
  have hsplit : (joined (names.map (·.bytes))).splitOn slash = names.map (·.bytes) :=
    splitOn_joined (by simpa using hnames) isComponent_of_mem_names
  rw [← join_joined hp hnames]
  exact ⟨front, by rw [hsegments, hsplit], hfront⟩

theorem components_below {p : Path} (hp : p.bytes ≠ []) (names : List Name) :
    (p.below names).components = p.components ++ names.map (·.bytes) := by
  by_cases hnames : names = []
  · simp [hnames]
  · obtain ⟨front, hsegments, hfront⟩ := exists_segments_below hp hnames
    rw [components, hsegments, List.filter_append, filter_names, hfront]

/-- The file name of names below a path is the last name. -/
theorem fileName?_below {p : Path} (hp : p.bytes ≠ []) (names : List Name) (n : Name) :
    (p.below (names ++ [n])).fileName? = some n.bytes := by
  rw [fileName?, components_below hp]
  simp [Option.filter, n.bytes_ne_up]

/-! ## Relative to the path -/

/-- **Names below a path are what is left of it relative to the path**, whatever slashes and `.`
segments the path is spelled with. -/
theorem relativeTo?_below {p : Path} (hp : p.bytes ≠ []) {names : List Name} (hnames : names ≠ []) :
    (p.below names).relativeTo? p = some ⟨joined (names.map (·.bytes))⟩ := by
  rw [← join_joined hp hnames]
  exact relativeTo?_join (isTrimmed_names hnames)

end Path

end ScreenAtlas
