import ScreenAtlas.Proofs.Path.Extension
import ScreenAtlas.Proofs.Path.Shown
/-!
# Names as text

A name that is well-formed text without a backslash is shown as it is. The text of such names below
a path, relative to that path, is their texts with slashes between them, and it leads back to where
it came from.

## Main definitions

* `Name.text` — the text of a name.
* `Name.IsPlain` — the names that are shown as they are.
* `Name.IsUnbroken` — the names without line feed.

## Main statements

* `relativeText_below` — the relative text of plain names.
* `join_relativeText` — the path that a relative text was taken from.
* `newline_notMem_relativeText` — the relative text of names without line feeds.
* `relativeText_lt` — relative texts are in the order of the paths.
-/
namespace ScreenAtlas

namespace Name

/-- The text of a name. -/
def text (n : Name) : List Char :=
  Utf8.decodeLossy n.bytes

/-- A name that is well-formed text and holds no backslash. -/
structure IsPlain (n : Name) : Prop where
  encode_text : Utf8.encode n.text = n.bytes
  backslash_notMem : '\\' ∉ n.text

instance (n : Name) : Decidable n.IsPlain :=
  decidable_of_iff (Utf8.encode n.text = n.bytes ∧ '\\' ∉ n.text)
    ⟨fun ⟨h, h'⟩ => ⟨h, h'⟩, fun ⟨h, h'⟩ => ⟨h, h'⟩⟩

/-- A name without line feed. -/
def IsUnbroken (n : Name) : Prop :=
  0x0A ∉ n.bytes

instance (n : Name) : Decidable n.IsUnbroken :=
  inferInstanceAs (Decidable (0x0A ∉ n.bytes))

variable {n : Name}

theorem IsPlain.text_ne_nil (h : n.IsPlain) : n.text ≠ [] := by
  intro hnil
  have hbytes := h.encode_text
  rw [hnil] at hbytes
  exact n.bytes_ne_nil hbytes.symm

theorem IsPlain.slash_notMem (h : n.IsPlain) : '/' ∉ n.text := by
  intro hmem
  refine n.slash_notMem ?_
  rw [← h.encode_text]
  exact List.mem_flatMap.mpr ⟨'/', hmem, by decide⟩

/-- The stem and the extension of a source file's name, as text. -/
theorem IsPlain.exists_stem (h : n.IsPlain) (hsource : n.IsSource) :
    ∃ stem, stem ≠ [] ∧ ∃ e ∈ Path.sourceExtensions, n.text = stem ++ '.' :: e.toList ∧
      Path.nameExtension? n.bytes = some (Utf8.encode e.toList) := by
  obtain ⟨stem, hstem, e, he, hname⟩ := hsource
  have hascii : ∀ e ∈ Path.sourceExtensions, ∀ c ∈ '.' :: e.toList, c.val.toNat < 0x80 := by
    simp [Path.sourceExtensions]
  have hencode : Utf8.encode n.text = stem ++ Utf8.encode ('.' :: e.toList) :=
    h.encode_text.trans hname
  obtain ⟨text, htext, rfl⟩ := Utf8.exists_of_encode_eq_append (hascii e he) hencode
  refine ⟨text, ?_, e, he, htext, Path.nameExtension?_eq_some_of_source hstem he hname⟩
  rintro rfl
  exact hstem rfl

end Name

namespace Path

theorem bytes_ofString (s : List Char) : (ofString (String.ofList s)).bytes = Utf8.encode s := by
  rw [ofString, String.toList_ofList]

/-- Slashes between texts are slashes between their bytes. -/
theorem encode_intercalate (segments : List (List Char)) :
    Utf8.encode (['/'].intercalate segments) = joined (segments.map Utf8.encode) := by
  induction segments with
  | nil => rfl
  | cons s segments ih =>
      cases segments with
      | nil => simp [joined]
      | cons s' segments =>
          have hslash : Utf8.encode ['/'] = [slash] := by decide
          rw [List.intercalate_cons_cons, Utf8.encode_append, Utf8.encode_append, ih, hslash]
          simp [joined, List.intercalate_cons_cons]

theorem encode_names {names : List Name} (hplain : ∀ n ∈ names, n.IsPlain) :
    Utf8.encode (['/'].intercalate (names.map Name.text)) = joined (names.map (·.bytes)) := by
  rw [encode_intercalate, List.map_map]
  congr 1
  exact List.map_congr_left fun n hn => (hplain n hn).encode_text

/-- What lists with one value between them hold. -/
theorem mem_of_mem_intercalate {α : Type} {a c : α} {segments : List (List α)}
    (h : c ∈ [a].intercalate segments) : c = a ∨ ∃ s ∈ segments, c ∈ s := by
  induction segments with
  | nil => simp at h
  | cons s segments ih =>
      cases segments with
      | nil => exact .inr ⟨s, List.mem_cons_self, by simpa using h⟩
      | cons s' segments =>
          simp only [List.intercalate_cons_cons, List.mem_append, List.mem_singleton] at h
          obtain (hs | hslash) | hrest := h
          · exact .inr ⟨s, List.mem_cons_self, hs⟩
          · exact .inl hslash
          · exact (ih hrest).imp_right fun ⟨s'', hs'', hc⟩ => ⟨s'', List.mem_cons_of_mem _ hs'', hc⟩

theorem mem_intercalate_of_mem {α : Type} {a c : α} {segments : List (List α)} {s : List α}
    (hs : s ∈ segments) (hc : c ∈ s) : c ∈ [a].intercalate segments := by
  induction segments with
  | nil => cases hs
  | cons s' segments ih =>
      cases segments with
      | nil =>
          obtain rfl := List.mem_singleton.mp hs
          simpa using hc
      | cons s'' segments =>
          rw [List.intercalate_cons_cons]
          rcases List.mem_cons.mp hs with rfl | hs
          · simp [hc]
          · exact List.mem_append_right _ (ih hs)

/-- What is cut at a value does not hold it. -/
theorem notMem_of_mem_splitOn {α : Type} [BEq α] [LawfulBEq α] {a : α} {xs s : List α}
    (h : s ∈ xs.splitOn a) : a ∉ s := by
  induction xs generalizing s with
  | nil =>
      obtain rfl := List.mem_singleton.mp h
      exact List.not_mem_nil
  | cons x xs ih =>
      obtain ⟨front, rest, hsplit⟩ := List.exists_cons_of_ne_nil (List.splitOn_ne_nil a xs)
      rw [List.splitOn_cons_eq_if_modifyHead, hsplit] at h
      rw [hsplit] at ih
      split at h
      · rcases List.mem_cons.mp h with rfl | h
        · exact List.not_mem_nil
        · exact ih h
      · next hx =>
        rcases List.mem_cons.mp h with rfl | h
        · rw [List.mem_cons, not_or]
          exact ⟨fun heq => hx (beq_iff_eq.mpr heq.symm), ih List.mem_cons_self⟩
        · exact ih (List.mem_cons_of_mem _ h)

/-- The relative text of names below a path is what is shown of the names. -/
theorem toList_relativeText_below {p : Path} (hp : p.bytes ≠ []) {names : List Name}
    (hnames : names ≠ []) :
    ((p.below names).relativeText p).toList = shown (joined (names.map (·.bytes))) := by
  rw [toList_relativeText, relativeTo?_below hp hnames, Option.getD_some]

/-- **The relative text of plain names** is their texts with slashes between them. -/
theorem relativeText_below {p : Path} (hp : p.bytes ≠ []) {names : List Name} (hnames : names ≠ [])
    (hplain : ∀ n ∈ names, n.IsPlain) :
    (p.below names).relativeText p = String.ofList (['/'].intercalate (names.map Name.text)) := by
  have hbackslash : '\\' ∉ ['/'].intercalate (names.map Name.text) := by
    intro hmem
    obtain h | ⟨s, hs, hmem⟩ := mem_of_mem_intercalate hmem
    · exact absurd h (by decide)
    · obtain ⟨n, hn, rfl⟩ := List.mem_map.mp hs
      exact (hplain n hn).backslash_notMem hmem
  rw [← String.toList_inj, toList_relativeText_below hp hnames, ← encode_names hplain,
    shown_encode hbackslash, String.toList_ofList]

/-- **A relative text leads back** to the path that it was taken from. -/
theorem join_relativeText {p : Path} (hp : p.bytes ≠ []) {names : List Name} (hnames : names ≠ [])
    (hplain : ∀ n ∈ names, n.IsPlain) :
    p.join (ofString ((p.below names).relativeText p)) = p.below names := by
  rw [relativeText_below hp hnames hplain, ← join_joined hp hnames, ← encode_names hplain,
    ← bytes_ofString]

/-- **The relative text of names without line feeds** is one line, also where the names are not
well-formed text. -/
theorem newline_notMem_relativeText {p : Path} (hp : p.bytes ≠ []) {names : List Name}
    (hnames : names ≠ []) (h : ∀ n ∈ names, n.IsUnbroken) :
    '\n' ∉ ((p.below names).relativeText p).toList := by
  rw [toList_relativeText_below hp hnames]
  intro hmem
  have hbyte := mem_of_mem_shown (by decide) (by decide) (by decide) hmem
  rcases mem_of_mem_intercalate hbyte with heq | ⟨s, hs, hmem⟩
  · cases heq
  · obtain ⟨n, hn, rfl⟩ := List.mem_map.mp hs
    exact h n hn hmem

theorem lt_of_append_lt {front bytes bytes' : List UInt8} (h : front ++ bytes < front ++ bytes') :
    bytes < bytes' := by
  induction front with
  | nil => exact h
  | cons b front ih => exact ih (List.cons_lt_cons_self.mp h)

/-- **Relative texts are in the order of the paths** that they were taken from. -/
theorem relativeText_lt {p : Path} (hp : p.bytes ≠ []) {names more : List Name}
    (hnames : names ≠ []) (hplain : ∀ n ∈ names, n.IsPlain) (hmore : more ≠ [])
    (hplain' : ∀ n ∈ more, n.IsPlain) (h : (p.below names).bytes < (p.below more).bytes) :
    (ofString ((p.below names).relativeText p)).bytes <
      (ofString ((p.below more).relativeText p)).bytes := by
  rw [relativeText_below hp hnames hplain, relativeText_below hp hmore hplain', bytes_ofString,
    bytes_ofString, encode_names hplain, encode_names hplain']
  rw [bytes_below hp hnames, bytes_below hp hmore] at h
  exact List.cons_lt_cons_self.mp (lt_of_append_lt h)

end Path

end ScreenAtlas
