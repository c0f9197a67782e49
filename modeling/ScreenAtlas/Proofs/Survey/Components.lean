import ScreenAtlas.Proofs.Group
import ScreenAtlas.Proofs.Survey.Addresses
/-!
# The groups of collected components

Collected files stand in the order of their paths' bytes, which is not the order of their names: in
a name, a full stop and a dash come before a slash and letters after it, so files named `a-b.ts` and
`a0.ts` stand on different sides of everything in a directory `a`. Still the files of one directory
stand together, because whatever lies between two paths that start with its name and a slash starts
with these, too. A file of that name alone would not, but a name is never both.

## Main statements

* `contiguous_relativeText` — collected files with one first name stand together.
* `files_of_collected_groups` — grouping collected files leaves them in their order.
-/
namespace ScreenAtlas

/-- **What lies between** two lists with a common front has that front. -/
theorem prefix_of_lt_of_lt {front after after' bytes : List UInt8} (h : front ++ after < bytes)
    (h' : bytes < front ++ after') : front <+: bytes := by
  induction front generalizing bytes with
  | nil => exact List.nil_prefix
  | cons b front ih =>
      cases bytes with
      | nil => exact absurd h (List.not_lt_nil _)
      | cons b' bytes =>
          rw [List.cons_append, List.cons_lt_cons_iff] at h h'
          rcases h with hlt | ⟨rfl, h⟩
          · rcases h' with hgt | ⟨rfl, -⟩
            · exact absurd (UInt8.lt_trans hlt hgt) (UInt8.lt_irrefl b)
            · exact absurd hlt (UInt8.lt_irrefl b')
          · rcases h' with hgt | ⟨-, h'⟩
            · exact absurd hgt (UInt8.lt_irrefl b)
            · exact List.cons_prefix_cons.mpr ⟨rfl, ih h h'⟩

theorem Name.eq_of_bytes {n m : Name} (h : n.bytes = m.bytes) : n = m := by
  cases n
  cases m
  simpa using h

namespace Path

theorem joined_cons_cons (n m : Name) (names : List Name) :
    joined ((n :: m :: names).map (·.bytes)) =
      n.bytes ++ slash :: joined ((m :: names).map (·.bytes)) := by
  simp [joined, List.intercalate_cons_cons]

theorem firstSegment_name (n : Name) : firstSegment n.bytes = n.bytes := by
  apply List.takeWhile_eq_self_iff.mpr
  intro b hb
  have hslash : b ≠ slash := fun heq => n.slash_notMem (heq ▸ hb)
  simpa using hslash

/-- The first segment of names put together is the first name. -/
theorem firstSegment_joined (n : Name) (names : List Name) :
    firstSegment (joined ((n :: names).map (·.bytes))) = n.bytes := by
  cases names with
  | nil => simpa [joined] using firstSegment_name n
  | cons m names => rw [joined_cons_cons, firstSegment_append_slash, firstSegment_name]

/-- A path that lies between two paths below one directory is below it, too. -/
theorem eq_of_lt_of_lt {root : Path} (hroot : root.bytes ≠ []) {n m : Name}
    {names more between : List Name} (hnames : names ≠ []) (hmore : more ≠ [])
    (h : (root.below (n :: names)).bytes < (root.below (m :: between)).bytes)
    (h' : (root.below (m :: between)).bytes < (root.below (n :: more)).bytes) : m = n := by
  have hfront : ∀ more : List Name, more ≠ [] → (root.below (n :: more)).bytes =
      (root.trunk ++ slash :: (n.bytes ++ [slash])) ++ joined (more.map (·.bytes)) := by
    intro more hmore
    obtain ⟨m', more, rfl⟩ := List.exists_cons_of_ne_nil hmore
    rw [bytes_below hroot (List.cons_ne_nil n _), joined_cons_cons]
    simp
  rw [hfront names hnames] at h
  rw [hfront more hmore] at h'
  have hprefix := prefix_of_lt_of_lt h h'
  rw [bytes_below hroot (List.cons_ne_nil m between), List.prefix_append_right_inj,
    List.cons_prefix_cons] at hprefix
  obtain ⟨rest, hrest⟩ := hprefix.2
  have hbytes : n.bytes = m.bytes := by
    calc n.bytes = firstSegment (n.bytes ++ slash :: rest) := by
          rw [firstSegment_append_slash, firstSegment_name]
      _ = firstSegment (joined ((m :: between).map (·.bytes))) := by
          rw [← hrest, List.append_assoc, List.singleton_append]
      _ = m.bytes := firstSegment_joined m between
  exact Name.eq_of_bytes hbytes.symm

end Path

/-- Plain names with one text are one name. -/
theorem Name.IsPlain.eq_of_text {n m : Name} (hn : n.IsPlain) (hm : m.IsPlain)
    (h : n.text = m.text) : n = m := by
  apply Name.eq_of_bytes
  rw [← hn.encode_text, ← hm.encode_text, h]

/-- The first segment of a relative path is the text of its first name. -/
theorem Group.topOf_relativeText {root : Path} (hroot : root.bytes ≠ []) {n : Name}
    {names : List Name} (hplain : ∀ m ∈ n :: names, m.IsPlain) :
    topOf ((root.below (n :: names)).relativeText root) = String.ofList n.text := by
  have hslash : ∀ c ∈ n.text, (c != '/') = true := by
    intro c hc
    have hne : c ≠ '/' := fun heq => (hplain n List.mem_cons_self).slash_notMem (heq ▸ hc)
    simpa using hne
  rw [Path.relativeText_below hroot (List.cons_ne_nil n names) hplain, topOf,
    String.toList_ofList]
  cases names with
  | nil => simp [List.takeWhile_eq_self_iff.mpr hslash]
  | cons m names =>
      rw [List.map_cons, List.map_cons, List.intercalate_cons_cons, List.append_assoc,
        List.takeWhile_append_of_pos hslash]
      simp

namespace FileSystem

variable {fs : FileSystem} {root : Path}

/-- A name of a directory is not that of a regular file. -/
theorem Walkable.not_fileBelow {names : List Name} {n : Name}
    (hwalk : fs.Walkable root (names ++ [n])) : ¬fs.FileBelow root names n := by
  intro hfile
  obtain ⟨t, ht⟩ := hwalk.exists_stat
  obtain ⟨inside, l, htrail⟩ := hwalk.of_append.exists_trail
  rcases htrail.fileBelow_iff.mp hfile with ⟨bytes, hnode⟩ | ⟨t', bytes, ht'⟩
  · exact htrail.node?_ne_file ht bytes hnode
  · rw [ht] at ht'
    cases ht'

/-- A collected file is the root followed by plain names. The first of them is that of a regular
file if it is the only one, and else that of a directory. -/
theorem exists_cons_of_mem_sources (h : fs.PlainNames) {file : Path}
    (hfile : file ∈ fs.sources root) : root.bytes ≠ [] ∧
      ∃ n names, file = root.below (n :: names) ∧ (∀ m ∈ n :: names, m.IsPlain) ∧
        (names = [] ↔ fs.FileBelow root [] n) := by
  obtain ⟨front, last, hwalk, hbelow, -, rfl⟩ := mem_sources.mp hfile
  have hplain : ∀ m ∈ front ++ [last], m.IsPlain := hbelow.forall_of_bound h hwalk
  refine ⟨hwalk.bytes_ne_nil, ?_⟩
  cases front with
  | nil => exact ⟨last, [], rfl, hplain, iff_of_true rfl hbelow⟩
  | cons n front =>
      have hdirectory : fs.Walkable root ([] ++ [n]) := by
        rw [← List.singleton_append] at hwalk
        exact hwalk.of_append
      refine ⟨n, front ++ [last], rfl, hplain, iff_of_false (by simp) ?_⟩
      exact hdirectory.not_fileBelow

/-- **Collected files with one first name stand together.** -/
theorem contiguous_relativeText (h : fs.PlainNames) :
    Group.Contiguous ((fs.sources root).map (·.relativeText root)) := by
  intro p q r hsub htop
  obtain ⟨files, hfiles, heq⟩ := List.sublist_map_iff.mp hsub
  obtain ⟨file, file', file'', rfl⟩ : ∃ a b c, files = [a, b, c] :=
    List.length_eq_three.mp (by simpa using congrArg List.length heq.symm)
  simp only [List.map_cons, List.map_nil, List.cons.injEq, and_true] at heq
  obtain ⟨rfl, rfl, rfl⟩ := heq
  have hsorted := (pairwise_sources fs root).sublist hfiles
  simp only [List.pairwise_cons, List.mem_cons, List.not_mem_nil, or_false, forall_eq_or_imp,
    forall_eq] at hsorted
  obtain ⟨⟨hlt, hlt''⟩, hlt', -⟩ := hsorted
  obtain ⟨hroot, n, names, rfl, hplain, hfile⟩ :=
    exists_cons_of_mem_sources h (hfiles.subset (by simp : file ∈ _))
  obtain ⟨-, m, between, rfl, hplain', -⟩ :=
    exists_cons_of_mem_sources h (hfiles.subset (by simp : file' ∈ _))
  obtain ⟨-, n', more, rfl, hplain'', hfile'⟩ :=
    exists_cons_of_mem_sources h (hfiles.subset (by simp : file'' ∈ _))
  rw [Group.topOf_relativeText hroot hplain, Group.topOf_relativeText hroot hplain'',
    String.ofList_inj] at htop
  obtain rfl := (hplain n (by simp)).eq_of_text (hplain'' n' (by simp)) htop
  rw [Group.topOf_relativeText hroot hplain, Group.topOf_relativeText hroot hplain']
  -- The name of both is that of a file or that of a directory.
  by_cases hnames : names = []
  · have hmore : more = [] := hfile'.mpr (hfile.mp hnames)
    rw [hnames, hmore] at hlt''
    exact absurd hlt'' (List.lt_irrefl _)
  · have hmore : more ≠ [] := fun hmore => hnames (hfile.mpr (hfile'.mp hmore))
    rw [Path.eq_of_lt_of_lt hroot hnames hmore hlt hlt']

end FileSystem

namespace Group

/-- **Grouping collected files leaves them in their order.** The files of all groups, one group
after the other, are the relative paths of the collected files; so the files of each group stand
together among these. -/
theorem files_of_collected_groups (fs : FileSystem) (root : Path) (h : fs.PlainNames) :
    (ofFiles (fs.sources root) root).flatMap (·.files) =
      (fs.sources root).map (·.relativeText root) ∧
    ∀ g ∈ ofFiles (fs.sources root) root,
      g.files <:+: (fs.sources root).map (·.relativeText root) := by
  have hfiles : (ofFiles (fs.sources root) root).flatMap (·.files) =
      (fs.sources root).map (·.relativeText root) :=
    flatMap_files_foldl_add (FileSystem.contiguous_relativeText h)
  refine ⟨hfiles, fun g hg => ?_⟩
  obtain ⟨before, after, hgroups⟩ := List.append_of_mem hg
  refine ⟨before.flatMap (·.files), after.flatMap (·.files), ?_⟩
  rw [← hfiles, hgroups, List.flatMap_append, List.flatMap_cons, List.append_assoc]

/-- A directory of components whose files stand on both sides of those in a directory of theirs. -/
def mixedComponents : FileSystem :=
  let ui : Name := ⟨Utf8.encode "ui".toList, by decide⟩
  ⟨[([⟨Utf8.encode "ui0.ts".toList, by decide⟩], .file []), ([ui], .directory),
    ([⟨Utf8.encode "Card.tsx".toList, by decide⟩, ui], .file []),
    ([⟨Utf8.encode "Box.tsx".toList, by decide⟩, ui], .file []),
    ([⟨Utf8.encode "ui.ts".toList, by decide⟩], .file []),
    ([⟨Utf8.encode "ui-kit.ts".toList, by decide⟩], .file [])], []⟩

/-- The groups of the mixed components keep the order of the files. -/
theorem files_of_mixedComponents :
    mixedComponents.PlainNames ∧
      (ofFiles (mixedComponents.sources (.ofString "/")) (.ofString "/")).map (·.name) =
        ["ui-kit.ts", "ui.ts", "ui", "ui0.ts"] ∧
      (ofFiles (mixedComponents.sources (.ofString "/")) (.ofString "/")).flatMap (·.files) =
        ["ui-kit.ts", "ui.ts", "ui/Box.tsx", "ui/Card.tsx", "ui0.ts"] := by
  have hplain : mixedComponents.PlainNames := FileSystem.plainNames_of_bindings (by decide)
  have hfiles : (mixedComponents.sources (.ofString "/")).map (·.relativeText (.ofString "/")) =
      ["ui-kit.ts", "ui.ts", "ui/Box.tsx", "ui/Card.tsx", "ui0.ts"] := by decide +kernel
  refine ⟨hplain, by decide +kernel, ?_⟩
  rw [← hfiles]
  exact (files_of_collected_groups mixedComponents (.ofString "/") hplain).1

end Group

end ScreenAtlas
