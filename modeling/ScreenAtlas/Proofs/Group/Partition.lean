import ScreenAtlas.Proofs.Group
import ScreenAtlas.Proofs.Path.Join
/-!
# Groups are a partition

Every path of a list goes into one group, so the groups have as many files as the list has paths.
Further paths are put behind those that are there already: a group stays where it is and keeps its
name and its files.

## Main definitions

* `firstSegment` — the part of a relative path in front of its first slash.
* `Grow` — lists of groups of which the second one has all that the first one has.

## Main statements

* `perm_files_foldl_add` — the files of all groups are the paths of the list.
* `grow_foldl_add` — what further paths leave as it is.
* `partition_ofFiles` — the groups of any list of paths.
-/
namespace ScreenAtlas.Group

/-- The part of a relative path in front of its first slash. -/
def firstSegment (path : String) : String :=
  String.ofList ((path.toList.splitOn '/').headD [])

theorem topOf_eq_firstSegment : topOf = firstSegment := by
  funext path
  have hhead := Path.head?_splitOn '/' path.toList
  rw [firstSegment, List.headD_eq_head?_getD, hhead]
  rfl

/-! ## Files -/

/-- One more path is one more file. -/
theorem perm_files_add (groups : List Group) (path : String) :
    ((add groups path).flatMap (·.files)).Perm (groups.flatMap (·.files) ++ [path]) := by
  induction groups with
  | nil => exact .refl [path]
  | cons g groups ih =>
      rw [add]
      split
      case isTrue =>
        simp only [List.flatMap_cons, List.append_assoc]
        exact .append_left g.files List.perm_append_comm
      case isFalse =>
        simp only [List.flatMap_cons, List.append_assoc]
        exact .append_left g.files ih

/-- **The files of all groups** are the paths of the list. -/
theorem perm_files_foldl_add (paths : List String) :
    ((paths.foldl add []).flatMap (·.files)).Perm paths := by
  induction paths using List.reverseRecOn with
  | nil => exact .refl []
  | append_singleton paths path ih =>
      rw [List.foldl_append]
      exact (perm_files_add _ path).trans (.append_right [path] ih)

/-! ## Further paths -/

/-- The second list has all groups of the first one, each in its place and with its name, and each
has its files in their places. -/
def Grow (groups groups' : List Group) : Prop :=
  ∀ (i : Nat) (g : Group), groups[i]? = some g →
    ∃ g', groups'[i]? = some g' ∧ g'.name = g.name ∧ g.files <+: g'.files

theorem Grow.refl (groups : List Group) : Grow groups groups :=
  fun _ g hg => ⟨g, hg, rfl, List.prefix_rfl⟩

theorem Grow.trans {groups groups' groups'' : List Group} (h : Grow groups groups')
    (h' : Grow groups' groups'') : Grow groups groups'' := by
  intro i g hg
  obtain ⟨g', hg', hname, hfiles⟩ := h i g hg
  obtain ⟨g'', hg'', hname', hfiles'⟩ := h' i g' hg'
  exact ⟨g'', hg'', hname'.trans hname, hfiles.trans hfiles'⟩

/-- What one more path leaves as it is. -/
theorem grow_add (groups : List Group) (path : String) : Grow groups (add groups path) := by
  induction groups with
  | nil => exact fun _ _ hg => nomatch hg
  | cons g groups ih =>
      intro i h hh
      rw [add]
      split
      case isTrue hname =>
        cases i with
        | zero =>
            obtain rfl : g = h := Option.some.inj hh
            exact ⟨_, rfl, rfl, List.prefix_append g.files [path]⟩
        | succ i => exact ⟨h, hh, rfl, List.prefix_rfl⟩
      case isFalse hname =>
        cases i with
        | zero => exact ⟨h, hh, rfl, List.prefix_rfl⟩
        | succ i => exact ih i h hh

/-- **What further paths leave as it is.** -/
theorem grow_foldl_add (groups : List Group) (more : List String) :
    Grow groups (more.foldl add groups) := by
  induction more generalizing groups with
  | nil => exact .refl groups
  | cons path more ih => exact (grow_add groups path).trans (ih _)

/-! ## All groups -/

theorem name_foldl_add (paths : List String) :
    (paths.foldl add []).map (·.name) = (paths.map topOf).eraseDups := by
  rw [foldl_add, List.map_map]
  exact List.map_id _

/-- A group has a file, and has all paths of its first segment. -/
theorem files_of_mem_foldl_add {paths : List String} {g : Group} (h : g ∈ paths.foldl add []) :
    g.files ≠ [] ∧ g.files = paths.filter (topOf · = g.name) := by
  rw [foldl_add] at h
  obtain ⟨top, htop, rfl⟩ := List.mem_map.mp h
  obtain ⟨path, hpath, rfl⟩ := List.mem_map.mp (List.mem_eraseDups.mp htop)
  refine ⟨List.ne_nil_of_mem (a := path) ?_, rfl⟩
  exact List.mem_filter.mpr ⟨hpath, by simp⟩

/-- **The groups of any list of paths.** No two have one name, and their names are the first
segments of the relative paths in the order in which these first occur. Each has a file, and its
files are the relative paths with its name as first segment, in the order of the list and as often
as they are there. The files of all groups together are the relative paths, so there are as many
files as there are paths. Further paths leave every group and every file where it is. -/
theorem partition_ofFiles (files : List Path) (root : Path) :
    let paths := files.map (·.relativeText root)
    let groups := ofFiles files root
    (groups.map (·.name)).Nodup ∧
      groups.map (·.name) = (paths.map firstSegment).eraseDups ∧
      (∀ g ∈ groups, g.files ≠ [] ∧ g.files = paths.filter (firstSegment · = g.name)) ∧
      (groups.flatMap (·.files)).Perm paths ∧
      (groups.flatMap (·.files)).length = files.length ∧
      ∀ more, Grow groups (ofFiles (files ++ more) root) := by
  intro paths groups
  have hnames : groups.map (·.name) = (paths.map topOf).eraseDups := name_foldl_add paths
  have hperm : (groups.flatMap (·.files)).Perm paths := perm_files_foldl_add paths
  rw [← topOf_eq_firstSegment, hnames]
  refine ⟨nodup_eraseDups _, rfl, fun g hg => files_of_mem_foldl_add hg, hperm, ?length,
    fun more => ?grow⟩
  case length =>
    calc (groups.flatMap (·.files)).length
        = paths.length := hperm.length_eq
      _ = files.length := List.length_map _
  case grow =>
    rw [ofFiles, List.map_append, List.foldl_append]
    exact grow_foldl_add groups _

/-- A group that is interrupted by another one, with a file that is given twice. -/
theorem partition_of_interrupted :
    let root := Path.ofString "ui"
    let files := ["ui/a/x.ts", "ui/b.ts", "ui/a/y.ts", "ui/a/x.ts"].map Path.ofString
    let g : Group := ⟨"a", ["a/x.ts", "a/y.ts", "a/x.ts"]⟩
    g ∈ ofFiles files root ∧
      g.files = (files.map (·.relativeText root)).filter (firstSegment · = g.name) := by
  intro root files g
  have hg : g ∈ ofFiles files root := by decide +kernel
  obtain ⟨-, -, hfiles, -⟩ := partition_ofFiles files root
  exact ⟨hg, (hfiles g hg).2⟩

end ScreenAtlas.Group
