import ScreenAtlas.Proofs.FileSystem.Walk
/-!
# The list of source files

The list holds what the walk lists, in the order of the paths' bytes. It is thus exact: it holds the
paths below the root whose names lead from directory to directory, do not follow a link back to
where they have been, and end at a source file, and no others.

## Main statements

* `pairwise_sources` — the order of the list.
* `mem_sources` — its members.
* `sources_exact` — both, with the end of the walk and the roots that have no list.
-/
namespace ScreenAtlas.FileSystem

variable {fs : FileSystem} {root : Path}

/-! ## Sorting -/

theorem mem_insertSorted {p q : Path} {ps : List Path} :
    q ∈ insertSorted p ps ↔ q = p ∨ q ∈ ps := by
  induction ps with
  | nil => simp [insertSorted]
  | cons p' ps ih =>
      rw [insertSorted]
      split
      · rw [List.mem_cons]
      · split
        · next heq => simp [heq]
        · rw [List.mem_cons, ih, List.mem_cons, or_left_comm]

theorem pairwise_insertSorted {p : Path} {ps : List Path}
    (h : ps.Pairwise (·.bytes < ·.bytes)) :
    (insertSorted p ps).Pairwise (·.bytes < ·.bytes) := by
  induction ps with
  | nil => exact List.pairwise_singleton _ p
  | cons p' ps ih =>
      obtain ⟨hhead, htail⟩ := List.pairwise_cons.mp h
      rw [insertSorted]
      split
      · next hlt =>
        refine List.pairwise_cons.mpr ⟨fun q hq => ?_, h⟩
        obtain rfl | hq := List.mem_cons.mp hq
        · exact hlt
        · exact List.lt_trans hlt (hhead q hq)
      · next hle =>
        split
        · exact h
        · next hne =>
          have hlt : p'.bytes < p.bytes :=
            Std.lt_of_le_of_ne (List.not_lt.mp hle) fun heq => hne (Path.ext heq.symm)
          refine List.pairwise_cons.mpr ⟨fun q hq => ?_, ih htail⟩
          obtain rfl | hq := mem_insertSorted.mp hq
          · exact hlt
          · exact hhead q hq

theorem mem_foldr_insertSorted {p : Path} {ps : List Path} :
    p ∈ ps.foldr insertSorted [] ↔ p ∈ ps := by
  induction ps with
  | nil => rfl
  | cons q ps ih => rw [List.foldr_cons, mem_insertSorted, ih, List.mem_cons]

theorem pairwise_foldr_insertSorted (ps : List Path) :
    (ps.foldr insertSorted []).Pairwise (·.bytes < ·.bytes) := by
  induction ps with
  | nil => exact .nil
  | cons p ps ih => exact pairwise_insertSorted ih

/-! ## The list -/

/-- The list of a root that leads to a directory. -/
theorem sources_of_stat {l : Location} (h : fs.stat root = .ok (l, .directory)) :
    fs.sources root = (fs.walk fs.depthBound [l] root l).foldr insertSorted [] := by
  rw [sources, h]

theorem sources_of_not_directory (h : ∀ l, fs.stat root ≠ .ok (l, .directory)) :
    fs.sources root = [] := by
  rw [sources]
  split
  · next l hl => exact absurd hl (h l)
  · rfl

/-- **The list is strictly increasing** in the order of the paths' bytes. -/
theorem pairwise_sources (fs : FileSystem) (root : Path) :
    (fs.sources root).Pairwise (·.bytes < ·.bytes) := by
  rw [sources]
  split
  · exact pairwise_foldr_insertSorted _
  · exact .nil

/-- **The members of the list.** -/
theorem mem_sources {p : Path} :
    p ∈ fs.sources root ↔ ∃ names n, fs.Walkable root names ∧ fs.FileBelow root names n ∧
      n.IsSource ∧ p = root.below (names ++ [n]) := by
  by_cases h : ∃ l, fs.stat root = .ok (l, .directory)
  · obtain ⟨l, hl⟩ := h
    have hwalk : p ∈ fs.walk fs.depthBound [l] (root.below []) l ↔ _ := mem_walk (.start hl) p
    simp only [Path.below_nil, List.nil_append] at hwalk
    rw [sources_of_stat hl, mem_foldr_insertSorted, hwalk]
    refine exists_congr fun names => exists_congr fun n => ?_
    exact and_iff_right_of_imp fun h => length_lt_depthBound h.1
  · have hnone := not_exists.mp h
    rw [sources_of_not_directory hnone]
    refine iff_of_false List.not_mem_nil ?_
    rintro ⟨names, n, hwalk, -⟩
    obtain ⟨l, hl⟩ := hwalk.directory [] List.nil_prefix
    exact hnone l hl

/-- A regular file below a root is what its path leads to, as far as names and paths of that length
are looked up. -/
theorem fileBelow_iff_stat {names : List Name} {n : Name} (hname : n.bytes.length ≤ maxNameLength)
    (hpath : (root.below (names ++ [n])).Resolvable) :
    fs.FileBelow root names n ↔
      ∃ t bytes, fs.stat (root.below (names ++ [n])) = .ok (t, .file bytes) := by
  refine or_iff_right_of_imp ?_
  rintro ⟨l, bytes, hstat, hnode⟩
  rw [below_snoc] at hpath ⊢
  exact ⟨n :: l, bytes, stat_join_of_file hstat hnode hname hpath⟩

/-- **The list of source files is exact.** The walk ends by itself: however many levels it is given
beyond its bound, it lists the same. If the root does not lead to a directory, nothing is listed.
Else a path is listed if and only if it is the root followed by names such that the root and all
names but the last lead from directory to directory, no link among these leads back to the
directory of the root or of an earlier name, and the last name is that of a regular file, or of a
link to one, with an extension of source files. For a path within the limits on lengths, the
last condition is that the path leads to a regular file. The list is strictly increasing in the
order of the paths' bytes, so no path is in it twice. -/
theorem sources_exact (fs : FileSystem) (root : Path) :
    (∀ l, fs.stat root = .ok (l, .directory) → ∀ depth, fs.depthBound ≤ depth →
      fs.sources root = (fs.walk depth [l] root l).foldr insertSorted [] ∧
      fs.walk depth [l] root l = fs.walk fs.depthBound [l] root l) ∧
    ((∀ l, fs.stat root ≠ .ok (l, .directory)) → fs.sources root = []) ∧
    (∀ p, p ∈ fs.sources root ↔ ∃ names n, fs.Walkable root names ∧ fs.FileBelow root names n ∧
      n.IsSource ∧ p = root.below (names ++ [n])) ∧
    (∀ names n, n.bytes.length ≤ maxNameLength → (root.below (names ++ [n])).Resolvable →
      (fs.FileBelow root names n ↔
        ∃ t bytes, fs.stat (root.below (names ++ [n])) = .ok (t, .file bytes))) ∧
    (fs.sources root).Pairwise (·.bytes < ·.bytes) ∧ (fs.sources root).Nodup := by
  refine ⟨?ends, sources_of_not_directory, fun p => mem_sources,
    fun names n => fileBelow_iff_stat, pairwise_sources fs root, ?nodup⟩
  case ends =>
    intro l hl depth hdepth
    have hwalk := walk_eq_of_depthBound_le hl hdepth
    exact ⟨by rw [hwalk, sources_of_stat hl], hwalk⟩
  case nodup =>
    refine (pairwise_sources fs root).imp fun {p q} hlt => ?_
    rintro rfl
    exact List.lt_irrefl p.bytes hlt

end ScreenAtlas.FileSystem
