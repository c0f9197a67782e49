import Mathlib.Data.List.Induction
import ScreenAtlas.FileSystem.Sources
import ScreenAtlas.Proofs.FileSystem.Resolve
import ScreenAtlas.Proofs.Path.Extension
/-!
# The walk below a directory

Links make the tree of directories an arbitrary graph, and the walk goes along the paths through it
that do not follow a link back to where they have been. Every such path is shorter than the bound
on the levels of the walk: a level leads either to a directory that the path had not been in, or
from a directory down to one of its own children.

## Main definitions

* `Walkable` — the names that the walk follows below a directory.
* `FileBelow` — a name of a regular file, in the directory that further names lead to.
* `Trail` — a path of the walk with its state, the directories that it is inside of.

## Main statements

* `length_lt_depthBound` — no path of the walk is as long as the bound.
* `mem_walk` — what the walk lists.
* `walk_eq_of_depthBound_le` — more levels than the bound list nothing more.
-/
namespace ScreenAtlas.FileSystem

/-- The names lead from directory to directory, and no link among them leads back to a directory
that the names in front of it have led to. -/
structure Walkable (fs : FileSystem) (root : Path) (names : List Name) : Prop where
  directory : ∀ front, front <+: names → ∃ l, fs.stat (root.below front) = .ok (l, .directory)
  acyclic : ∀ front n, front ++ [n] <+: names → ∀ l t,
    fs.stat (root.below front) = .ok (l, .directory) → fs.isLink (n :: l) →
    fs.stat (root.below (front ++ [n])) = .ok (t, .directory) →
    ∀ earlier, earlier <+: front → fs.stat (root.below earlier) ≠ .ok (t, .directory)

/-- A regular file has the name in the directory that the names in front lead to, or the path leads
to a regular file. The two differ for a path that is too long to be looked up. -/
def FileBelow (fs : FileSystem) (root : Path) (names : List Name) (n : Name) : Prop :=
  (∃ l bytes, fs.stat (root.below names) = .ok (l, .directory) ∧
    fs.node? (n :: l) = some (.file bytes)) ∨
  ∃ t bytes, fs.stat (root.below (names ++ [n])) = .ok (t, .file bytes)

/-- A path of the walk: the names below the root, the directories that the walk is inside of, and
the directory that it is in. -/
inductive Trail (fs : FileSystem) (root : Path) : List Name → List Location → Location → Prop
  | start {l : Location} (h : fs.stat root = .ok (l, .directory)) : Trail fs root [] [l] l
  | enter {names : List Name} {inside : List Location} {l t : Location} {n : Name}
      (h : Trail fs root names inside l)
      (hstat : fs.stat (root.below (names ++ [n])) = .ok (t, .directory))
      (hlink : fs.isLink (n :: l) → t ∉ inside) :
      Trail fs root (names ++ [n]) (t :: inside) t

variable {fs : FileSystem} {root : Path}

theorem below_snoc (root : Path) (names : List Name) (n : Name) :
    root.below (names ++ [n]) = (root.below names).join ⟨n.bytes⟩ :=
  Path.below_append root names [n]

namespace Walkable

theorem of_append {names more : List Name} (h : fs.Walkable root (names ++ more)) :
    fs.Walkable root names :=
  ⟨fun front hfront => h.directory front (hfront.trans (List.prefix_append _ _)),
    fun front n hfront => h.acyclic front n (hfront.trans (List.prefix_append _ _))⟩

theorem exists_stat {names : List Name} (h : fs.Walkable root names) :
    ∃ l, fs.stat (root.below names) = .ok (l, .directory) :=
  h.directory names (List.prefix_refl names)

theorem bytes_ne_nil {names : List Name} (h : fs.Walkable root names) : root.bytes ≠ [] := by
  obtain ⟨l, hl⟩ := h.directory [] List.nil_prefix
  exact (stat_eq_ok_iff.mp hl).1.bytes_ne_nil

end Walkable

/-! ## Trails -/

namespace Trail

variable {names : List Name} {inside : List Location} {l : Location}

/-- A trail is in the directory that its names lead to. -/
theorem stat_below (h : Trail fs root names inside l) :
    fs.stat (root.below names) = .ok (l, .directory) := by
  cases h with
  | start h => exact h
  | enter _ hstat _ => exact hstat

/-- A trail is inside of the directories that the fronts of its names lead to. -/
theorem mem_inside (h : Trail fs root names inside l) (t : Location) :
    t ∈ inside ↔ ∃ front, front <+: names ∧ fs.stat (root.below front) = .ok (t, .directory) := by
  induction h with
  | start h =>
      simp only [List.prefix_nil, exists_eq_left, Path.below_nil, h, List.mem_singleton,
        Except.ok.injEq, Prod.mk.injEq, and_true, eq_comm]
  | enter _ hstat _ ih =>
      simp only [List.mem_cons, ih, List.prefix_concat_iff, or_and_right, exists_or,
        exists_eq_left, hstat, Except.ok.injEq, Prod.mk.injEq, and_true, eq_comm]

/-- The names of a trail can be walked. -/
theorem walkable (h : Trail fs root names inside l) : fs.Walkable root names := by
  induction h with
  | start h =>
      refine ⟨fun front hfront => ?_, fun front n hfront => ?_⟩
      · rw [List.prefix_nil.mp hfront]
        exact ⟨_, h⟩
      · simp at hfront
  | @enter names inside l t n h hstat hlink ih =>
      refine ⟨fun front hfront => ?_, fun front m hfront => ?_⟩
      · obtain rfl | hfront := List.prefix_concat_iff.mp hfront
        · exact ⟨t, hstat⟩
        · exact ih.directory front hfront
      · obtain hlast | hfront := List.prefix_concat_iff.mp hfront
        · obtain ⟨rfl, hm⟩ := List.append_inj' hlast rfl
          obtain rfl := List.singleton_inj.mp hm
          intro l' t' hl' hlink' ht' earlier hearlier hback
          have hl : l' = l := by simpa [h.stat_below, eq_comm] using hl'
          have ht : t' = t := by simpa [hstat, eq_comm] using ht'
          exact hlink (hl ▸ hlink') ((h.mem_inside t).mpr ⟨earlier, hearlier, ht ▸ hback⟩)
        · exact ih.acyclic front m hfront

end Trail

/-- Where a walkable path goes on over a link, the trail is not inside of the link's directory. -/
theorem Trail.notMem_inside {names : List Name} {inside : List Location} {l t : Location}
    {n : Name} (h : Trail fs root names inside l) (hwalk : fs.Walkable root (names ++ [n]))
    (hstat : fs.stat (root.below (names ++ [n])) = .ok (t, .directory)) :
    fs.isLink (n :: l) → t ∉ inside := by
  intro hlink ht
  obtain ⟨earlier, hearlier, hback⟩ := (h.mem_inside t).mp ht
  exact hwalk.acyclic names n (List.prefix_refl _) l t h.stat_below hlink hstat earlier hearlier
    hback

/-- Names that can be walked are those of a trail. -/
theorem Walkable.exists_trail {names : List Name} (h : fs.Walkable root names) :
    ∃ inside l, Trail fs root names inside l := by
  induction names using List.reverseRecOn with
  | nil =>
      obtain ⟨l, hl⟩ := h.exists_stat
      exact ⟨[l], l, .start hl⟩
  | append_singleton names n ih =>
      obtain ⟨inside, l, htrail⟩ := ih h.of_append
      obtain ⟨t, ht⟩ := h.exists_stat
      exact ⟨t :: inside, t, .enter htrail ht (htrail.notMem_inside h ht)⟩

/-! ## The bound on the levels -/

/-- The locations that something is bound to. -/
def places (fs : FileSystem) : List Location :=
  [] :: fs.bindings.map (·.1)

theorem exists_mem_bindings {n : Name} {l : Location} {m : Node}
    (h : fs.node? (n :: l) = some m) : ∃ b ∈ fs.bindings, b.1 = n :: l := by
  obtain ⟨b, hfind, -⟩ := Option.map_eq_some_iff.mp h
  exact ⟨b, List.mem_of_find?_eq_some hfind, by simpa using List.find?_some hfind⟩

theorem mem_places {l : Location} {m : Node} (h : fs.node? l = some m) : l ∈ fs.places := by
  cases l with
  | nil => exact List.mem_cons_self
  | cons n l =>
      obtain ⟨b, hb, hl⟩ := exists_mem_bindings h
      exact List.mem_cons_of_mem _ (List.mem_map.mpr ⟨b, hb, hl⟩)

theorem mem_children {n : Name} {l : Location} {m : Node} (h : fs.node? (n :: l) = some m) :
    n ∈ fs.children l := by
  obtain ⟨b, hb, hl⟩ := exists_mem_bindings h
  rw [children, List.mem_eraseDups, List.mem_filterMap]
  exact ⟨b, hb, by simp [hl]⟩

theorem length_le_height {l : Location} {m : Node} (h : fs.node? l = some m) :
    l.length ≤ fs.height := by
  have hmax (ns : List Nat) : ∀ n ∈ ns, n ≤ ns.foldr max 0 := by
    induction ns with
    | nil => simp
    | cons k ns ih => grind
  cases l with
  | nil => exact Nat.zero_le _
  | cons n l =>
      obtain ⟨b, hb, hl⟩ := exists_mem_bindings h
      exact hmax _ _ (List.mem_map.mpr ⟨b, hb, by rw [hl]⟩)

/-- The number of places that a walk is not inside of. -/
def outside (fs : FileSystem) (inside : List Location) : Nat :=
  fs.places.countP fun l => l ∉ inside

/-- A number of levels that a walk in a directory cannot exceed. A directory that the walk was not
inside of leaves one place fewer outside; any other level leads to a child of the directory, whose
location is longer by a name. -/
def levelsLeft (fs : FileSystem) (inside : List Location) (l : Location) : Nat :=
  fs.outside inside * (fs.height + 1) + (fs.height - l.length)

theorem outside_cons_of_mem {inside : List Location} {t : Location} (h : t ∈ inside) :
    fs.outside (t :: inside) = fs.outside inside := by
  refine List.countP_congr fun l _ => ?_
  have hmem : l ∈ t :: inside ↔ l ∈ inside := by
    rw [List.mem_cons, or_iff_right_of_imp]
    rintro rfl
    exact h
  simp only [hmem]

theorem outside_cons_lt {inside : List Location} {t : Location} (ht : t ∈ fs.places)
    (h : t ∉ inside) : fs.outside (t :: inside) < fs.outside inside := by
  obtain ⟨before, after, hplaces⟩ := List.append_of_mem ht
  have hmono (ls : List Location) : ls.countP (fun l => decide (l ∉ t :: inside)) ≤
      ls.countP fun l => decide (l ∉ inside) :=
    List.countP_mono_left fun l _ hl => by simp_all
  have hbefore := hmono before
  have hafter := hmono after
  simp only [outside, hplaces, List.countP_append, List.countP_cons]
  simp only [List.mem_cons_self, not_true_eq_false, decide_false, h, not_false_eq_true, decide_true,
    if_true, Bool.false_eq_true, if_false]
  omega

/-- Every level leaves fewer levels. -/
theorem Trail.levelsLeft_lt {names : List Name} {inside : List Location} {l t : Location} {n : Name}
    (h : Trail fs root names inside l)
    (hstat : fs.stat (root.below (names ++ [n])) = .ok (t, .directory))
    (hlink : fs.isLink (n :: l) → t ∉ inside) :
    fs.levelsLeft (t :: inside) t < fs.levelsLeft inside l := by
  have hnode : fs.node? t = some .directory := (stat_eq_ok_iff.mp hstat).2.1
  by_cases ht : t ∈ inside
  · have hchild : t = n :: l := by
      rw [below_snoc] at hstat
      refine ((of_stat_join h.stat_below hstat).2 ?_).1
      simpa using fun hl => hlink hl ht
    have hlength : l.length + 1 ≤ fs.height := by
      simpa [hchild] using length_le_height hnode
    rw [levelsLeft, levelsLeft, outside_cons_of_mem ht, hchild, List.length_cons]
    omega
  · have hout := Nat.mul_le_mul_right (fs.height + 1) (outside_cons_lt (mem_places hnode) ht)
    rw [Nat.succ_mul] at hout
    simp only [levelsLeft]
    omega

/-- The levels of a trail and the levels left are within the bound. -/
theorem Trail.length_add_levelsLeft_lt {names : List Name} {inside : List Location} {l : Location}
    (h : Trail fs root names inside l) :
    names.length + fs.levelsLeft inside l < fs.depthBound := by
  induction h with
  | @start l h =>
      have hout : fs.outside [l] ≤ fs.bindings.length + 1 := by
        simpa [outside, places] using List.countP_le_length (l := fs.places)
      have hmul := Nat.mul_le_mul_right (fs.height + 1) hout
      have hbound : fs.depthBound =
          (fs.bindings.length + 1) * (fs.height + 1) + (fs.height + 1) := Nat.succ_mul _ _
      rw [levelsLeft, hbound, List.length_nil]
      omega
  | enter h hstat hlink ih =>
      have hlt := h.levelsLeft_lt hstat hlink
      rw [List.length_append, List.length_singleton]
      omega

/-- **No path of the walk is as long as the bound on its levels.** -/
theorem length_lt_depthBound {names : List Name} (h : fs.Walkable root names) :
    names.length < fs.depthBound := by
  obtain ⟨inside, l, htrail⟩ := h.exists_trail
  exact Nat.lt_of_le_of_lt (Nat.le_add_right _ _) htrail.length_add_levelsLeft_lt

/-! ## The walk -/

/-- One level of the walk: the names of the directory that are source files, and what is listed
further down in the directories that are entered. -/
theorem mem_walk_succ {depth : Nat} {inside : List Location} {path p : Path} {l : Location} :
    p ∈ fs.walk (depth + 1) inside path l ↔ ∃ n ∈ fs.children l,
      (((∃ bytes, fs.node? (n :: l) = some (.file bytes)) ∨
          ∃ t bytes, fs.stat (path.join ⟨n.bytes⟩) = .ok (t, .file bytes)) ∧
        (path.join ⟨n.bytes⟩).isSource ∧ p = path.join ⟨n.bytes⟩) ∨
      ((∀ bytes, fs.node? (n :: l) ≠ some (.file bytes)) ∧
        ∃ t, fs.stat (path.join ⟨n.bytes⟩) = .ok (t, .directory) ∧
          (fs.isLink (n :: l) → t ∉ inside) ∧
          p ∈ fs.walk depth (t :: inside) (path.join ⟨n.bytes⟩) t) := by
  rw [walk, List.mem_flatMap]
  refine exists_congr fun n => and_congr_right fun _ => ?_
  dsimp only
  split
  · next hfile => simp [hfile]
  · next hstat hfile =>
    have hnot : ∀ bytes, fs.node? (n :: l) ≠ some (.file bytes) := hfile
    simp [hstat, hnot]
  · next t hstat hfile =>
    have hnot : ∀ bytes, fs.node? (n :: l) ≠ some (.file bytes) := hfile
    simp [hstat, hnot]
  · next hfile hstat hdir =>
    rw [List.mem_nil_iff, false_iff]
    rintro (⟨⟨_, h⟩ | ⟨_, _, h⟩, -⟩ | ⟨-, _, h, -⟩)
    · exact hfile _ h
    · exact hstat _ _ h
    · exact hdir _ h

section Below

variable {names : List Name} {inside : List Location} {l : Location} {n : Name}

theorem Trail.fileBelow_iff (h : Trail fs root names inside l) :
    fs.FileBelow root names n ↔ (∃ bytes, fs.node? (n :: l) = some (.file bytes)) ∨
      ∃ t bytes, fs.stat (root.below (names ++ [n])) = .ok (t, .file bytes) := by
  simp only [FileBelow, h.stat_below, Except.ok.injEq, Prod.mk.injEq, and_true]
  simp

/-- What a further name leads to starts from a child. -/
theorem Trail.mem_children_of_stat (h : Trail fs root names inside l) {t : Location} {m : Node}
    (hstat : fs.stat (root.below (names ++ [n])) = .ok (t, m)) : n ∈ fs.children l := by
  rw [below_snoc] at hstat
  obtain ⟨_, hnode⟩ := (of_stat_join h.stat_below hstat).1
  exact mem_children hnode

theorem Trail.mem_children_of_fileBelow (h : Trail fs root names inside l)
    (hfile : fs.FileBelow root names n) : n ∈ fs.children l := by
  obtain ⟨_, hnode⟩ | ⟨_, _, hstat⟩ := h.fileBelow_iff.mp hfile
  · exact mem_children hnode
  · exact h.mem_children_of_stat hstat

/-- A name that leads to a directory is not that of a regular file. -/
theorem Trail.node?_ne_file (h : Trail fs root names inside l) {t : Location}
    (hstat : fs.stat (root.below (names ++ [n])) = .ok (t, .directory)) (bytes : List UInt8) :
    fs.node? (n :: l) ≠ some (.file bytes) := by
  intro hfile
  rw [below_snoc] at hstat
  have hnode := ((of_stat_join h.stat_below hstat).2 (by simp [isLink, hfile])).2
  cases hfile.symm.trans hnode

end Below

/-- **What the walk lists** from a trail are the source files below its names, as many names deep
as there are levels. -/
theorem mem_walk {depth : Nat} {names : List Name} {inside : List Location} {l : Location}
    (h : Trail fs root names inside l) (p : Path) :
    p ∈ fs.walk depth inside (root.below names) l ↔ ∃ more n, more.length < depth ∧
      fs.Walkable root (names ++ more) ∧ fs.FileBelow root (names ++ more) n ∧ n.IsSource ∧
      p = root.below (names ++ more ++ [n]) := by
  induction depth generalizing names inside l with
  | zero => simp [walk]
  | succ depth ih =>
      rw [mem_walk_succ]
      simp only [← below_snoc, Path.isSource_below h.walkable.bytes_ne_nil, ← h.fileBelow_iff]
      constructor
      · rintro ⟨n, _, ⟨hfile, hsource, rfl⟩ | ⟨_, t, hstat, hlink, hp⟩⟩
        · refine ⟨[], n, Nat.succ_pos depth, ?_⟩
          rw [List.append_nil]
          exact ⟨h.walkable, hfile, hsource, rfl⟩
        · obtain ⟨more, m, hlt, hfound⟩ := (ih (h.enter hstat hlink)).mp hp
          rw [List.append_assoc names [n] more] at hfound
          exact ⟨n :: more, m, Nat.succ_lt_succ hlt, hfound⟩
      · rintro ⟨more, m, hlt, hwalk, hfile, hsource, hp⟩
        cases more with
        | nil =>
            rw [List.append_nil] at hfile hp
            exact ⟨m, h.mem_children_of_fileBelow hfile, .inl ⟨hfile, hsource, hp⟩⟩
        | cons n more =>
            rw [List.append_cons names n more] at hwalk hfile hp
            obtain ⟨t, hstat⟩ := hwalk.of_append.exists_stat
            have hlink := h.notMem_inside hwalk.of_append hstat
            refine ⟨n, h.mem_children_of_stat hstat, .inr ⟨h.node?_ne_file hstat, t, hstat, hlink,
              ?_⟩⟩
            exact (ih (h.enter hstat hlink)).mpr
              ⟨more, m, Nat.lt_of_succ_lt_succ hlt, hwalk, hfile, hsource, hp⟩

/-- One more level lists nothing more from a trail whose levels reach the bound. -/
theorem walk_succ_eq {depth : Nat} {names : List Name} {inside : List Location} {l : Location}
    (h : Trail fs root names inside l) (hdepth : fs.depthBound ≤ names.length + depth) :
    fs.walk (depth + 1) inside (root.below names) l =
      fs.walk depth inside (root.below names) l := by
  induction depth generalizing names inside l with
  | zero => exact absurd (length_lt_depthBound h.walkable) (Nat.not_lt.mpr hdepth)
  | succ depth ih =>
      rw [walk, walk]
      congr 1
      funext n
      simp only [← below_snoc]
      split
      · rfl
      · rfl
      · next t hstat _ =>
        by_cases hback : (fs.isLink (n :: l) && inside.contains t) = true
        · rw [if_pos hback, if_pos hback]
        · rw [if_neg hback, if_neg hback]
          refine ih (h.enter hstat fun hlink ht => hback (by simp [hlink, ht])) ?_
          rw [List.length_append, List.length_singleton]
          omega
      · rfl

/-- **The walk ends by itself**: more levels than the bound list nothing more. -/
theorem walk_eq_of_depthBound_le {l : Location} (h : fs.stat root = .ok (l, .directory))
    {depth : Nat} (hdepth : fs.depthBound ≤ depth) :
    fs.walk depth [l] root l = fs.walk fs.depthBound [l] root l := by
  induction depth, hdepth using Nat.le_induction with
  | base => rfl
  | succ depth hdepth ih =>
      rw [← ih]
      exact walk_succ_eq (.start h) (by simpa using hdepth)

end ScreenAtlas.FileSystem
