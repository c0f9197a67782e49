import Mathlib.Data.List.Induction
import Mathlib.Data.List.Nodup
import Mathlib.Data.List.TakeWhile
import ScreenAtlas.Group
/-!
# What the groups of a list hold

Files are put into groups one after the other, each into the group of its first segment. In the end
there is one group for each first segment, in the order in which the segments first occur, and it
holds all paths with that segment. Where the paths with one first segment stand next to each other
in the list, grouping only cuts it into pieces.

## Main definitions

* `under` — the paths with one first segment, as a group.
* `Contiguous` — the lists in which paths with one first segment stand next to each other.

## Main statements

* `foldl_add` — the groups of any list.
* `flatMap_files_foldl_add` — the groups of a contiguous list are the list, cut into pieces.
-/
namespace ScreenAtlas.Group

/-- The paths of a list with a given first segment, as a group. -/
def under (paths : List String) (top : String) : Group :=
  ⟨top, paths.filter (topOf · = top)⟩

@[simp] theorem name_under (paths : List String) (top : String) :
    (under paths top).name = top := rfl

theorem topOf_of_mem_under {paths : List String} {top p : String}
    (h : p ∈ (under paths top).files) : topOf p = top := by
  simpa using (List.mem_filter.mp h).2

/-! ## One more path -/

/-- A path with another first segment changes nothing. -/
theorem under_snoc_of_ne (paths : List String) {p top : String} (h : topOf p ≠ top) :
    under (paths ++ [p]) top = under paths top := by
  simp [under, h]

/-- A path comes last in the group of its first segment. -/
theorem under_snoc_self (paths : List String) (p : String) :
    under (paths ++ [p]) (topOf p) = ⟨topOf p, (under paths (topOf p)).files ++ [p]⟩ := by
  simp [under]

/-- A path with a first segment that has a group goes there. -/
theorem add_of_mem {paths : List String} {p : String} {tops : List String} (hnodup : tops.Nodup)
    (h : topOf p ∈ tops) :
    add (tops.map (under paths)) p = tops.map (under (paths ++ [p])) := by
  induction tops with
  | nil => exact absurd h List.not_mem_nil
  | cons top tops ih =>
      obtain ⟨hnew, hnodup⟩ := List.nodup_cons.mp hnodup
      rw [List.map_cons, List.map_cons, add]
      by_cases htop : top = topOf p
      · subst htop
        have hrest : tops.map (under (paths ++ [p])) = tops.map (under paths) := by
          refine List.map_congr_left fun top htop => under_snoc_of_ne paths ?_
          rintro rfl
          exact hnew htop
        rw [if_pos (name_under paths _), under_snoc_self, hrest, name_under]
      · have hmem : topOf p ∈ tops := by simpa [Ne.symm htop] using h
        rw [name_under, if_neg htop, ih hnodup hmem, under_snoc_of_ne paths (Ne.symm htop)]

/-- A path with a new first segment opens a group. -/
theorem add_of_notMem {paths : List String} {p : String} {tops : List String}
    (h : topOf p ∉ tops) :
    add (tops.map (under paths)) p = tops.map (under (paths ++ [p])) ++ [⟨topOf p, [p]⟩] := by
  induction tops with
  | nil => rfl
  | cons top tops ih =>
      rw [List.mem_cons, not_or] at h
      rw [List.map_cons, List.map_cons, add, name_under, if_neg (Ne.symm h.1), ih h.2,
        under_snoc_of_ne paths h.1, List.cons_append]

/-! ## All paths -/

/-- The last of a list is its own first occurrence unless it occurs earlier. -/
theorem eraseDups_snoc (tops : List String) (top : String) :
    (tops ++ [top]).eraseDups = if top ∈ tops then tops.eraseDups else tops.eraseDups ++ [top] := by
  by_cases h : top ∈ tops
  · simp [List.eraseDups_append, List.removeAll, h]
  · simp [List.eraseDups_append, List.removeAll, List.eraseDups_cons, h]

theorem nodup_eraseDups (tops : List String) : tops.eraseDups.Nodup := by
  induction tops using List.reverseRecOn with
  | nil => simp
  | append_singleton tops top ih =>
      rw [eraseDups_snoc]
      by_cases h : top ∈ tops
      · rwa [if_pos h]
      · rw [if_neg h, ← List.concat_eq_append]
        exact ih.concat fun hmem => h (List.mem_eraseDups.mp hmem)

/-- **The groups of a list** stand in the order in which their names first occur as first segments,
and each holds all paths with its first segment, in the order of the list. -/
theorem foldl_add (paths : List String) :
    paths.foldl add [] = (paths.map topOf).eraseDups.map (under paths) := by
  -- From the end, since `add` puts a path behind those that were added before.
  induction paths using List.reverseRecOn with
  | nil => rfl
  | append_singleton paths p ih =>
      rw [List.foldl_append, ih, List.foldl_cons, List.foldl_nil, List.map_append,
        List.map_singleton, eraseDups_snoc]
      by_cases h : topOf p ∈ paths.map topOf
      · rw [if_pos h, add_of_mem (nodup_eraseDups _) (List.mem_eraseDups.mpr h)]
      · have hnone : (under paths (topOf p)).files = [] := by
          refine List.eq_nil_iff_forall_not_mem.mpr fun q hq => h ?_
          rw [← topOf_of_mem_under hq]
          exact List.mem_map_of_mem (List.mem_of_mem_filter hq)
        rw [if_neg h, add_of_notMem fun hmem => h (List.mem_eraseDups.mp hmem), List.map_append,
          List.map_singleton, under_snoc_self, hnone, List.nil_append]

/-! ## Contiguous lists -/

/-- Between two paths with one first segment, all paths have that first segment. -/
def Contiguous (paths : List String) : Prop :=
  ∀ p q r, [p, q, r].Sublist paths → topOf p = topOf r → topOf q = topOf p

theorem Contiguous.of_append_right {front paths : List String} (h : Contiguous (front ++ paths)) :
    Contiguous paths :=
  fun p q r hsub => h p q r (hsub.trans (List.sublist_append_right front paths))

/-- A contiguous list starts with all paths that have the first segment of its first path. -/
theorem Contiguous.exists_append {p : String} {paths : List String} (h : Contiguous (p :: paths)) :
    ∃ front rest, p :: paths = front ++ rest ∧ front ≠ [] ∧ (∀ q ∈ front, topOf q = topOf p) ∧
      ∀ q ∈ rest, topOf q ≠ topOf p := by
  refine ⟨p :: paths.takeWhile (topOf · = topOf p), paths.dropWhile (topOf · = topOf p), ?_,
    by simp, ?_, ?_⟩
  · rw [List.cons_append, List.takeWhile_append_dropWhile]
  · intro q hq
    rcases List.mem_cons.mp hq with rfl | hq
    · rfl
    · simpa using List.mem_takeWhile_imp hq
  · intro r hr htop
    cases hrest : paths.dropWhile (topOf · = topOf p) with
    | nil => simp [hrest] at hr
    | cons q rest =>
        have hq : topOf q ≠ topOf p := by
          have hne : paths.dropWhile (topOf · = topOf p) ≠ [] := by simp [hrest]
          have hhead := List.head_dropWhile_not (topOf · = topOf p) hne
          simpa [hrest] using hhead
        rw [hrest] at hr
        rcases List.mem_cons.mp hr with rfl | hr
        · exact hq htop
        · -- The path `q` would stand between `p` and `r` with another first segment.
          have hsub : [p, q, r].Sublist (p :: paths) := by
            have hqr : [q, r].Sublist (paths.dropWhile (topOf · = topOf p)) := by
              rw [hrest]
              exact (List.singleton_sublist.mpr hr).cons_cons q
            exact (hqr.trans (List.dropWhile_sublist _)).cons_cons p
          exact hq (h p q r hsub htop.symm)

theorem files_under_append (paths more : List String) (top : String) :
    (under (paths ++ more) top).files = (under paths top).files ++ (under more top).files :=
  List.filter_append paths more

theorem files_under_of_forall {paths : List String} {top : String}
    (h : ∀ p ∈ paths, topOf p = top) : (under paths top).files = paths :=
  List.filter_eq_self.mpr fun p hp => by simpa using h p hp

theorem files_under_of_forall_ne {paths : List String} {top : String}
    (h : ∀ p ∈ paths, topOf p ≠ top) : (under paths top).files = [] :=
  List.filter_eq_nil_iff.mpr fun p hp => by simpa using h p hp

/-- The first segments of a list that starts with all paths of one first segment. -/
theorem eraseDups_of_front {front rest : List String} {top : String} (hfront : front ≠ [])
    (hsame : ∀ p ∈ front, topOf p = top) (hother : ∀ p ∈ rest, topOf p ≠ top) :
    ((front ++ rest).map topOf).eraseDups = top :: (rest.map topOf).eraseDups := by
  have hmap : front.map topOf = List.replicate front.length top :=
    List.eq_replicate_iff.mpr ⟨List.length_map _, by simpa using hsame⟩
  have hrest : (rest.map topOf).filter (fun t => !t == top) = rest.map topOf :=
    List.filter_eq_self.mpr fun t ht => by
      obtain ⟨p, hp, rfl⟩ := List.mem_map.mp ht
      simpa using hother p hp
  rw [List.map_append, hmap]
  cases front with
  | nil => exact absurd rfl hfront
  | cons p front =>
      rw [List.length_cons, List.replicate_succ, List.cons_append, List.eraseDups_cons,
        List.filter_append, hrest]
      simp

/-- **The groups of a contiguous list** are the list, cut into pieces. -/
theorem flatMap_files_foldl_add {paths : List String} (h : Contiguous paths) :
    (paths.foldl add []).flatMap (·.files) = paths := by
  rw [foldl_add, List.flatMap_map]
  -- On the length: the rest behind all paths of the first group is a contiguous list again.
  induction hn : paths.length using Nat.strong_induction_on generalizing paths with
  | _ n ih =>
      cases paths with
      | nil => rfl
      | cons p paths =>
          obtain ⟨front, rest, hsplit, hfront, hsame, hother⟩ := h.exists_append
          rw [hsplit] at h hn ⊢
          have hlen : rest.length < n := by
            have hpos : 0 < front.length := List.length_pos_iff.mpr hfront
            rw [List.length_append] at hn
            omega
          have hfirst : (under (front ++ rest) (topOf p)).files = front := by
            rw [files_under_append, files_under_of_forall hsame, files_under_of_forall_ne hother,
              List.append_nil]
          have hlater : ∀ top ∈ (rest.map topOf).eraseDups,
              (under (front ++ rest) top).files = (under rest top).files := by
            intro top htop
            obtain ⟨q, hq, rfl⟩ := List.mem_map.mp (List.mem_eraseDups.mp htop)
            have hnone : ∀ p' ∈ front, topOf p' ≠ topOf q := fun p' hp' heq =>
              hother q hq (heq.symm.trans (hsame p' hp'))
            rw [files_under_append, files_under_of_forall_ne hnone, List.nil_append]
          rw [eraseDups_of_front hfront hsame hother, List.flatMap_cons, hfirst,
            List.flatMap_congr hlater, ih rest.length hlen h.of_append_right rfl]

end ScreenAtlas.Group
