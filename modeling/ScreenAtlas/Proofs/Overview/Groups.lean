import ScreenAtlas.Proofs.Overview.Screens
/-!
# The lines of a group

A group takes one line with its name and its number of files, followed by a line for each file
listed and, where files are left out, a line with their number.

## Main definitions

* `Group.IsLegible` — the groups whose texts can be told apart.
* `Group.Content` — what the lines of a group say.

## Main statements

* `isItem_groupLines` — the lines of a group are an item.
* `groupLines_eq_iff` — the lines of a group say what is shown of the group, and nothing else.
-/
namespace ScreenAtlas

/-- A group whose texts can be told apart on its lines. -/
structure Group.IsLegible (g : Group) : Prop where
  name : '\n' ∉ g.name.toList ∧ '/' ∉ g.name.toList
  files : ∀ file ∈ g.files, Inline file

/-- What the lines of a group say. -/
@[ext] structure Group.Content where
  name : String
  /-- The number of all files. -/
  total : Nat
  /-- The files that have a line of their own. -/
  listed : List String

/-- What is shown of a group, of which at most `limit` files are listed. -/
def Group.content (limit : Nat) (g : Group) : Group.Content where
  name := g.name
  total := g.files.length
  listed := g.files.take limit

namespace Overview

/-- The line with the name and the number of files. -/
def groupLine (g : Group) : Line :=
  "- **".toList ++ g.name.toList ++ "/** (".toList ++ Nat.toDigits 10 g.files.length ++
    " files)".toList

/-- The line of a file listed. -/
def fileLine (file : String) : Line :=
  "  - ".toList ++ code file.toList

/-- The line with the number of files left out. -/
def restLine (n : Nat) : Line :=
  "  - … +".toList ++ Nat.toDigits 10 n ++ " more".toList

/-- The lines nested below the line of a group. -/
def listedLines (limit : Nat) (g : Group) : List Line :=
  (g.files.take limit).map fileLine ++
    if limit < g.files.length then [restLine (g.files.length - limit)] else []

theorem groupLines_eq (limit : Nat) (g : Group) :
    groupLines limit g = groupLine g :: listedLines limit g :=
  rfl

theorem mem_listedLines {limit : Nat} {g : Group} {l : Line} (h : l ∈ listedLines limit g) :
    (∃ file ∈ g.files, l = fileLine file) ∨ ∃ n, l = restLine n := by
  rw [listedLines, List.mem_append, List.mem_ite_nil_right, List.mem_singleton] at h
  rcases h with h | ⟨-, rfl⟩
  · obtain ⟨file, hfile, rfl⟩ := List.mem_map.mp h
    exact .inl ⟨file, List.mem_of_mem_take hfile, rfl⟩
  · exact .inr ⟨_, rfl⟩

theorem groupLine_eq (g : Group) : groupLine g =
    "- **".toList ++ (g.name.toList ++ '/' :: ("** (".toList ++
      (Nat.toDigits 10 g.files.length ++ " files)".toList))) := by
  unfold groupLine
  simp

/-- **The line of a group** says its name and its number of files. -/
theorem groupLine_inj {g g' : Group} (hg : g.IsLegible) (hg' : g'.IsLegible)
    (h : groupLine g = groupLine g') : g.name = g'.name ∧ g.files.length = g'.files.length := by
  rw [groupLine_eq, groupLine_eq] at h
  obtain ⟨hname, h⟩ := append_cons_inj hg.name.2 hg'.name.2 (List.append_cancel_left h)
  have hdigits := List.append_cancel_right (List.append_cancel_left h)
  exact ⟨String.toList_inj.mp hname, toDigits_inj hdigits⟩

theorem fileLine_inj {file file' : String} (h : fileLine file = fileLine file') : file = file' :=
  String.toList_inj.mp (code_inj (List.append_cancel_left h))

/-- The lines of files end in front of the number of files left out. -/
theorem takeWhile_listedLines (limit : Nat) (g : Group) :
    (listedLines limit g).takeWhile (fun l => "  - \x60".toList.isPrefixOf l) =
      (g.files.take limit).map fileLine := by
  have hfiles : ∀ l ∈ (g.files.take limit).map fileLine,
      "  - \x60".toList.isPrefixOf l = true := by
    intro l hl
    obtain ⟨file, -, rfl⟩ := List.mem_map.mp hl
    simp [fileLine, code]
  rw [listedLines, List.takeWhile_append_of_pos hfiles]
  unfold restLine
  split <;> simp

/-- **The lines of a group** say what is shown of the group. -/
theorem groupLines_eq_iff {limit limit' : Nat} {g g' : Group} (hg : g.IsLegible)
    (hg' : g'.IsLegible) :
    groupLines limit g = groupLines limit' g' ↔ g.content limit = g'.content limit' := by
  rw [groupLines_eq, groupLines_eq, List.cons.injEq]
  constructor
  · rintro ⟨hline, hlisted⟩
    obtain ⟨hname, htotal⟩ := groupLine_inj hg hg' hline
    have hmap : (g.files.take limit).map fileLine = (g'.files.take limit').map fileLine := by
      rw [← takeWhile_listedLines, hlisted, takeWhile_listedLines]
    exact Group.Content.ext hname htotal ((List.map_inj_right fun _ _ => fileLine_inj).mp hmap)
  · intro h
    obtain ⟨hname, htotal, hlisted⟩ := Group.Content.mk.inj h
    have hline : groupLine g = groupLine g' := by
      unfold groupLine
      rw [hname, htotal]
    -- The limits need not agree, but they do wherever one of them leaves files out.
    have hmin : min limit g.files.length = min limit' g.files.length := by
      have := congrArg List.length hlisted
      rwa [List.length_take, List.length_take, ← htotal] at this
    have hrest : (if limit < g.files.length then [restLine (g.files.length - limit)] else []) =
        if limit' < g.files.length then [restLine (g.files.length - limit')] else [] := by
      by_cases hlimit : limit < g.files.length
      · have hsame : limit = limit' := by omega
        rw [hsame]
      · have hlimit' : ¬ limit' < g.files.length := by omega
        rw [if_neg hlimit, if_neg hlimit']
    refine ⟨hline, ?_⟩
    rw [listedLines, listedLines, hlisted, hrest, htotal]

/-! ## All lines of a group -/

theorem isItem_groupLines (limit : Nat) (g : Group) : IsItem (groupLines limit g) where
  exists_cons := by
    refine ⟨groupLine g, listedLines limit g, rfl, ?_, ?_⟩
    · unfold groupLine
      simp
    · intro l hl
      rcases mem_listedLines hl with ⟨file, -, rfl⟩ | ⟨n, rfl⟩
      · exact ⟨_, rfl⟩
      · unfold restLine
        simp

theorem newline_notMem_groupLines (limit : Nat) {g : Group} (hg : g.IsLegible) :
    ∀ l ∈ groupLines limit g, '\n' ∉ l := by
  have hdigits : ∀ n, '\n' ∉ Nat.toDigits 10 n := notMem_toDigits rfl
  intro l hl
  rcases List.mem_cons.mp hl with rfl | hlisted
  · simp [hg.name.1, hdigits]
  · rcases mem_listedLines hlisted with ⟨file, hfile, rfl⟩ | ⟨n, rfl⟩
    · have := (hg.files file hfile).1
      unfold fileLine
      simp [code, this]
    · unfold restLine
      simp [hdigits]

end Overview

end ScreenAtlas
