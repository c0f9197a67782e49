import Mathlib.Data.List.Induction
import Mathlib.Data.List.Nodup
import ScreenAtlas.Vocabulary.Asset
/-!
# What a log holds after entries

A log that kinds are entered in one after the other ends with the kinds that were new to it, in
the order of their first entry. From an empty log these are the first occurrences of the entries.

## Main statements

* `toList_insertAll` — a log after any entries.
* `toList_insertAll_empty` — the same from the empty log.
* `nodup_insertAll` — no entry is made twice.
-/
namespace ScreenAtlas.AssetLog

@[simp] theorem toList_empty : empty.toList = [] := rfl

theorem toList_insert (log : AssetLog) (a : Asset) :
    (log.insert a).toList = if a ∈ log.toList then log.toList else log.toList ++ [a] := by
  by_cases h : a ∈ log.toList <;> simp [insert, contains, h]

@[simp] theorem insertAll_nil (log : AssetLog) : log.insertAll [] = log := rfl

theorem insertAll_append (log : AssetLog) (as bs : List Asset) :
    log.insertAll (as ++ bs) = (log.insertAll as).insertAll bs :=
  List.foldl_append

/-- **A log after entries** is the log before them, followed by the first occurrences of what it
did not hold. -/
theorem toList_insertAll (log : AssetLog) (as : List Asset) :
    (log.insertAll as).toList = log.toList ++ (as.removeAll log.toList).eraseDups := by
  induction as using List.reverseRecOn with
  | nil => simp [List.removeAll]
  | append_singleton as a ih =>
      have hlast : (log.insertAll (as ++ [a])).toList = ((log.insertAll as).insert a).toList := by
        rw [insertAll_append]; rfl
      have hmem : a ∈ (log.insertAll as).toList ↔ a ∈ log.toList ∨ a ∈ as := by
        rw [ih]
        by_cases h : a ∈ log.toList <;> simp [List.removeAll, h]
      rw [hlast, toList_insert]
      by_cases hlog : a ∈ log.toList
      · rw [if_pos (hmem.mpr (.inl hlog)), ih]
        simp [List.removeAll, hlog]
      · by_cases has : a ∈ as
        · rw [if_pos (hmem.mpr (.inr has)), ih]
          simp [List.removeAll, List.eraseDups_append, hlog, has]
        · rw [if_neg (by simp [hmem, hlog, has]), ih]
          simp [List.removeAll, List.eraseDups_append, List.eraseDups_cons, hlog, has]

/-- From the empty log, the first occurrences of the entries. -/
theorem toList_insertAll_empty (as : List Asset) :
    (empty.insertAll as).toList = as.eraseDups := by
  have hnew : as.removeAll [] = as := by simp [List.removeAll]
  rw [toList_insertAll, toList_empty, hnew, List.nil_append]

theorem mem_insertAll {log : AssetLog} {as : List Asset} {a : Asset} :
    a ∈ (log.insertAll as).toList ↔ a ∈ log.toList ∨ a ∈ as := by
  rw [toList_insertAll]
  by_cases h : a ∈ log.toList <;> simp [List.removeAll, h]

theorem nodup_insert {log : AssetLog} (h : log.toList.Nodup) (a : Asset) :
    (log.insert a).toList.Nodup := by
  rw [toList_insert]
  by_cases hmem : a ∈ log.toList
  · rwa [if_pos hmem]
  · rw [if_neg hmem, ← List.concat_eq_append]
    exact h.concat hmem

/-- **Entries repeat nothing** in a log without repetitions. -/
theorem nodup_insertAll {log : AssetLog} (h : log.toList.Nodup) (as : List Asset) :
    (log.insertAll as).toList.Nodup := by
  induction as generalizing log with
  | nil => exact h
  | cons a as ih => exact ih (nodup_insert h a)

end ScreenAtlas.AssetLog
