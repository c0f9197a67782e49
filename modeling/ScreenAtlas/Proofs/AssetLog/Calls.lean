import ScreenAtlas.Proofs.AssetLog
/-!
# What a log holds after calls

A log is changed by calls that enter one kind, and tell whether it was new, and by calls that enter
a list of kinds. It does not matter how the kinds are divided among the calls: a log holds what it
held before, in the order that it had, and then the kinds that were new to it.

## Main definitions

* `Call` — a call that enters kinds.
* `run` — a log after calls.

## Main statements

* `run_eq_insertAll` — calls are one call with all their kinds.
* `enter_of_mem`, `enter_of_not_mem` — a kind that was there, and one that was not.
* `toList_run_and_enter` — a log after any calls, and what the next one tells.
-/
namespace ScreenAtlas.AssetLog

/-- A call that enters one kind, or one that enters a list of kinds. -/
inductive Call
  | one (a : Asset)
  | many (as : List Asset)

namespace Call

/-- The kinds that a call enters. -/
def kinds : Call → List Asset
  | one a => [a]
  | many as => as

/-- The log after a call. -/
def apply (log : AssetLog) : Call → AssetLog
  | one a => (log.enter a).2
  | many as => log.insertAll as

end Call

/-- The log after calls, one after the other. -/
def run (log : AssetLog) (calls : List Call) : AssetLog :=
  calls.foldl Call.apply log

variable {log : AssetLog} {a : Asset}

/-! ## One call -/

theorem contains_iff_mem : log.contains a = true ↔ a ∈ log.toList :=
  List.contains_iff_mem

/-- A kind that the log holds is not new, and the log is kept. -/
theorem enter_of_mem (h : a ∈ log.toList) : log.enter a = (false, log) :=
  if_pos (contains_iff_mem.mpr h)

/-- A kind that the log does not hold is new, and becomes its last one. -/
theorem enter_of_not_mem (h : a ∉ log.toList) : log.enter a = (true, ⟨log.toList ++ [a]⟩) := by
  have hinsert : log.insert a = ⟨log.toList ++ [a]⟩ :=
    AssetLog.ext ((toList_insert log a).trans (if_neg h))
  rw [enter, if_neg (mt contains_iff_mem.mp h), hinsert]

@[simp] theorem enter_snd (log : AssetLog) (a : Asset) : (log.enter a).2 = log.insert a := by
  by_cases h : a ∈ log.toList
  · rw [enter_of_mem h]
    exact AssetLog.ext ((toList_insert log a).trans (if_pos h)).symm
  · rw [enter, if_neg (mt contains_iff_mem.mp h)]

/-- A call enters its kinds one after the other. -/
theorem apply_eq_insertAll (log : AssetLog) (call : Call) :
    call.apply log = log.insertAll call.kinds := by
  cases call with
  | one a => exact enter_snd log a
  | many as => rfl

/-! ## All calls -/

theorem run_append (log : AssetLog) (calls more : List Call) :
    run log (calls ++ more) = run (run log calls) more :=
  List.foldl_append

/-- **Calls are one call** with all their kinds. -/
theorem run_eq_insertAll (log : AssetLog) (calls : List Call) :
    run log calls = log.insertAll (calls.flatMap Call.kinds) := by
  induction calls generalizing log with
  | nil => rfl
  | cons call calls ih =>
      calc run log (call :: calls)
        _ = run (call.apply log) calls := rfl
        _ = (log.insertAll call.kinds).insertAll (calls.flatMap Call.kinds) := by
          rw [ih, apply_eq_insertAll]
        _ = log.insertAll ((call :: calls).flatMap Call.kinds) := by
          rw [List.flatMap_cons, insertAll_append]

/-- What a log held stays in front. -/
theorem prefix_insertAll (log : AssetLog) (as : List Asset) :
    log.toList <+: (log.insertAll as).toList := by
  rw [toList_insertAll]
  exact List.prefix_append _ _

/-- A kind that the log holds is not repeated, and a new one is entered once. -/
theorem count_insert_le (log : AssetLog) (a b : Asset) :
    (log.insert a).toList.count b ≤ max 1 (log.toList.count b) := by
  rw [toList_insert]
  by_cases h : a ∈ log.toList
  · rw [if_pos h]
    exact Nat.le_max_right ..
  · rw [if_neg h, List.count_append]
    by_cases hab : a = b
    · rw [← hab, List.count_eq_zero_of_not_mem h, Nat.zero_add, List.count_singleton_self]
      exact Nat.le_max_left ..
    · rw [List.count_singleton, if_neg (by simpa using hab), Nat.add_zero]
      exact Nat.le_max_right ..

theorem count_insertAll_le (log : AssetLog) (as : List Asset) (b : Asset) :
    (log.insertAll as).toList.count b ≤ max 1 (log.toList.count b) := by
  induction as generalizing log with
  | nil => exact Nat.le_max_right ..
  | cons a as ih =>
      calc ((log.insert a).insertAll as).toList.count b
        _ ≤ max 1 ((log.insert a).toList.count b) := ih _
        _ ≤ max 1 (log.toList.count b) :=
          Nat.max_le.mpr ⟨Nat.le_max_left .., count_insert_le log a b⟩

/-- **A log after calls**, whatever it held before them. It holds what it held, and then the first
occurrences of the kinds of the calls that were new to it; so it holds just these kinds, and repeats
none more often than before. A next call with one kind tells whether the kind is not held yet: then
the kind becomes the last entry, and else nothing is changed. What the log holds stays in front of
what more calls enter, and two lists of kinds can be entered as one. -/
theorem toList_run_and_enter (log : AssetLog) (calls : List Call) :
    let kinds := calls.flatMap Call.kinds
    let found := run log calls
    found.toList = log.toList ++ (kinds.removeAll log.toList).eraseDups ∧
    (∀ a, found.contains a = true ↔ a ∈ log.toList ∨ a ∈ kinds) ∧
    (∀ a, found.toList.count a ≤ max 1 (log.toList.count a)) ∧
    (found.toList.Nodup ↔ log.toList.Nodup) ∧
    (∀ a, ((found.enter a).1 = true ↔ ¬found.contains a = true) ∧
      if found.contains a then (found.enter a).2 = found
      else (found.enter a).2.toList = found.toList ++ [a] ∧
        (found.enter a).2.size = found.size + 1) ∧
    (∀ more, found.toList <+: (run log (calls ++ more)).toList) ∧
    (∀ xs ys, (found.insertAll xs).insertAll ys = found.insertAll (xs ++ ys)) := by
  intro kinds found
  have hfound : found = log.insertAll kinds := run_eq_insertAll log calls
  refine ⟨?order, fun a => ?held, fun a => ?count, ⟨?before, ?after⟩, fun a => ?next,
    fun more => ?front, fun xs ys => (insertAll_append found xs ys).symm⟩
  case order => rw [hfound, toList_insertAll]
  case held => rw [contains_iff_mem, hfound, mem_insertAll]
  case count =>
    rw [hfound]
    exact count_insertAll_le log kinds a
  case before =>
    rw [hfound]
    exact (prefix_insertAll log kinds).sublist.nodup
  case after =>
    rw [hfound]
    exact fun h => nodup_insertAll h kinds
  case next =>
    by_cases h : a ∈ found.toList
    · have hheld := contains_iff_mem.mpr h
      rw [enter_of_mem h, if_pos hheld]
      exact ⟨by simp [hheld], rfl⟩
    · have hheld := mt contains_iff_mem.mp h
      rw [enter_of_not_mem h, if_neg hheld]
      exact ⟨by simp [hheld], rfl, List.length_append⟩
  case front =>
    rw [run_append, run_eq_insertAll found more]
    exact prefix_insertAll found _

/-- Two lists of kinds with a repetition between them. -/
example :
    (run empty [.many [.iconAssets, .lucideIcons], .many [.lucideIcons, .vectorIcons]]).toList =
      [.iconAssets, .lucideIcons, .vectorIcons] := by
  decide

end ScreenAtlas.AssetLog
