import ScreenAtlas.Proofs.Pattern.Search
import ScreenAtlas.Proofs.Text.LineEnds
/-!
# Patterns and line ends

A pattern that treats the two characters of a line end alike, and starts with neither of them, finds
the same texts whether or not a carriage return stands in front of every line feed. The places are
not the same, and a match that ends with a line feed leaves that line feed to the rest if there is a
carriage return to take. But no match starts with a line end, so the search goes on alike.

## Main definitions

* `Pattern.steady` — the patterns that treat the characters of a line end alike.
* `Pattern.MatchesAlike` — a match in the one text and a match in the other.

## Main statements

* `matchAt_withReturns` — a match at one place.
* `captured_findAll_withReturns` — the matches that follow one another.
-/
namespace ScreenAtlas

open Text (withReturns)

namespace CharClass

variable {k : CharClass}

/-- The class has both characters of a line end, or neither. -/
def steady (k : CharClass) : Bool :=
  k.has '\r' == k.has '\n'

/-- The class has neither character of a line end. -/
def inLine (k : CharClass) : Bool :=
  !k.has '\r' && !k.has '\n'

theorem has_return_iff (h : k.steady = true) : k.has '\r' = true ↔ k.has '\n' = true := by
  rw [beq_iff_eq.mp h]

/-- A run is as long in the one text as in the other. -/
theorem span_withReturns (h : k.steady = true) (s : List Char) :
    (withReturns s).takeWhile k.has = withReturns (s.takeWhile k.has) ∧
    (withReturns s).dropWhile k.has = withReturns (s.dropWhile k.has) := by
  induction s with
  | nil => exact ⟨rfl, rfl⟩
  | cons c s ih =>
      by_cases hc : c = '\n'
      · subst hc
        rw [Text.withReturns_newline]
        by_cases hk : k.has '\n' = true
        · have hk' := (has_return_iff h).mpr hk
          simp only [List.takeWhile_cons_of_pos hk, List.takeWhile_cons_of_pos hk',
            List.dropWhile_cons_of_pos hk, List.dropWhile_cons_of_pos hk', ih,
            Text.withReturns_newline, and_self]
        · have hk' := (has_return_iff h).not.mpr hk
          simp only [List.takeWhile_cons_of_neg hk, List.takeWhile_cons_of_neg hk',
            List.dropWhile_cons_of_neg hk, List.dropWhile_cons_of_neg hk',
            Text.withReturns_newline, Text.withReturns_nil, and_self]
      · rw [Text.withReturns_cons hc]
        by_cases hk : k.has c = true
        · simp only [List.takeWhile_cons_of_pos hk, List.dropWhile_cons_of_pos hk, ih,
            Text.withReturns_cons hc, and_self]
        · simp only [List.takeWhile_cons_of_neg hk, List.dropWhile_cons_of_neg hk,
            Text.withReturns_cons hc, Text.withReturns_nil, and_self]

/-- Behind the longest run. -/
theorem drop_takeWhile (k : CharClass) (s : List Char) (n : Nat) :
    s.drop ((s.takeWhile k.has).length + n) = (s.dropWhile k.has).drop n := by
  calc s.drop ((s.takeWhile k.has).length + n)
      = (s.takeWhile k.has ++ s.dropWhile k.has).drop ((s.takeWhile k.has).length + n) := by
        rw [List.takeWhile_append_dropWhile]
    _ = (s.dropWhile k.has).drop n := List.drop_length_add_append n

end CharClass

namespace Item

variable {item : Item} {k : CharClass}

theorem takes_withReturns (hitem : item.run? = some k) (h : k.steady = true) {r : List Char} :
    item.Takes (withReturns r) ↔ item.Takes r := by
  have hrun : k.IsRun (withReturns r) ↔ k.IsRun r :=
    Text.forall_mem_withReturns_iff (CharClass.has_return_iff h)
  cases item <;> cases hitem
  case run => exact hrun
  case run₁ | capture => exact and_congr Text.withReturns_eq_nil_iff.not hrun

theorem reports_withReturns (item : Item) (r v : List Char) :
    item.reports (withReturns r) (withReturns v) = withReturns (item.reports r v) := by
  cases item <;> rfl

end Item

namespace Pattern

variable {p : Pattern} {s : List Char}

/-- Every class that may take a line end treats its two characters alike, and only the last item may
take one of the two alone. -/
def steady : Pattern → Bool
  | [] => true
  | .one k :: p => (k.inLine || k.steady && p.isEmpty) && steady p
  | .run k :: p | .run₁ k :: p | .capture k :: p => k.steady && steady p

/-- The pattern starts with one character, which is not that of a line end. -/
def startsInLine : Pattern → Bool
  | .one k :: _ => k.inLine
  | _ => false

/-! ## One place -/

/-- A match at the start of a text, and one where the text has carriage returns: they capture the
same, and at most a line feed is left over from the line end that the first one takes. -/
structure MatchesAlike (s : List Char) (m m' : Match) : Prop where
  captured : m'.captured = withReturns m.captured
  rest : (withReturns s).drop m'.length = withReturns (s.drop m.length) ∨
    (withReturns s).drop m'.length = '\n' :: withReturns (s.drop m.length)

theorem steady_run {item : Item} {k : CharClass} (hitem : item.run? = some k)
    (h : steady (item :: p) = true) : k.steady = true ∧ p.steady = true := by
  cases item <;> cases hitem <;> exact (Bool.and_eq_true _ _).mp h

theorem matchAt_run_of_takes {item : Item} {k : CharClass} (hitem : item.run? = some k)
    (h : item.Takes (s.takeWhile k.has)) : matchAt (item :: p) s =
      (matchAt p (s.dropWhile k.has)).map fun m => ⟨(s.takeWhile k.has).length + m.length,
        item.reports (s.takeWhile k.has) m.captured⟩ := by
  ext m
  rw [matchAt_run_eq_some_iff hitem, Option.map_eq_some_iff]
  simp only [h, true_and, eq_comm]

theorem matchAt_run_of_not_takes {item : Item} {k : CharClass} (hitem : item.run? = some k)
    (h : ¬item.Takes (s.takeWhile k.has)) : matchAt (item :: p) s = none := by
  refine Option.eq_none_iff_forall_ne_some.mpr fun m hm => ?_
  exact h ((matchAt_run_eq_some_iff hitem).mp hm).1

theorem rel_map {α β : Type} {r r' : α → β → Prop} {f : α → α} {g : β → β} {x : Option α}
    {y : Option β} (h : Option.Rel r x y) (hmap : ∀ {a b}, r a b → r' (f a) (g b)) :
    Option.Rel r' (x.map f) (y.map g) := by
  cases h with
  | some h => exact .some (hmap h)
  | none => exact .none

/-- One character, and the same one in a text with carriage returns. -/
theorem matchesAlike_after {t : List Char} {c : Char} (hc : c ≠ '\n') {m m' : Match}
    (h : MatchesAlike t m m') : MatchesAlike (c :: t) (m.after 1) (m'.after 1) := by
  refine ⟨h.captured, ?_⟩
  simpa only [Text.withReturns_cons hc, Match.after, Nat.add_comm 1, List.drop_succ_cons]
    using h.rest

/-- **A match at one place** is there with carriage returns as without them. -/
theorem matchAt_withReturns (hsteady : p.steady = true) (s : List Char) :
    Option.Rel (MatchesAlike s) (p.matchAt s) (p.matchAt (withReturns s)) := by
  induction p generalizing s with
  | nil => exact .some ⟨rfl, .inl rfl⟩
  | cons item p ih =>
      cases hitem : item.run? with
      | some k =>
          obtain ⟨hk, hp⟩ := steady_run hitem hsteady
          obtain ⟨htake, hdrop⟩ := CharClass.span_withReturns hk s
          have htakes := Item.takes_withReturns hitem hk (r := s.takeWhile k.has)
          by_cases h : item.Takes (s.takeWhile k.has)
          · rw [matchAt_run_of_takes hitem h,
              matchAt_run_of_takes hitem (s := withReturns s) (by rwa [htake, htakes]), hdrop]
            refine rel_map (ih hp (s.dropWhile k.has)) fun {m m'} hm => ⟨?_, ?_⟩
            · rw [hm.captured, htake, Item.reports_withReturns]
            · rw [CharClass.drop_takeWhile, CharClass.drop_takeWhile, hdrop]
              exact hm.rest
          · rw [matchAt_run_of_not_takes hitem h,
              matchAt_run_of_not_takes hitem (s := withReturns s) (by rwa [htake, htakes])]
            exact .none
      | none =>
          obtain ⟨k, rfl⟩ := Item.exists_eq_one hitem
          rw [steady, Bool.and_eq_true, Bool.or_eq_true, Bool.and_eq_true] at hsteady
          obtain ⟨hfirst, hp⟩ := hsteady
          cases s with
          | nil => exact .none
          | cons c t =>
              by_cases hc : c = '\n'
              · subst hc
                rw [Text.withReturns_newline, matchAt, matchAt]
                rcases hfirst with hinLine | ⟨hk, hlast⟩
                · simp only [CharClass.inLine, Bool.and_eq_true, Bool.not_eq_true'] at hinLine
                  rw [hinLine.1, hinLine.2]
                  exact .none
                · -- The last item takes the line feed, or the carriage return in front of it.
                  obtain rfl := List.isEmpty_iff.mp hlast
                  rw [CharClass.steady, beq_iff_eq] at hk
                  rw [hk]
                  split
                  · exact .some ⟨rfl, .inr rfl⟩
                  · exact .none
              · rw [Text.withReturns_cons hc, matchAt, matchAt]
                split
                · exact rel_map (ih hp t) fun hm => matchesAlike_after hc hm
                · exact .none

/-! ## Matches that follow one another -/

theorem exists_cons_of_startsInLine (h : p.startsInLine = true) :
    ∃ k q, p = .one k :: q ∧ k.has '\r' = false ∧ k.has '\n' = false := by
  cases p with
  | nil => cases h
  | cons item q =>
      cases item with
      | one k =>
          simp only [startsInLine, CharClass.inLine, Bool.and_eq_true, Bool.not_eq_true'] at h
          exact ⟨k, q, rfl, h⟩
      | run | run₁ | capture => cases h

theorem matchAt_return_or_newline (h : p.startsInLine = true) (t : List Char) :
    p.matchAt ('\r' :: t) = none ∧ p.matchAt ('\n' :: t) = none := by
  obtain ⟨k, q, rfl, hreturn, hnewline⟩ := exists_cons_of_startsInLine h
  rw [matchAt, matchAt, hreturn, hnewline]
  exact ⟨rfl, rfl⟩

theorem matchAt_nil_of_startsInLine (h : p.startsInLine = true) : p.matchAt [] = none := by
  obtain ⟨k, q, rfl, -⟩ := exists_cons_of_startsInLine h
  rfl

theorem length_pos_of_startsInLine (h : p.startsInLine = true) {m : Match}
    (hm : p.matchAt s = some m) : 0 < m.length := by
  obtain ⟨k, q, rfl, -⟩ := exists_cons_of_startsInLine h
  obtain ⟨c, t, m', -, -, -, rfl⟩ := matchAt_one_eq_some_iff.mp hm
  exact Nat.lt_of_lt_of_le Nat.one_pos (Nat.le_add_right 1 m'.length)

/-- **The matches that follow one another** capture the same with carriage returns as without
them. -/
theorem captured_findAll_withReturns (hsteady : p.steady = true) (hstarts : p.startsInLine = true)
    (s : List Char) : (p.findAll (withReturns s)).map (·.captured) =
      (p.findAll s).map fun m => withReturns m.captured := by
  have hline : ∀ t, p.findAll ('\n' :: t) = p.findAll t ∧ p.findAll ('\r' :: t) = p.findAll t :=
    fun t => ⟨findAll_cons_of_none (matchAt_return_or_newline hstarts t).2,
      findAll_cons_of_none (matchAt_return_or_newline hstarts t).1⟩
  induction hn : s.length using Nat.strong_induction_on generalizing s with
  | h n ih =>
      cases s with
      | nil => rw [Text.withReturns_nil, findAll_nil, List.map_nil, List.map_nil]
      | cons c t =>
          rw [List.length_cons] at hn
          have ht := ih t.length (by omega) t rfl
          by_cases hc : c = '\n'
          · subst hc
            rw [Text.withReturns_newline, (hline _).2, (hline _).1, (hline _).1, ht]
          · have hrel := matchAt_withReturns hsteady (c :: t)
            generalize hm : p.matchAt (c :: t) = first, hm' : p.matchAt (withReturns (c :: t)) =
              first' at hrel
            cases hrel with
            | none =>
                rw [Text.withReturns_cons hc] at hm' ⊢
                rw [findAll_cons_of_none hm, findAll_cons_of_none hm', ht]
            | @some m m' halike =>
                have hpos := length_pos_of_startsInLine hstarts hm
                have hrest := ih ((c :: t).drop m.length).length
                  (by rw [List.length_drop, List.length_cons]; omega) _ rfl
                rw [findAll_of_some hm hpos,
                  findAll_of_some hm' (length_pos_of_startsInLine hstarts hm'), List.map_cons,
                  List.map_cons, halike.captured, ← hrest]
                rcases halike.rest with h | h
                · rw [h]
                · rw [h, (hline _).1]

/-- The leftmost match is the first of those that follow one another. -/
theorem first?_eq_head? (hnil : p.matchAt [] = none) (s : List Char) :
    p.first? s = (p.findAll s).head? := by
  induction s with
  | nil => rw [first?, hnil, findAll_nil, List.head?_nil]
  | cons c s ih =>
      rw [first?]
      cases hm : p.matchAt (c :: s) with
      | none => rw [findAll_cons_of_none hm, ih]
      | some m => rw [findAll, findFrom, hm, List.head?_cons]

variable (hsteady : p.steady = true) (hstarts : p.startsInLine = true)

include hsteady hstarts

theorem captured_first?_withReturns (s : List Char) :
    (p.first? (withReturns s)).map (·.captured) =
      (p.first? s).map fun m => withReturns m.captured := by
  have hnil := matchAt_nil_of_startsInLine hstarts
  rw [first?_eq_head? hnil, first?_eq_head? hnil, ← List.head?_map, ← List.head?_map,
    captured_findAll_withReturns hsteady hstarts]

theorem occursIn_withReturns (s : List Char) : p.occursIn (withReturns s) = p.occursIn s := by
  have hfirst := congrArg Option.isSome (captured_first?_withReturns hsteady hstarts s)
  rwa [Option.isSome_map, Option.isSome_map] at hfirst

theorem count_withReturns (s : List Char) : p.count (withReturns s) = p.count s := by
  have hlength := congrArg List.length (captured_findAll_withReturns hsteady hstarts s)
  rwa [List.length_map, List.length_map] at hlength

end Pattern

end ScreenAtlas
