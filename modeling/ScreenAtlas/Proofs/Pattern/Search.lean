import Mathlib.Tactic.Common
import ScreenAtlas.Proofs.Pattern.Spelling
/-!
# Where a pattern is found

A search goes from left to right. It finds the leftmost text of the pattern, and all of them by
going on behind the one that was found last.

## Main definitions

* `Form` — texts of some form, each with a value.
* `Form.Successive` — the values of the texts that are found one behind the other.

## Main statements

* `first?_eq_none_iff_not_occursIn`, `first?_eq_some_iff` — the leftmost match.
* `successive_iff` — the matches that follow one another.
-/
namespace ScreenAtlas

/-! ## Forms of text -/

/-- A form of text: the texts that have it, each with a value that is read off. -/
abbrev Form := List Char → List Char → Prop

namespace Form

/-- Some text of the form stands in the text. -/
def OccursIn (form : Form) (s : List Char) : Prop :=
  ∃ front w rest v, s = front ++ w ++ rest ∧ form w v

/-- No text of the form starts at one of the first `n` places. -/
def FreeBefore (form : Form) (n : Nat) (s : List Char) : Prop :=
  ∀ front w rest v, s = front ++ w ++ rest → form w v → n ≤ front.length

/-- The values of the texts of the form that are found one behind the other: the leftmost one, then
the leftmost one behind its end, until there is no further one. -/
inductive Successive (form : Form) : List Char → List (List Char) → Prop
  | none {s : List Char} : ¬form.OccursIn s → Successive form s []
  | next {front w rest v : List Char} {vs : List (List Char)} :
      form w v → form.FreeBefore front.length (front ++ w ++ rest) → Successive form rest vs →
      Successive form (front ++ w ++ rest) (v :: vs)

/-- Each of the values is that of a text that stands in the text. -/
theorem Successive.exists_of_mem {form : Form} {s v : List Char} {vs : List (List Char)}
    (h : form.Successive s vs) (hv : v ∈ vs) :
    ∃ front w rest, s = front ++ w ++ rest ∧ form w v := by
  induction h with
  | none => cases hv
  | @next front w rest v' vs hw _ _ ih =>
      rcases List.mem_cons.mp hv with rfl | hv
      · exact ⟨front, w, rest, rfl, hw⟩
      · obtain ⟨front', w', rest', rfl, hw'⟩ := ih hv
        exact ⟨front ++ w ++ front', w', rest', by simp, hw'⟩

end Form

namespace Pattern

variable {p : Pattern} {s : List Char} {m : Match}

/-! ## Places -/

/-- The pattern is matched at none of the first `n` places. -/
def MissesBefore (p : Pattern) (n : Nat) (s : List Char) : Prop :=
  ∀ i < n, p.matchAt (s.drop i) = none

theorem missesBefore_succ {n : Nat} {c : Char} : p.MissesBefore (n + 1) (c :: s) ↔
    p.matchAt (c :: s) = none ∧ p.MissesBefore n s := by
  constructor
  · exact fun h => ⟨h 0 n.succ_pos, fun i hi => h (i + 1) (Nat.succ_lt_succ hi)⟩
  · rintro ⟨hhead, htail⟩ (_ | i) hi
    · exact hhead
    · exact htail i (Nat.lt_of_succ_lt_succ hi)

/-- The places in front of some rest of the text, seen by the texts that start there. -/
theorem missesBefore_iff_freeBefore (hfirm : p.firm = true) {n : Nat} :
    p.MissesBefore n s ↔ Form.FreeBefore p.Spells n s := by
  constructor
  · intro h front w rest v hs hw
    by_contra hlt
    have hnone := h front.length (Nat.lt_of_not_le hlt)
    rw [hs, List.append_assoc, List.drop_left] at hnone
    exact (matchAt_eq_none_iff hfirm).mp hnone w rest v rfl hw
  · intro h i hi
    refine (matchAt_eq_none_iff hfirm).mpr fun w rest v hs hw => ?_
    have hle := h (s.take i) w rest v (by rw [List.append_assoc, ← hs, List.take_append_drop]) hw
    rw [List.length_take] at hle
    omega

theorem missesBefore_iff_not_occursIn (hfirm : p.firm = true) :
    p.MissesBefore (s.length + 1) s ↔ ¬Form.OccursIn p.Spells s := by
  rw [missesBefore_iff_freeBefore hfirm]
  constructor
  · rintro h ⟨front, w, rest, v, rfl, hw⟩
    have hle := h front w rest v rfl hw
    simp only [List.length_append] at hle
    omega
  · intro h front w rest v hs hw
    exact absurd ⟨front, w, rest, v, hs, hw⟩ h

/-! ## The leftmost match -/

theorem first?_eq_none_iff : p.first? s = none ↔ p.MissesBefore (s.length + 1) s := by
  induction s with
  | nil => simp [first?, MissesBefore]
  | cons c s ih =>
      rw [List.length_cons, missesBefore_succ, ← ih, first?]
      cases p.matchAt (c :: s) <;> simp

/-- The leftmost match by places. -/
theorem first?_eq_some_iff_places : p.first? s = some m ↔
    ∃ front t, s = front ++ t ∧ p.matchAt t = some m ∧ p.MissesBefore front.length s := by
  induction s with
  | nil => simp [first?, MissesBefore]
  | cons c s ih =>
      rw [first?]
      cases hm : p.matchAt (c :: s) with
      | some m' =>
          constructor
          · intro h
            exact ⟨[], c :: s, rfl, hm.trans h, fun i hi => absurd hi i.not_lt_zero⟩
          · rintro ⟨front, t, hs, ht, hmiss⟩
            cases front with
            | nil =>
                obtain rfl : t = c :: s := hs.symm
                exact hm.symm.trans ht
            | cons d front =>
                rw [(missesBefore_succ.mp hmiss).1] at hm
                cases hm
      | none =>
          refine ih.trans ⟨?_, ?_⟩
          · rintro ⟨front, t, rfl, ht, hmiss⟩
            exact ⟨c :: front, t, rfl, ht, missesBefore_succ.mpr ⟨hm, hmiss⟩⟩
          · rintro ⟨front, t, hs, ht, hmiss⟩
            cases front with
            | nil =>
                obtain rfl : t = c :: s := hs.symm
                rw [ht] at hm
                cases hm
            | cons d front =>
                obtain ⟨rfl, rfl⟩ := List.cons.inj hs
                exact ⟨front, t, rfl, ht, (missesBefore_succ.mp hmiss).2⟩

/-- **Nothing is found** exactly where no text of the pattern stands in the text. -/
theorem first?_eq_none_iff_not_occursIn (hfirm : p.firm = true) :
    p.first? s = none ↔ ¬Form.OccursIn p.Spells s :=
  first?_eq_none_iff.trans (missesBefore_iff_not_occursIn hfirm)

theorem occursIn_iff (hfirm : p.firm = true) :
    p.occursIn s = true ↔ Form.OccursIn p.Spells s := by
  rw [occursIn, Option.isSome_iff_ne_none, ne_eq, first?_eq_none_iff_not_occursIn hfirm, not_not]

/-- **The leftmost match**: at the first place where a text of the pattern starts, the one whose
last run stops. -/
theorem first?_eq_some_iff (hfirm : p.firm = true) : p.first? s = some m ↔
    ∃ front w rest, s = front ++ w ++ rest ∧ m.length = w.length ∧ p.Spells w m.captured ∧
      p.Ends rest ∧ Form.FreeBefore p.Spells front.length s := by
  rw [first?_eq_some_iff_places]
  constructor
  · rintro ⟨front, t, rfl, ht, hmiss⟩
    obtain ⟨w, rest, rfl, hlength, hw, hends⟩ := spells_of_matchAt ht
    refine ⟨front, w, rest, (List.append_assoc ..).symm, hlength, hw, hends, ?_⟩
    exact (missesBefore_iff_freeBefore hfirm).mp hmiss
  · rintro ⟨front, w, rest, rfl, hlength, hw, hends, hfree⟩
    refine ⟨front, w ++ rest, List.append_assoc .., ?_, ?_⟩
    · exact (matchAt_eq_some_iff hfirm).mpr ⟨w, rest, rfl, hlength, hw, hends⟩
    · exact (missesBefore_iff_freeBefore hfirm).mpr hfree

/-! ## Matches that follow one another -/

theorem findFrom_eq (n : Nat) (s : List Char) : p.findFrom n s = p.findAll (s.drop n) := by
  induction s generalizing n with
  | nil => simp [findAll, findFrom]
  | cons c s ih =>
      cases n with
      | zero => rfl
      | succ n => rw [findFrom, ih, List.drop_succ_cons]

theorem findAll_nil : p.findAll [] = [] := by
  rw [findAll, findFrom]

theorem findAll_cons_of_none {c : Char} (h : p.matchAt (c :: s) = none) :
    p.findAll (c :: s) = p.findAll s := by
  rw [findAll, findFrom, h, findAll]

theorem findAll_of_some (hm : p.matchAt s = some m) (hpos : 0 < m.length) :
    p.findAll s = m :: p.findAll (s.drop m.length) := by
  cases s with
  | nil =>
      obtain ⟨w, rest, hs, hlength, -⟩ := spells_of_matchAt hm
      obtain ⟨rfl, -⟩ := List.append_eq_nil_iff.mp hs.symm
      exact absurd hpos (by simp [hlength])
  | cons c s =>
      obtain ⟨n, hn⟩ := Nat.exists_eq_succ_of_ne_zero hpos.ne'
      rw [findAll, findFrom, hm]
      simp only [findFrom_eq, hn, Nat.succ_eq_add_one, Nat.add_sub_cancel, List.drop_succ_cons]

/-- A search goes past the places where nothing is matched. -/
theorem findAll_append {front t : List Char} (h : p.MissesBefore front.length (front ++ t)) :
    p.findAll (front ++ t) = p.findAll t := by
  induction front with
  | nil => rfl
  | cons c front ih =>
      obtain ⟨hhead, htail⟩ := missesBefore_succ.mp h
      exact (findAll_cons_of_none hhead).trans (ih htail)

theorem findAll_of_first?_eq_none (h : p.first? s = none) : p.findAll s = [] := by
  have hmiss : p.MissesBefore s.length (s ++ []) := by
    rw [List.append_nil]
    exact fun i hi => first?_eq_none_iff.mp h i (Nat.lt_succ_of_lt hi)
  simpa [findAll_nil] using findAll_append hmiss

theorem length_pos_of_matchAt (hnil : p.matchAt [] = none) (hm : p.matchAt s = some m)
    (hfirm : p.firm = true) : 0 < m.length := by
  obtain ⟨w, rest, rfl, hlength, hw, -⟩ := spells_of_matchAt hm
  rw [hlength, List.length_pos_iff]
  rintro rfl
  exact (matchAt_eq_none_iff hfirm).mp hnil [] [] _ rfl hw

/-- **The matches that follow one another** capture the values of the texts that are found one
behind the other, if the pattern determines where its texts end. -/
theorem successive_iff (hfirm : p.firm = true) (hlast : p.lastRun? = none)
    (hnil : p.matchAt [] = none) {vs : List (List Char)} :
    Form.Successive p.Spells s vs ↔ vs = (p.findAll s).map (·.captured) := by
  have hends : ∀ rest, p.Ends rest := fun rest k hk => by rw [hlast] at hk; cases hk
  constructor
  · intro h
    induction h with
    | none h => rw [findAll_of_first?_eq_none ((first?_eq_none_iff_not_occursIn hfirm).mpr h),
        List.map_nil]
    | @next front w rest v vs hw hfree _ ih =>
        have hm := matchAt_append hfirm hw (hends rest)
        have hmiss := (missesBefore_iff_freeBefore hfirm).mpr hfree
        rw [List.append_assoc] at hmiss ⊢
        rw [findAll_append hmiss, findAll_of_some hm (length_pos_of_matchAt hnil hm hfirm),
          List.drop_left, List.map_cons, ih]
  · rintro rfl
    induction hn : s.length using Nat.strong_induction_on generalizing s with
    | h n ih =>
        cases hfirst : p.first? s with
        | none =>
            rw [findAll_of_first?_eq_none hfirst]
            exact .none ((first?_eq_none_iff_not_occursIn hfirm).mp hfirst)
        | some m =>
            obtain ⟨front, t, rfl, hm, hmiss⟩ := first?_eq_some_iff_places.mp hfirst
            have hpos := length_pos_of_matchAt hnil hm hfirm
            obtain ⟨w, rest, rfl, hlength, hw, -⟩ := spells_of_matchAt hm
            rw [findAll_append hmiss, findAll_of_some hm hpos, hlength, List.drop_left,
              List.map_cons, ← List.append_assoc]
            refine .next hw ?_ (ih rest.length ?_ rfl)
            · rw [List.append_assoc]
              exact (missesBefore_iff_freeBefore hfirm).mp hmiss
            · simp only [List.length_append] at hn
              omega

end Pattern

end ScreenAtlas
