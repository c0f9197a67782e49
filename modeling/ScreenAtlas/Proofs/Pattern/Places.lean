import Mathlib.Data.Nat.Count
import ScreenAtlas.Checklist
import ScreenAtlas.Proofs.Pattern.Search
/-!
# Counting the places of a pattern

A search goes on behind what it has found, so it could pass over a place where the pattern is
matched too. It does not where no text of the pattern overlaps another one, which two patterns of
fixed length show by a character that cannot be both. The same test tells that two patterns are
never matched at one place.

## Main definitions

* `Text.countPlaces` — the places of a text with a property.
* `Pattern.clashes` — two patterns that are never matched at one place.
* `Pattern.lapless` — the patterns that do not overlap themselves.
* `Rule.IsPlaced` — the rules none of whose texts overlap.

## Main statements

* `count_eq_countPlaces` — the matches of a pattern are the places where it is matched.
* `Rule.count_eq_countPlaces` — the same of a whole rule.
* `Rule.occursIn_iff_count_pos` — a rule occurs exactly where it is counted.
-/
namespace ScreenAtlas

/-! ## Places of a text -/

namespace Text

variable {P Q : List Char → Prop} [DecidablePred P] [DecidablePred Q]

/-- The number of places of the text from which on it has the property. -/
def countPlaces (P : List Char → Prop) [DecidablePred P] (s : List Char) : Nat :=
  Nat.count (fun i => P (s.drop i)) s.length

@[simp] theorem countPlaces_nil : countPlaces P [] = 0 := rfl

theorem countPlaces_cons (c : Char) (s : List Char) :
    countPlaces P (c :: s) = countPlaces P s + if P (c :: s) then 1 else 0 :=
  Nat.count_succ' ..

theorem countPlaces_congr (h : ∀ t, P t ↔ Q t) (s : List Char) :
    countPlaces P s = countPlaces Q s := by
  induction s with
  | nil => rfl
  | cons c s ih => simp only [countPlaces_cons, ih, h]

theorem countPlaces_false (s : List Char) : countPlaces (fun _ => False) s = 0 := by
  induction s with
  | nil => rfl
  | cons c s ih => rw [countPlaces_cons, ih, if_neg not_false]

/-- Two properties that never hold at one place. -/
theorem countPlaces_or (h : ∀ t, P t → ¬Q t) (s : List Char) :
    countPlaces (fun t => P t ∨ Q t) s = countPlaces P s + countPlaces Q s := by
  induction s with
  | nil => rfl
  | cons c s ih =>
      simp only [countPlaces_cons, ih]
      by_cases hP : P (c :: s)
      · simp only [hP, h _ hP, true_or, if_true, if_false]
        omega
      · simp only [hP, false_or, if_false]
        omega

end Text

namespace Pattern

variable {p q : Pattern} {s : List Char} {m : Match}

/-! ## Patterns without runs -/

/-- The pattern takes one character with each item. -/
def fixed (p : Pattern) : Bool :=
  p.all fun item => item.run?.isNone

theorem fixed_cons {item : Item} : fixed (item :: p) = true ↔
    (∃ k, item = .one k) ∧ p.fixed = true := by
  rw [fixed, List.all_cons, Bool.and_eq_true, Option.isNone_iff_eq_none, fixed]
  refine and_congr_left fun _ => ⟨Item.exists_eq_one, ?_⟩
  rintro ⟨k, rfl⟩
  rfl

/-- Without runs there is nothing to be cut off. -/
theorem firm_of_fixed (h : p.fixed = true) : p.firm = true := by
  induction p with
  | nil => rfl
  | cons item p ih =>
      obtain ⟨⟨k, rfl⟩, hp⟩ := fixed_cons.mp h
      exact ih hp

theorem fixed_lit_append {a : String} (h : p.fixed = true) : fixed (lit a ++ p) = true := by
  rw [lit]
  induction a.toList with
  | nil => exact h
  | cons c cs ih => exact fixed_cons.mpr ⟨⟨_, rfl⟩, ih⟩

/-- A pattern without runs is matched where one of its texts starts. -/
theorem isSome_matchAt_iff (hfixed : p.fixed = true) :
    (p.matchAt s).isSome = true ↔ ∃ w rest v, s = w ++ rest ∧ p.Spells w v := by
  rw [Option.isSome_iff_ne_none, ne_eq, matchAt_eq_none_iff (firm_of_fixed hfixed)]
  push Not
  rfl

theorem isSome_matchAt_lit {a : String} : ((lit a).matchAt s).isSome = true ↔ a.toList <+: s := by
  have hfixed : (lit a ++ []).fixed = true := fixed_lit_append rfl
  rw [List.append_nil] at hfixed
  rw [isSome_matchAt_iff hfixed]
  constructor
  · rintro ⟨w, rest, v, rfl, hw⟩
    obtain ⟨rfl, -⟩ := spells_lit.mp hw
    exact ⟨rest, rfl⟩
  · rintro ⟨rest, rfl⟩
    exact ⟨a.toList, rest, [], rfl, spells_lit.mpr ⟨rfl, rfl⟩⟩

/-! ## Patterns that do not overlap -/

/-- Some character, at a place that both patterns fix, cannot be of both. -/
def clashes : Pattern → Pattern → Bool
  | .one k :: p, .one k' :: q => k.apart k' || clashes p q
  | _, _ => false

/-- The pattern, moved to a later place within itself, clashes with itself. -/
def lapless (p : Pattern) : Bool :=
  p.fixed && (List.range p.length).all fun i => i == 0 || clashes (p.drop i) p

/-- Patterns that clash are not matched at one place. -/
theorem matchAt_eq_none_of_clashes (h : clashes p q = true) (hp : p.matchAt s = some m) :
    q.matchAt s = none := by
  fun_induction clashes p q generalizing s m with
  | case1 k p k' q ih =>
      obtain ⟨c, t, m', rfl, hc, hm', -⟩ := matchAt_one_eq_some_iff.mp hp
      refine Option.eq_none_iff_forall_ne_some.mpr fun m'' hq => ?_
      obtain ⟨c', t', m₂, heq, hc', hm₂, -⟩ := matchAt_one_eq_some_iff.mp hq
      obtain ⟨rfl, rfl⟩ := List.cons.inj heq
      rcases Bool.or_eq_true_iff.mp h with hapart | hclash
      · rw [CharClass.not_has_of_apart hapart hc] at hc'
        cases hc'
      · rw [ih hclash hm'] at hm₂
        cases hm₂
  | case2 => cases h

/-- A match of a fixed pattern goes on with matches of what is left of the pattern. -/
theorem matchAt_drop (hfixed : p.fixed = true) (hm : p.matchAt s = some m) :
    m.length = p.length ∧ ∀ i ≤ p.length, ∃ m', matchAt (p.drop i) (s.drop i) = some m' := by
  induction p generalizing s m with
  | nil =>
      obtain rfl := Option.some.inj hm
      exact ⟨rfl, fun i _ => ⟨⟨0, []⟩, by rw [List.drop_nil]; rfl⟩⟩
  | cons item p ih =>
      obtain ⟨⟨k, rfl⟩, hfixed⟩ := fixed_cons.mp hfixed
      obtain ⟨c, t, m', rfl, -, hm', rfl⟩ := matchAt_one_eq_some_iff.mp hm
      obtain ⟨hlength, hrest⟩ := ih hfixed hm'
      refine ⟨by simp [Match.after, hlength, Nat.add_comm], fun i hi => ?_⟩
      cases i with
      | zero => exact ⟨_, hm⟩
      | succ i => exact hrest i (Nat.le_of_succ_le_succ hi)

/-- No match starts within a match of a pattern that does not overlap itself. -/
theorem matchAt_drop_eq_none (hlapless : p.lapless = true) (hm : p.matchAt s = some m) {i : Nat}
    (hpos : 0 < i) (hi : i < m.length) : p.matchAt (s.drop i) = none := by
  rw [lapless, Bool.and_eq_true] at hlapless
  obtain ⟨hlength, hrest⟩ := matchAt_drop hlapless.1 hm
  rw [hlength] at hi
  obtain ⟨m', hm'⟩ := hrest i hi.le
  have hclash := List.all_eq_true.mp hlapless.2 i (List.mem_range.mpr hi)
  rw [Bool.or_eq_true, beq_iff_eq] at hclash
  exact matchAt_eq_none_of_clashes (hclash.resolve_left hpos.ne') hm'

/-! ## Counts -/

theorem length_findFrom (hlapless : p.lapless = true) {n : Nat} (h : p.MissesBefore n s) :
    (p.findFrom n s).length = Text.countPlaces (fun t => (p.matchAt t).isSome = true) s := by
  induction s generalizing n with
  | nil => rw [findFrom, List.length_nil, Text.countPlaces_nil]
  | cons c s ih =>
      rw [Text.countPlaces_cons]
      cases n with
      | succ n =>
          obtain ⟨hhead, htail⟩ := missesBefore_succ.mp h
          rw [findFrom, ih htail, hhead]
          simp
      | zero =>
          cases hm : p.matchAt (c :: s) with
          | none =>
              rw [findFrom, hm]
              simpa using ih fun i hi => absurd hi i.not_lt_zero
          | some m =>
              have hmiss : p.MissesBefore (m.length - 1) s := fun i hi =>
                matchAt_drop_eq_none hlapless hm i.succ_pos (by omega)
              rw [findFrom, hm]
              simpa using ih hmiss

/-- **The matches of a pattern** that does not overlap itself are the places where it is matched. -/
theorem count_eq_countPlaces (hlapless : p.lapless = true) (s : List Char) :
    p.count s = Text.countPlaces (fun t => (p.matchAt t).isSome = true) s :=
  length_findFrom hlapless fun i hi => absurd hi i.not_lt_zero

/-- A pattern occurs exactly where it is counted. -/
theorem occursIn_iff_count_pos (hnil : p.matchAt [] = none) :
    p.occursIn s = true ↔ 0 < p.count s := by
  rw [occursIn, count, List.length_pos_iff]
  constructor
  · intro h
    obtain ⟨m, hm⟩ := Option.isSome_iff_exists.mp h
    obtain ⟨front, t, rfl, ht, hmiss⟩ := first?_eq_some_iff_places.mp hm
    rw [findAll_append hmiss]
    cases t with
    | nil =>
        rw [hnil] at ht
        cases ht
    | cons c t =>
        rw [findAll, findFrom, ht]
        exact List.cons_ne_nil _ _
  · intro h
    by_contra hfirst
    exact h (findAll_of_first?_eq_none (Option.not_isSome_iff_eq_none.mp hfirst))

end Pattern

/-! ## Rules -/

namespace Rule

variable {κ : Type} {r : Rule κ} {s : List Char}

/-- None of the texts of a rule overlap, and no two of its patterns are matched at one place. -/
structure IsPlaced (r : Rule κ) : Prop where
  lapless : ∀ p ∈ r.patterns, p.lapless = true
  clashes : r.patterns.Pairwise fun p q => Pattern.clashes p q = true

/-- **The count of a rule** none of whose texts overlap: the places where one of its patterns is
matched. -/
theorem count_eq_countPlaces (h : r.IsPlaced) (s : List Char) :
    r.count s = Text.countPlaces (fun t => ∃ p ∈ r.patterns, (p.matchAt t).isSome = true) s := by
  obtain ⟨hlapless, hclashes⟩ := h
  rw [count]
  generalize r.patterns = patterns at hlapless hclashes ⊢
  induction patterns with
  | nil => simpa using (Text.countPlaces_false s).symm
  | cons p ps ih =>
      obtain ⟨hp, hps⟩ := List.forall_mem_cons.mp hlapless
      obtain ⟨hclash, hclashes⟩ := List.pairwise_cons.mp hclashes
      have hapart : ∀ t, (p.matchAt t).isSome = true → ¬∃ q ∈ ps, (q.matchAt t).isSome = true := by
        rintro t ht ⟨q, hq, hqt⟩
        obtain ⟨m, hm⟩ := Option.isSome_iff_exists.mp ht
        rw [Pattern.matchAt_eq_none_of_clashes (hclash q hq) hm] at hqt
        cases hqt
      have hsplit : ∀ t, (∃ q ∈ p :: ps, (q.matchAt t).isSome = true) ↔
          (p.matchAt t).isSome = true ∨ ∃ q ∈ ps, (q.matchAt t).isSome = true :=
        fun t => List.exists_mem_cons_iff ..
      rw [List.map_cons, List.foldr_cons, ih hps hclashes, Pattern.count_eq_countPlaces hp,
        ← Text.countPlaces_or hapart, Text.countPlaces_congr hsplit]

/-- **A rule occurs exactly where it is counted**, if no pattern of it is matched by an empty
text. -/
theorem occursIn_iff_count_pos (hnil : ∀ p ∈ r.patterns, p.matchAt [] = none) :
    r.occursIn s = true ↔ 0 < r.count s := by
  rw [occursIn, List.any_eq_true, count, ← List.sum_eq_foldr, List.sum_pos_iff_exists_pos_nat]
  simp only [List.mem_map, exists_exists_and_eq_and]
  exact exists_congr fun p => and_congr_right fun hp => Pattern.occursIn_iff_count_pos (hnil p hp)

end Rule

end ScreenAtlas
