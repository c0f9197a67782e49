import Mathlib.Data.List.Infix
import ScreenAtlas.Pattern
/-!
# What a match captures

A capture takes a run of characters of its class and must not be empty, so whatever text a pattern
is tried on, it captures nothing else.

## Main definitions

* `Captures` — the runs that a pattern can capture.

## Main statements

* `captured_of_matchAt` — the captured run of a match.
* `exists_suffix_of_first?` — the place of the leftmost match.
-/
namespace ScreenAtlas

namespace Pattern

/-- A run of one of the pattern's captures, or nothing where it has none. -/
def Captures (p : Pattern) (captured : List Char) : Prop :=
  (captured = [] ∧ ∀ k, Item.capture k ∉ p) ∨
    ∃ k, Item.capture k ∈ p ∧ captured ≠ [] ∧ ∀ c ∈ captured, k.has c = true

theorem Captures.cons {p : Pattern} {captured : List Char} (h : Captures p captured) {item : Item}
    (hitem : ∀ k, item ≠ .capture k) : Captures (item :: p) captured := by
  obtain ⟨hnil, hnone⟩ | ⟨k, hk, hrest⟩ := h
  · refine .inl ⟨hnil, fun k hk => ?_⟩
    rcases List.mem_cons.mp hk with heq | hk
    · exact hitem k heq.symm
    · exact hnone k hk
  · exact .inr ⟨k, List.mem_cons_of_mem _ hk, hrest⟩

/-- **The captured run of a match.** -/
theorem captured_of_matchAt {p : Pattern} {s : List Char} {m : Match} (h : matchAt p s = some m) :
    Captures p m.captured := by
  induction p generalizing s m with
  | nil =>
      obtain rfl := Option.some.inj h
      exact .inl ⟨rfl, fun k => List.not_mem_nil⟩
  | cons item p ih =>
      cases item with
      | one k =>
          cases s with
          | nil => cases h
          | cons c s =>
              simp only [matchAt, Option.ite_none_right_eq_some, Option.map_eq_some_iff] at h
              obtain ⟨-, m', hm', rfl⟩ := h
              exact (ih hm').cons fun _ => Item.noConfusion
      | run k =>
          simp only [matchAt, Option.map_eq_some_iff] at h
          obtain ⟨m', hm', rfl⟩ := h
          exact (ih hm').cons fun _ => Item.noConfusion
      | run₁ k =>
          simp only [matchAt, Option.ite_none_left_eq_some, Option.map_eq_some_iff] at h
          obtain ⟨-, m', hm', rfl⟩ := h
          exact (ih hm').cons fun _ => Item.noConfusion
      | capture k =>
          simp only [matchAt, Option.ite_none_left_eq_some, Option.map_eq_some_iff] at h
          obtain ⟨hne, m', -, rfl⟩ := h
          refine .inr ⟨k, List.mem_cons_self, ?_, List.all_eq_true.mp List.all_takeWhile⟩
          simpa using hne

/-- The leftmost match is a match at some place of the text. -/
theorem exists_suffix_of_first? {p : Pattern} {s : List Char} {m : Match}
    (h : p.first? s = some m) : ∃ t, t <:+ s ∧ p.matchAt t = some m := by
  induction s with
  | nil => exact ⟨[], List.suffix_rfl, h⟩
  | cons c s ih =>
      rw [first?] at h
      cases hm : p.matchAt (c :: s) with
      | some m' =>
          rw [hm] at h
          exact ⟨c :: s, List.suffix_rfl, hm.trans h⟩
      | none =>
          rw [hm] at h
          obtain ⟨t, ht, hmatch⟩ := ih h
          exact ⟨t, ht.trans (List.suffix_cons c s), hmatch⟩

end Pattern

end ScreenAtlas
