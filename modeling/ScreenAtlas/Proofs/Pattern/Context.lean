import Mathlib.Algebra.Ring.Nat
import ScreenAtlas.Proofs.Pattern.Places
/-!
# Patterns in a longer text

What is found in a text is found as well where more text stands around it. Matches that follow one
another are not as robust as single ones: a text of the pattern that the end of the text has cut off
could be completed, and hide what was found behind its start. It hides nothing if no text of the
pattern stands in front of the end of another one.

A line feed that ends a text keeps what stands in front of it from what stands behind it, if a
pattern takes line feeds with its last character only. A character of the next line completes
nothing then, so the places of two texts add up.

## Main definitions

* `Form.EndsLast` — the forms whose texts stand in one another at the end only.
* `Text.IsLines` — the texts made of whole lines.
* `Pattern.endsInLine` — the patterns that take line feeds with their last character only.

## Main statements

* `Pattern.captured_findAll_append` — the matches that follow one another.
* `Rule.occursIn_around`, `Rule.count_le_around` — a rule with more text around.
* `Rule.count_append`, `Rule.count_flatten` — the counts of whole lines add up.
-/
namespace ScreenAtlas

/-! ## Forms -/

namespace Form

variable {form : Form} {s front w rest v : List Char}

theorem OccursIn.around (h : form.OccursIn s) (front rest : List Char) :
    form.OccursIn (front ++ s ++ rest) := by
  obtain ⟨front', w, rest', v, rfl, hw⟩ := h
  exact ⟨front ++ front', w, rest' ++ rest, v, by simp, hw⟩

/-- A text of the form that stands in another one ends where that one ends. -/
def EndsLast (form : Form) : Prop :=
  ∀ {a w b v v' : List Char}, form w v → form (a ++ w ++ b) v' → b = []

/-- What follows a text of the form completes no other one that starts in front of it. -/
theorem FreeBefore.append (hform : form.EndsLast) (hw : form w v)
    (hfree : form.FreeBefore front.length (front ++ w ++ rest)) (more : List Char) :
    form.FreeBefore front.length (front ++ w ++ (rest ++ more)) := by
  intro front' w' rest' v' hs hw'
  by_contra hlt
  have hwithin : front' ++ w' <+: front ++ w ++ rest := by
    have hlong : front ++ w ++ rest <+: front ++ w ++ (rest ++ more) := ⟨more, by simp⟩
    have hend : front' ++ w' <+: front ++ w ++ (rest ++ more) := ⟨rest', hs.symm⟩
    rcases List.prefix_or_prefix_of_prefix hend hlong with hwithin | hbeyond
    · exact hwithin
    · -- It would go on behind the first text, which it holds then.
      obtain ⟨b, hb⟩ := hbeyond
      have hfront : front <+: front' ++ w' := ⟨w ++ rest ++ b, by simpa using hb⟩
      have hstart : front' <+: front :=
        List.prefix_of_prefix_length_le (List.prefix_append front' w') hfront
          (Nat.le_of_not_le hlt)
      obtain ⟨a, rfl⟩ := hstart
      have hw'_eq : w' = a ++ w ++ (rest ++ b) := by simpa using hb.symm
      obtain ⟨rfl, rfl⟩ := List.append_eq_nil_iff.mp (hform hw (hw'_eq ▸ hw'))
      exact ⟨[], by simp [hw'_eq]⟩
  obtain ⟨rest'', hrest⟩ := hwithin
  exact hlt (hfree front' w' rest'' v' hrest.symm hw')

end Form

/-! ## Places -/

namespace Text

variable {P : List Char → Prop} [DecidablePred P] {s t : List Char}

/-- More text around adds to the places only. -/
theorem countPlaces_le_around (s front rest : List Char) (h : ∀ t, P t → P (t ++ rest)) :
    countPlaces P s ≤ countPlaces P (front ++ s ++ rest) := by
  induction front with
  | nil =>
      rw [List.nil_append]
      induction s with
      | nil => exact Nat.zero_le _
      | cons c s ih =>
          rw [List.cons_append, countPlaces_cons, countPlaces_cons]
          by_cases hP : P (c :: s)
          · have hP' : P (c :: (s ++ rest)) := h (c :: s) hP
            rw [if_pos hP, if_pos hP']
            omega
          · rw [if_neg hP]
            omega
  | cons c front ih =>
      rw [List.cons_append, List.cons_append, countPlaces_cons]
      omega

/-- The places of two texts add up if none of the first depends on the second. -/
theorem countPlaces_append (h : ∀ u, u ≠ [] → u <:+ s → (P (u ++ t) ↔ P u)) :
    countPlaces P (s ++ t) = countPlaces P s + countPlaces P t := by
  induction s with
  | nil => simp
  | cons c s ih =>
      have hhead := h (c :: s) (List.cons_ne_nil c s) List.suffix_rfl
      rw [List.cons_append] at hhead
      rw [List.cons_append, countPlaces_cons, countPlaces_cons,
        ih fun u hne hu => h u hne (hu.trans (List.suffix_cons c s))]
      simp only [hhead]
      omega

/-- A text made of whole lines: it is empty or ends in a line feed. -/
def IsLines (s : List Char) : Prop :=
  s = [] ∨ s.getLast? = some '\n'

instance (s : List Char) : Decidable (IsLines s) :=
  inferInstanceAs (Decidable (_ ∨ _))

/-- Each end of a text of whole lines ends in a line feed. -/
theorem IsLines.getLast?_suffix (h : IsLines s) {u : List Char} (hne : u ≠ []) (hu : u <:+ s) :
    u.getLast? = some '\n' := by
  obtain ⟨front, rfl⟩ := hu
  rcases h with hnil | hlast
  · exact absurd (List.append_eq_nil_iff.mp hnil).2 hne
  · rwa [List.getLast?_append_of_ne_nil front hne] at hlast

end Text

/-! ## Patterns -/

namespace Pattern

variable {p : Pattern} {s : List Char}

/-- A firm pattern is matched as well where the text goes on. -/
theorem isSome_matchAt_append (hfirm : p.firm = true) (h : (p.matchAt s).isSome = true)
    (rest : List Char) : (p.matchAt (s ++ rest)).isSome = true := by
  obtain ⟨m, hm⟩ := Option.isSome_iff_exists.mp h
  obtain ⟨w, rest', rfl, -, hw, -⟩ := spells_of_matchAt hm
  obtain ⟨m', hm'⟩ := exists_matchAt hfirm hw (rest' ++ rest)
  rw [List.append_assoc, hm', Option.isSome_some]

theorem occursIn_around (hfirm : p.firm = true) (h : p.occursIn s = true)
    (front rest : List Char) : p.occursIn (front ++ s ++ rest) = true :=
  (occursIn_iff hfirm).mpr (((occursIn_iff hfirm).mp h).around front rest)

/-- **The matches that follow one another** stay the first ones where the text goes on, if no text
of the pattern stands in front of the end of another one. -/
theorem captured_findAll_append (hfirm : p.firm = true) (hlast : p.lastRun? = none)
    (hnil : p.matchAt [] = none) (hends : Form.EndsLast p.Spells) (s more : List Char) :
    (p.findAll s).map (·.captured) <+: (p.findAll (s ++ more)).map (·.captured) := by
  have hiff : ∀ t vs, Form.Successive p.Spells t vs ↔ vs = (p.findAll t).map (·.captured) :=
    fun t vs => successive_iff hfirm hlast hnil
  have hfound := (hiff s _).mpr rfl
  generalize (p.findAll s).map (·.captured) = vs at hfound ⊢
  induction hfound with
  | none => exact List.nil_prefix
  | @next front w rest v vs hw hfree _ ih =>
      have hall := Form.Successive.next hw (hfree.append hends hw more) ((hiff _ _).mpr rfl)
      rw [List.append_assoc (front ++ w), ← (hiff _ _).mp hall]
      exact List.cons_prefix_cons.mpr ⟨rfl, ih⟩

/-- Only with its last character does the pattern take a line feed. -/
def endsInLine : Pattern → Bool
  | .one k :: item :: p => !k.has '\n' && endsInLine (item :: p)
  | _ => true

/-- Whether a pattern is matched is settled by the end of the line. -/
theorem isSome_matchAt_line (hfixed : p.fixed = true) (hline : p.endsInLine = true)
    (hs : s.getLast? = some '\n') (rest : List Char) :
    (p.matchAt (s ++ rest)).isSome = (p.matchAt s).isSome := by
  induction p generalizing s with
  | nil => rfl
  | cons item p ih =>
      obtain ⟨⟨k, rfl⟩, hp⟩ := fixed_cons.mp hfixed
      cases s with
      | nil => cases hs
      | cons c t =>
          rw [List.cons_append, matchAt, matchAt]
          by_cases hc : k.has c = true
          · rw [if_pos hc, if_pos hc, Option.isSome_map, Option.isSome_map]
            cases p with
            | nil => rfl
            | cons item' p =>
                rw [endsInLine, Bool.and_eq_true, Bool.not_eq_true'] at hline
                cases t with
                | nil =>
                    obtain rfl : c = '\n' := by simpa using hs
                    rw [hline.1] at hc
                    cases hc
                | cons d t =>
                    rw [List.getLast?_cons_cons] at hs
                    exact ih hp hline.2 hs
          · rw [if_neg hc, if_neg hc]

end Pattern

/-! ## Rules -/

namespace Rule

variable {κ : Type} {r : Rule κ} {s t : List Char}

theorem occursIn_around (hfirm : ∀ p ∈ r.patterns, p.firm = true) (h : r.occursIn s = true)
    (front rest : List Char) : r.occursIn (front ++ s ++ rest) = true := by
  obtain ⟨p, hp, hs⟩ := List.any_eq_true.mp h
  exact List.any_eq_true.mpr ⟨p, hp, Pattern.occursIn_around (hfirm p hp) hs front rest⟩

theorem IsPlaced.fixed (h : r.IsPlaced) {p : Pattern} (hp : p ∈ r.patterns) : p.fixed = true :=
  ((Bool.and_eq_true _ _).mp (h.lapless p hp)).1

/-- **More text around** adds to the count of a rule only. -/
theorem count_le_around (h : r.IsPlaced) (s front rest : List Char) :
    r.count s ≤ r.count (front ++ s ++ rest) := by
  rw [count_eq_countPlaces h, count_eq_countPlaces h]
  refine Text.countPlaces_le_around s front rest ?_
  rintro t ⟨p, hp, ht⟩
  exact ⟨p, hp, Pattern.isSome_matchAt_append (Pattern.firm_of_fixed (h.fixed hp)) ht rest⟩

/-- **The counts of whole lines and of what follows them** add up. -/
theorem count_append (h : r.IsPlaced) (hline : ∀ p ∈ r.patterns, p.endsInLine = true)
    (hs : Text.IsLines s) (t : List Char) : r.count (s ++ t) = r.count s + r.count t := by
  simp only [count_eq_countPlaces h]
  refine Text.countPlaces_append fun u hne hu => ?_
  refine exists_congr fun p => and_congr_right fun hp => ?_
  rw [Pattern.isSome_matchAt_line (h.fixed hp) (hline p hp) (hs.getLast?_suffix hne hu)]

/-- **The counts of blocks of whole lines** add up. -/
theorem count_flatten (h : r.IsPlaced) (hline : ∀ p ∈ r.patterns, p.endsInLine = true)
    {blocks : List (List Char)} (hblocks : ∀ b ∈ blocks, Text.IsLines b) :
    r.count blocks.flatten = (blocks.map r.count).sum := by
  induction blocks with
  | nil => rw [List.flatten_nil, count_eq_countPlaces h, List.map_nil, List.sum_nil]; rfl
  | cons b blocks ih =>
      obtain ⟨hb, hrest⟩ := List.forall_mem_cons.mp hblocks
      rw [List.flatten_cons, count_append h hline hb, ih hrest, List.map_cons, List.sum_cons]

end Rule

end ScreenAtlas
