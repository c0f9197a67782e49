import Mathlib.Data.List.TakeWhile
import ScreenAtlas.Pattern
/-!
# The texts that a pattern stands for

A pattern is matched without trying anything twice: a run takes every character it can. The texts
that a pattern stands for are described here without that choice, a run being any run of its class.
Where no run is followed by something that could start with a character of the run's own class, the
two agree: a text is matched wherever one of these texts starts, and what is taken is one of them.

## Main definitions

* `Pattern.Spells` — the texts of a pattern, each with what it captures.
* `Pattern.Ends` — a place at which the last run of a pattern cannot go on.
* `Pattern.firm` — the patterns whose runs are cut off by what follows them.

## Main statements

* `matchAt_eq_some_iff` — the match of a firm pattern.
* `matchAt_eq_none_iff` — a firm pattern is not matched where none of its texts starts.
-/
namespace ScreenAtlas

/-! ## Classes without a common character -/

namespace CharClass

/-- The characters of a class that is given by them. -/
def chars? : CharClass → Option (List Char)
  | only c => some [c]
  | quote => some ['\x27', '"']
  | anyQuote => some ['\x27', '"', '\x60']
  | _ => none

theorem has_iff_of_chars? {k : CharClass} {cs : List Char} (h : k.chars? = some cs) {c : Char} :
    k.has c = true ↔ c ∈ cs := by
  cases k <;> cases h <;> simp [has, or_assoc]

/-- A test that two classes have no character in common. It tries the characters of a class that is
given by them, and else knows of blank characters and words only. -/
def apart (k k' : CharClass) : Bool :=
  match k.chars?, k'.chars? with
  | some cs, _ => cs.all fun c => !k'.has c
  | none, some cs => cs.all fun c => !k.has c
  | none, none => k matches blank && k' matches word || k matches word && k' matches blank

theorem not_word_of_blank {c : Char} (h : blank.has c = true) : word.has c = false := by
  rw [Bool.eq_false_iff]
  intro hword
  unfold has Char.isAlphanum Char.isAlpha Char.isUpper Char.isLower Char.isDigit at hword
  simp only [Bool.or_eq_true, beq_iff_eq, Bool.and_eq_true, decide_eq_true_iff,
    UInt32.le_iff_toNat_le, ge_iff_le] at hword
  change (((65 ≤ c.toNat ∧ c.toNat ≤ 90) ∨ (97 ≤ c.toNat ∧ c.toNat ≤ 122)) ∨
    (48 ≤ c.toNat ∧ c.toNat ≤ 57)) ∨ c = '_' at hword
  obtain hcode | rfl := hword
  · simp [has, Text.isBlank, Text.inRanges, Text.blankRanges] at h
    omega
  · revert h
    decide

/-- Classes that pass the test have no character in common. -/
theorem not_has_of_apart {k k' : CharClass} (h : k.apart k' = true) {c : Char}
    (hc : k.has c = true) : k'.has c = false := by
  unfold apart at h
  split at h
  · next cs _ hcs =>
    rw [has_iff_of_chars? hcs] at hc
    simpa using List.all_eq_true.mp h c hc
  · next cs _ hcs =>
    rw [Bool.eq_false_iff]
    intro hc'
    have hnot := List.all_eq_true.mp h c ((has_iff_of_chars? hcs).mp hc')
    simp [hc] at hnot
  · cases k <;> cases k' <;> simp at h
    · exact not_word_of_blank hc
    · rw [Bool.eq_false_iff]
      intro hblank
      rw [not_word_of_blank hblank] at hc
      cases hc

/-- A run of characters of the class. -/
def IsRun (k : CharClass) (r : List Char) : Prop :=
  ∀ c ∈ r, k.has c = true

theorem isRun_takeWhile (k : CharClass) (s : List Char) : k.IsRun (s.takeWhile k.has) :=
  fun _ => List.mem_takeWhile_imp

/-- No run of the class goes on into the text. -/
def StopsAt (k : CharClass) (rest : List Char) : Prop :=
  ∀ c ∈ rest.head?, k.has c = false

theorem stopsAt_dropWhile (k : CharClass) (s : List Char) : k.StopsAt (s.dropWhile k.has) := by
  intro c hc
  have h := List.head?_dropWhile_not k.has s
  rwa [Option.mem_def.mp hc] at h

/-- A run that stops is the longest one. -/
theorem takeWhile_append_of_stopsAt {k : CharClass} {r rest : List Char} (hr : k.IsRun r)
    (hrest : k.StopsAt rest) : (r ++ rest).takeWhile k.has = r := by
  rw [List.takeWhile_append_of_pos hr]
  cases rest with
  | nil => simp
  | cons c rest => simp [hrest c rfl]

theorem dropWhile_append_of_stopsAt {k : CharClass} {r rest : List Char} (hr : k.IsRun r)
    (hrest : k.StopsAt rest) : (r ++ rest).dropWhile k.has = rest := by
  rw [List.dropWhile_append_of_pos hr]
  cases rest with
  | nil => rfl
  | cons c rest => simp [hrest c rfl]

end CharClass

/-! ## Texts of a pattern -/

namespace Item

/-- The class of a run. -/
def run? : Item → Option CharClass
  | one _ => none
  | run k | run₁ k | capture k => some k

/-- The texts that an item may take. -/
def Takes : Item → List Char → Prop
  | one k, r => ∃ c, r = [c] ∧ k.has c = true
  | run k, r => k.IsRun r
  | run₁ k, r | capture k, r => r ≠ [] ∧ k.IsRun r

/-- What is captured where the item takes one text and the items behind it capture another. -/
def reports : Item → List Char → List Char → List Char
  | capture _, r, _ => r
  | _, _, v => v

theorem exists_eq_one {item : Item} (h : item.run? = none) : ∃ k, item = one k := by
  cases item with
  | one k => exact ⟨k, rfl⟩
  | run | run₁ | capture => cases h

theorem Takes.isRun {item : Item} {k : CharClass} (hitem : item.run? = some k) {r : List Char}
    (h : item.Takes r) : k.IsRun r := by
  cases item <;> cases hitem
  case run => exact h
  case run₁ | capture => exact h.2

/-- A run may go on. -/
theorem Takes.append {item : Item} {k : CharClass} (hitem : item.run? = some k) {r r' : List Char}
    (h : item.Takes r) (hr' : k.IsRun r') : item.Takes (r ++ r') := by
  have hrun : k.IsRun (r ++ r') := List.forall_mem_append.mpr ⟨h.isRun hitem, hr'⟩
  cases item <;> cases hitem
  case run => exact hrun
  case run₁ | capture => exact ⟨List.append_ne_nil_of_left_ne_nil h.1 _, hrun⟩

end Item

namespace Pattern

variable {p : Pattern} {item : Item} {k : CharClass} {s w rest v : List Char} {m : Match}

/-- The texts of a pattern, each with what it captures: texts that the items take, one behind the
other. -/
def Spells : Pattern → List Char → List Char → Prop
  | [], w, v => w = [] ∧ v = []
  | item :: p, w, v =>
      ∃ r w' v', w = r ++ w' ∧ item.Takes r ∧ Spells p w' v' ∧ v = item.reports r v'

/-- The class of the run at the end of a pattern. -/
def lastRun? (p : Pattern) : Option CharClass :=
  p.getLast?.bind Item.run?

/-- The last run of the pattern does not go on into the text. -/
def Ends (p : Pattern) (rest : List Char) : Prop :=
  ∀ k ∈ p.lastRun?, k.StopsAt rest

/-- No text of the pattern is empty or starts with a character of the class. -/
def shuns (k : CharClass) : Pattern → Bool
  | [] => false
  | .one k' :: _ | .run₁ k' :: _ | .capture k' :: _ => k.apart k'
  | .run k' :: p => k.apart k' && shuns k p

/-- Every run stops at what follows it, or is the last item. -/
def firm : Pattern → Bool
  | [] => true
  | item :: p => item.run?.all (fun k => p.isEmpty || shuns k p) && firm p

/-! ## One item -/

theorem matchAt_one_eq_some_iff : matchAt (.one k :: p) s = some m ↔
    ∃ c t m', s = c :: t ∧ k.has c = true ∧ matchAt p t = some m' ∧ m = m'.after 1 := by
  cases s with
  | nil => simp [matchAt]
  | cons c t =>
      simp only [matchAt, Option.ite_none_right_eq_some, Option.map_eq_some_iff]
      constructor
      · rintro ⟨hc, m', hm', rfl⟩
        exact ⟨c, t, m', rfl, hc, hm', rfl⟩
      · rintro ⟨_, _, m', heq, hc, hm', rfl⟩
        obtain ⟨rfl, rfl⟩ := List.cons.inj heq
        exact ⟨hc, m', hm', rfl⟩

/-- A run takes the longest text that it can. -/
theorem matchAt_run_eq_some_iff (hitem : item.run? = some k) : matchAt (item :: p) s = some m ↔
    item.Takes (s.takeWhile k.has) ∧ ∃ m', matchAt p (s.dropWhile k.has) = some m' ∧
      m = ⟨(s.takeWhile k.has).length + m'.length,
        item.reports (s.takeWhile k.has) m'.captured⟩ := by
  have hrun := k.isRun_takeWhile s
  cases item <;> cases hitem <;>
    simp [matchAt, Item.Takes, Item.reports, Match.after, hrun, eq_comm (b := m)]

/-! ## Matches are texts of the pattern -/

theorem ends_cons (hp : p ≠ []) : Ends (item :: p) rest ↔ Ends p rest := by
  obtain ⟨item', p, rfl⟩ := List.exists_cons_of_ne_nil hp
  rw [Ends, Ends, lastRun?, lastRun?, List.getLast?_cons_cons]

theorem ends_one : Ends (.one k :: p) rest ↔ Ends p rest := by
  cases p with
  | nil => simp [Ends, lastRun?, Item.run?]
  | cons item p => exact ends_cons (List.cons_ne_nil _ _)

theorem ends_singleton (hitem : item.run? = some k) : Ends [item] rest ↔ k.StopsAt rest := by
  simp [Ends, lastRun?, hitem]

/-- **A match takes a text of the pattern**, and its last run stops. -/
theorem spells_of_matchAt (h : matchAt p s = some m) :
    ∃ w rest, s = w ++ rest ∧ m.length = w.length ∧ Spells p w m.captured ∧ Ends p rest := by
  induction p generalizing s m with
  | nil =>
      obtain rfl := Option.some.inj h
      exact ⟨[], s, rfl, rfl, ⟨rfl, rfl⟩, fun k hk => by cases hk⟩
  | cons item p ih =>
      cases hitem : item.run? with
      | none =>
          obtain ⟨k, rfl⟩ := Item.exists_eq_one hitem
          obtain ⟨c, t, m', rfl, hc, hm', rfl⟩ := matchAt_one_eq_some_iff.mp h
          obtain ⟨w, rest, rfl, hlength, hw, hends⟩ := ih hm'
          refine ⟨c :: w, rest, rfl, ?_, ?_, ends_one.mpr hends⟩
          · simp [Match.after, hlength, Nat.add_comm]
          · exact ⟨[c], w, m'.captured, rfl, ⟨c, rfl, hc⟩, hw, rfl⟩
      | some k =>
          obtain ⟨htakes, m', hm', rfl⟩ := (matchAt_run_eq_some_iff hitem).mp h
          obtain ⟨w, rest, hrest, hlength, hw, hends⟩ := ih hm'
          refine ⟨s.takeWhile k.has ++ w, rest, ?_, ?_, ?_, ?_⟩
          · rw [List.append_assoc, ← hrest, List.takeWhile_append_dropWhile]
          · simp [hlength]
          · exact ⟨_, w, m'.captured, rfl, htakes, hw, rfl⟩
          · cases p with
            | nil =>
                obtain ⟨rfl, -⟩ := hw
                rw [List.nil_append] at hrest
                rw [ends_singleton hitem, ← hrest]
                exact k.stopsAt_dropWhile s
            | cons item' p => exact (ends_cons (List.cons_ne_nil _ _)).mpr hends

/-! ## Texts of the pattern are matched -/

/-- What a pattern shuns does not go on into its texts. -/
theorem stopsAt_of_shuns (h : shuns k p = true) (hw : Spells p w v) (rest : List Char) :
    k.StopsAt (w ++ rest) := by
  induction p generalizing w v with
  | nil => cases h
  | cons item p ih =>
      obtain ⟨r, w', v', rfl, htakes, hw', -⟩ := hw
      -- The first character, if the item takes one, is of a class apart.
      have hhead : ∀ {k'}, k.apart k' = true → r ≠ [] → k'.IsRun r →
          k.StopsAt (r ++ w' ++ rest) := by
        intro k' hapart hr hrun c hc
        obtain ⟨d, r, rfl⟩ := List.exists_cons_of_ne_nil hr
        obtain rfl : d = c := by simpa using hc
        rw [Bool.eq_false_iff]
        intro hk
        have hnot := CharClass.not_has_of_apart hapart hk
        rw [hrun d List.mem_cons_self] at hnot
        cases hnot
      cases item with
      | one k' =>
          obtain ⟨c, rfl, hc⟩ := htakes
          exact hhead h (List.cons_ne_nil _ _) (by simpa [CharClass.IsRun] using hc)
      | run k' =>
          rw [shuns, Bool.and_eq_true] at h
          rcases eq_or_ne r [] with rfl | hr
          · exact ih h.2 hw'
          · exact hhead h.1 hr htakes
      | run₁ k' => exact hhead h htakes.1 htakes.2
      | capture k' => exact hhead h htakes.1 htakes.2

/-- **A text of a firm pattern is what is taken** of a text that starts with it, if the last run
stops behind it. -/
theorem matchAt_append (hfirm : p.firm = true) (hw : Spells p w v) (hends : Ends p rest) :
    matchAt p (w ++ rest) = some ⟨w.length, v⟩ := by
  induction p generalizing w v with
  | nil =>
      obtain ⟨rfl, rfl⟩ := hw
      rfl
  | cons item p ih =>
      obtain ⟨r, w', v', rfl, htakes, hw', rfl⟩ := hw
      rw [firm, Bool.and_eq_true] at hfirm
      cases hitem : item.run? with
      | none =>
          obtain ⟨k, rfl⟩ := Item.exists_eq_one hitem
          obtain ⟨c, rfl, hc⟩ := htakes
          have hm' := ih hfirm.2 hw' (ends_one.mp hends)
          refine matchAt_one_eq_some_iff.mpr ⟨c, w' ++ rest, _, by simp, hc, hm', ?_⟩
          simp [Match.after, Item.reports, Nat.add_comm]
      | some k =>
          have hstops : k.StopsAt (w' ++ rest) := by
            cases p with
            | nil =>
                obtain ⟨rfl, -⟩ := hw'
                exact (ends_singleton hitem).mp hends
            | cons item' p =>
                simp only [hitem, Option.all_some, List.isEmpty_cons, Bool.false_or] at hfirm
                exact stopsAt_of_shuns hfirm.1 hw' rest
          have hends' : Ends p rest := by
            cases p with
            | nil => exact fun k hk => by cases hk
            | cons item' p => exact (ends_cons (List.cons_ne_nil _ _)).mp hends
          have htake := CharClass.takeWhile_append_of_stopsAt (htakes.isRun hitem) hstops
          have hdrop := CharClass.dropWhile_append_of_stopsAt (htakes.isRun hitem) hstops
          rw [List.append_assoc]
          refine (matchAt_run_eq_some_iff hitem).mpr ?_
          rw [htake, hdrop]
          exact ⟨htakes, _, ih hfirm.2 hw' hends', by simp⟩

/-- **The match of a firm pattern**: of the texts of the pattern that the text starts with, the one
whose last run stops. -/
theorem matchAt_eq_some_iff (hfirm : p.firm = true) : matchAt p s = some m ↔
    ∃ w rest, s = w ++ rest ∧ m.length = w.length ∧ Spells p w m.captured ∧ Ends p rest := by
  refine ⟨spells_of_matchAt, ?_⟩
  rintro ⟨w, rest, rfl, hlength, hw, hends⟩
  rw [matchAt_append hfirm hw hends, ← hlength]

/-- The last run of a text of the pattern may go on. -/
theorem Spells.append_run (h : Spells p w v) (hk : p.lastRun? = some k) {r : List Char}
    (hr : k.IsRun r) : ∃ v', Spells p (w ++ r) v' := by
  induction p generalizing w v with
  | nil => cases hk
  | cons item p ih =>
      obtain ⟨r', w', v', rfl, htakes, hw', rfl⟩ := h
      cases p with
      | nil =>
          have hitem : item.run? = some k := by simpa [lastRun?] using hk
          obtain ⟨rfl, rfl⟩ := hw'
          exact ⟨_, r' ++ r, [], [], by simp, htakes.append hitem hr, ⟨rfl, rfl⟩, rfl⟩
      | cons item' p =>
          rw [lastRun?, List.getLast?_cons_cons] at hk
          obtain ⟨v'', hw''⟩ := ih hw' hk
          exact ⟨_, r', w' ++ r, v'', by rw [List.append_assoc], htakes, hw'', rfl⟩

/-- A firm pattern is matched wherever one of its texts starts. -/
theorem exists_matchAt (hfirm : p.firm = true) (hw : Spells p w v) (rest : List Char) :
    ∃ m, matchAt p (w ++ rest) = some m := by
  cases hlast : p.lastRun? with
  | none => exact ⟨_, matchAt_append hfirm hw fun k hk => by rw [hlast] at hk; cases hk⟩
  | some k =>
      obtain ⟨v', hw'⟩ := hw.append_run hlast (k.isRun_takeWhile rest)
      have hends : Ends p (rest.dropWhile k.has) := by
        intro k' hk'
        obtain rfl := Option.some.inj (hlast.symm.trans hk')
        exact k.stopsAt_dropWhile rest
      have hm := matchAt_append hfirm hw' hends
      rw [List.append_assoc, List.takeWhile_append_dropWhile] at hm
      exact ⟨_, hm⟩

/-- **A firm pattern is not matched** exactly where none of its texts starts. -/
theorem matchAt_eq_none_iff (hfirm : p.firm = true) :
    matchAt p s = none ↔ ∀ w rest v, s = w ++ rest → ¬Spells p w v := by
  rw [Option.eq_none_iff_forall_ne_some]
  constructor
  · rintro h w rest v rfl hw
    obtain ⟨m, hm⟩ := exists_matchAt hfirm hw rest
    exact h m hm
  · rintro h m hm
    obtain ⟨w, rest, hs, -, hw, -⟩ := spells_of_matchAt hm
    exact h w rest m.captured hs hw

/-! ## Patterns behind one another -/

/-- A text of two patterns, one behind the other, starts with a text of the first. -/
theorem Spells.of_append {q : Pattern} (h : Spells (p ++ q) w v) :
    ∃ w₁ w₂ v₁, w = w₁ ++ w₂ ∧ Spells p w₁ v₁ := by
  induction p generalizing w v with
  | nil => exact ⟨[], w, [], rfl, rfl, rfl⟩
  | cons item p ih =>
      obtain ⟨r, w', v', rfl, htakes, hw', -⟩ := h
      obtain ⟨w₁, w₂, v₁, rfl, hw₁⟩ := ih hw'
      exact ⟨r ++ w₁, w₂, _, (List.append_assoc ..).symm, r, w₁, v₁, rfl, htakes, hw₁, rfl⟩

/-! ## The texts of given items -/

theorem spells_nil : Spells [] w v ↔ w = [] ∧ v = [] := Iff.rfl

theorem spells_one : Spells (.one k :: p) w v ↔
    ∃ c w', w = c :: w' ∧ k.has c = true ∧ Spells p w' v := by
  constructor
  · rintro ⟨_, w', v', rfl, ⟨c, rfl, hc⟩, hw', rfl⟩
    exact ⟨c, w', rfl, hc, hw'⟩
  · rintro ⟨c, w', rfl, hc, hw'⟩
    exact ⟨[c], w', v, rfl, ⟨c, rfl, hc⟩, hw', rfl⟩

theorem spells_run : Spells (.run k :: p) w v ↔
    ∃ r w', w = r ++ w' ∧ k.IsRun r ∧ Spells p w' v := by
  constructor
  · rintro ⟨r, w', v', rfl, hr, hw', rfl⟩
    exact ⟨r, w', rfl, hr, hw'⟩
  · rintro ⟨r, w', rfl, hr, hw'⟩
    exact ⟨r, w', v, rfl, hr, hw', rfl⟩

theorem spells_run₁ : Spells (.run₁ k :: p) w v ↔
    ∃ r w', w = r ++ w' ∧ (r ≠ [] ∧ k.IsRun r) ∧ Spells p w' v := by
  constructor
  · rintro ⟨r, w', v', rfl, hr, hw', rfl⟩
    exact ⟨r, w', rfl, hr, hw'⟩
  · rintro ⟨r, w', rfl, hr, hw'⟩
    exact ⟨r, w', v, rfl, hr, hw', rfl⟩

theorem spells_capture : Spells (.capture k :: p) w v ↔
    ∃ w' v', w = v ++ w' ∧ (v ≠ [] ∧ k.IsRun v) ∧ Spells p w' v' := by
  constructor
  · rintro ⟨r, w', v', rfl, hr, hw', rfl⟩
    exact ⟨w', v', rfl, hr, hw'⟩
  · rintro ⟨w', v', rfl, hr, hw'⟩
    exact ⟨v, w', v', rfl, hr, hw', rfl⟩

/-- A fixed text in front of a pattern stands in front of its texts. -/
theorem spells_lit_append {a : String} :
    Spells (lit a ++ p) w v ↔ ∃ w', w = a.toList ++ w' ∧ Spells p w' v := by
  rw [lit]
  generalize a.toList = cs
  induction cs generalizing w with
  | nil => simp
  | cons c cs ih =>
      rw [List.map_cons, List.cons_append, spells_one]
      constructor
      · rintro ⟨d, w', rfl, hd, hw'⟩
        obtain rfl : d = c := beq_iff_eq.mp hd
        obtain ⟨w'', rfl, hw''⟩ := ih.mp hw'
        exact ⟨w'', rfl, hw''⟩
      · rintro ⟨w', rfl, hw'⟩
        exact ⟨c, cs ++ w', rfl, beq_self_eq_true c, ih.mpr ⟨w', rfl, hw'⟩⟩

theorem spells_lit {a : String} : Spells (lit a) w v ↔ w = a.toList ∧ v = [] := by
  rw [← List.append_nil (lit a), spells_lit_append]
  simp only [Spells]
  constructor
  · rintro ⟨_, rfl, rfl, rfl⟩
    exact ⟨List.append_nil _, rfl⟩
  · rintro ⟨rfl, rfl⟩
    exact ⟨[], (List.append_nil _).symm, rfl, rfl⟩

end Pattern

end ScreenAtlas
