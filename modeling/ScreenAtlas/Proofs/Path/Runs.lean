import ScreenAtlas.Proofs.Path.Shown
/-!
# Runs of slashes

Between the segments of a path there may be more than one slash. A root is told by components, so
it is found in front of a path however many slashes stand between the segments. But what is left of
the path behind the root keeps its runs of slashes, except at its ends.

## Main definitions

* `RunsMerged` — bytes in which runs of slashes are replaced by single slashes.

## Main statements

* `RunsMerged.of_step` — what one slash less in a run keeps, merged runs keep.
* `relativeText_of_doubled` — the relative text of a path with one slash less.
-/
namespace ScreenAtlas.Path

/-- Some runs of slashes are replaced by single slashes, and all else is kept. -/
inductive RunsMerged : List UInt8 → List UInt8 → Prop
  | nil : RunsMerged [] []
  | keep (b : UInt8) {bytes merged : List UInt8} (h : RunsMerged bytes merged) :
      RunsMerged (b :: bytes) (b :: merged)
  | run (n : Nat) {bytes merged : List UInt8} (h : RunsMerged bytes merged) :
      RunsMerged (List.replicate (n + 1) slash ++ bytes) (slash :: merged)

namespace RunsMerged

/-- A common front, in which no run is replaced. -/
theorem append_left (front : List UInt8) {bytes merged : List UInt8} (h : RunsMerged bytes merged) :
    RunsMerged (front ++ bytes) (front ++ merged) := by
  induction front with
  | nil => exact h
  | cons b front ih => exact .keep b ih

theorem refl (bytes : List UInt8) : RunsMerged bytes bytes := by
  simpa using append_left bytes .nil

/-- Runs are merged by taking out one slash after the other. -/
theorem of_step {R : List UInt8 → List UInt8 → Prop} (hrefl : ∀ bytes, R bytes bytes)
    (htrans : ∀ {a b c}, R a b → R b c → R a c)
    (hstep : ∀ front back, R (front ++ slash :: slash :: back) (front ++ slash :: back))
    {bytes merged : List UInt8} (h : RunsMerged bytes merged) (front : List UInt8) :
    R (front ++ bytes) (front ++ merged) := by
  -- What was kept or merged already goes to the front.
  induction h generalizing front with
  | nil => exact hrefl _
  | keep b _ ih => simpa using ih (front ++ [b])
  | @run n bytes merged _ ih =>
      induction n with
      | zero => simpa using ih (front ++ [slash])
      | succ n ihn => exact htrans (hstep front (List.replicate n slash ++ bytes)) ihn

end RunsMerged

variable {p q root : Path} {front back : List UInt8}

/-! ## Head and segments -/

theorem head_of_doubled (hp : p.bytes = front ++ slash :: slash :: back)
    (hq : q.bytes = front ++ slash :: back) : p.head = q.head := by
  have hfirst : firstSegment p.bytes = firstSegment q.bytes := by
    rw [hp, hq, firstSegment_append_slash, firstSegment_append_slash]
  have hhead : p.bytes.head? = q.bytes.head? := by
    rw [hp, hq]
    cases front <;> rfl
  simp only [head, hfirst, hhead]

/-- The segments of a path have one empty segment more for a slash more. -/
theorem exists_segments_of_doubled (hp : p.bytes = front ++ slash :: slash :: back)
    (hq : q.bytes = front ++ slash :: back) :
    ∃ before after, after ≠ [] ∧ p.segments = before ++ [] :: after ∧
      q.segments = before ++ after ∧ (before = [] → q.head = .root) := by
  have hsplit : ∀ bytes more : List UInt8,
      (bytes ++ slash :: slash :: more).splitOn slash =
        bytes.splitOn slash ++ [] :: more.splitOn slash := by
    intro bytes more
    have hback : (slash :: more).splitOn slash = [] :: more.splitOn slash := by
      simpa using List.splitOn_append_cons_self (a := slash) [] more
    rw [List.splitOn_append_cons_self, hback]
  rw [segments, segments, head_of_doubled hp hq, hp, hq]
  cases front with
  | nil =>
      have hroot : q.head = .root := by simp [head, hq]
      refine ⟨[], back.splitOn slash, List.splitOn_ne_nil slash back, ?_, ?_, fun _ => hroot⟩
      · simpa [hroot, Head.bytes] using List.splitOn_append_cons_self (a := slash) [] back
      · simp [hroot, Head.bytes]
  | cons b front =>
      have hle : q.head.bytes.length ≤ (b :: front).length := by
        cases q.head <;> simp [Head.bytes]
      refine ⟨((b :: front).drop q.head.bytes.length).splitOn slash, back.splitOn slash,
        List.splitOn_ne_nil slash back, ?_, ?_, fun h => absurd h (List.splitOn_ne_nil slash _)⟩
      · rw [List.drop_append_of_le_length hle, hsplit]
      · rw [List.drop_append_of_le_length hle, List.splitOn_append_cons_self]

/-! ## Filler at the ends -/

/-- Of two lists of segments, filler is taken off the end of the second one first. -/
theorem trimEnd_append (segments more : List (List UInt8)) :
    trimEnd (segments ++ more) =
      if trimEnd more = [] then trimEnd segments else segments ++ trimEnd more := by
  simp only [trimEnd, List.reverse_append, List.dropWhile_append, List.reverse_eq_nil_iff,
    List.isEmpty_iff]
  split <;> simp

theorem dropComponents_append_empty (n : Nat) (before after : List (List UInt8)) :
    dropComponents n (before ++ [] :: after) = dropComponents n (before ++ after) ∨
      ∃ rest ≠ [], dropComponents n (before ++ [] :: after) = rest ++ [] :: after ∧
        dropComponents n (before ++ after) = rest ++ after := by
  induction before generalizing n with
  | nil => cases n <;> exact .inl rfl
  | cons s before ih =>
      cases n with
      | zero =>
          by_cases hs : isFiller s
          · simpa [dropComponents, hs] using ih 0
          · exact .inr ⟨s :: before, List.cons_ne_nil s before, by simp [dropComponents, hs]⟩
      | succ n =>
          by_cases hs : isFiller s
          · simpa [dropComponents, hs] using ih (n + 1)
          · simpa [dropComponents, hs] using ih n

/-- Bytes that are the same, but that the first ones may have one slash more in a run. -/
def MayDouble (bytes bytes' : List UInt8) : Prop :=
  bytes = bytes' ∨ ∃ front back, bytes = front ++ slash :: slash :: back ∧
    bytes' = front ++ slash :: back

/-- An empty segment between others makes a slash more, unless it goes with the filler at the
end. -/
theorem mayDouble_joined {before after : List (List UInt8)} (lead : List UInt8)
    (hlead : before = [] → lead = [slash]) :
    MayDouble (lead ++ joined (trimEnd (before ++ [] :: after)))
      (lead ++ joined (trimEnd (before ++ after))) := by
  have hempty : trimEnd ([] :: after) = if trimEnd after = [] then [] else [] :: trimEnd after := by
    have h := trimEnd_append [[]] after
    rwa [List.singleton_append] at h
  rw [trimEnd_append, trimEnd_append, hempty]
  by_cases hafter : trimEnd after = []
  · rw [if_pos hafter, if_pos rfl, if_pos hafter]
    exact .inl rfl
  · rw [if_neg hafter, if_neg (List.cons_ne_nil _ _), if_neg hafter]
    have hback : joined ([] :: trimEnd after) = slash :: joined (trimEnd after) :=
      joined_append (List.cons_ne_nil [] []) hafter
    by_cases hbefore : before = []
    · rw [hlead hbefore, hbefore, List.nil_append, List.nil_append, hback]
      exact .inr ⟨[], joined (trimEnd after), rfl, rfl⟩
    · rw [joined_append hbefore (List.cons_ne_nil _ _), joined_append hbefore hafter, hback]
      exact .inr ⟨lead ++ joined before, joined (trimEnd after), by simp, by simp⟩

/-! ## Relative to a root -/

/-- What is left of a path behind a root has at most one slash more in a run. -/
theorem mayDouble_relativeTo? (hp : p.bytes = front ++ slash :: slash :: back)
    (hq : q.bytes = front ++ slash :: back) (root : Path) :
    MayDouble ((p.relativeTo? root).getD p).bytes ((q.relativeTo? root).getD q).bytes := by
  have hhead := head_of_doubled hp hq
  obtain ⟨before, after, hafter, hpsegments, hqsegments, hbefore⟩ :=
    exists_segments_of_doubled hp hq
  have hcomponents : p.components = q.components := by
    simp [components, hpsegments, hqsegments, isFiller]
  rw [relativeTo?, relativeTo?, hhead, hcomponents, hpsegments, hqsegments]
  split
  · -- The empty root takes off nothing but the filler at the end.
    refine mayDouble_joined q.head.bytes fun h => ?_
    rw [hbefore h, Head.bytes]
  · split
    · -- What is in front of the run may go with the root, and then the run does, too.
      obtain hsame | ⟨rest, hrest, hdouble, hsingle⟩ :=
        dropComponents_append_empty root.components.length before after
      · rw [hsame]
        exact .inl rfl
      · rw [hdouble, hsingle]
        exact mayDouble_joined [] fun h => absurd h hrest
    · exact .inr ⟨front, back, hp, hq⟩

/-- **The relative text of a path with one slash less** in a run is the same, or has one slash less
in a run, too. -/
theorem relativeText_of_doubled (hp : p.bytes = front ++ slash :: slash :: back)
    (hq : q.bytes = front ++ slash :: back) (root : Path) :
    p.relativeText root = q.relativeText root ∨
      ∃ before after, (p.relativeText root).toList = before ++ '/' :: '/' :: after ∧
        (q.relativeText root).toList = before ++ '/' :: after := by
  rw [← String.toList_inj, toList_relativeText, toList_relativeText]
  obtain hsame | ⟨before, after, hdouble, hsingle⟩ := mayDouble_relativeTo? hp hq root
  · rw [hsame]
    exact .inl rfl
  · refine .inr ⟨shown before, shown after, ?_, ?_⟩
    · rw [hdouble, shown_append_slash]
      exact congrArg (shown before ++ '/' :: ·) (shown_append_slash [] after)
    · rw [hsingle, shown_append_slash]

end ScreenAtlas.Path
