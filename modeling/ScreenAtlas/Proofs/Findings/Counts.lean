import ScreenAtlas.Findings.Basic
import ScreenAtlas.Proofs.Pattern.Places
/-!
# Counts of elements

An element is counted by a search for each of its patterns. Its count is the number of places of the
text at which one of its tags is opened, or one of its calls is written: no place is passed over,
and none is counted twice.

## Main definitions

* `Element.OpensAt` — what an element is counted by.

## Main statements

* `Element.opensAt_iff` — an element is opened where one of its patterns is matched.
* `counts_are_places` — the counts of any text.
-/
namespace ScreenAtlas

/-- The tag is opened at the start of the text: a blank, a slash or a closing angle bracket ends its
name. -/
def OpensTag (tag : String) (t : List Char) : Prop :=
  ∃ c rest, t = '<' :: tag.toList ++ c :: rest ∧ (Text.isBlank c = true ∨ c = '/' ∨ c = '>')

namespace Element

/-- The tags by whose opening an element is counted. -/
def tags : Element → List String
  | buttons => ["Button"]
  | cards => ["Card"]
  | lists => ["FlatList", "SectionList"]
  | images => ["Image"]
  | formControls => ["Input", "Select", "Textarea", "Checkbox", "Radio"]
  | modals => ["Modal", "AlertDialog"]
  | navigation => ["Link"]

/-- The calls by which an element is counted besides. -/
def calls : Element → List String
  | navigation => ["useRouter(", "router."]
  | _ => []

/-- At the start of the text the element is opened, or called. -/
def OpensAt (e : Element) (t : List Char) : Prop :=
  (∃ tag ∈ e.tags, OpensTag tag t) ∨ ∃ call ∈ e.calls, call.toList <+: t

/-- The patterns of an element. -/
def patterns (e : Element) : List Pattern :=
  e.tags.map Checklist.opening ++ e.calls.map Pattern.lit

/-- The row of an element. -/
def rule (e : Element) : Rule Element :=
  ⟨e, e.patterns⟩

end Element

namespace Checklist

theorem fixed_opening (tag : String) : (opening tag).fixed = true :=
  Pattern.fixed_lit_append rfl

theorem isSome_matchAt_opening {tag : String} {t : List Char} :
    ((opening tag).matchAt t).isSome = true ↔ OpensTag tag t := by
  rw [Pattern.isSome_matchAt_iff (fixed_opening tag)]
  simp only [opening, Pattern.spells_lit_append, Pattern.spells_one, Pattern.spells_nil,
    CharClass.has, Bool.or_eq_true, beq_iff_eq, or_assoc, String.toList_append]
  constructor
  · rintro ⟨_, rest, v, rfl, _, rfl, c, _, rfl, hc, rfl, rfl⟩
    exact ⟨c, rest, by simp, hc⟩
  · rintro ⟨c, rest, rfl, hc⟩
    exact ⟨_, rest, [], by simp, _, rfl, c, [], rfl, hc, rfl, rfl⟩

/-- Each element has one row in the table. -/
theorem find?_elements (e : Element) :
    elements.find? (·.kind = e) = some ⟨e, e.patterns⟩ := by
  cases e <;> rfl

/-- No two texts that an element is counted by overlap. -/
theorem isPlaced_of_mem_elements : ∀ r ∈ elements, r.IsPlaced := by
  have hchecked : ∀ r ∈ elements, (∀ p ∈ r.patterns, p.lapless = true) ∧
      r.patterns.Pairwise fun p q => Pattern.clashes p q = true := by
    decide +kernel
  exact fun r hr => ⟨(hchecked r hr).1, (hchecked r hr).2⟩

theorem rule_mem_elements (e : Element) : e.rule ∈ elements :=
  List.mem_of_find?_eq_some (find?_elements e)

theorem isPlaced_rule (e : Element) : e.rule.IsPlaced :=
  isPlaced_of_mem_elements _ (rule_mem_elements e)

/-- No pattern of the tables is matched by an empty text. -/
theorem matchAt_nil_of_mem : (∀ r ∈ libraries, ∀ p ∈ r.patterns, p.matchAt [] = none) ∧
    ∀ r ∈ elements, ∀ p ∈ r.patterns, p.matchAt [] = none := by
  have hchecked : (∀ r ∈ libraries, ∀ p ∈ r.patterns, (p.matchAt []).isNone = true) ∧
      ∀ r ∈ elements, ∀ p ∈ r.patterns, (p.matchAt []).isNone = true := by
    decide
  simpa only [Option.isNone_iff_eq_none] using hchecked

end Checklist

/-- **An element is opened** where one of its patterns is matched. -/
theorem Element.opensAt_iff {e : Element} {t : List Char} :
    (∃ p ∈ e.patterns, (p.matchAt t).isSome = true) ↔ e.OpensAt t := by
  simp only [patterns, OpensAt, List.mem_append, List.mem_map, or_and_right, exists_or,
    exists_exists_and_eq_and, Checklist.isSome_matchAt_opening, Pattern.isSome_matchAt_lit]

instance (e : Element) : DecidablePred e.OpensAt :=
  fun _ => decidable_of_iff _ Element.opensAt_iff

namespace Findings

/-- An element is counted by its row. -/
theorem get?_tally (s : List Char) (e : Element) : (tally s).get? e = some (e.rule.count s) :=
  congrArg (Option.map _) (Checklist.find?_elements e)

theorem count_tally (s : List Char) (e : Element) : (tally s).count e = e.rule.count s := by
  rw [Tally.count, get?_tally, Option.getD_some]

/-- **The counts of any text.** Every element has one: the number of the places of the text at which
the element is opened. And a rule of the tables of libraries and elements occurs in a text exactly
where it is counted in it. -/
theorem counts_are_places (limit : Nat) (s : List Char) :
    (∀ e, (scan limit s).counts.get? e = some (Text.countPlaces e.OpensAt s)) ∧
    (∀ r ∈ Checklist.libraries, r.occursIn s = true ↔ 0 < r.count s) ∧
    ∀ r ∈ Checklist.elements, r.occursIn s = true ↔ 0 < r.count s := by
  obtain ⟨hlibraries, helements⟩ := Checklist.matchAt_nil_of_mem
  refine ⟨fun e => ?_, fun r hr => Rule.occursIn_iff_count_pos (hlibraries r hr),
    fun r hr => Rule.occursIn_iff_count_pos (helements r hr)⟩
  have hrow := Checklist.find?_elements e
  have hplaced := Checklist.isPlaced_of_mem_elements _ (List.mem_of_find?_eq_some hrow)
  change (Checklist.elements.find? (·.kind = e)).map (·.count s) = _
  rw [hrow, Option.map_some, Rule.count_eq_countPlaces hplaced]
  exact congrArg some (Text.countPlaces_congr (fun _ => Element.opensAt_iff) s)

/-- A text in which links are opened and routers called, and a style class is assigned. -/
def linkedText : List Char :=
  "// <Link/>\n<Link\u00a0className=x>useRouter().router.a <Linked> <Link".toList

/-- A tag in a comment counts like any other, and one at the end of the text is not ended. -/
theorem counts_of_linkedText : (scan 6 linkedText).counts.get? .navigation = some 4 ∧
    (∃ r ∈ Checklist.libraries, r.kind = .styleEngine ∧ 0 < r.count linkedText) ∧
    ∃ r ∈ Checklist.elements, r.kind = .navigation ∧ 0 < r.count linkedText := by
  obtain ⟨hcounts, hlibraries, helements⟩ := counts_are_places 6 linkedText
  have hplaces : Text.countPlaces Element.navigation.OpensAt linkedText = 4 := by decide +kernel
  have hoccurs : (∃ r ∈ Checklist.libraries, r.kind = .styleEngine ∧
      r.occursIn linkedText = true) ∧
      ∃ r ∈ Checklist.elements, r.kind = .navigation ∧ r.occursIn linkedText = true := by
    decide +kernel
  obtain ⟨⟨l, hl, hlkind, hlibrary⟩, e, he, hekind, helement⟩ := hoccurs
  exact ⟨by rw [hcounts, hplaces], ⟨l, hl, hlkind, (hlibraries l hl).mp hlibrary⟩,
    e, he, hekind, (helements e he).mp helement⟩

end Findings

end ScreenAtlas
