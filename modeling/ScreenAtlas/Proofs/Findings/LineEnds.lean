import ScreenAtlas.Proofs.Findings
import ScreenAtlas.Proofs.Pattern.LineEnds
/-!
# Findings and line ends

All patterns of the checklist treat the two characters of a line end alike, so the findings in a
file do not depend on how its lines end. Only a style sample that goes over several lines has the
line ends of its file.

## Main statements

* `scan_withReturns` — the findings in a text with other line ends.
-/
namespace ScreenAtlas

open Text (withReturns)

namespace Checklist

/-- The pattern treats the characters of a line end alike and starts with neither. -/
def IsSteady (p : Pattern) : Prop :=
  p.steady = true ∧ p.startsInLine = true

instance (p : Pattern) : Decidable (IsSteady p) :=
  inferInstanceAs (Decidable (_ ∧ _))

theorem isSteady_of_mem : (∀ r ∈ libraries, ∀ p ∈ r.patterns, IsSteady p) ∧
    (∀ r ∈ elements, ∀ p ∈ r.patterns, IsSteady p) ∧
    (∀ r ∈ assets, ∀ p ∈ r.patterns, IsSteady p) ∧
    (∀ p ∈ declarations, IsSteady p) ∧ IsSteady styleAttribute ∧ IsSteady styleLiteral := by
  decide

end Checklist

namespace Rule

variable {κ : Type} {r : Rule κ}

theorem occursIn_withReturns (h : ∀ p ∈ r.patterns, Checklist.IsSteady p) (s : List Char) :
    r.occursIn (withReturns s) = r.occursIn s := by
  rw [occursIn, occursIn, Bool.eq_iff_iff, List.any_eq_true, List.any_eq_true]
  refine exists_congr fun p => and_congr_right fun hp => ?_
  rw [Pattern.occursIn_withReturns (h p hp).1 (h p hp).2]

theorem count_withReturns (h : ∀ p ∈ r.patterns, Checklist.IsSteady p) (s : List Char) :
    r.count (withReturns s) = r.count s := by
  have hcounts : r.patterns.map (·.count (withReturns s)) = r.patterns.map (·.count s) :=
    List.map_congr_left fun p hp => Pattern.count_withReturns (h p hp).1 (h p hp).2 s
  rw [count, count, hcounts]

/-- The kinds that a text is evidence of. -/
theorem filter_withReturns {rules : List (Rule κ)}
    (h : ∀ r ∈ rules, ∀ p ∈ r.patterns, Checklist.IsSteady p) (s : List Char) :
    rules.filter (·.occursIn (withReturns s)) = rules.filter (·.occursIn s) :=
  List.filter_congr fun r hr => occursIn_withReturns (h r hr) s

end Rule

namespace Findings

theorem hasStyleAttribute_withReturns (s : List Char) :
    hasStyleAttribute (withReturns s) = hasStyleAttribute s := by
  obtain ⟨-, -, -, -, ⟨hsteady, hstarts⟩, -⟩ := Checklist.isSteady_of_mem
  exact Pattern.occursIn_withReturns hsteady hstarts s

theorem assets_withReturns (s : List Char) : assets (withReturns s) = assets s := by
  rw [assets, Rule.filter_withReturns Checklist.isSteady_of_mem.2.2.1, assets]

theorem libraries_withReturns (s : List Char) : libraries (withReturns s) = libraries s := by
  rw [libraries, Rule.filter_withReturns Checklist.isSteady_of_mem.1, hasStyleAttribute_withReturns,
    libraries]

theorem tally_withReturns (s : List Char) : tally (withReturns s) = tally s := by
  ext1
  funext e
  refine Option.map_congr fun r hr => ?_
  exact Rule.count_withReturns (Checklist.isSteady_of_mem.2.1 r (List.mem_of_find?_eq_some hr)) s

/-- The style texts have the line ends of the text that they stand in. -/
theorem styleTexts_withReturns (s : List Char) :
    styleTexts (withReturns s) = (styleTexts s).map withReturns := by
  obtain ⟨-, -, -, -, -, hsteady, hstarts⟩ := Checklist.isSteady_of_mem
  have hempty : ∀ t : List Char, (withReturns t).isEmpty = t.isEmpty := fun t => by
    rw [Bool.eq_iff_iff, List.isEmpty_iff, List.isEmpty_iff, Text.withReturns_eq_nil_iff]
  have htrimmed : (Checklist.styleLiteral.findAll (withReturns s)).map
      (fun m => Text.trim m.captured) =
        ((Checklist.styleLiteral.findAll s).map fun m => Text.trim m.captured).map withReturns := by
    have hfound := congrArg (List.map Text.trim)
      (Pattern.captured_findAll_withReturns hsteady hstarts s)
    simpa only [List.map_map, Function.comp_def, Text.trim_withReturns] using hfound
  rw [styleTexts, styleTexts, htrimmed, List.filter_map]
  simp only [Function.comp_def, hempty]

/-- A declared name holds no line end. -/
theorem declaredName?_withReturns (s : List Char) :
    declaredName? (withReturns s) = declaredName? s := by
  have hfirst : ∀ p ∈ Checklist.declarations,
      ((p.first? (withReturns s)).map fun m => String.ofList m.captured) =
        ((p.first? s).map fun m => String.ofList m.captured).map fun name =>
          String.ofList (withReturns name.toList) := fun p hp => by
    obtain ⟨hsteady, hstarts⟩ := Checklist.isSteady_of_mem.2.2.2.1 p hp
    have hcaptured := congrArg (Option.map String.ofList)
      (Pattern.captured_first?_withReturns hsteady hstarts s)
    simpa only [Option.map_map, Function.comp_def, String.toList_ofList] using hcaptured
  have hname : declaredName? (withReturns s) =
      (declaredName? s).map fun name => String.ofList (withReturns name.toList) := by
    rw [declaredName?, ← List.head?_filterMap, List.filterMap_congr hfirst, List.head?_filterMap,
      declaredName?, List.map_findSome?]
    rfl
  rw [hname]
  refine (Option.map_congr fun name h => ?_).trans Option.map_id'
  have hnewline : '\n' ∉ name.toList := fun hmem => by
    have hword := (isWord_of_declaredName? h).2 '\n' hmem
    exact absurd hword (by decide)
  rw [Text.withReturns_of_notMem hnewline, String.ofList_toList]

/-- The samples have the line ends of the text that they stand in. -/
theorem samples_withReturns (limit : Nat) (s : List Char) : samples limit (withReturns s) =
    (samples limit s).map fun sample => String.ofList (withReturns sample.toList) := by
  rw [samples, samples, styleTexts_withReturns, ← List.map_take, List.map_map, List.map_map]
  simp only [Function.comp_def, String.toList_ofList]

/-- **The findings in a text with other line ends**: a carriage return in front of every line feed
changes nothing but the line ends within the style samples, and no asset is found or missed. -/
theorem scan_withReturns (limit : Nat) (s : List Char) :
    scan limit (withReturns s) = { scan limit s with
      styleSamples := (scan limit s).styleSamples.map fun sample =>
        String.ofList (withReturns sample.toList) } ∧
    assets (withReturns s) = assets s := by
  refine ⟨?_, assets_withReturns s⟩
  ext1
  case imports => exact libraries_withReturns s
  case counts => exact tally_withReturns s
  case usesStyleClasses => exact hasStyleAttribute_withReturns s
  case styleSamples => exact samples_withReturns limit s
  case name => exact declaredName?_withReturns s

/-- A carriage return ends a tag as a line feed does, and stays within a style sample. -/
example : let f := scan 6 (withReturns "<Card\nclassName='a\nb\n'".toList)
    (f.counts.count .cards, f.styleSamples) = (1, ["a\r\nb"]) := by
  decide +kernel

end Findings

end ScreenAtlas
