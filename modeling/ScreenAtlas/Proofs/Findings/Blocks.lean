import ScreenAtlas.Proofs.Findings.Counts
import ScreenAtlas.Proofs.Pattern.Context
/-!
# Counts of blocks of lines

What an element is counted by ends in its line, or with the line feed that ends the line. So a file
is counted block by block, wherever it is cut between two lines, and the order of the blocks does
not matter.

## Main statements

* `tally_append` — the counts of whole lines and of what follows them.
* `counts_of_blocks` — the counts of blocks of lines, in any order.
-/
namespace ScreenAtlas

/-- No element is counted by a text that goes over the end of a line. -/
theorem Checklist.endsInLine_of_mem_elements :
    ∀ r ∈ elements, ∀ p ∈ r.patterns, p.endsInLine = true := by
  decide +kernel

namespace Findings

variable {s : List Char} {blocks : List (List Char)}

/-- **The counts of whole lines and of what follows them** add up. -/
theorem count_tally_append (hs : Text.IsLines s) (t : List Char) (e : Element) :
    (tally (s ++ t)).count e = (tally s).count e + (tally t).count e := by
  simp only [count_tally]
  exact Rule.count_append (Checklist.isPlaced_rule e)
    (Checklist.endsInLine_of_mem_elements _ (Checklist.rule_mem_elements e)) hs t

/-- The counts of blocks of lines add up. -/
theorem get?_tally_flatten (hblocks : ∀ b ∈ blocks, Text.IsLines b) (e : Element) :
    (tally blocks.flatten).get? e = some (blocks.map fun b => (tally b).count e).sum := by
  simp only [get?_tally, count_tally]
  rw [Rule.count_flatten (Checklist.isPlaced_rule e)
    (Checklist.endsInLine_of_mem_elements _ (Checklist.rule_mem_elements e)) hblocks]

/-- **The counts of blocks of lines.** Where the first of two texts is made of whole lines, the
counts of both together are the sums of their counts. So a text that is put together from blocks of
whole lines has a count of every element, the sum of the counts of the blocks, and the counts are
the same in every order of the blocks. -/
theorem counts_of_blocks (limit : Nat) :
    (∀ s, Text.IsLines s → ∀ t e, (scan limit (s ++ t)).counts.count e =
      (scan limit s).counts.count e + (scan limit t).counts.count e) ∧
    ∀ blocks : List (List Char), (∀ b ∈ blocks, Text.IsLines b) →
      (∀ e, (scan limit blocks.flatten).counts.get? e =
        some (blocks.map fun b => (scan limit b).counts.count e).sum) ∧
      ∀ blocks', blocks.Perm blocks' →
        (scan limit blocks'.flatten).counts = (scan limit blocks.flatten).counts := by
  refine ⟨fun s hs => count_tally_append hs, fun blocks hblocks => ⟨get?_tally_flatten hblocks, ?_⟩⟩
  intro blocks' hperm
  have hblocks' : ∀ b ∈ blocks', Text.IsLines b := fun b hb => hblocks b (hperm.mem_iff.mpr hb)
  ext e : 2
  change (tally blocks'.flatten).get? e = (tally blocks.flatten).get? e
  rw [get?_tally_flatten hblocks, get?_tally_flatten hblocks', (hperm.map _).sum_nat]

/-- A block with a tag that the line feed ends. -/
def cardBlock : List Char := "<Card\n".toList

/-- A block of two lines, each with a tag. -/
def modalBlock : List Char := "<Modal visible />\n<Card>\n".toList

/-- The line feed that ends a tag belongs to the block of the tag. -/
theorem counts_of_cardBlock_modalBlock :
    ((scan 6 (cardBlock ++ "/>".toList)).counts.count .cards = 1) ∧
    (scan 6 [cardBlock, modalBlock].flatten).counts.get? .cards = some 2 ∧
    (scan 6 [modalBlock, cardBlock].flatten).counts =
      (scan 6 [cardBlock, modalBlock].flatten).counts := by
  have hlines : ∀ b ∈ [cardBlock, modalBlock], Text.IsLines b := by decide
  obtain ⟨happend, hblocks⟩ := counts_of_blocks 6
  obtain ⟨hsum, hperm⟩ := hblocks [cardBlock, modalBlock] hlines
  have hcounts : (scan 6 cardBlock).counts.count .cards = 1 ∧
      (scan 6 "/>".toList).counts.count .cards = 0 ∧
      (scan 6 modalBlock).counts.count .cards = 1 := by
    decide +kernel
  obtain ⟨hcard, hrest, hmodal⟩ := hcounts
  refine ⟨?_, ?_, hperm _ (List.Perm.swap modalBlock cardBlock [])⟩
  · rw [happend cardBlock (hlines _ List.mem_cons_self), hcard, hrest]
  · rw [hsum, List.map_cons, List.map_singleton, hcard, hmodal]
    rfl

end Findings

end ScreenAtlas
