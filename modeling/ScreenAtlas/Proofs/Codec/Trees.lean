import Mathlib.Data.List.Nodup
import ScreenAtlas.Proofs.Codec.Findings
import ScreenAtlas.Proofs.Json.Nested
/-!
# What trees mean as findings

A list of libraries means the set of what its elements mean, in any order and with repetitions. The
counts mean a tally, in which the last of several entries for one element holds; if no two entries
have the same key, they may change places. The fields of findings are told by the keys of members.

## Main definitions

* `LibrarySet.Means`, `Tally.Means` — the meaning of a list of libraries and of counts.
* `Findings.slots` — the fields of findings.

## Main statements

* `LibrarySet.means_list_iff`, `Tally.Means.perm` — what the order does not change.
* `Findings.decode_object_iff` — which objects are read as findings, and as which.
-/
namespace ScreenAtlas

open Json

/-- What stands in the second of two lists is related to what stands in the first. -/
theorem exists_mem_of_forall₂ {α β : Type} {R : α → β → Prop} {as : List α} {bs : List β}
    (h : List.Forall₂ R as bs) {b : β} (hb : b ∈ bs) : ∃ a ∈ as, R a b := by
  induction h with
  | nil => cases hb
  | @cons a b' as bs hab _ ih =>
      obtain rfl | hb := List.mem_cons.mp hb
      · exact ⟨a, List.mem_cons_self, hab⟩
      · obtain ⟨a', ha', hR⟩ := ih hb
        exact ⟨a', List.mem_cons_of_mem a ha', hR⟩

/-! ## Sets of libraries -/

namespace LibrarySet

/-- A list of libraries means the set of them. -/
abbrev Means : Tree → LibrarySet → Prop :=
  MeansImage ofList (MeansList MeansWord)

theorem faithful_read : Faithful read Means :=
  (faithful_list faithful_variant).image ofList

theorem has_ofList (ls : List Library) (l : Library) : (ofList ls).has l = true ↔ l ∈ ls :=
  List.contains_iff_mem

/-- The words that trees mean are those of each tree. -/
theorem mem_iff_of_forall₂ {vs : List Tree} {ls : List Library}
    (h : List.Forall₂ MeansWord vs ls) (l : Library) : l ∈ ls ↔ ∃ v ∈ vs, MeansWord v l := by
  constructor
  · exact exists_mem_of_forall₂ h
  · rintro ⟨v, hv, hl⟩
    obtain ⟨l', hl', hword⟩ := exists_mem_of_forall₂ h.flip hv
    rwa [MeansWord.eq hl hword]

theorem exists_forall₂_iff (vs : List Tree) :
    (∃ ls : List Library, List.Forall₂ MeansWord vs ls) ↔
      ∀ v ∈ vs, ∃ l : Library, MeansWord v l := by
  induction vs with
  | nil => exact ⟨fun _ => List.forall_mem_nil _, fun _ => ⟨[], .nil⟩⟩
  | cons v vs ih =>
      rw [List.forall_mem_cons, ← ih]
      constructor
      · rintro ⟨_, h⟩
        cases h with
        | cons hv hvs => exact ⟨⟨_, hv⟩, _, hvs⟩
      · rintro ⟨⟨l, hv⟩, ls, hvs⟩
        exact ⟨l :: ls, .cons hv hvs⟩

/-- **A list means a set** if its elements mean the members of the set. -/
theorem means_list_iff {vs : List Tree} {s : LibrarySet} :
    Means (.list vs) s ↔ (∀ v ∈ vs, ∃ l : Library, MeansWord v l) ∧
      ∀ l, s.has l = true ↔ ∃ v ∈ vs, MeansWord v l := by
  rw [← exists_forall₂_iff]
  constructor
  · rintro ⟨⟨hls⟩⟩
    exact ⟨⟨_, hls⟩, fun l => (has_ofList _ l).trans (mem_iff_of_forall₂ hls l)⟩
  · rintro ⟨⟨ls, hls⟩, hhas⟩
    have hs : s = ofList ls := by
      ext l
      rw [Bool.eq_iff_iff, hhas, has_ofList, mem_iff_of_forall₂ hls]
    rw [hs]
    exact .intro (.intro hls)

/-- **The elements of a list** may change places and be repeated. -/
theorem Means.of_mem_iff {vs vs' : List Tree} {s : LibrarySet} (h : Means (.list vs) s)
    (hsame : ∀ v, v ∈ vs ↔ v ∈ vs') : Means (.list vs') s := by
  rw [means_list_iff] at h ⊢
  simpa only [← hsame] using h

end LibrarySet

/-! ## Tallies -/

namespace Tally

/-- Counts mean the tally of their entries. -/
abbrev Means : Tree → Tally → Prop :=
  MeansImage empty.insertAll (MeansMap MeansWord MeansNatural)

theorem faithful_read : Faithful read Means :=
  (faithful_map faithful_variant faithful_natural).image empty.insertAll

/-- No two members have keys that stand for the same characters. -/
def DistinctKeys (ms : List (List Char × Tree)) : Prop :=
  ms.Pairwise fun m m' => ∀ key, StandsFor m.1 key → ¬StandsFor m'.1 key

theorem DistinctKeys.perm {ms ms' : List (List Char × Tree)} (h : DistinctKeys ms)
    (hperm : ms.Perm ms') : DistinctKeys ms' :=
  hperm.pairwise h fun hne key hkey hkey' => hne key hkey' hkey

/-- Entries for different elements may change places. -/
theorem insertAll_perm {entries entries' : List (Element × Nat)}
    (hdistinct : (entries.map Prod.fst).Nodup) (hperm : entries.Perm entries') (t : Tally) :
    t.insertAll entries = t.insertAll entries' := by
  refine hperm.foldl_eq' (fun p hp q hq t => ?_) t
  by_cases hpq : p.1 = q.1
  · rw [List.inj_on_of_nodup_map hdistinct hp hq hpq]
  · ext1
    funext e
    simp only [get?_insert]
    split
    · next hq => rw [if_neg fun hp => hpq (hp.symm.trans hq)]
    · rfl

/-- Members with different keys mean entries for different elements. -/
theorem nodup_of_distinctKeys {ms : List (List Char × Tree)} {entries : List (Element × Nat)}
    (h : List.Forall₂ (fun m e => MeansWord (.string m.1) e.1 ∧ MeansNatural m.2 e.2) ms entries)
    (hdistinct : DistinctKeys ms) : (entries.map Prod.fst).Nodup := by
  induction h with
  | nil => exact .nil
  | @cons m e ms entries hm hms ih =>
      obtain ⟨hne, hdistinct⟩ := List.pairwise_cons.mp hdistinct
      refine List.nodup_cons.mpr ⟨fun hmem => ?_, ih hdistinct⟩
      obtain ⟨e', he', heq⟩ := List.mem_map.mp hmem
      obtain ⟨m', hm', hmeans, -⟩ := exists_mem_of_forall₂ hms he'
      rw [heq] at hmeans
      obtain ⟨hkey⟩ := hm.1
      obtain ⟨hkey'⟩ := hmeans
      exact hne m' hm' _ hkey hkey'

/-- **The entries of counts** may change places. -/
theorem Means.perm {ms ms' : List (List Char × Tree)} {t : Tally} (h : Means (.object ms) t)
    (hdistinct : DistinctKeys ms) (hperm : ms.Perm ms') : Means (.object ms') t := by
  obtain ⟨⟨hentries⟩⟩ := h
  obtain ⟨entries', hentries', hperm'⟩ := List.perm_comp_forall₂ hperm.symm hentries
  rw [← insertAll_perm (nodup_of_distinctKeys hentries' (hdistinct.perm hperm)) hperm']
  exact .intro (.intro hentries')

end Tally

/-! ## Findings -/

namespace Findings

/-- The fields of findings. -/
def slots : List (TreeSlot Draft) :=
  [⟨⟨"imports", LibrarySet, (·.imports), fun d v => { d with imports := some v }, LibrarySet.read,
      fun _ _ => rfl⟩, _, LibrarySet.faithful_read⟩,
    ⟨⟨"counts", Tally, (·.counts), fun d v => { d with counts := some v }, Tally.read,
      fun _ _ => rfl⟩, _, Tally.faithful_read⟩,
    ⟨⟨"uses_style_classes", Bool, (·.usesStyleClasses),
      fun d v => { d with usesStyleClasses := some v }, readBoolean, fun _ _ => rfl⟩, _,
      faithful_boolean⟩,
    ⟨⟨"style_samples", List String, (·.styleSamples), fun d v => { d with styleSamples := some v },
      readList readString, fun _ _ => rfl⟩, _, faithful_list (faithful_string _)⟩,
    ⟨⟨"name", Option String, (·.name), fun d v => { d with name := some v },
      readOptional readString, fun _ _ => rfl⟩, _, faithful_option (faithful_string _)⟩]

theorem hasSlots : format.HasSlots (slots.map TreeSlot.toSlot) where
  fields_eq := rfl
  apart := by
    simp only [slots, List.map_cons, List.map_nil, List.pairwise_cons, List.forall_mem_cons,
      List.not_mem_nil, false_imp_iff, implies_true, and_true, List.Pairwise.nil]
    refine ⟨⟨?_, ?_, ?_, ?_⟩, ⟨?_, ?_, ?_⟩, ⟨?_, ?_⟩, ?_⟩
    all_goals exact ⟨by decide, fun _ _ => rfl, fun _ _ => rfl⟩
  ext d d' h := by
    simp only [slots, List.map_cons, List.map_nil, List.forall_mem_cons] at h
    obtain ⟨himports, hcounts, huses, hsamples, hname, -⟩ := h
    obtain ⟨imports, counts, uses, samples, name⟩ := d
    obtain ⟨imports', counts', uses', samples', name'⟩ := d'
    rw [Draft.mk.injEq]
    exact ⟨himports, hcounts, huses, hsamples, hname⟩

variable {ms ms' : List (List Char × Tree)}

/-- **Which objects are read as findings**, and as which. -/
theorem decode_object_iff {text : List Char} (h : SpellsObject ms text) {f : Findings} :
    decode read text = .ok f ↔ ∃ d, MeansDraft slots ms d ∧ format.finish d = .ok f :=
  Format.decode_object_iff hasSlots (by simp [slots, format]) h

end Findings

end ScreenAtlas
