import Mathlib.Logic.Relation
import ScreenAtlas.Proofs.Codec.Trees
import ScreenAtlas.Proofs.Overview.Screens
/-!
# Findings do not depend on how they are presented

The findings that are read from an object are told by what it says, and not by the order in which it
says it. Members may change places, members that are not known may stand among them, libraries may
be listed in any order and more than once, and the entries of the counts may change places if no two
have the same key. The overview lists libraries and elements in checklist order in any case.

Only the key of a member that is not known must be a proper string: it is read before it is known to
be unknown.

## Main definitions

* `Findings.Rearranges` — one change of the members that does not change the findings.
* `Overview.FollowsChecklist` — the tags and features of a screen are in checklist order.

## Main statements

* `Findings.Rearranges.meansDraft` — a change keeps what the members mean.
* `Findings.decode_eq_of_rearranged` — findings are read from any presentation.
* `Findings.not_decode_eq_of_loneUnit` — a key that stands for nothing.
-/
namespace ScreenAtlas

open Json

namespace Findings

variable {ms ms' : List (List Char × Tree)}

/-! ## Changes of the members -/

/-- Whatever counts the members give, no two of their entries have the same key. -/
def DistinctCounts (ms : List (List Char × Tree)) : Prop :=
  ∀ name entries, (name, Tree.object entries) ∈ ms → StandsFor name "counts".toList →
    Tally.DistinctKeys entries

/-- One change of the members: they change places, there is one more that is not known, or the
elements of the imports or the entries of the counts are listed in another way. -/
inductive Rearranges : List (List Char × Tree) → List (List Char × Tree) → Prop
  | permuted {ms ms' : List (List Char × Tree)} (h : ms.Perm ms') : Rearranges ms ms'
  | unknown {front back : List (List Char × Tree)} {name : List Char} {key : String} (v : Tree)
      (hname : StandsFor name key.toList) (hkey : ∀ field ∈ format.fields, key ≠ field.key) :
      Rearranges (front ++ back) (front ++ (name, v) :: back)
  | imports {front back : List (List Char × Tree)} {name : List Char} {vs vs' : List Tree}
      (hname : StandsFor name "imports".toList) (h : ∀ v, v ∈ vs ↔ v ∈ vs') :
      Rearranges (front ++ (name, .list vs) :: back) (front ++ (name, .list vs') :: back)
  | counts {front back : List (List Char × Tree)} {name : List Char}
      {entries entries' : List (List Char × Tree)} (hname : StandsFor name "counts".toList)
      (h : entries.Perm entries') :
      Rearranges (front ++ (name, .object entries) :: back)
        (front ++ (name, .object entries') :: back)

namespace DistinctCounts

theorem perm (h : DistinctCounts ms) (hperm : ms.Perm ms') : DistinctCounts ms' :=
  fun name entries hmem => h name entries (hperm.mem_iff.mpr hmem)

theorem cons_iff {name : List Char} {v : Tree} :
    DistinctCounts ((name, v) :: ms) ↔
      (∀ entries, v = .object entries → StandsFor name "counts".toList →
        Tally.DistinctKeys entries) ∧ DistinctCounts ms := by
  constructor
  · intro h
    refine ⟨?_, fun name' entries hmem => h name' entries (List.mem_cons_of_mem _ hmem)⟩
    rintro entries rfl
    exact h name entries List.mem_cons_self
  · rintro ⟨hhead, htail⟩ name' entries hmem
    obtain heq | hmem := List.mem_cons.mp hmem
    · obtain ⟨rfl, rfl⟩ := Prod.mk.inj heq
      exact hhead entries rfl
    · exact htail name' entries hmem

end DistinctCounts

namespace Rearranges

/-- A change keeps the keys of the counts apart. -/
theorem distinctCounts (h : Rearranges ms ms') (hdistinct : DistinctCounts ms) :
    DistinctCounts ms' := by
  cases h with
  | permuted h => exact hdistinct.perm h
  | unknown v hname hkey =>
      refine DistinctCounts.perm (DistinctCounts.cons_iff.mpr ⟨fun entries _ hcounts => ?_,
        hdistinct⟩) List.perm_middle.symm
      have hunknown := hkey _ (List.mem_cons_of_mem _ List.mem_cons_self)
      exact absurd (String.toList_inj.mp (hname.eq hcounts)) hunknown
  | imports hname h =>
      obtain ⟨-, hothers⟩ := DistinctCounts.cons_iff.mp (hdistinct.perm List.perm_middle)
      refine DistinctCounts.perm (DistinctCounts.cons_iff.mpr ⟨fun entries heq => ?_, hothers⟩)
        List.perm_middle.symm
      cases heq
  | @counts front back name entries entries' hname h =>
      obtain ⟨hentries, hothers⟩ := DistinctCounts.cons_iff.mp (hdistinct.perm List.perm_middle)
      refine DistinctCounts.perm (DistinctCounts.cons_iff.mpr ⟨?_, hothers⟩)
        List.perm_middle.symm
      rintro entries'' heq hcounts
      obtain rfl := Tree.object.inj heq
      exact (hentries entries rfl hcounts).perm h

/-- **A change keeps what the members mean.** -/
theorem meansDraft (h : Rearranges ms ms') (hdistinct : DistinctCounts ms) {d : Draft}
    (hd : MeansDraft slots ms d) : MeansDraft slots ms' d := by
  cases h with
  | permuted h => exact hd.perm h
  | @unknown front back name key v hname hkey =>
      have hslots : ∀ s ∈ slots, key ≠ s.key := by
        intro s hs
        refine hkey s.field ?_
        rw [hasSlots.fields_eq]
        exact List.mem_map_of_mem (List.mem_map_of_mem hs)
      exact hd.insert hname hslots v
  | @imports front back name vs vs' hname h =>
      have hsame : ∀ s, LibrarySet.Means (.list vs) s → LibrarySet.Means (.list vs') s :=
        fun s hs => hs.of_mem_iff h
      exact hd.replace hname (by simpa [slots] using hsame)
  | @counts front back name entries entries' hname h =>
      obtain ⟨hentries, -⟩ := DistinctCounts.cons_iff.mp (hdistinct.perm List.perm_middle)
      have hsame : ∀ t, Tally.Means (.object entries) t → Tally.Means (.object entries') t :=
        fun t ht => ht.perm (hentries entries rfl hname) h
      exact hd.replace hname (by simpa [slots] using hsame)

end Rearranges

/-- **Any changes** keep what the members mean. -/
theorem meansDraft_of_rearranged (h : Relation.ReflTransGen Rearranges ms ms')
    (hdistinct : DistinctCounts ms) {d : Draft} (hd : MeansDraft slots ms d) :
    MeansDraft slots ms' d := by
  have hboth : DistinctCounts ms' ∧ MeansDraft slots ms' d := by
    induction h with
    | refl => exact ⟨hdistinct, hd⟩
    | tail _ hstep ih => exact ⟨hstep.distinctCounts ih.1, hstep.meansDraft ih.1 ih.2⟩
  exact hboth.2

end Findings

/-! ## In the overview -/

/-- The overview lists the libraries of a screen as tags, behind that of its role, and its elements
with their counts as features, both in checklist order. -/
structure Overview.FollowsChecklist (s : Screen) : Prop where
  tags : ∃ libraries : List Library, libraries.Sublist (Checklist.libraries.map (·.kind)) ∧
    (∀ l, l ∈ libraries ↔ s.findings.imports.has l = true) ∧
    tags s = s.route.role.toList.map (·.label) ++ libraries.map (·.tag)
  features : ∃ features : List (Element × Nat),
    (features.map Prod.fst).Sublist (Checklist.elements.map (·.kind)) ∧
    (∀ e n, (e, n) ∈ features ↔ s.findings.counts.count e = n ∧ 0 < n) ∧
    featureLine s = "  - features: ".toList ++
      if features = [] then "—".toList else separated ", " (features.map feature)

theorem Overview.followsChecklist (s : Screen) : FollowsChecklist s where
  tags := by
    refine ⟨s.findings.imports.toList, ?_, fun l => ?_, rfl⟩
    · exact List.filter_sublist
    · rw [LibrarySet.toList, List.mem_filter]
      exact and_iff_right (LawfulVocabulary.mem_all l)
  features := by
    refine ⟨s.findings.counts.positive, ?_, fun e n => ?_, ?_⟩
    · have hall : ((Vocabulary.all : List Element).map
          fun e => (e, s.findings.counts.count e)).map Prod.fst =
          Checklist.elements.map (·.kind) := rfl
      rw [← hall]
      exact List.filter_sublist.map Prod.fst
    · simp [Tally.positive, LawfulVocabulary.mem_all]
    · by_cases hnone : s.findings.counts.positive = []
      · rw [if_pos hnone, featureLine_of_nil hnone]
      · rw [if_neg hnone, featureLine_of_ne hnone]

namespace Findings

/-- **Findings are read from any presentation.** The objects of the grammar are the texts that are
spelled from members. What is read from one of them is read from every text of the same members, and
of members that any changes lead to, if no two counts have the same key. What the overview lists of
the findings is in checklist order. -/
theorem decode_eq_of_rearranged :
    (∀ text, (∃ members, IsObject text members) ↔ ∃ ms, SpellsObject ms text) ∧
    ∀ (ms ms' : List (List Char × Tree)) (text text' : List Char) (f : Findings),
      SpellsObject ms text → decode read text = .ok f → DistinctCounts ms →
      Relation.ReflTransGen Rearranges ms ms' → SpellsObject ms' text' →
      decode read text' = .ok f ∧
        ∀ route : Route, Overview.FollowsChecklist { route, findings := f } := by
  refine ⟨fun text => exists_isObject_iff_exists_spellsObject, ?_⟩
  intro ms ms' text text' f h hdecode hdistinct hms h'
  refine ⟨?_, fun route => Overview.followsChecklist _⟩
  obtain ⟨d, hd, hfinish⟩ := (decode_object_iff h).mp hdecode
  exact (decode_object_iff h').mpr ⟨d, meansDraft_of_rearranged hms hdistinct hd, hfinish⟩

/-! Findings with two libraries and two counts, as two texts. -/

def kitFindings : Findings where
  imports := .ofList [.svg, .uiKit]
  counts := Tally.empty.insertAll [(.cards, 2), (.buttons, 1)]
  usesStyleClasses := false
  styleSamples := []
  name := none

/-- A string that stands for itself. -/
def plain (name : String) : Tree :=
  .string name.toList

/-- The members that are the same in both texts. -/
def plainMembers : List (List Char × Tree) :=
  [("uses_style_classes".toList, .bool false), ("style_samples".toList, .list [])]

def kitMembers : List (List Char × Tree) :=
  ("imports".toList, .list [plain "svg", plain "ui-kit"]) ::
    ("counts".toList,
      .object [("cards".toList, .number ['2']), ("buttons".toList, .number ['1'])]) ::
    plainMembers

/-- The inside of the first text. -/
def kitInside : List Char :=
  "\"imports\":[\"svg\",\"ui-kit\"]".toList ++
    (",\"counts\":\x7b\"cards\":2,\"buttons\":1\x7d".toList ++
      ",\"uses_style_classes\":false,\"style_samples\":[]\x7d".toList)

def movedMembers : List (List Char × Tree) :=
  ("extra".toList, .object [("deep".toList, .list [.null, .bool true])]) ::
    ("counts".toList,
      .object [("buttons".toList, .number ['1']), ("cards".toList, .number ['2'])]) ::
    ("imports".toList, .list [plain "ui-kit", plain "svg", plain "ui-kit"]) :: plainMembers

/-- The inside of the second text behind its first member. -/
def movedInside : List Char :=
  ",\"counts\":\x7b\"buttons\": 1,\"cards\": 2\x7d".toList ++
    (",\"imports\":[\"ui-kit\",\"svg\",\"ui-kit\"]".toList ++
      ",\"uses_style_classes\":false,\"style_samples\":[]\x7d".toList)

/-- The second text. -/
def movedText : List Char :=
  '\x7b' :: (" \"extra\": \x7b\"deep\": [null, true]\x7d".toList ++ movedInside ++ ['\n'])

section
variable {lead : List Char} {first : Bool}

theorem isInside_plain (name : String) (h : name.toList.all (StandsForItself ·) = true) :
    IsInside name.toList :=
  (standsFor_self h).isInside

theorem spells_plain (name : String) (h : name.toList.all (StandsForItself ·) = true) :
    Spells (plain name) (quote name.toList) :=
  .string (isInside_plain name h)

theorem spells_natural (n : Nat) : Spells (.number (Nat.toDigits 10 n)) (Nat.toDigits 10 n) :=
  .number (isNumber_toDigits n)

theorem lead_comma : Lead false [','] :=
  .later isBlank_nil isBlank_nil

theorem isColon_colon : IsColon [':'] :=
  .intro isBlank_nil isBlank_nil

theorem isColon_space : IsColon [':', ' '] :=
  .intro isBlank_nil (isBlank_replicate 1 (by decide))

theorem spells_plainMembers : SpellsMembers false plainMembers
    ",\"uses_style_classes\":false,\"style_samples\":[]\x7d".toList :=
  .member lead_comma (isInside_plain "uses_style_classes" (by decide)) isColon_colon (.bool false)
    (.member lead_comma (isInside_plain "style_samples" (by decide)) isColon_colon
      (.list (.close isBlank_nil)) (.close isBlank_nil))

theorem spells_kitInside (hlead : Lead first lead) :
    SpellsMembers first kitMembers (lead ++ kitInside) := by
  have himports : Spells (.list [plain "svg", plain "ui-kit"]) "[\"svg\",\"ui-kit\"]".toList :=
    .list (.element (.first isBlank_nil) (spells_plain "svg" (by decide))
      (.element lead_comma (spells_plain "ui-kit" (by decide)) (.close isBlank_nil)))
  have hcounts : Spells
      (.object [("cards".toList, .number ['2']), ("buttons".toList, .number ['1'])])
      "\x7b\"cards\":2,\"buttons\":1\x7d".toList :=
    .object (.member (.first isBlank_nil) (isInside_plain "cards" (by decide)) isColon_colon
      (spells_natural 2) (.member lead_comma (isInside_plain "buttons" (by decide)) isColon_colon
        (spells_natural 1) (.close isBlank_nil)))
  exact .member hlead (isInside_plain "imports" (by decide)) isColon_colon himports
    (.member lead_comma (isInside_plain "counts" (by decide)) isColon_colon hcounts
      spells_plainMembers)

theorem spells_movedInside : SpellsMembers false movedMembers.tail movedInside := by
  have hcounts : Spells
      (.object [("buttons".toList, .number ['1']), ("cards".toList, .number ['2'])])
      "\x7b\"buttons\": 1,\"cards\": 2\x7d".toList :=
    .object (.member (.first isBlank_nil) (isInside_plain "buttons" (by decide)) isColon_space
      (spells_natural 1) (.member lead_comma (isInside_plain "cards" (by decide)) isColon_space
        (spells_natural 2) (.close isBlank_nil)))
  have himports : Spells (.list [plain "ui-kit", plain "svg", plain "ui-kit"])
      "[\"ui-kit\",\"svg\",\"ui-kit\"]".toList :=
    .list (.element (.first isBlank_nil) (spells_plain "ui-kit" (by decide))
      (.element lead_comma (spells_plain "svg" (by decide))
        (.element lead_comma (spells_plain "ui-kit" (by decide)) (.close isBlank_nil))))
  exact .member lead_comma (isInside_plain "counts" (by decide)) isColon_colon hcounts
    (.member lead_comma (isInside_plain "imports" (by decide)) isColon_colon himports
      spells_plainMembers)

theorem spellsObject_movedText : SpellsObject movedMembers movedText := by
  have hspace : IsBlank [' '] := isBlank_replicate 1 (by decide)
  have hend : IsBlank ['\n'] := isBlank_replicate 1 (by decide)
  have hextra : Spells (.object [("deep".toList, .list [.null, .bool true])])
      "\x7b\"deep\": [null, true]\x7d".toList :=
    .object (.member (.first isBlank_nil) (isInside_plain "deep" (by decide)) isColon_space
      (.list (.element (.first isBlank_nil) .null
        (.element (.later isBlank_nil hspace) (.bool true) (.close isBlank_nil))))
      (.close isBlank_nil))
  have hinside := SpellsMembers.member (.first hspace) (isInside_plain "extra" (by decide))
    isColon_space hextra spells_movedInside
  exact .intro isBlank_nil hinside hend

theorem rearranges_movedMembers : Relation.ReflTransGen Rearranges kitMembers movedMembers := by
  have himports : StandsFor "imports".toList "imports".toList := standsFor_self (by decide)
  have hcounts : StandsFor "counts".toList "counts".toList := standsFor_self (by decide)
  have hextra : StandsFor "extra".toList "extra".toList := standsFor_self (by decide)
  have hsame : ∀ v, v ∈ [plain "svg", plain "ui-kit"] ↔
      v ∈ [plain "ui-kit", plain "svg", plain "ui-kit"] := by
    simp [or_comm]
  exact .tail (.tail (.tail (.tail .refl
    (@Rearranges.imports [] _ _ _ _ himports hsame))
    (@Rearranges.counts [_] _ _ _ _ hcounts (.swap _ _ _)))
    (.permuted (.swap _ _ _)))
    (@Rearranges.unknown [] _ _ _ _ hextra (by decide))

theorem distinctCounts_kitMembers : DistinctCounts kitMembers := by
  have hcards : StandsFor "cards".toList "cards".toList := standsFor_self (by decide)
  have hbuttons : StandsFor "buttons".toList "buttons".toList := standsFor_self (by decide)
  intro name entries hmem _
  obtain rfl : entries =
      [("cards".toList, .number ['2']), ("buttons".toList, .number ['1'])] := by
    simp only [kitMembers, plainMembers, List.mem_cons, List.not_mem_nil, Prod.mk.injEq,
      Tree.object.injEq, reduceCtorEq, and_false, or_false, false_or] at hmem
    exact hmem.2
  refine List.pairwise_pair.mpr fun key hkey hkey' => ?_
  exact absurd ((hcards.eq hkey).trans (hkey'.eq hbuttons)) (by decide)

end

/-- The findings are read from both texts. -/
theorem decode_movedText :
    SpellsObject kitMembers ('\x7b' :: kitInside) ∧
      decode read ('\x7b' :: kitInside) = .ok kitFindings ∧ DistinctCounts kitMembers ∧
      Relation.ReflTransGen Rearranges kitMembers movedMembers ∧
      SpellsObject movedMembers movedText ∧ decode read movedText = .ok kitFindings ∧
      ∀ route : Route, Overview.FollowsChecklist { route, findings := kitFindings } := by
  have hkit : SpellsObject kitMembers ('\x7b' :: kitInside) := by
    have hobject := SpellsObject.intro isBlank_nil (spells_kitInside (.first isBlank_nil))
      isBlank_nil
    rwa [List.append_nil] at hobject
  have hdecode : decode read ('\x7b' :: kitInside) = .ok kitFindings := rfl
  exact ⟨hkit, hdecode, distinctCounts_kitMembers, rearranges_movedMembers, spellsObject_movedText,
    decode_eq_of_rearranged.2 _ _ _ _ _ hkit hdecode distinctCounts_kitMembers
      rearranges_movedMembers spellsObject_movedText⟩

/-- A member whose key stands for nothing cannot be added, though no field has such a key. -/
theorem not_decode_eq_of_loneUnit :
    ¬∀ (ms : List (List Char × Tree)) (name : List Char) (v : Tree) (text text' : List Char)
      (f : Findings), SpellsObject ms text → decode read text = .ok f → DistinctCounts ms →
      (∀ field ∈ format.fields, ¬StandsFor name field.key.toList) →
      SpellsObject ((name, v) :: ms) text' → decode read text' = .ok f := by
  intro h
  have hunit : IsUnit "d800".toList (((13 * 16 + 8) * 16 + 0) * 16 + 0) :=
    .intro (by decide) (by decide) (by decide) (by decide)
  have hname : ∀ key, ¬StandsFor "\\ud800".toList key := fun key hkey =>
    nomatch (hkey.readChars_append []).symm.trans (rfl : readChars _ = .error .unfinishedPair)
  have hkit : SpellsObject kitMembers ('\x7b' :: ([] ++ kitInside ++ [])) :=
    .intro isBlank_nil (spells_kitInside (.first isBlank_nil)) isBlank_nil
  have hlone : SpellsObject (("\\ud800".toList, .number ['0']) :: kitMembers)
      ('\x7b' :: (([] ++ (quote "\\ud800".toList ++ ([':'] ++ (['0'] ++ ([','] ++ kitInside))))) ++
        [])) :=
    .intro isBlank_nil (.member (.first isBlank_nil) (.unit hunit .nil) isColon_colon
      (spells_natural 0) (spells_kitInside lead_comma)) isBlank_nil
  have hread := h _ _ _ _ _ kitFindings hkit rfl distinctCounts_kitMembers (fun _ _ => hname _)
    hlone
  cases hread.symm.trans (rfl : decode read _ = .error .unfinishedPair)

end Findings

end ScreenAtlas
