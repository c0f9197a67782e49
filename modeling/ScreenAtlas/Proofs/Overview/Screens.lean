import ScreenAtlas.Proofs.Findings
import ScreenAtlas.Proofs.Overview.Lines
import ScreenAtlas.Proofs.Vocabulary
/-!
# The lines of a screen

A screen takes one line, which may be followed by a line of features and a line of style samples.
Everything on these lines can be told from them, as long as no text of the screen holds a backtick,
its name is a word and no style sample holds a vertical bar.

## Main definitions

* `Inline` — the texts that fit between two backticks of a line.
* `Screen.IsLegible` — the screens whose texts can be told apart.
* `Screen.Content` — what the lines of a screen say.

## Main statements

* `isItem_screenLines` — the lines of a screen are an item.
* `newline_notMem_screenLine`, `newline_notMem_featureLine` — their line feeds.
* `screenLines_eq_iff` — the lines of a screen say what the screen shows, and nothing else.
-/
namespace ScreenAtlas

/-- A text without line feed and without backtick. -/
def Inline (s : String) : Prop :=
  '\n' ∉ s.toList ∧ '\x60' ∉ s.toList

instance (s : String) : Decidable (Inline s) :=
  inferInstanceAs (Decidable ('\n' ∉ s.toList ∧ '\x60' ∉ s.toList))

/-- A screen whose texts can be told apart on its lines. -/
structure Screen.IsLegible (s : Screen) : Prop where
  address : Inline s.route.address
  relativePath : Inline s.route.relativePath
  name : ∀ name, s.findings.name = some name → IsWord name
  samples : ∀ sample ∈ s.findings.styleSamples, Inline sample ∧ '|' ∉ sample.toList

/-- What the lines of a screen say. -/
@[ext] structure Screen.Content where
  address : String
  relativePath : String
  role : Option Role
  name : Option String
  imports : LibrarySet
  /-- The elements with a positive count, in checklist order. -/
  features : List (Element × Nat)
  styleSamples : List String

/-- What is shown of a screen. -/
def Screen.content (s : Screen) : Screen.Content where
  address := s.route.address
  relativePath := s.route.relativePath
  role := s.route.role
  name := s.findings.name
  imports := s.findings.imports
  features := s.findings.counts.positive
  styleSamples := s.findings.styleSamples

namespace Overview

/-! ## Tags -/

theorem mem_tags {s : Screen} {t : String} :
    t ∈ tags s ↔ (∃ r, s.route.role = some r ∧ r.label = t) ∨
      ∃ l, s.findings.imports.has l = true ∧ l.tag = t := by
  simp [tags, LibrarySet.toList, LawfulVocabulary.mem_all]

/-- No tag of a role is that of a library. -/
theorem label_ne_tag (r : Role) (l : Library) : r.label ≠ l.tag := by
  cases r <;> cases l <;> decide

theorem label_inj {r r' : Role} (h : r.label = r'.label) : r = r' := by
  revert h
  cases r <;> cases r' <;> decide

theorem tag_inj {l l' : Library} (h : l.tag = l'.tag) : l = l' := by
  revert h
  cases l <;> cases l' <;> decide

/-- A tag holds neither a comma nor a line feed. -/
theorem notMem_of_mem_tags {s : Screen} {t : String} (h : t ∈ tags s) :
    ',' ∉ t.toList ∧ '\n' ∉ t.toList := by
  rcases mem_tags.mp h with ⟨r, -, rfl⟩ | ⟨l, -, rfl⟩
  · cases r <;> decide
  · cases l <;> decide

/-- **Tags name the role and the libraries** of a screen. -/
theorem eq_of_tags {s s' : Screen} (h : tags s = tags s') :
    s.route.role = s'.route.role ∧ s.findings.imports = s'.findings.imports := by
  have hrole : ∀ r, s.route.role = some r ↔ s'.route.role = some r := by
    have hlabel : ∀ (s : Screen) r, s.route.role = some r ↔ r.label ∈ tags s := by
      intro s r
      rw [mem_tags]
      constructor
      · exact fun hr => .inl ⟨r, hr, rfl⟩
      · rintro (⟨r', hr', heq⟩ | ⟨l, -, heq⟩)
        · rwa [← label_inj heq]
        · exact absurd heq.symm (label_ne_tag r l)
    intro r
    rw [hlabel, hlabel, h]
  have himports : ∀ l, s.findings.imports.has l = true ↔ s'.findings.imports.has l = true := by
    have htag : ∀ (s : Screen) l, s.findings.imports.has l = true ↔ l.tag ∈ tags s := by
      intro s l
      rw [mem_tags]
      constructor
      · exact fun hl => .inr ⟨l, hl, rfl⟩
      · rintro (⟨r, -, heq⟩ | ⟨l', hl', heq⟩)
        · exact absurd heq (label_ne_tag r l)
        · rwa [← tag_inj heq]
    intro l
    rw [htag, htag, h]
  refine ⟨Option.ext fun r => hrole r, LibrarySet.ext ?_⟩
  funext l
  exact Bool.eq_iff_iff.mpr (himports l)

/-! ## The line of a screen -/

theorem tagPart_of_ne {s : Screen} (h : tags s ≠ []) :
    tagPart s = " [".toList ++ separated ", " (tags s) ++ [']'] := by
  rw [tagPart, if_neg h]

/-- A part with tags starts with a bracket behind its blank, so it is no name. -/
theorem tagPart_eq_nil_or (s : Screen) :
    tagPart s = [] ∨ ∃ rest, tagPart s = ' ' :: '[' :: rest := by
  by_cases h : tags s = []
  · exact .inl (if_pos h)
  · exact .inr ⟨separated ", " (tags s) ++ [']'], tagPart_of_ne h⟩

theorem tagPart_inj {s s' : Screen} (h : tagPart s = tagPart s') : tags s = tags s' := by
  by_cases hs : tags s = []
  · by_cases hs' : tags s' = []
    · rw [hs, hs']
    · rw [tagPart, if_pos hs, tagPart_of_ne hs'] at h
      simp at h
  · by_cases hs' : tags s' = []
    · rw [tagPart_of_ne hs, tagPart, if_pos hs'] at h
      simp at h
    · rw [tagPart_of_ne hs, tagPart_of_ne hs'] at h
      have hparts := List.append_cancel_left (List.append_cancel_right h)
      exact separated_inj [] [' '] rfl List.not_mem_nil
        (fun t ht => (notMem_of_mem_tags ht).1) (fun t ht => (notMem_of_mem_tags ht).1)
        hs hs' hparts

/-- A word holds no asterisk. -/
theorem asterisk_notMem {name : String} (h : IsWord name) : '*' ∉ name.toList := by
  intro hmem
  exact absurd (h.2 _ hmem) (by decide)

theorem namePart_of_some {s : Screen} {name : String} (h : s.findings.name = some name) :
    namePart s = " — **".toList ++ name.toList ++ "**".toList := by
  simp only [namePart, h]

theorem namePart_of_none {s : Screen} (h : s.findings.name = none) : namePart s = [] := by
  simp only [namePart, h]

/-- A name and tags can be told from the end of a screen's line. -/
theorem namePart_append_inj {s s' : Screen}
    (hname : ∀ name, s.findings.name = some name → IsWord name)
    (hname' : ∀ name, s'.findings.name = some name → IsWord name)
    (h : namePart s ++ tagPart s = namePart s' ++ tagPart s') :
    s.findings.name = s'.findings.name ∧ tags s = tags s' := by
  -- Behind the blank a name opens with a dash, and tags with a bracket.
  have hmixed : ∀ {s s' : Screen} {name : String}, s.findings.name = some name →
      s'.findings.name = none → namePart s ++ tagPart s ≠ namePart s' ++ tagPart s' := by
    intro s s' name hs hs' heq
    rw [namePart_of_some hs, namePart_of_none hs', List.nil_append] at heq
    rcases tagPart_eq_nil_or s' with htag | ⟨rest, htag⟩
    · rw [htag] at heq
      simp at heq
    · rw [htag] at heq
      simp at heq
  cases hs : s.findings.name with
  | none =>
      cases hs' : s'.findings.name with
      | none =>
          rw [namePart_of_none hs, namePart_of_none hs', List.nil_append, List.nil_append] at h
          exact ⟨rfl, tagPart_inj h⟩
      | some name' => exact absurd h.symm (hmixed hs' hs)
  | some name =>
      cases hs' : s'.findings.name with
      | none => exact absurd h (hmixed hs hs')
      | some name' =>
          rw [namePart_of_some hs, namePart_of_some hs'] at h
          simp only [List.append_assoc] at h
          obtain ⟨hsame, htags⟩ := append_cons_inj (asterisk_notMem (hname name hs))
            (asterisk_notMem (hname' name' hs')) (List.append_cancel_left h)
          refine ⟨congrArg some (String.toList_inj.mp hsame), tagPart_inj ?_⟩
          exact (List.cons.inj htags).2

theorem screenLine_eq (viewsLabel : String) (s : Screen) :
    screenLine viewsLabel s = "- ".toList ++ (code s.route.address.toList ++ (" ← ".toList ++
      (code (viewsLabel.toList ++ '/' :: s.route.relativePath.toList) ++
        (namePart s ++ tagPart s)))) := by
  simp only [screenLine, List.append_assoc]

/-- **The line of a screen** says its address, its file, its name and its tags. -/
theorem screenLine_inj {viewsLabel : String} (hlabel : Inline viewsLabel) {s s' : Screen}
    (hs : s.IsLegible) (hs' : s'.IsLegible)
    (h : screenLine viewsLabel s = screenLine viewsLabel s') :
    s.route = s'.route ∧ s.findings.name = s'.findings.name ∧
      s.findings.imports = s'.findings.imports := by
  have hpath : ∀ {s : Screen}, s.IsLegible →
      '\x60' ∉ viewsLabel.toList ++ '/' :: s.route.relativePath.toList := by
    intro s hs
    simp [hlabel.2, hs.relativePath.2]
  rw [screenLine_eq, screenLine_eq] at h
  obtain ⟨haddress, h⟩ := code_append_inj hs.address.2 hs'.address.2 (List.append_cancel_left h)
  obtain ⟨hfile, h⟩ := code_append_inj (hpath hs) (hpath hs') (List.append_cancel_left h)
  have hrelative := (List.cons.inj (List.append_cancel_left hfile)).2
  obtain ⟨hname, htags⟩ := namePart_append_inj hs.name hs'.name h
  obtain ⟨hrole, himports⟩ := eq_of_tags htags
  exact ⟨Route.ext (String.toList_inj.mp hrelative) (String.toList_inj.mp haddress) hrole, hname,
    himports⟩

/-! ## The nested lines -/

theorem element_label_inj {e e' : Element} (h : e.label = e'.label) : e = e' := by
  revert h
  cases e <;> cases e' <;> decide

/-- The label of an element holds none of the characters that stand next to it. -/
theorem notMem_label (e : Element) : ':' ∉ e.label.toList ∧ ',' ∉ e.label.toList ∧
    '\n' ∉ e.label.toList := by
  cases e <;> decide

theorem toList_feature (p : Element × Nat) :
    (feature p).toList = p.1.label.toList ++ ':' :: Nat.toDigits 10 p.2 := by
  simp [feature]

theorem toDigits_inj {m n : Nat} (h : Nat.toDigits 10 m = Nat.toDigits 10 n) : m = n := by
  rw [← Nat.ofDigitChars_ten_toDigits (n := m), h, Nat.ofDigitChars_ten_toDigits]

/-- A number is written in digits only. -/
theorem notMem_toDigits {c : Char} (hc : c.isDigit = false) (n : Nat) : c ∉ Nat.toDigits 10 n := by
  intro hmem
  have hdigit := Nat.isDigit_of_mem_toDigits (by decide) (by decide) hmem
  rw [hc] at hdigit
  cases hdigit

theorem feature_inj {p q : Element × Nat} (h : feature p = feature q) : p = q := by
  have hlist := congrArg String.toList h
  rw [toList_feature, toList_feature] at hlist
  obtain ⟨hlabel, hcount⟩ := append_cons_inj (notMem_label p.1).1 (notMem_label q.1).1 hlist
  exact Prod.ext (element_label_inj (String.toList_inj.mp hlabel)) (toDigits_inj hcount)

/-- A feature holds neither a comma nor a line feed. -/
theorem notMem_feature (p : Element × Nat) :
    ',' ∉ (feature p).toList ∧ '\n' ∉ (feature p).toList := by
  rw [toList_feature]
  simp [(notMem_label p.1).2.1, (notMem_label p.1).2.2, notMem_toDigits]

theorem featureLine_of_nil {s : Screen} (h : s.findings.counts.positive = []) :
    featureLine s = "  - features: ".toList ++ "—".toList := by
  unfold featureLine
  rw [h]

theorem featureLine_of_ne {s : Screen} (h : s.findings.counts.positive ≠ []) :
    featureLine s = "  - features: ".toList ++
      separated ", " (s.findings.counts.positive.map feature) := by
  unfold featureLine
  split
  · contradiction
  · rfl

/-- A list of features does not start with a dash. -/
theorem separated_feature_ne_dash {ps : List (Element × Nat)} (hps : ps ≠ []) :
    separated ", " (ps.map feature) ≠ "—".toList := by
  obtain ⟨p, ps, rfl⟩ := List.exists_cons_of_ne_nil hps
  intro h
  have hfront : ∃ rest, separated ", " ((p :: ps).map feature) = (feature p).toList ++ rest := by
    cases ps with
    | nil => exact ⟨[], by simp [separated]⟩
    | cons q ps => exact ⟨", ".toList ++ separated ", " ((q :: ps).map feature), by
        simp [separated, List.intercalate_cons_cons]⟩
  obtain ⟨rest, hrest⟩ := hfront
  rw [hrest, toList_feature] at h
  revert h
  cases p.1 <;> simp [Element.label]

/-- **The line of features** says the features. -/
theorem featureLine_inj {s s' : Screen} (h : featureLine s = featureLine s') :
    s.findings.counts.positive = s'.findings.counts.positive := by
  by_cases hs : s.findings.counts.positive = []
  · by_cases hs' : s'.findings.counts.positive = []
    · rw [hs, hs']
    · rw [featureLine_of_nil hs, featureLine_of_ne hs'] at h
      exact absurd (List.append_cancel_left h).symm (separated_feature_ne_dash hs')
  · by_cases hs' : s'.findings.counts.positive = []
    · rw [featureLine_of_ne hs, featureLine_of_nil hs'] at h
      exact absurd (List.append_cancel_left h) (separated_feature_ne_dash hs)
    · rw [featureLine_of_ne hs, featureLine_of_ne hs'] at h
      have hcomma : ∀ ps : List (Element × Nat), ∀ t ∈ ps.map feature, ',' ∉ t.toList := by
        intro ps t ht
        obtain ⟨p, -, rfl⟩ := List.mem_map.mp ht
        exact (notMem_feature p).1
      have hmap := separated_inj [] [' '] rfl List.not_mem_nil (hcomma _)
        (hcomma _) (by simpa using hs) (by simpa using hs') (List.append_cancel_left h)
      exact (List.map_inj_right fun _ _ => feature_inj).mp hmap

/-- **The line of style samples** says the samples, if there are any. -/
theorem sampleLine_inj {s s' : Screen} (hs : s.IsLegible) (hs' : s'.IsLegible)
    (hne : s.findings.styleSamples ≠ []) (hne' : s'.findings.styleSamples ≠ [])
    (h : sampleLine s = sampleLine s') : s.findings.styleSamples = s'.findings.styleSamples :=
  separated_inj [' '] [' '] rfl (by decide)
    (fun sample hsample => (hs.samples sample hsample).2)
    (fun sample hsample => (hs'.samples sample hsample).2) hne hne'
    (code_inj (List.append_cancel_left h))

/-! ## All lines of a screen -/

/-- The lines nested below the line of a screen. -/
def nestedLines (s : Screen) : List Line :=
  (if s.findings.counts.positive = [] ∧ s.findings.styleSamples = [] then []
    else [featureLine s]) ++
  if s.findings.styleSamples = [] then [] else [sampleLine s]

theorem screenLines_eq (viewsLabel : String) (s : Screen) :
    screenLines viewsLabel s = screenLine viewsLabel s :: nestedLines s :=
  rfl

theorem mem_nestedLines {s : Screen} {l : Line} (h : l ∈ nestedLines s) :
    l = featureLine s ∨ l = sampleLine s := by
  rw [nestedLines, List.mem_append, List.mem_ite_nil_left, List.mem_ite_nil_left,
    List.mem_singleton, List.mem_singleton] at h
  exact h.imp And.right And.right

/-- Nothing is nested below a screen without features and style samples. -/
theorem nestedLines_eq_nil_iff {s : Screen} : nestedLines s = [] ↔
    s.findings.counts.positive = [] ∧ s.findings.styleSamples = [] := by
  simp [nestedLines]

/-- The line of features comes first, and the style samples second. -/
theorem nestedLines_of_ne {s : Screen} (h : nestedLines s ≠ []) : nestedLines s =
    featureLine s :: if s.findings.styleSamples = [] then [] else [sampleLine s] := by
  rw [Ne, nestedLines_eq_nil_iff] at h
  rw [nestedLines, if_neg h, List.singleton_append]

theorem prefix_featureLine (s : Screen) : "  - ".toList <+: featureLine s :=
  ⟨_, List.append_assoc _ "features: ".toList _ |>.symm⟩

theorem prefix_sampleLine (s : Screen) : "  - ".toList <+: sampleLine s :=
  ⟨_, List.append_assoc _ "tailwind sample: ".toList _ |>.symm⟩

theorem isItem_screenLines (viewsLabel : String) (s : Screen) :
    IsItem (screenLines viewsLabel s) where
  exists_cons := by
    refine ⟨screenLine viewsLabel s, nestedLines s, rfl, ⟨_, (screenLine_eq viewsLabel s).symm⟩, ?_⟩
    intro l hl
    rcases mem_nestedLines hl with rfl | rfl
    · exact prefix_featureLine s
    · exact prefix_sampleLine s

/-- The line of a screen is one line, unless a path or a name breaks it. -/
theorem newline_notMem_screenLine {viewsLabel : String} {s : Screen}
    (hlabel : '\n' ∉ viewsLabel.toList) (haddress : '\n' ∉ s.route.address.toList)
    (hpath : '\n' ∉ s.route.relativePath.toList)
    (hname : ∀ name, s.findings.name = some name → IsWord name) :
    '\n' ∉ screenLine viewsLabel s := by
  have htagPart : '\n' ∉ tagPart s := by
    unfold tagPart
    split
    · exact List.not_mem_nil
    · have := notMem_separated (c := '\n') ", " (by decide)
        fun t ht => (notMem_of_mem_tags (s := s) ht).2
      simp [this]
  have hnamePart : '\n' ∉ namePart s := by
    cases h : s.findings.name with
    | none => simp [namePart_of_none h]
    | some name =>
        have hword : '\n' ∉ name.toList := fun hmem => absurd ((hname name h).2 _ hmem) (by decide)
        simp [namePart_of_some h, hword]
  simp [screenLine, code, hlabel, haddress, hpath, htagPart, hnamePart]

/-- The line of features is one line. -/
theorem newline_notMem_featureLine (s : Screen) : '\n' ∉ featureLine s := by
  by_cases h : s.findings.counts.positive = []
  · rw [featureLine_of_nil h]
    decide
  · rw [featureLine_of_ne h, List.mem_append, not_or]
    refine ⟨by decide, notMem_separated ", " (by decide) fun t ht => ?_⟩
    obtain ⟨p, -, rfl⟩ := List.mem_map.mp ht
    exact (notMem_feature p).2

/-- The line of style samples is one line, unless a sample breaks it. -/
theorem newline_notMem_sampleLine {s : Screen}
    (h : ∀ sample ∈ s.findings.styleSamples, '\n' ∉ sample.toList) : '\n' ∉ sampleLine s := by
  have hsamples := notMem_separated (c := '\n') " | " (by decide) h
  unfold sampleLine
  simp [code, hsamples]

theorem newline_notMem_screenLines {viewsLabel : String} (hlabel : Inline viewsLabel) {s : Screen}
    (hs : s.IsLegible) : ∀ l ∈ screenLines viewsLabel s, '\n' ∉ l := by
  intro l hl
  rcases List.mem_cons.mp hl with rfl | hnested
  · exact newline_notMem_screenLine hlabel.1 hs.address.1 hs.relativePath.1 hs.name
  · rcases mem_nestedLines hnested with rfl | rfl
    · exact newline_notMem_featureLine s
    · exact newline_notMem_sampleLine fun sample hsample => (hs.samples sample hsample).1.1

/-- The nested lines say the features and the style samples. -/
theorem nestedLines_inj {s s' : Screen} (hs : s.IsLegible) (hs' : s'.IsLegible)
    (h : nestedLines s = nestedLines s') :
    s.findings.counts.positive = s'.findings.counts.positive ∧
      s.findings.styleSamples = s'.findings.styleSamples := by
  by_cases hbare : nestedLines s = []
  · obtain ⟨hcounts, hsamples⟩ := nestedLines_eq_nil_iff.mp hbare
    obtain ⟨hcounts', hsamples'⟩ := nestedLines_eq_nil_iff.mp (h ▸ hbare)
    exact ⟨hcounts.trans hcounts'.symm, hsamples.trans hsamples'.symm⟩
  · have hbare' : nestedLines s' ≠ [] := h ▸ hbare
    rw [nestedLines_of_ne hbare, nestedLines_of_ne hbare', List.cons.injEq] at h
    refine ⟨featureLine_inj h.1, ?_⟩
    have h := h.2
    by_cases hnil : s.findings.styleSamples = []
    · by_cases hnil' : s'.findings.styleSamples = []
      · rw [hnil, hnil']
      · rw [if_pos hnil, if_neg hnil'] at h
        cases h
    · by_cases hnil' : s'.findings.styleSamples = []
      · rw [if_neg hnil, if_pos hnil'] at h
        cases h
      · rw [if_neg hnil, if_neg hnil'] at h
        exact sampleLine_inj hs hs' hnil hnil' (List.cons.inj h).1

/-- **The lines of a screen** say what is shown of the screen. -/
theorem screenLines_eq_iff {viewsLabel : String} (hlabel : Inline viewsLabel) {s s' : Screen}
    (hs : s.IsLegible) (hs' : s'.IsLegible) :
    screenLines viewsLabel s = screenLines viewsLabel s' ↔ s.content = s'.content := by
  constructor
  · intro h
    obtain ⟨hline, hnested⟩ := List.cons.inj h
    obtain ⟨hroute, hname, himports⟩ := screenLine_inj hlabel hs hs' hline
    obtain ⟨hcounts, hsamples⟩ := nestedLines_inj hs hs' hnested
    simp only [Screen.content, hroute, hname, himports, hcounts, hsamples]
  · intro h
    obtain ⟨haddress, hpath, hrole, hname, himports, hcounts, hsamples⟩ := Screen.Content.mk.inj h
    have hroute : s.route = s'.route := Route.ext hpath haddress hrole
    have htags : tags s = tags s' := by
      rw [tags, hrole, himports, tags]
    have hline : screenLine viewsLabel s = screenLine viewsLabel s' := by
      unfold screenLine namePart tagPart
      rw [hroute, hname, htags]
    have hnested : nestedLines s = nestedLines s' := by
      unfold nestedLines featureLine sampleLine
      rw [hcounts, hsamples]
    rw [screenLines_eq, screenLines_eq, hline, hnested]

end Overview

end ScreenAtlas
