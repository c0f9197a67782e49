import Mathlib.Data.List.TakeWhile
import ScreenAtlas.Overview.Markdown
/-!
# Taking lines apart

A line of the document is put together from fixed words and texts of the project, and the document
from lines. What was put together can be taken apart again wherever a part cannot hold what stands
after it: a text ends at the first backtick, a list of texts at the first character that belongs to
its separators, and the lines of one item at the next line that opens an item.

## Main definitions

* `IsItem` — a line that opens an item, and the lines nested below it.
* `itemsOr` — the lines of the items, or a message.

## Main statements

* `append_cons_inj` — a list up to the first place of a value.
* `intercalate_inj` — the parts between separators.
* `flatten_items_inj` — the items of a list of lines.
* `splitOn_markdown` — the lines of a document, as they are read.
-/
namespace ScreenAtlas.Overview

/-- **Up to the first place of a value**, and behind it. -/
theorem append_cons_inj {α : Type} {a : α} {xs ys xs' ys' : List α} (hxs : a ∉ xs) (hxs' : a ∉ xs')
    (h : xs ++ a :: ys = xs' ++ a :: ys') : xs = xs' ∧ ys = ys' := by
  induction xs generalizing xs' with
  | nil =>
      cases xs' with
      | nil => exact ⟨rfl, (List.cons.inj h).2⟩
      | cons b xs' => exact absurd ((List.cons.inj h).1 ▸ List.mem_cons_self) hxs'
  | cons b xs ih =>
      rw [List.mem_cons, not_or] at hxs
      cases xs' with
      | nil => exact absurd (List.cons.inj h).1.symm hxs.1
      | cons b' xs' =>
          rw [List.mem_cons, not_or] at hxs'
          obtain ⟨rfl, hrest⟩ := List.cons.inj h
          obtain ⟨rfl, hys⟩ := ih hxs.2 hxs'.2 hrest
          exact ⟨rfl, hys⟩

/-- Two functions that agree on which members of two lists go together. -/
theorem map_eq_map_iff_of_forall {α β γ : Type} {f f' : α → β} {g g' : α → γ} {xs ys : List α}
    (h : ∀ x ∈ xs, ∀ y ∈ ys, f x = f' y ↔ g x = g' y) :
    xs.map f = ys.map f' ↔ xs.map g = ys.map g' := by
  induction xs generalizing ys with
  | nil => cases ys <;> simp
  | cons x xs ih =>
      cases ys with
      | nil => simp
      | cons y ys =>
          have hhead := h x List.mem_cons_self y List.mem_cons_self
          have htail := ih fun x hx y hy =>
            h x (List.mem_cons_of_mem _ hx) y (List.mem_cons_of_mem _ hy)
          simp only [List.map_cons, List.cons.injEq, hhead, htail]

theorem code_append (s more : Line) : code s ++ more = '\x60' :: (s ++ '\x60' :: more) := by
  simp [code]

/-- A text between backticks ends at the next backtick. -/
theorem code_append_inj {s t more more' : Line} (hs : '\x60' ∉ s) (ht : '\x60' ∉ t)
    (h : code s ++ more = code t ++ more') : s = t ∧ more = more' := by
  rw [code_append, code_append] at h
  exact append_cons_inj hs ht (List.cons.inj h).2

theorem code_inj {s t : Line} (h : code s = code t) : s = t :=
  List.append_cancel_right (List.cons.inj h).2

/-- **The parts between separators**, where no part holds the character that marks a separator. -/
theorem intercalate_inj {separator front back : Line} {c : Char}
    (hseparator : separator = front ++ c :: back) (hfront : c ∉ front) {parts parts' : List Line}
    (hparts : ∀ p ∈ parts, c ∉ p) (hparts' : ∀ p ∈ parts', c ∉ p) (hne : parts ≠ [])
    (hne' : parts' ≠ []) (h : separator.intercalate parts = separator.intercalate parts') :
    parts = parts' := by
  have hcut : ∀ (p q : Line) (rest : List Line), separator.intercalate (p :: q :: rest) =
      (p ++ front) ++ c :: (back ++ separator.intercalate (q :: rest)) := by
    intro p q rest
    rw [List.intercalate_cons_cons, hseparator]
    simp
  induction parts generalizing parts' with
  | nil => exact absurd rfl hne
  | cons p parts ih =>
      obtain ⟨p', rest', rfl⟩ := List.exists_cons_of_ne_nil hne'
      obtain ⟨hp, hrest⟩ := List.forall_mem_cons.mp hparts
      obtain ⟨hp', hrest'⟩ := List.forall_mem_cons.mp hparts'
      cases parts with
      | nil =>
          cases rest' with
          | nil => simpa using h
          | cons q' rest' =>
              rw [List.intercalate_singleton, hcut] at h
              exact absurd (h ▸ by simp) hp
      | cons q rest =>
          cases rest' with
          | nil =>
              rw [List.intercalate_singleton, hcut] at h
              exact absurd (h ▸ by simp) hp'
          | cons q' rest' =>
              rw [hcut, hcut] at h
              obtain ⟨hpart, htail⟩ := append_cons_inj (by simp [hp, hfront])
                (by simp [hp', hfront]) h
              rw [List.append_cancel_right hpart, ih hrest hrest' (by simp) (by simp)
                (List.append_cancel_left htail)]

/-- The parts of a separated list of texts. -/
theorem separated_inj {separator : String} (front back : Line) {c : Char}
    (hseparator : separator.toList = front ++ c :: back) (hfront : c ∉ front)
    {parts parts' : List String} (hparts : ∀ p ∈ parts, c ∉ p.toList)
    (hparts' : ∀ p ∈ parts', c ∉ p.toList) (hne : parts ≠ []) (hne' : parts' ≠ [])
    (h : separated separator parts = separated separator parts') : parts = parts' := by
  have hmap : parts.map String.toList = parts'.map String.toList :=
    intercalate_inj hseparator hfront (by simpa using hparts) (by simpa using hparts')
      (by simpa using hne) (by simpa using hne') h
  exact (List.map_inj_right fun _ _ => String.toList_inj.mp).mp hmap

/-- What a separated list of texts holds, its separator or one of its parts holds. -/
theorem notMem_separated {c : Char} (separator : String) {parts : List String}
    (hseparator : c ∉ separator.toList) (hparts : ∀ p ∈ parts, c ∉ p.toList) :
    c ∉ separated separator parts := by
  induction parts with
  | nil => simp [separated]
  | cons p parts ih =>
      obtain ⟨hp, hrest⟩ := List.forall_mem_cons.mp hparts
      have ih := ih hrest
      unfold separated at ih ⊢
      cases parts with
      | nil => simpa using hp
      | cons q rest =>
          rw [List.map_cons, List.map_cons, List.intercalate_cons_cons]
          simp only [List.mem_append, not_or]
          exact ⟨⟨hp, hseparator⟩, ih⟩

/-- A separated list of texts ends in the last character of its last text. -/
theorem exists_getLast?_separated {P : Char → Prop} (separator : String) {parts : List String}
    (hne : parts ≠ []) (h : ∀ p ∈ parts, ∃ c, p.toList.getLast? = some c ∧ P c) :
    ∃ c, (separated separator parts).getLast? = some c ∧ P c := by
  induction parts with
  | nil => exact absurd rfl hne
  | cons p parts ih =>
      obtain ⟨hp, hrest⟩ := List.forall_mem_cons.mp h
      cases parts with
      | nil => simpa [separated] using hp
      | cons q rest =>
          obtain ⟨c, hc, hP⟩ := ih (List.cons_ne_nil q rest) hrest
          refine ⟨c, ?_, hP⟩
          rw [separated] at hc ⊢
          rw [List.map_cons, List.map_cons, List.intercalate_cons_cons, ← List.map_cons,
            List.getLast?_append, hc, Option.some_or]

/-! ## Items -/

/-- A line that opens an item, and the lines nested below it. -/
structure IsItem (item : List Line) : Prop where
  exists_cons : ∃ opening nested, item = opening :: nested ∧ "- ".toList <+: opening ∧
    ∀ l ∈ nested, "  - ".toList <+: l

/-- Nested lines end in front of the next item. -/
theorem takeWhile_nested {nested : List Line} {items : List (List Line)}
    (hnested : ∀ l ∈ nested, "  - ".toList <+: l) (hitems : ∀ item ∈ items, IsItem item) :
    (nested ++ items.flatten).takeWhile (fun l => "  - ".toList.isPrefixOf l) = nested := by
  have hend : items.flatten.takeWhile (fun l => "  - ".toList.isPrefixOf l) = [] := by
    cases items with
    | nil => rfl
    | cons item items =>
        obtain ⟨opening, nested, rfl, ⟨rest, rfl⟩, -⟩ :=
          (hitems item List.mem_cons_self).exists_cons
        simp
  rw [List.takeWhile_append_of_pos fun l hl => List.isPrefixOf_iff_prefix.mpr (hnested l hl), hend,
    List.append_nil]

/-- **The items of a list of lines.** -/
theorem flatten_items_inj {items items' : List (List Line)} (h : ∀ item ∈ items, IsItem item)
    (h' : ∀ item ∈ items', IsItem item) (heq : items.flatten = items'.flatten) :
    items = items' := by
  induction items generalizing items' with
  | nil =>
      cases items' with
      | nil => rfl
      | cons item' items' =>
          obtain ⟨opening, nested, rfl, -⟩ := (h' item' List.mem_cons_self).exists_cons
          simp at heq
  | cons item items ih =>
      obtain ⟨hitem, hitems⟩ := List.forall_mem_cons.mp h
      obtain ⟨opening, nested, rfl, -, hnested⟩ := hitem.exists_cons
      cases items' with
      | nil => simp at heq
      | cons item' items' =>
          obtain ⟨hitem', hitems'⟩ := List.forall_mem_cons.mp h'
          obtain ⟨opening', nested', rfl, -, hnested'⟩ := hitem'.exists_cons
          rw [List.flatten_cons, List.flatten_cons, List.cons_append, List.cons_append,
            List.cons.injEq] at heq
          have hsame : nested = nested' := by
            rw [← takeWhile_nested hnested hitems, heq.2, takeWhile_nested hnested' hitems']
          subst hsame
          rw [heq.1, ih hitems hitems' (List.append_cancel_left heq.2)]

/-- The lines of the items, or a message where there are none. -/
def itemsOr (message : Line) (items : List (List Line)) : List Line :=
  if items = [] then [message] else items.flatten

/-- The message is no item, so the items can be told from a list of lines that may be the
message. -/
theorem itemsOr_inj {message : Line} {items items' : List (List Line)}
    (h : ∀ item ∈ items, IsItem item ∧ item.head? ≠ some message)
    (h' : ∀ item ∈ items', IsItem item ∧ item.head? ≠ some message)
    (heq : itemsOr message items = itemsOr message items') : items = items' := by
  have hmixed : ∀ items : List (List Line),
      (∀ item ∈ items, IsItem item ∧ item.head? ≠ some message) → items ≠ [] →
      items.flatten ≠ [message] := by
    intro items hitems hne hflat
    obtain ⟨item, items, rfl⟩ := List.exists_cons_of_ne_nil hne
    obtain ⟨hitem, hhead⟩ := hitems item List.mem_cons_self
    obtain ⟨opening, nested, rfl, -⟩ := hitem.exists_cons
    exact hhead (congrArg some (List.cons.inj hflat).1)
  unfold itemsOr at heq
  by_cases hnil : items = []
  · by_cases hnil' : items' = []
    · rw [hnil, hnil']
    · rw [if_pos hnil, if_neg hnil'] at heq
      exact absurd heq.symm (hmixed items' h' hnil')
  · by_cases hnil' : items' = []
    · rw [if_neg hnil, if_pos hnil'] at heq
      exact absurd heq (hmixed items h hnil)
    · rw [if_neg hnil, if_neg hnil'] at heq
      exact flatten_items_inj (fun item hitem => (h item hitem).1)
        (fun item hitem => (h' item hitem).1) heq

/-- **Two lists of items** show the same if their members do. -/
theorem itemsOr_map_eq_iff {α β : Type} {message : Line} {f f' : α → List Line} {g g' : α → β}
    {xs ys : List α} (hf : ∀ x, IsItem (f x) ∧ (f x).head? ≠ some message)
    (hf' : ∀ x, IsItem (f' x) ∧ (f' x).head? ≠ some message)
    (h : ∀ x ∈ xs, ∀ y ∈ ys, f x = f' y ↔ g x = g' y) :
    itemsOr message (xs.map f) = itemsOr message (ys.map f') ↔ xs.map g = ys.map g' := by
  rw [← map_eq_map_iff_of_forall h]
  constructor
  · refine itemsOr_inj (fun item hitem => ?_) (fun item hitem => ?_)
    · obtain ⟨x, -, rfl⟩ := List.mem_map.mp hitem
      exact hf x
    · obtain ⟨x, -, rfl⟩ := List.mem_map.mp hitem
      exact hf' x
  · exact congrArg (itemsOr message)

/-- No line of an item is empty. -/
theorem nil_notMem_itemsOr {message : Line} {items : List (List Line)} (hmessage : message ≠ [])
    (h : ∀ item ∈ items, IsItem item) : [] ∉ itemsOr message items := by
  unfold itemsOr
  split
  · simpa using hmessage.symm
  · intro hmem
    obtain ⟨item, hitem, hmem⟩ := List.mem_flatten.mp hmem
    obtain ⟨opening, nested, rfl, hopening, hnested⟩ := (h item hitem).exists_cons
    rcases List.mem_cons.mp hmem with rfl | hmem
    · exact absurd (List.prefix_nil.mp hopening) (by simp)
    · exact absurd (List.prefix_nil.mp (hnested [] hmem)) (by simp)

/-- What holds of the message and of every line of the items. -/
theorem forall_mem_itemsOr {p : Line → Prop} {message : Line} {items : List (List Line)}
    (hmessage : p message) (h : ∀ item ∈ items, ∀ l ∈ item, p l) :
    ∀ l ∈ itemsOr message items, p l := by
  intro l hl
  unfold itemsOr at hl
  split at hl
  · rwa [List.mem_singleton.mp hl]
  · obtain ⟨item, hitem, hl⟩ := List.mem_flatten.mp hl
    exact h item hitem l hl

/-! ## Reading lines -/

theorem splitOn_flatMap_lines (lines : List Line) :
    (lines.flatMap fun line => line ++ ['\n']).splitOn '\n' =
      lines.flatMap (·.splitOn '\n') ++ [[]] := by
  induction lines with
  | nil => simp
  | cons line lines ih =>
      rw [List.flatMap_cons, List.append_assoc, List.singleton_append,
        List.splitOn_append_cons_self, ih, List.flatMap_cons, List.append_assoc]

/-- **The lines of a document, as they are read**: a line that holds line feeds is read as several,
and nothing follows the last line feed. -/
theorem splitOn_markdown (o : Overview) :
    o.markdown.toList.splitOn '\n' = o.lines.flatMap (·.splitOn '\n') ++ [[]] := by
  rw [markdown, String.toList_ofList, splitOn_flatMap_lines]

/-- Lines without line feeds are read as they were written. -/
theorem flatMap_splitOn_of_notMem {lines : List Line} (h : ∀ l ∈ lines, '\n' ∉ l) :
    lines.flatMap (·.splitOn '\n') = lines := by
  induction lines with
  | nil => rfl
  | cons line lines ih =>
      obtain ⟨hline, hlines⟩ := List.forall_mem_cons.mp h
      rw [List.flatMap_cons, List.splitOn_eq_singleton hline, ih hlines, List.singleton_append]

/-- A text that holds no line feed stays together at the start of a line, and the lines that follow
are those of the rest. -/
theorem exists_splitOn_append {s : Line} (hs : '\n' ∉ s) (more : Line) :
    ∃ front continued, (s ++ more).splitOn '\n' = (s ++ front) :: continued ∧
      more.splitOn '\n' = front :: continued := by
  by_cases hmore : '\n' ∈ more
  · obtain ⟨front, back, rfl, hfront⟩ := List.eq_append_cons_of_mem hmore
    refine ⟨front, back.splitOn '\n', ?_, List.splitOn_append_cons_self_of_not_mem hfront _⟩
    rw [← List.append_assoc, List.splitOn_append_cons_self_of_not_mem]
    simp [hs, hfront]
  · exact ⟨more, [], List.splitOn_eq_singleton (by simp [hs, hmore]),
      List.splitOn_eq_singleton hmore⟩

/-- A later part between line feeds stands behind one of them. -/
theorem infix_intercalate_of_mem {l : Line} {parts : List Line} (h : l ∈ parts) (front : Line) :
    '\n' :: l <:+: ['\n'].intercalate (front :: parts) := by
  induction parts generalizing front with
  | nil => cases h
  | cons part parts ih =>
      rw [List.intercalate_cons_cons, List.append_assoc]
      rcases List.mem_cons.mp h with rfl | h
      · have hfirst : l <+: ['\n'].intercalate (l :: parts) := by
          cases parts with
          | nil => simp
          | cons part parts =>
              rw [List.intercalate_cons_cons, List.append_assoc]
              exact List.prefix_append l _
        exact ((List.prefix_cons_inj '\n').mpr hfirst).isInfix.trans
          (List.suffix_append _ _).isInfix
      · exact (ih h part).trans ((List.suffix_append _ _).trans (List.suffix_append _ _)).isInfix

/-- A line that is not the first one stands behind a line feed. -/
theorem infix_of_mem_tail_splitOn {s l : Line} (h : l ∈ (s.splitOn '\n').tail) :
    '\n' :: l <:+: s := by
  obtain ⟨front, parts, hparts⟩ := List.exists_cons_of_ne_nil (List.splitOn_ne_nil '\n' s)
  have htext : ['\n'].intercalate (s.splitOn '\n') = s := List.intercalate_splitOn '\n'
  rw [hparts, List.tail_cons] at h
  rw [← htext, hparts]
  exact infix_intercalate_of_mem h front

end ScreenAtlas.Overview
