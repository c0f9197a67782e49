import Mathlib.Data.List.Perm.Basic
import ScreenAtlas.Proofs.Json.Accepted
import ScreenAtlas.Proofs.Json.Meaning
import ScreenAtlas.Proofs.Json.Slots
/-!
# Lists, maps and records of trees

A list means the list of what its elements mean, and a map the list of what its members mean, in
their order. What the members of an object mean to a record does not depend on their order: the
values with the key of a slot fill that slot, and all other members may be anything.

## Main definitions

* `MeansList`, `MeansMap` — the meaning of lists and maps.
* `TreeSlot` — a slot of a record whose values are read as they are meant.
* `MeansDraft` — what the members of an object mean to a record.

## Main statements

* `faithful_list`, `faithful_map` — lists and maps.
* `Format.decode_object_iff` — which objects are read as a record, and as which.
* `MeansDraft.perm`, `MeansDraft.insert`, `MeansDraft.replace` — members in another order, more of
  them, and others in their place.
-/
namespace ScreenAtlas.Json

/-! ## Lists -/

section
variable {α : Type} {read : Reader α} {Means : Tree → α → Prop}

/-- A list means what its elements mean. -/
inductive MeansList (Means : Tree → α → Prop) : Tree → List α → Prop
  | intro {vs : List Tree} {as : List α} (h : List.Forall₂ Means vs as) :
      MeansList Means (.list vs) as

/-- The next element of a list starts behind its lead. -/
theorem Spells.nextElement_append {v : Tree} {text lead : List Char} (h : Spells v text)
    {first : Bool} (hlead : Lead first lead) (rest : List Char) :
    nextElement first (lead ++ (text ++ rest)) = .ok (.more (text ++ rest)) := by
  obtain ⟨c, s, rfl, hc⟩ := h.starts
  exact nextElement_lead hlead hc (s ++ rest)

/-- The elements that were read are what the trees mean. -/
theorem SpellsElements.of_readElements (hread : Faithful read Means) {fuel : Nat} {first : Bool}
    {vs : List Tree} {text rest rest' : List Char} {as : List α} (h : SpellsElements first vs text)
    (helements : readElements read fuel first (text ++ rest) = .ok (as, rest')) :
    rest' = rest ∧ List.Forall₂ Means vs as := by
  -- On the fuel and not on the text: the texts of elements are one of three relations together.
  induction fuel generalizing first vs text as with
  | zero => cases helements
  | succ fuel ih =>
      obtain ⟨next, hnext, helements⟩ := of_bind_eq_ok helements
      cases h with
      | close hblanks =>
          rw [List.append_assoc, List.singleton_append, nextElement_close first hblanks] at hnext
          obtain rfl := Except.ok.inj hnext
          obtain ⟨rfl, rfl⟩ := Prod.mk.inj (Except.ok.inj helements)
          exact ⟨rfl, .nil⟩
      | element hlead hvalue hrest =>
          rw [List.append_assoc, List.append_assoc, hvalue.nextElement_append hlead] at hnext
          obtain rfl := Except.ok.inj hnext
          obtain ⟨⟨a, afterValue⟩, hvalue', helements⟩ := of_bind_eq_ok helements
          obtain ⟨⟨as', afterAll⟩, hall, helements⟩ := of_bind_eq_ok helements
          obtain ⟨rfl, rfl⟩ := Prod.mk.inj (Except.ok.inj helements)
          obtain ⟨rfl, hmeans⟩ := hread.sound hvalue isBlank_nil (hrest.ends rest) hvalue'
          obtain ⟨rfl, hmore⟩ := ih hrest hall
          exact ⟨rfl, .cons hmeans hmore⟩

theorem SpellsElements.elements (hread : Faithful read Means) {first : Bool} {vs : List Tree}
    {text : List Char} {as : List α} (h : SpellsElements first vs text)
    (has : List.Forall₂ Means vs as) : Elements read first text as := by
  induction has generalizing first text with
  | nil =>
      cases h with
      | close hblanks => exact .close hblanks
  | cons hmeans _ ih =>
      cases h with
      | element hlead hvalue hrest =>
          exact .element hlead (hread.complete hvalue hmeans) (ih hrest)

/-- **Lists.** -/
theorem faithful_list (hread : Faithful read Means) :
    Faithful (readList read) (MeansList Means) where
  sound h hblanks _ hlist := by
    unfold readList at hlist
    rw [h.skipSpace_append hblanks] at hlist
    split at hlist
    · next ht =>
      obtain ⟨vs, inside, rfl, hvs, rfl⟩ := h.of_bracket ht
      obtain ⟨rfl, hall⟩ := hvs.of_readElements hread hlist
      exact ⟨rfl, .intro hall⟩
    · cases hlist
  complete h hmeans := by
    cases hmeans with
    | intro has =>
        cases h with
        | list h => exact (h.elements hread has).takes_list

end

/-! ## Maps -/

section
variable {κ ν : Type} {key : Reader κ} {value : Reader ν} {MeansKey : Tree → κ → Prop}
  {MeansValue : Tree → ν → Prop}

/-- A map means what its members mean, in their order. -/
inductive MeansMap (MeansKey : Tree → κ → Prop) (MeansValue : Tree → ν → Prop) :
    Tree → List (κ × ν) → Prop
  | intro {ms : List (List Char × Tree)} {entries : List (κ × ν)}
      (h : List.Forall₂ (fun m e => MeansKey (.string m.1) e.1 ∧ MeansValue m.2 e.2) ms entries) :
      MeansMap MeansKey MeansValue (.object ms) entries

/-- The next member of an object starts behind its lead. -/
theorem nextMember_append {first : Bool} {lead : List Char} (hlead : Lead first lead)
    (name rest : List Char) :
    nextMember first (lead ++ (quote name ++ rest)) = .ok (.more (quote name ++ rest)) :=
  nextMember_lead hlead _

/-- The entries that were read are what the members mean. -/
theorem SpellsMembers.of_readEntries (hkey : Faithful key MeansKey)
    (hvalue : Faithful value MeansValue) {fuel : Nat} {first : Bool}
    {ms : List (List Char × Tree)} {text rest rest' : List Char} {entries : List (κ × ν)}
    (h : SpellsMembers first ms text)
    (hentries : readEntries key value fuel first (text ++ rest) = .ok (entries, rest')) :
    rest' = rest ∧
      List.Forall₂ (fun m e => MeansKey (.string m.1) e.1 ∧ MeansValue m.2 e.2) ms entries := by
  induction fuel generalizing first ms text entries with
  | zero => cases hentries
  | succ fuel ih =>
      obtain ⟨next, hnext, hentries⟩ := of_bind_eq_ok hentries
      cases h with
      | close hblanks =>
          rw [List.append_assoc, List.singleton_append, nextMember_close first hblanks] at hnext
          obtain rfl := Except.ok.inj hnext
          obtain ⟨rfl, rfl⟩ := Prod.mk.inj (Except.ok.inj hentries)
          exact ⟨rfl, .nil⟩
      | member hlead hname hcolon htext hrest =>
          simp only [List.append_assoc] at hnext
          rw [nextMember_append hlead] at hnext
          obtain rfl := Except.ok.inj hnext
          obtain ⟨⟨k, afterKey⟩, hk, hentries⟩ := of_bind_eq_ok hentries
          obtain ⟨afterColon, hskip, hentries⟩ := of_bind_eq_ok hentries
          obtain ⟨⟨v, afterValue⟩, hv, hentries⟩ := of_bind_eq_ok hentries
          obtain ⟨⟨entries', afterAll⟩, hall, hentries⟩ := of_bind_eq_ok hentries
          obtain ⟨rfl, rfl⟩ := Prod.mk.inj (Except.ok.inj hentries)
          obtain ⟨rfl, hmeansKey⟩ := hkey.sound (.string hname) isBlank_nil (hcolon.ends _) hk
          obtain ⟨blanks, hblanks, hread⟩ := readColon_append hcolon
          obtain rfl := Except.ok.inj ((hread _).symm.trans hskip)
          obtain ⟨rfl, hmeansValue⟩ := hvalue.sound htext hblanks (hrest.ends rest) hv
          obtain ⟨rfl, hmore⟩ := ih hrest hall
          exact ⟨rfl, .cons ⟨hmeansKey, hmeansValue⟩ hmore⟩

theorem SpellsMembers.entries (hkey : Faithful key MeansKey) (hvalue : Faithful value MeansValue)
    {first : Bool} {ms : List (List Char × Tree)} {text : List Char} {entries : List (κ × ν)}
    (h : SpellsMembers first ms text)
    (hentries : List.Forall₂ (fun m e => MeansKey (.string m.1) e.1 ∧ MeansValue m.2 e.2) ms
      entries) : Entries key value first text entries := by
  induction hentries generalizing first text with
  | nil =>
      cases h with
      | close hblanks => exact .close hblanks
  | cons hmeans _ ih =>
      cases h with
      | member hlead hname hcolon htext hrest =>
          exact .entry hlead (hkey.complete (.string hname) hmeans.1) hcolon
            (hvalue.complete htext hmeans.2) (ih hrest)

/-- **Maps.** -/
theorem faithful_map (hkey : Faithful key MeansKey) (hvalue : Faithful value MeansValue) :
    Faithful (readMap key value) (MeansMap MeansKey MeansValue) where
  sound h hblanks _ hmap := by
    unfold readMap at hmap
    rw [h.skipSpace_append hblanks] at hmap
    split at hmap
    · next ht =>
      obtain ⟨ms, inside, rfl, hms, rfl⟩ := h.of_brace ht
      obtain ⟨rfl, hall⟩ := hms.of_readEntries hkey hvalue hmap
      exact ⟨rfl, .intro hall⟩
    · cases hmap
  complete h hmeans := by
    cases hmeans with
    | intro hentries =>
        cases h with
        | object h => exact (h.entries hkey hvalue hentries).takes_map

end

/-! ## Records -/

variable {δ α : Type}

/-- A slot whose values are read as they are meant. -/
structure TreeSlot (δ : Type) extends Slot δ where
  Means : Tree → ν → Prop
  faithful : Faithful read Means

/-- The values of the members with the given key. -/
def valuesOf (key : String) (members : List (String × Tree)) : List Tree :=
  (members.filter (·.1 == key)).map Prod.snd

theorem valuesOf_cons_self (key : String) (v : Tree) (members : List (String × Tree)) :
    valuesOf key ((key, v) :: members) = v :: valuesOf key members := by
  simp [valuesOf]

theorem valuesOf_cons_of_ne {key key' : String} (h : key' ≠ key) (v : Tree)
    (members : List (String × Tree)) :
    valuesOf key ((key', v) :: members) = valuesOf key members := by
  simp [valuesOf, h]

/-- The keys of members stand for characters, and are given as these. -/
def NamedTrees (ms : List (List Char × Tree)) (named : List (String × Tree)) : Prop :=
  List.Forall₂ (fun m n => StandsFor m.1 n.1.toList ∧ m.2 = n.2) ms named

/-- What the members of an object mean to a record: their keys stand for characters, and the draft
has for each slot what the values with its key mean. It has no more than one value for a slot, so
that no two members have its key. -/
def MeansDraft (slots : List (TreeSlot δ)) (ms : List (List Char × Tree)) (d : δ) : Prop :=
  ∃ named, NamedTrees ms named ∧
    ∀ s ∈ slots, List.Forall₂ s.Means (valuesOf s.key named) (s.get d).toList

/-- What members add to a slot of a draft that some members were read into before. -/
def TreeSlot.Adds (s : TreeSlot δ) (d : δ) (named : List (String × Tree)) (final : δ) : Prop :=
  ∃ values, List.Forall₂ s.Means (valuesOf s.key named) values ∧
    (s.get final).toList = (s.get d).toList ++ values

namespace TreeSlot.Adds

variable {s : TreeSlot δ} {d d' final : δ} {key : String} {v : Tree}
  {named : List (String × Tree)}

theorem nil (s : TreeSlot δ) (d : δ) : s.Adds d [] d :=
  ⟨[], .nil, (List.append_nil _).symm⟩

/-- A member with another key leaves a slot as it is. -/
theorem cons_of_ne (h : s.Adds d' named final) (hkey : key ≠ s.key) (hget : s.get d' = s.get d) :
    s.Adds d ((key, v) :: named) final := by
  obtain ⟨values, hmeans, hvalues⟩ := h
  exact ⟨values, by rwa [valuesOf_cons_of_ne hkey], by rw [hvalues, hget]⟩

/-- A member with the key of a free slot fills it. -/
theorem cons_self {a : s.ν} (h : s.Adds (s.put d a) named final) (hmeans : s.Means v a)
    (hfree : s.get d = none) : s.Adds d ((s.key, v) :: named) final := by
  obtain ⟨values, hmore, hvalues⟩ := h
  refine ⟨a :: values, ?_, ?_⟩
  · rw [valuesOf_cons_self]
    exact .cons hmeans hmore
  · rw [hvalues, s.get_put, hfree]
    rfl

end TreeSlot.Adds

/-- Slots with different keys, neither of which is changed with the other. -/
def TreeSlot.Apart (s t : TreeSlot δ) : Prop :=
  s.toSlot.Apart t.toSlot

instance : Std.Symm (@TreeSlot.Apart δ) where
  symm s t h := Std.Symm.symm (r := Slot.Apart) s.toSlot t.toSlot h

section
variable {f : Format δ α} {slots : List (TreeSlot δ)}

theorem Format.HasSlots.find?_treeSlots (hf : f.HasSlots (slots.map TreeSlot.toSlot))
    (key : String) :
    f.fields.find? (·.key == key) = (slots.find? (·.key == key)).map fun s => s.field := by
  rw [hf.find?_fields, List.find?_map, Option.map_map]
  rfl

theorem Format.HasSlots.apart_of_ne (hf : f.HasSlots (slots.map TreeSlot.toSlot))
    {s t : TreeSlot δ} (hs : s ∈ slots) (ht : t ∈ slots) (h : s ≠ t) : s.Apart t := by
  have hapart : slots.Pairwise fun s t => s.toSlot.Apart t.toSlot := List.pairwise_map.mp hf.apart
  exact List.Pairwise.forall (R := TreeSlot.Apart) hapart hs ht h

/-- The key of a member that was read, from its opening quote on. -/
theorem IsInside.of_readChars_quote {name rest rest' cs : List Char} (h : IsInside name)
    (hchars : readChars ((quote name ++ rest).drop 1) = .ok (cs, rest')) :
    rest' = rest ∧ StandsFor name cs := by
  have hdrop : (quote name ++ rest).drop 1 = name ++ '"' :: rest := by simp [quote]
  rw [hdrop] at hchars
  have hstands := h.standsFor hchars
  have hrest := hchars.symm.trans (hstands.readChars_append rest)
  exact ⟨(Prod.mk.inj (Except.ok.inj hrest)).2, hstands⟩

/-- **The draft that was read** has what the members mean. -/
theorem SpellsMembers.of_readMembers (hf : f.HasSlots (slots.map TreeSlot.toSlot)) {fuel : Nat}
    {first : Bool} {d final : δ} {ms : List (List Char × Tree)} {text rest rest' : List Char}
    (h : SpellsMembers first ms text)
    (hmembers : f.readMembers fuel first d (text ++ rest) = .ok (final, rest')) :
    rest' = rest ∧ ∃ named, NamedTrees ms named ∧ ∀ s ∈ slots, s.Adds d named final := by
  induction fuel generalizing first d ms text with
  | zero => cases hmembers
  | succ fuel ih =>
      obtain ⟨next, hnext, hmembers⟩ := of_bind_eq_ok hmembers
      cases h with
      | close hblanks =>
          rw [List.append_assoc, List.singleton_append, nextMember_close first hblanks] at hnext
          obtain rfl := Except.ok.inj hnext
          obtain ⟨rfl, rfl⟩ := Prod.mk.inj (Except.ok.inj hmembers)
          exact ⟨rfl, [], .nil, fun s _ => .nil s d⟩
      | @member _ v _ _ name colon text more hlead hname hcolon htext hrest =>
          simp only [List.append_assoc] at hnext
          rw [nextMember_append hlead] at hnext
          obtain rfl := Except.ok.inj hnext
          obtain ⟨⟨cs, afterKey⟩, hchars, hmembers⟩ := of_bind_eq_ok hmembers
          obtain ⟨rfl, hstands⟩ := hname.of_readChars_quote hchars
          obtain ⟨blanks, hblanks, hread⟩ := readColon_append hcolon
          have hnamed : StandsFor name (String.ofList cs).toList := by
            rwa [String.toList_ofList]
          dsimp only at hmembers
          rw [hf.find?_treeSlots] at hmembers
          cases hslot : slots.find? (·.key == String.ofList cs) with
          | none =>
              -- The member is passed over, and adds to no slot.
              rw [hslot] at hmembers
              obtain ⟨afterColon, hskip, hmembers⟩ := of_bind_eq_ok hmembers
              obtain rfl := Except.ok.inj ((hread _).symm.trans hskip)
              obtain ⟨afterValue, hvalue, hmembers⟩ := of_bind_eq_ok hmembers
              rw [htext.isValue.skips.skipValue_eq hblanks (hrest.ends rest)] at hvalue
              obtain rfl := Except.ok.inj hvalue
              obtain ⟨rfl, named, hnames, hadds⟩ := ih hrest hmembers
              refine ⟨rfl, (String.ofList cs, v) :: named, .cons ⟨hnamed, rfl⟩ hnames,
                fun s hs => (hadds s hs).cons_of_ne ?_ rfl⟩
              rintro hkey
              simpa [hkey] using List.find?_eq_none.mp hslot s hs
          | some s =>
              -- The value goes to one slot; the others are apart from it.
              rw [hslot] at hmembers
              have hkey : s.key = String.ofList cs := by simpa using List.find?_some hslot
              have hs := List.mem_of_find?_eq_some hslot
              dsimp only [Option.map_some] at hmembers
              split at hmembers
              · cases hmembers
              · next hset =>
                have hfree : s.get d = none := by simpa [Slot.field] using hset
                obtain ⟨afterColon, hskip, hmembers⟩ := of_bind_eq_ok hmembers
                obtain rfl := Except.ok.inj ((hread _).symm.trans hskip)
                obtain ⟨⟨d', afterValue⟩, hfield, hmembers⟩ := of_bind_eq_ok hmembers
                obtain ⟨⟨a, afterText⟩, hvalue, hfield⟩ := of_bind_eq_ok hfield
                obtain ⟨rfl, rfl⟩ := Prod.mk.inj (Except.ok.inj hfield)
                obtain ⟨rfl, hmeans⟩ := s.faithful.sound htext hblanks (hrest.ends rest) hvalue
                obtain ⟨rfl, named, hnames, hadds⟩ := ih hrest hmembers
                refine ⟨rfl, (String.ofList cs, v) :: named, .cons ⟨hnamed, rfl⟩ hnames,
                  fun t ht => ?_⟩
                rw [← hkey]
                by_cases hst : s = t
                · subst hst
                  exact (hadds s ht).cons_self hmeans hfree
                · have hapart := hf.apart_of_ne hs ht hst
                  exact (hadds t ht).cons_of_ne hapart.key_ne (hapart.get_put' d a)

/-- The texts of the values stand where the values do. -/
theorem SpellsMembers.exists_named {first : Bool} {ms : List (List Char × Tree)} {text : List Char}
    {named : List (String × Tree)} (h : SpellsMembers first ms text)
    (hnamed : NamedTrees ms named) :
    ∃ spelled texts, IsMembers first text spelled ∧ Named spelled texts ∧
      ∀ key, List.Forall₂ Spells (valuesOf key named) (textsOf key texts) := by
  induction hnamed generalizing first text with
  | nil =>
      cases h with
      | close hblanks => exact ⟨[], [], .close hblanks, .nil, fun _ => .nil⟩
  | @cons m n ms named hname _ ih =>
      obtain ⟨key, v⟩ := n
      obtain ⟨hstands, hv⟩ := hname
      cases h with
      | @member _ _ _ _ name _ value _ hlead hinside hcolon htext hrest =>
          obtain rfl : _ = v := hv
          obtain ⟨spelled, texts, hmembers, hnames, hspells⟩ := ih hrest
          refine ⟨(name, value) :: spelled, (key, value) :: texts,
            .member hlead hinside hcolon htext.isValue hmembers, .cons ⟨hstands, rfl⟩ hnames,
            fun key' => ?_⟩
          by_cases hkey : key = key'
          · subst hkey
            rw [valuesOf_cons_self, textsOf_cons_self]
            exact .cons htext (hspells key)
          · rw [valuesOf_cons_of_ne hkey, textsOf_cons_of_ne hkey]
            exact hspells key'

theorem Faithful.forall₂_takes {ν : Type} {read : Reader ν} {Means : Tree → ν → Prop}
    (hread : Faithful read Means) {vs : List Tree} {texts : List (List Char)} {as : List ν}
    (hspells : List.Forall₂ Spells vs texts) (hmeans : List.Forall₂ Means vs as) :
    List.Forall₂ (Takes read) texts as := by
  induction hspells generalizing as with
  | nil =>
      cases hmeans
      exact .nil
  | cons htext _ ih =>
      cases hmeans with
      | cons ha has => exact .cons (hread.complete htext ha) (ih has)

/-- **Which objects are read as a record**, and as which: those whose members mean a draft that the
record is made of. -/
theorem Format.decode_object_iff (hf : f.HasSlots (slots.map TreeSlot.toSlot))
    (hfree : ∀ s ∈ slots, s.get f.draft = none) {ms : List (List Char × Tree)} {text : List Char}
    (h : SpellsObject ms text) {a : α} :
    decode f.read text = .ok a ↔ ∃ d, MeansDraft slots ms d ∧ f.finish d = .ok a := by
  obtain @⟨before, inside, after, hbefore, hms, hafter⟩ := h
  constructor
  · intro hdecode
    obtain ⟨rest, hread⟩ := exists_of_decode hdecode
    rw [Format.read, skipSpace_append_cons hbefore (by decide)] at hread
    obtain ⟨⟨d, rest'⟩, hmembers, hread⟩ := of_bind_eq_ok hread
    obtain ⟨a', hfinish, hread⟩ := of_bind_eq_ok hread
    obtain ⟨rfl, -⟩ := Prod.mk.inj (Except.ok.inj hread)
    obtain ⟨-, named, hnamed, hadds⟩ := hms.of_readMembers hf hmembers
    refine ⟨d, ⟨named, hnamed, fun s hs => ?_⟩, hfinish⟩
    obtain ⟨values, hmeans, hvalues⟩ := hadds s hs
    rw [hfree s hs] at hvalues
    rwa [hvalues]
  · rintro ⟨d, ⟨named, hnamed, hmeans⟩, hfinish⟩
    obtain ⟨spelled, texts, hmembers, hnames, hspells⟩ := hms.exists_named hnamed
    refine hf.decode_object (.intro hbefore hmembers hafter) hnames
      (List.forall_mem_map.mpr hfree) (List.forall_mem_map.mpr fun s hs => ?_) hfinish
    exact s.faithful.forall₂_takes (hspells s.key) (hmeans s hs)

end

/-! ## Members in another order, and other members -/

namespace MeansDraft

variable {slots : List (TreeSlot δ)} {ms ms' : List (List Char × Tree)} {d : δ}
  {name : List Char} {v v' : Tree}

/-- No more than one value can be in no other order. -/
theorem forall₂_toList_of_perm {ν : Type} {R : Tree → ν → Prop} {vs vs' : List Tree}
    {a? : Option ν} (h : List.Forall₂ R vs a?.toList) (hperm : vs.Perm vs') :
    List.Forall₂ R vs' a?.toList := by
  have hlength : vs.length ≤ 1 := by
    rw [h.length_eq]
    cases a? <;> simp
  obtain rfl | ⟨v, rfl⟩ : vs = [] ∨ ∃ v, vs = [v] := by
    match vs, hlength with
    | [], _ => exact .inl rfl
    | [v], _ => exact .inr ⟨v, rfl⟩
  · rwa [List.nil_perm.mp hperm]
  · rwa [← List.singleton_perm.mp hperm]

/-- **Members in another order** mean the same. -/
theorem perm (h : MeansDraft slots ms d) (hperm : ms.Perm ms') : MeansDraft slots ms' d := by
  obtain ⟨named, hnamed, hmeans⟩ := h
  obtain ⟨named', hnamed', hperm'⟩ := List.perm_comp_forall₂ hperm.symm hnamed
  exact ⟨named', hnamed', fun s hs =>
    forall₂_toList_of_perm (hmeans s hs) ((hperm'.symm.filter _).map _)⟩

variable {front back : List (List Char × Tree)} {key : String}

/-- **A member with an unknown key** means nothing, whatever its value is. -/
theorem insert (h : MeansDraft slots (front ++ back) d) (hname : StandsFor name key.toList)
    (hkey : ∀ s ∈ slots, key ≠ s.key) (v : Tree) :
    MeansDraft slots (front ++ (name, v) :: back) d := by
  obtain ⟨named, hnamed, hmeans⟩ := h
  have hfirst : MeansDraft slots ((name, v) :: (front ++ back)) d := by
    refine ⟨(key, v) :: named, .cons ⟨hname, rfl⟩ hnamed, fun s hs => ?_⟩
    rw [valuesOf_cons_of_ne (hkey s hs)]
    exact hmeans s hs
  exact hfirst.perm List.perm_middle.symm

/-- **A member in place of another one** means the same, if its value does to the slot with the
key. -/
theorem replace (h : MeansDraft slots (front ++ (name, v) :: back) d)
    (hname : StandsFor name key.toList)
    (hvalue : ∀ s ∈ slots, s.key = key → ∀ a, s.Means v a → s.Means v' a) :
    MeansDraft slots (front ++ (name, v') :: back) d := by
  obtain ⟨_, hnamed, hmeans⟩ := h.perm List.perm_middle
  cases hnamed with
  | @cons _ n _ named hn hnamed =>
      obtain ⟨key', w⟩ := n
      obtain ⟨hname', hw⟩ := hn
      obtain rfl : v = w := hw
      obtain rfl : key = key' := String.toList_inj.mp (hname.eq hname')
      have hfirst : MeansDraft slots ((name, v') :: (front ++ back)) d := by
        refine ⟨(key, v') :: named, .cons ⟨hname, rfl⟩ hnamed, fun s hs => ?_⟩
        have hmeans := hmeans s hs
        by_cases hkey : key = s.key
        · subst hkey
          rw [valuesOf_cons_self] at hmeans ⊢
          cases hvalues : (s.get d).toList with
          | nil =>
              rw [hvalues] at hmeans
              cases hmeans
          | cons a as =>
              rw [hvalues] at hmeans
              obtain ⟨ha, has⟩ := List.forall₂_cons.mp hmeans
              exact .cons (hvalue s hs rfl a ha) has
        · rw [valuesOf_cons_of_ne hkey] at hmeans ⊢
          exact hmeans
      exact hfirst.perm List.perm_middle.symm

end MeansDraft

end ScreenAtlas.Json
