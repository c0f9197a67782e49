import ScreenAtlas.Proofs.Json.Accepted
import ScreenAtlas.Proofs.Json.Value
import ScreenAtlas.Findings.Codec
/-!
# Findings and logs are read as they were written

Sets and tallies are given by what they hold, so the order in which they are written is the order in
which they are read. The numbers of a tally are written in full; they are read back if they fit 64
bits, and numbers that were read always do.

## Main definitions

* `Tally.Fits` — the tallies whose numbers fit 64 bits.

## Main statements

* `AssetLog.readsBack`, `LibrarySet.readsBack`, `Tally.readsBack`, `Findings.readsBack`.
* `Findings.fits_of_read` — findings that were read have numbers that fit.
-/
namespace ScreenAtlas

open Json

variable {l : Layout}

/-- **A log** is read as it was written, with its repetitions. -/
theorem AssetLog.readsBack (hl : l.IsBlank) (log : AssetLog) :
    ReadsBack l AssetLog.read log.toJson log :=
  (readsBack_array hl fun a _ => readsBack_word a).map fun as => (⟨as⟩ : AssetLog)

namespace LibrarySet

theorem ofList_toList (s : LibrarySet) : ofList s.toList = s := by
  ext library
  rw [ofList, toList, Bool.eq_iff_iff, List.contains_iff_mem, List.mem_filter]
  exact and_iff_right (LawfulVocabulary.mem_all library)

/-- **A set of libraries** is read as it was written. -/
theorem readsBack (hl : l.IsBlank) (s : LibrarySet) : ReadsBack l read s.toJson s := by
  have h : ReadsBack l read s.toJson (ofList s.toList) :=
    (readsBack_array hl fun a _ => readsBack_word a).map ofList
  rwa [ofList_toList] at h

end LibrarySet

namespace Tally

/-- All numbers fit 64 bits. -/
def Fits (t : Tally) : Prop :=
  ∀ e n, t.get? e = some n → n < wordLimit

theorem mem_toList {t : Tally} {p : Element × Nat} : p ∈ t.toList ↔ t.get? p.1 = some p.2 := by
  rw [toList, List.mem_filterMap]
  constructor
  · rintro ⟨e, -, he⟩
    obtain ⟨n, hn, rfl⟩ := Option.map_eq_some_iff.mp he
    exact hn
  · intro hp
    exact ⟨p.1, LawfulVocabulary.mem_all p.1, Option.map_eq_some_iff.mpr ⟨p.2, hp, rfl⟩⟩

/-! ## Entries -/

theorem get?_insert (t : Tally) (e e' : Element) (n : Nat) :
    (t.insert e n).get? e' = if e' = e then some n else t.get? e' :=
  rfl

/-- The tally with the numbers of a list of entries, the last one for each element. -/
def insertAll (t : Tally) (entries : List (Element × Nat)) : Tally :=
  entries.foldl (fun t (e, n) => t.insert e n) t

/-- Entries of a tally `u` that are inserted into another one give it the numbers of `u`. -/
theorem get?_insertAll {u : Tally} {entries : List (Element × Nat)}
    (h : ∀ p ∈ entries, u.get? p.1 = some p.2) (t : Tally) (e : Element) :
    (t.insertAll entries).get? e =
      if e ∈ entries.map Prod.fst then u.get? e else t.get? e := by
  induction entries generalizing t with
  | nil => rfl
  | cons p entries ih =>
      obtain ⟨hp, hentries⟩ := List.forall_mem_cons.mp h
      -- A later entry for the same element has the same number, since both have that of `u`.
      have hrest := ih hentries (t.insert p.1 p.2)
      rw [get?_insert] at hrest
      refine hrest.trans ?_
      rw [List.map_cons]
      by_cases hmem : e ∈ entries.map Prod.fst
      · rw [if_pos hmem, if_pos (List.mem_cons_of_mem _ hmem)]
      · by_cases he : e = p.1
        · rw [if_neg hmem, if_pos he, he, if_pos List.mem_cons_self, hp]
        · rw [if_neg hmem, if_neg he, if_neg (List.not_mem_cons_of_ne_of_not_mem he hmem)]

theorem insertAll_toList (t : Tally) : Tally.empty.insertAll t.toList = t := by
  ext1
  funext e
  rw [get?_insertAll (u := t) fun p hp => mem_toList.mp hp]
  split
  · rfl
  · next hmem =>
    cases hn : t.get? e with
    | none => rfl
    | some n =>
        have hentry : (e, n) ∈ t.toList := mem_toList.mpr hn
        exact absurd (List.mem_map_of_mem hentry) hmem

theorem Fits.insert {t : Tally} (ht : t.Fits) (e : Element) {n : Nat} (hn : n < wordLimit) :
    (t.insert e n).Fits := by
  intro e' n' h
  rw [get?_insert] at h
  split at h
  · obtain rfl := Option.some.inj h
    exact hn
  · exact ht e' n' h

theorem Fits.insertAll {t : Tally} (ht : t.Fits) {entries : List (Element × Nat)}
    (h : ∀ p ∈ entries, p.2 < wordLimit) : (t.insertAll entries).Fits := by
  induction entries generalizing t with
  | nil => exact ht
  | cons p entries ih =>
      obtain ⟨hp, hentries⟩ := List.forall_mem_cons.mp h
      exact ih (ht.insert p.1 hp) hentries

/-! ## Reading -/

/-- **A tally** is read as it was written, whichever elements it has numbers for. -/
theorem readsBack (hl : l.IsBlank) {t : Tally} (ht : t.Fits) : ReadsBack l read t.toJson t := by
  have hentries : ReadsBack l (readMap (readVariant Element) readNatural) t.toJson t.toList := by
    intro depth
    refine takes_object hl (List.forall₂_map_left_iff.mpr (List.forall₂_same.mpr fun p hp => ?_))
    exact ⟨(isQuoted_write _).takes_variant, takes_natural (ht p.1 p.2 (mem_toList.mp hp))⟩
  have h : ReadsBack l read t.toJson (Tally.empty.insertAll t.toList) :=
    hentries.map Tally.empty.insertAll
  rwa [insertAll_toList] at h

/-- The numbers of a tally that was read fit 64 bits. -/
theorem fits_of_read {s rest : List Char} {t : Tally} (h : read s = .ok (t, rest)) : t.Fits := by
  obtain ⟨⟨entries, rest'⟩, hentries, h⟩ := of_bind_eq_ok h
  obtain ⟨rfl, -⟩ := Prod.mk.inj (Except.ok.inj h)
  have hempty : Tally.empty.Fits := fun _ _ h => nomatch h
  exact hempty.insertAll (forall_of_readMap (fun _ _ _ => lt_wordLimit_of_readNatural) hentries)

end Tally

namespace Findings

/-- **Findings** are read as they were written. -/
theorem readsBack (hl : l.IsBlank) {f : Findings} (hf : f.counts.Fits) :
    ReadsBack l read f.toJson f := by
  have himports := f.imports.readsBack hl
  have hcounts := Tally.readsBack hl hf
  have huses : ReadsBack l readBoolean (.bool f.usesStyleClasses) f.usesStyleClasses :=
    readsBack_bool _
  have hsamples : ReadsBack l (readList readString) (.array (f.styleSamples.map .string))
      f.styleSamples :=
    readsBack_array hl fun s _ => readsBack_string s _
  have hname : ReadsBack l (readOptional readString) (.ofOption .string f.name) f.name :=
    readsBack_ofOption (fun s => ⟨s, rfl⟩) (fun s => readsBack_string s _) f.name
  refine Fills.readsBack hl (?fills : Fills l format format.draft _
    ⟨some f.imports, some f.counts, some f.usesStyleClasses, some f.styleSamples, some f.name⟩) rfl
  refine .known rfl rfl (himports.map fun v => (⟨some v, none, none, none, none⟩ : Draft)) ?_
  refine .known rfl rfl
    (hcounts.map fun v => (⟨some f.imports, some v, none, none, none⟩ : Draft)) ?_
  refine .known rfl rfl
    (huses.map fun v => (⟨some f.imports, some f.counts, some v, none, none⟩ : Draft)) ?_
  refine .known rfl rfl
    (hsamples.map fun v =>
      (⟨some f.imports, some f.counts, some f.usesStyleClasses, some v, none⟩ : Draft)) ?_
  exact .known rfl rfl
    (hname.map fun v =>
      (⟨some f.imports, some f.counts, some f.usesStyleClasses, some f.styleSamples,
        some v⟩ : Draft)) .nil

/-- The numbers that are being read fit 64 bits. -/
def Draft.Fits (d : Draft) : Prop :=
  ∀ t, d.counts = some t → t.Fits

theorem keeps_fits : format.Keeps Draft.Fits := by
  refine List.forall_mem_cons.mpr ⟨?imports, List.forall_mem_cons.mpr ⟨?counts,
    List.forall_mem_cons.mpr ⟨?uses, List.forall_mem_cons.mpr ⟨?samples,
      List.forall_mem_singleton.mpr ?name⟩⟩⟩⟩
  all_goals
    intro draft draft' s rest h hdraft
    obtain ⟨⟨v, rest'⟩, hv, h⟩ := of_bind_eq_ok h
    obtain ⟨rfl, -⟩ := Prod.mk.inj (Except.ok.inj h)
  case counts =>
    intro t ht
    obtain rfl := Option.some.inj ht
    exact Tally.fits_of_read hv
  all_goals exact hdraft

/-- **Findings that were read** have numbers that fit 64 bits. -/
theorem fits_of_read {s rest : List Char} {f : Findings} (h : read s = .ok (f, rest)) :
    f.counts.Fits := by
  obtain ⟨draft, hdraft, hfinish⟩ :=
    Format.exists_of_read keeps_fits (fun _ h => nomatch h) h
  obtain ⟨imports, -, hfinish⟩ := of_bind_eq_ok hfinish
  obtain ⟨counts, hcounts, hfinish⟩ := of_bind_eq_ok hfinish
  obtain ⟨uses, -, hfinish⟩ := of_bind_eq_ok hfinish
  obtain ⟨samples, -, hfinish⟩ := of_bind_eq_ok hfinish
  obtain rfl := Except.ok.inj hfinish
  exact hdraft counts (eq_some_of_required hcounts)

end Findings

end ScreenAtlas
