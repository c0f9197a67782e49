import ScreenAtlas.Proofs.Codec.Document
import ScreenAtlas.Proofs.Codec.Settings
/-!
# Nothing is lost in writing

What is written in either layout is read back as it was, whatever characters its strings hold. What
was read from any text can be written, so a text that was written once is not changed by reading and
writing it again.

## Main definitions

* `Lossless` — a value whose two written forms are read back.
* `rewrite` — reading a text and writing what it holds.
* `Settles` — rewriting a text twice is rewriting it once.

## Main statements

* `json_lossless` — routes, findings, logs, settings and the documents of overviews.
-/
namespace ScreenAtlas

open Json

section
variable {α : Type} {read : Reader α} {toJson : α → Json}

/-- Both written forms of a value are read back. -/
structure Lossless (read : Reader α) (toJson : α → Json) (a : α) : Prop where
  compact : decode read (toJson a).compact.toList = .ok a
  pretty : decode read (toJson a).pretty.toList = .ok a

/-- The text that is written for what a text holds. -/
def rewrite (read : Reader α) (text : α → String) (s : String) : Except Fault String :=
  (decode read s.toList).map text

/-- In either layout, the text that is written for an accepted text is itself accepted, and what is
written for it is the same text. -/
structure Settles (read : Reader α) (toJson : α → Json) : Prop where
  compact : ∀ s t, rewrite read (fun a => (toJson a).compact) s = .ok t →
    rewrite read (fun a => (toJson a).compact) t = .ok t
  pretty : ∀ s t, rewrite read (fun a => (toJson a).pretty) s = .ok t →
    rewrite read (fun a => (toJson a).pretty) t = .ok t

theorem lossless_of_readsBack {a : α}
    (h : ∀ l : Layout, l.IsBlank → ReadsBack l read (toJson a) a) : Lossless read toJson a where
  compact := by
    rw [Json.compact, String.toList_ofList]
    exact (h .compact isBlank_compact 0).decode_eq
  pretty := by
    rw [Json.pretty, String.toList_ofList]
    exact (h .pretty isBlank_pretty 0).decode_eq

/-- Rewriting keeps a rewritten text if what was read is written so that it is read back. -/
theorem rewrite_eq_of_rewrite {text : α → String}
    (h : ∀ s a, decode read s = .ok a → decode read (text a).toList = .ok a) {s t : String}
    (hs : rewrite read text s = .ok t) : rewrite read text t = .ok t := by
  unfold rewrite at hs ⊢
  cases hdecode : decode read s.toList with
  | error fault =>
      rw [hdecode] at hs
      cases hs
  | ok a =>
      rw [hdecode] at hs
      obtain rfl := Except.ok.inj hs
      rw [h s.toList a hdecode]
      rfl

theorem settles_of_lossless (h : ∀ s a, decode read s = .ok a → Lossless read toJson a) :
    Settles read toJson where
  compact _ _ hs := rewrite_eq_of_rewrite (fun s a ha => (h s a ha).compact) hs
  pretty _ _ hs := rewrite_eq_of_rewrite (fun s a ha => (h s a ha).pretty) hs

end

theorem Route.lossless (r : Route) : Lossless Route.read Route.toJson r :=
  lossless_of_readsBack fun _ hl => r.readsBack hl

theorem Findings.lossless {f : Findings} (hf : f.counts.Fits) :
    Lossless Findings.read Findings.toJson f :=
  lossless_of_readsBack fun _ hl => f.readsBack hl hf

theorem AssetLog.lossless (log : AssetLog) : Lossless AssetLog.read AssetLog.toJson log :=
  lossless_of_readsBack fun _ hl => log.readsBack hl

theorem Settings.lossless {s : Settings} (hs : s.Fits) :
    Lossless Settings.read Settings.toJson s :=
  lossless_of_readsBack fun _ hl => s.readsBack hl hs

/-- **Nothing is lost in writing**: routes, findings, logs and settings are read back from both
layouts, the document of an overview holds all of it, and rewriting a text settles. -/
theorem json_lossless :
    (∀ r : Route, Lossless Route.read Route.toJson r) ∧
      (∀ f : Findings, f.counts.Fits → Lossless Findings.read Findings.toJson f) ∧
      (∀ log : AssetLog, Lossless AssetLog.read AssetLog.toJson log) ∧
      (∀ s : Settings, s.Fits → Lossless Settings.read Settings.toJson s) ∧
      (∀ o : Overview, (∀ s ∈ o.screens, s.findings.counts.Fits) →
        o.IsRead o.document.toList) ∧
      Settles Route.read Route.toJson ∧ Settles Findings.read Findings.toJson ∧
      Settles AssetLog.read AssetLog.toJson ∧ Settles Settings.read Settings.toJson := by
  refine ⟨Route.lossless, fun _ => Findings.lossless, AssetLog.lossless,
    fun _ => Settings.lossless, Overview.isRead_document, ?routes, ?findings, ?logs, ?settings⟩
  case routes => exact settles_of_lossless fun _ r _ => r.lossless
  case findings =>
    refine settles_of_lossless fun s f hf => ?_
    obtain ⟨rest, hread⟩ := exists_of_decode hf
    exact Findings.lossless (Findings.fits_of_read hread)
  case logs => exact settles_of_lossless fun _ log _ => log.lossless
  case settings =>
    refine settles_of_lossless fun s a ha => ?_
    obtain ⟨rest, hread⟩ := exists_of_decode ha
    exact Settings.lossless (Settings.fits_of_read hread)

/-- Findings with one number, the greatest, and texts that are escaped. -/
def Findings.oneGreatCount : Findings where
  imports := .ofList [.svg, .uiKit]
  counts := Tally.empty.insert .cards (wordLimit - 1)
  usesStyleClasses := true
  styleSamples := ["\"quoted\" \\ \x01\n", ""]
  name := some "Écran"

/-- Settings with limits at both ends. -/
def Settings.farLimits : Settings where
  root := .ofString "projet/é\t"
  viewsDir := ""
  componentsDir := "components"
  maxStyleSamples := 0
  maxGroupFiles := wordLimit - 1

/-- The overview of one screen and one group whose files are not all listed. -/
def Overview.oneScreen : Overview where
  generatedAt := .epoch
  viewsLabel := "app"
  componentsLabel := "components"
  screens := [⟨⟨"tabs/index.tsx", "/tabs", none⟩, .oneGreatCount⟩]
  groups := [⟨"ui", ["ui/a.tsx", "ui/b.tsx"]⟩]
  assets := ⟨[.expoImage, .expoImage]⟩
  maxGroupFiles := 1

theorem json_lossless_farValues :
    (Findings.oneGreatCount.counts.Fits ∧
        Lossless Findings.read Findings.toJson .oneGreatCount) ∧
      (Settings.farLimits.Fits ∧ Lossless Settings.read Settings.toJson .farLimits) ∧
      Overview.oneScreen.IsRead Overview.oneScreen.document.toList := by
  have hempty : Tally.empty.Fits := fun _ _ h => nomatch h
  have hcounts : Findings.oneGreatCount.counts.Fits := hempty.insert .cards (by decide)
  have hsettings : Settings.farLimits.Fits := ⟨⟨_, rfl⟩, by decide, by decide⟩
  obtain ⟨-, hfindings, -, hlimits, hoverview, -⟩ := json_lossless
  exact ⟨⟨hcounts, hfindings _ hcounts⟩, ⟨hsettings, hlimits _ hsettings⟩,
    hoverview _ (List.forall_mem_singleton.mpr hcounts)⟩

end ScreenAtlas
