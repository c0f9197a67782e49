import ScreenAtlas.Proofs.Survey.Scan
/-!
# Surveys over a history

The stages of a survey run in any order and any number of times, and each of them sees the files as
they are at that time. What an overview says nevertheless depends on two moments only: the last scan
and, for the lists of files, the last collection before it.

## Main definitions

* `Event` — a stage of a survey, or a change of the files.
* `Session` — a survey and the files that it works on; `Session.run` is a history of events.

## Main statements

* `overview_run` — without a scan, the overview stays as it is.
* `sameLists_run` — without a collection, a scan finds the same.
* `overview_of_last_scan` — the overview after any history.
-/
namespace ScreenAtlas

/-- What happens to a survey and the files that it works on. -/
inductive Event
  /-- The files are any others from now on. -/
  | change (fs : FileSystem)
  | collect
  | scan
  /-- An overview is built. -/
  | build (t : Instant)

/-- A survey, and the files that it works on. -/
structure Session where
  files : FileSystem
  survey : Survey

namespace Session

/-- The session after one event. -/
def step (x : Session) : Event → Session
  | .change fs => { x with files := fs }
  | .collect => { x with survey := x.survey.collect x.files }
  | .scan => { x with survey := x.survey.scan x.files }
  | .build _ => x

/-- The session after a history of events. -/
def run (x : Session) (history : List Event) : Session :=
  history.foldl step x

/-- The overview that a session builds. -/
def overview (x : Session) (t : Instant) : Overview :=
  x.survey.build t

@[simp] theorem run_nil (x : Session) : x.run [] = x := rfl

@[simp] theorem run_cons (x : Session) (e : Event) (history : List Event) :
    x.run (e :: history) = (x.step e).run history := rfl

theorem run_append (x : Session) (history more : List Event) :
    x.run (history ++ more) = (x.run history).run more :=
  List.foldl_append

/-! ## What stays -/

/-- The settings and the limit on style samples never change. -/
theorem settings_run (x : Session) (history : List Event) :
    (x.run history).survey.settings = x.survey.settings ∧
      (x.run history).survey.sampleLimit = x.survey.sampleLimit := by
  induction history generalizing x with
  | nil => exact ⟨rfl, rfl⟩
  | cons e history ih =>
      have hstep : (x.step e).survey.settings = x.survey.settings ∧
          (x.step e).survey.sampleLimit = x.survey.sampleLimit := by
        cases e with
        | scan => simp [step, Survey.scan_eq]
        | _ => exact ⟨rfl, rfl⟩
      rw [run_cons, (ih _).1, (ih _).2]
      exact hstep

/-- Only a scan changes what an overview says. -/
theorem overview_step {e : Event} (he : e ≠ .scan) (x : Session) (t : Instant) :
    (x.step e).overview t = x.overview t := by
  cases e with
  | scan => exact absurd rfl he
  | _ => rfl

/-- **Without a scan, the overview stays as it is.** -/
theorem overview_run {history : List Event} (h : .scan ∉ history) (x : Session) (t : Instant) :
    (x.run history).overview t = x.overview t := by
  induction history generalizing x with
  | nil => rfl
  | cons e history ih =>
      rw [List.mem_cons, not_or] at h
      rw [run_cons, ih h.2, overview_step (Ne.symm h.1)]

/-- Only a collection changes what a scan would work on. -/
theorem sameLists_step {e : Event} (he : e ≠ .collect) (x : Session) :
    Survey.SameLists x.survey (x.step e).survey := by
  cases e with
  | collect => exact absurd rfl he
  | scan => exact Survey.sameLists_scan x.files x.survey
  | _ => exact .refl x.survey

/-- **Without a collection, a scan works on the same.** -/
theorem sameLists_run {history : List Event} (h : .collect ∉ history) (x : Session) :
    Survey.SameLists x.survey (x.run history).survey := by
  induction history generalizing x with
  | nil => exact .refl x.survey
  | cons e history ih =>
      rw [List.mem_cons, not_or] at h
      exact (sameLists_step (Ne.symm h.1) x).trans (ih h.2 (x.step e))

/-! ## Two moments -/

/-- After the last scan, the overview is that of the scan alone, by any survey with the lists that
there were at the time. -/
theorem overview_run_scan {x : Session} {s : Survey} {before after : List Event}
    (hs : Survey.SameLists s (x.run before).survey) (hafter : .scan ∉ after) (t : Instant) :
    (x.run (before ++ .scan :: after)).overview t = (s.scan (x.run before).files).build t := by
  rw [run_append, run_cons, overview_run hafter, Survey.scan_eq_of_sameLists _ hs]
  rfl

/-- What is built after the last scan, field by field. -/
theorem overview_run_scan_eq {x : Session} {s : Survey} {before after : List Event}
    (hs : Survey.SameLists s (x.run before).survey) (hafter : .scan ∉ after) (t : Instant) :
    let found := s.scan (x.run before).files
    (x.run (before ++ .scan :: after)).overview t =
      ⟨t, s.settings.viewsDir, s.settings.componentsDir, found.screens, found.groups, found.assets,
        s.settings.maxGroupFiles⟩ := by
  intro found
  have hsettings : s.settings = found.settings := (Survey.sameLists_scan _ s).settings
  rw [overview_run_scan hs hafter, hsettings]
  rfl

/-- The lists of the last collection are those of any survey with the same settings. -/
theorem sameLists_run_collect {x : Session} {s : Survey} {earlier between : List Event}
    (hset : s.settings = x.survey.settings) (hlimit : s.sampleLimit = x.survey.sampleLimit)
    (hbetween : .collect ∉ between) :
    Survey.SameLists (s.collect (x.run earlier).files)
      (x.run (earlier ++ .collect :: between)).survey := by
  obtain ⟨hset', hlimit'⟩ := x.settings_run earlier
  have hcollect : Survey.SameLists (s.collect (x.run earlier).files)
      ((x.run earlier).step .collect).survey := by
    constructor <;> simp [step, Survey.collect, hset, hset', hlimit, hlimit']
  rw [run_append, run_cons]
  exact hcollect.trans (sameLists_run hbetween _)

/-- **The overview after any history** is empty if nothing was scanned. Else its screens, groups and
assets are those of a new survey which scans the files as they were at the last scan, from the lists
that it collects from the files as they were at the last collection before that scan, or from empty
lists if there was none. The labels and the limit on files are those of the settings. So a
collection that no scan follows does not show, scanning the same files again changes nothing, and
building leaves the session as it is. -/
theorem overview_of_last_scan (settings : Settings) (limit : Nat) (fs : FileSystem) (t : Instant) :
    let fresh := Survey.withLimit settings limit
    let x := Session.mk fs fresh
    (∀ history, .scan ∉ history → (x.run history).overview t =
      ⟨t, settings.viewsDir, settings.componentsDir, [], [], .empty, settings.maxGroupFiles⟩) ∧
    (∀ before after, .collect ∉ before → .scan ∉ after →
      let found := fresh.scan (x.run before).files
      (x.run (before ++ .scan :: after)).overview t =
        ⟨t, settings.viewsDir, settings.componentsDir, found.screens, found.groups, found.assets,
          settings.maxGroupFiles⟩) ∧
    (∀ earlier between after, .collect ∉ between → .scan ∉ after →
      let before := earlier ++ .collect :: between
      let found := (fresh.collect (x.run earlier).files).scan (x.run before).files
      (x.run (before ++ .scan :: after)).overview t =
        ⟨t, settings.viewsDir, settings.componentsDir, found.screens, found.groups, found.assets,
          settings.maxGroupFiles⟩) ∧
    (∀ history after, .scan ∉ after →
      (x.run (history ++ after)).overview t = (x.run history).overview t) ∧
    (∀ history, x.run (history ++ [.scan, .scan]) = x.run (history ++ [.scan])) ∧
    (∀ history t' more, x.run (history ++ .build t' :: more) = x.run (history ++ more)) := by
  intro fresh x
  refine ⟨?unscanned, ?uncollected, ?collected, ?after, ?again, ?built⟩
  case unscanned =>
    intro history h
    rw [overview_run h]
    rfl
  case uncollected =>
    intro before after hbefore hafter
    exact overview_run_scan_eq (sameLists_run hbefore x) hafter t
  case collected =>
    intro earlier between after hbetween hafter
    exact overview_run_scan_eq (sameLists_run_collect rfl rfl hbetween) hafter t
  case after =>
    intro history after hafter
    rw [run_append, overview_run hafter]
  case again =>
    intro history
    rw [run_append, run_append]
    simp only [run_cons, run_nil, step, Session.mk.injEq, true_and]
    exact (Survey.scan_eq_of_sameLists _ (Survey.sameLists_scan _ _)).symm
  case built =>
    intro history t' more
    rw [run_append, run_append]
    rfl

end Session

end ScreenAtlas
