import ScreenAtlas.Proofs.Json.Value
import ScreenAtlas.Route.Codec
/-!
# Routes are read as they were written
-/
namespace ScreenAtlas

open Json

variable {l : Layout}

/-- The members of a route fill all fields of its format, and others behind them change nothing. -/
theorem Route.fills (r : Route) {more : List (String × Json)}
    (hmore : Fills l Route.format ⟨some r.relativePath, some r.address, some r.role⟩ more
      ⟨some r.relativePath, some r.address, some r.role⟩) :
    Fills l Route.format Route.format.draft (r.members ++ more)
      ⟨some r.relativePath, some r.address, some r.role⟩ := by
  have hpath : ReadsBack l readString (.string r.relativePath) r.relativePath :=
    readsBack_string _ _
  have haddress : ReadsBack l readString (.string r.address) r.address := readsBack_string _ _
  have hrole : ReadsBack l (readOptional (readVariant Role)) (.ofOption Vocabulary.toJson r.role)
      r.role :=
    readsBack_ofOption (fun a => ⟨_, rfl⟩) readsBack_word r.role
  refine .known rfl rfl (hpath.map fun v => (⟨some v, none, none⟩ : Route.Draft)) ?_
  refine .known rfl rfl
    (haddress.map fun v => (⟨some r.relativePath, some v, none⟩ : Route.Draft)) ?_
  exact .known rfl rfl
    (hrole.map fun v => (⟨some r.relativePath, some r.address, some v⟩ : Route.Draft)) hmore

/-- **A route** is read as it was written. -/
theorem Route.readsBack (hl : l.IsBlank) (r : Route) : ReadsBack l Route.read r.toJson r := by
  have hfills := r.fills (l := l) .nil
  rw [List.append_nil] at hfills
  exact hfills.readsBack hl rfl

end ScreenAtlas
