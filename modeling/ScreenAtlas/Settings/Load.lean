import ScreenAtlas.Settings.Codec
import ScreenAtlas.FileSystem.Resolve
/-!
# Failures and settings files

A settings file is read as text, decoded, and checked; the first of the three that fails is
reported.
-/
namespace ScreenAtlas

/-- Why settings cannot be had. -/
inductive Failure
  | io (fault : IoFault)
  | settings (fault : Settings.Fault)
  | json (fault : Json.Fault)

/-- The message of a failure. -/
def Failure.message : Failure → String
  | io fault => "IO error: " ++ fault.message
  | settings fault => "Config error: " ++ fault.message
  | json fault => "Serialization error: " ++ fault.message

/-- The settings in a file. -/
def Settings.load (fs : FileSystem) (file : Path) : Except Failure Settings := do
  let text ← (fs.readText file).mapError .io
  let settings ← (Json.decode Settings.read text).mapError .json
  settings.check.mapError .settings
  return settings

end ScreenAtlas
