import ScreenAtlas.Settings.Load
import ScreenAtlas.Overview.Document
import ScreenAtlas.Overview.Markdown
import ScreenAtlas.Survey
/-!
# The command line

Arguments are bytes and are read from left to right. Each option may be given once; a value follows
its option as the next argument, after an equals sign, or, for a short option, directly. A value
that is a path may be any bytes, and every other one is a text. The settings come from the options,
else from the settings file, else from the standard, and a relative root starts from the working
directory, which has to be there then.
-/
namespace ScreenAtlas.CommandLine

/-- The form of the document that is printed. -/
inductive DocumentForm
  | markdown
  | json
  deriving DecidableEq

/-- The form with a given name. -/
def DocumentForm.ofName? : String → Option DocumentForm
  | "markdown" => some markdown
  | "json" => some json
  | _ => none

/-- The options that were given. -/
structure Options where
  root : Option Path
  views : Option String
  components : Option String
  config : Option Path
  form : Option DocumentForm
  verbose : Bool
  deriving DecidableEq

/-- No options. -/
def Options.none : Options :=
  ⟨.none, .none, .none, .none, .none, false⟩

/-- Why the arguments do not lead to a document. -/
inductive Stop
  /-- The help was asked for. -/
  | help
  /-- The version was asked for. -/
  | version
  /-- The arguments are not understood. -/
  | misuse
  deriving DecidableEq

/-- An option that takes a value. -/
inductive Valued
  | root
  | views
  | components
  | config
  | form

/-- The option with a given long name. -/
def Valued.ofLongName? : String → Option Valued
  | "root" => some root
  | "views" => some views
  | "components" => some components
  | "config" => some config
  | "format" => some form
  | _ => none

/-- An argument, as the bytes that it was given in. -/
abbrev Argument := List UInt8

namespace Argument

/-- The byte that options start with. -/
def dash : UInt8 := 0x2D

/-- The byte between an option and its value. -/
def equals : UInt8 := 0x3D

/-- The argument with a given text. -/
def ofString (s : String) : Argument :=
  Utf8.encode s.toList

/-- The text of an argument; bytes that are not well-formed are refused. -/
def text (a : Argument) : Except Stop String :=
  match Utf8.decode? a with
  | some s => .ok (String.ofList s)
  | none => .error .misuse

end Argument

namespace Options

open Argument (dash equals)

/-- The options with the value of one more. A second value for one option is refused, and so are an
empty path, an unknown form, and bytes that are no text where a text is meant. -/
def set (o : Options) : Valued → Argument → Except Stop Options
  | .root, v =>
    if o.root.isSome ∨ v = [] then .error .misuse else .ok { o with root := some ⟨v⟩ }
  | .config, v =>
    if o.config.isSome ∨ v = [] then .error .misuse else .ok { o with config := some ⟨v⟩ }
  | .views, v => do
    if o.views.isSome then .error .misuse else .ok { o with views := some (← v.text) }
  | .components, v => do
    if o.components.isSome then .error .misuse else .ok { o with components := some (← v.text) }
  | .form, v => do
    match o.form, DocumentForm.ofName? (← v.text) with
    | .none, some form => .ok { o with form := some form }
    | _, _ => .error .misuse

/-- The options with the verbose flag. -/
def setVerbose (o : Options) : Except Stop Options :=
  if o.verbose then .error .misuse else .ok { o with verbose := true }

/-- The options after a long argument without its dashes, and the option whose value is still to
come. -/
def addLong (o : Options) (argument : Argument) : Except Stop (Options × Option Valued) := do
  let name ← Argument.text (argument.takeWhile (· != equals))
  match Valued.ofLongName? name, argument.dropWhile (· != equals) with
  | some option, _ :: v => (o.set option v).map (·, .none)
  | some option, [] => .ok (o, some option)
  | .none, [] =>
    if name = "verbose" then o.setVerbose.map (·, .none)
    else if name = "version" then .error .version
    else if name = "help" then .error .help
    else .error .misuse
  | .none, _ => .error .misuse

/-- The options after a bundle of short options, and the option whose value is still to come. -/
def addShort (o : Options) : Argument → Except Stop (Options × Option Valued)
  | [] => .ok (o, .none)
  | flag :: rest =>
    match Char.ofNat flag.toNat with
    | 'v' =>
      match o.setVerbose with
      | .ok o => addShort o rest
      | .error stop => .error stop
    | 'V' => .error .version
    | 'h' => .error .help
    | 'f' =>
      match rest with
      | [] => .ok (o, some .form)
      | b :: v => (o.set .form (if b = equals then v else rest)).map (·, .none)
    | _ => .error .misuse

/-- The options after one argument that starts with a dash. A dash alone names no option. -/
def add (o : Options) : Argument → Except Stop (Options × Option Valued)
  | first :: second :: rest =>
    if first ≠ dash then .error .misuse
    else if second = dash then o.addLong rest
    else o.addShort (second :: rest)
  | _ => .error .misuse

/-- A separate value does not start with a dash, unless it is nothing else. -/
def isSeparateValue (v : Argument) : Bool :=
  v.head? != some dash || v = [dash]

/-- The options after a list of arguments. Nothing may follow the argument `--`. -/
def addAll (o : Options) : List Argument → Except Stop Options
  | [] => .ok o
  | argument :: rest =>
    if argument = [dash, dash] then if rest = [] then .ok o else .error .misuse
    else
      match o.add argument with
      | .error stop => .error stop
      | .ok (o, .none) => addAll o rest
      | .ok (o, some option) =>
        match rest with
        | [] => .error .misuse
        | v :: rest =>
          if isSeparateValue v then
            match o.set option v with
            | .ok o => addAll o rest
            | .error stop => .error stop
          else .error .misuse

/-- The options given by a list of arguments. -/
def parse (arguments : List Argument) : Except Stop Options :=
  Options.none.addAll arguments

end Options

/-- Why there is no document for well-formed arguments. -/
inductive Problem
  /-- The settings file cannot be used. -/
  | settingsFile (path : Path) (failure : Failure)
  /-- There is no working directory for a relative root to start from. -/
  | workingDir (fault : IoFault)
  /-- The settings that result from file and options are refused. -/
  | settings (fault : Settings.Fault)

/-- The causes that are listed for a failure: a fault of the file system is told twice, with and
without its kind. -/
def causes : Failure → List String
  | .io fault => ["    0: " ++ (Failure.io fault).message, "    1: " ++ fault.message]
  | failure => ["    " ++ failure.message]

/-- The message of a problem. -/
def Problem.message : Problem → String
  | settingsFile path failure =>
    "Error: Failed to load config " ++ path.text ++ "\n\nCaused by:\n" ++
      String.join ((causes failure).map (· ++ "\n"))
  | workingDir fault =>
    "Error: Failed to resolve current directory\n\nCaused by:\n    " ++ fault.message ++ "\n"
  | settings fault => "Error: " ++ (Failure.settings fault).message ++ "\n"

/-- The settings of the file that the options name, or the standard settings. -/
def baseSettings (fs : FileSystem) (o : Options) : Except Problem Settings :=
  match o.config with
  | some path => (Settings.load fs path).mapError (.settingsFile path)
  | .none => .ok .standard

/-- A root as an absolute path. The working directory is asked for only if the root is relative. -/
def absoluteRoot (fs : FileSystem) (root : Path) : Except Problem Path :=
  if root.isAbsolute then .ok root
  else (fs.currentDir.map (·.join root)).mapError .workingDir

/-- Settings with the given options in place of their own values, and with an absolute root. -/
def override (fs : FileSystem) (o : Options) (s : Settings) : Except Problem Settings := do
  let root ← absoluteRoot fs (o.root.getD s.root)
  return { s with
    root
    viewsDir := o.views.getD s.viewsDir
    componentsDir := o.components.getD s.componentsDir }

/-- The settings for the given options. -/
def effectiveSettings (fs : FileSystem) (o : Options) : Except Problem Settings := do
  let s ← override fs o (← baseSettings fs o)
  s.check.mapError .settings
  return s

/-- The document of an overview in a given form. -/
def render (form : DocumentForm) (o : Overview) : String :=
  match form with
  | .markdown => o.markdown
  | .json => o.document

/-- What a run of the program leaves behind. -/
structure Outcome where
  exitCode : UInt8
  stdout : String
  stderr : String
  deriving DecidableEq

/-- The line that tells the program's name and version. -/
def versionLine : String :=
  "screenmap 0.1.0\n"

/-- The help text. -/
def helpText : String :=
  "Usage: screenmap [--root <dir>] [--views <name>] [--components <name>]\n" ++
  "                 [--config <file.json>] [-f|--format markdown|json] [-v|--verbose]\n"

/-- The outcome of a run with the given options. -/
def execute (fs : FileSystem) (now : Instant) (o : Options) : Outcome :=
  match effectiveSettings fs o with
  | .ok s => ⟨0, render (o.form.getD .markdown) (Survey.overview fs s now), ""⟩
  | .error problem => ⟨1, "", problem.message⟩

/-- The outcome of a run with the given arguments. -/
def outcome (fs : FileSystem) (now : Instant) (arguments : List Argument) : Outcome :=
  match Options.parse arguments with
  | .ok o => execute fs now o
  | .error .version => ⟨0, versionLine, ""⟩
  | .error .help => ⟨0, helpText, ""⟩
  | .error .misuse => ⟨2, "", "error: the arguments are not understood\n\n" ++ helpText⟩

/-- The outcome of a run with arguments that are texts. -/
def run (fs : FileSystem) (now : Instant) (arguments : List String) : Outcome :=
  outcome fs now (arguments.map .ofString)

end ScreenAtlas.CommandLine
