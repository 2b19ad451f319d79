import FontCatalog.CommandLine.Options
import FontCatalog.Bundle.Document
import FontCatalog.Glob.FontFiles
import FontCatalog.Catalog.Report
import FontCatalog.Bundle.Application

/-!
# Running a command

A command is run on a file tree, and the outcome is what it writes, its
exit code and, if it failed on the way, why. One scenario does something:
fonts in memory. It gathers the paths of font files – those named one by
one, then those of the directory – packs their data behind the bundled
font, adds the font of the sample document, builds a set of all of them
and reports on it. Nothing of the reports is written unless the set was
built.
-/

namespace FontCatalog.CommandLine

/-- **Why a command failed.** -/
inductive RunError where
  /-- There is no directory of that name. -/
  | directoryNotFound (path : String)
  /-- The font files of the directory cannot be searched for. -/
  | search (error : Glob.SearchError)
  /-- A font file cannot be read. -/
  | unreadableFile (path : String) (cause : FileError)
  /-- The bundled font cannot be made. -/
  | bundledFont
  /-- The font of the document cannot be made. -/
  | documentFont
  /-- The fonts cannot be handed out as sources. -/
  | sources (error : FontError)
  /-- The set cannot be built. -/
  | unbuildable (cause : FontError)
deriving DecidableEq

namespace RunError

/-- What is said of the error. -/
def message : RunError → String
  | directoryNotFound path => "Font directory not found: " ++ path
  | search error => error.message
  | unreadableFile path _ => "Failed to read font: " ++ path
  | bundledFont => "Failed to build bundled font"
  | documentFont => "Failed to build document font"
  | sources error => error.message
  | unbuildable _ => "Failed to build font set from in-memory font data"

/-- The causes behind the error, from the nearest to the last. -/
def causes : RunError → List String
  | search error => [error.cause.message]
  | unreadableFile _ cause => [cause.message]
  | unbuildable cause => cause.message :: cause.cause?.toList
  | sources error => error.cause?.toList
  | _ => []

/-- A text with every line break followed by `indent`. -/
def indented (indent text : String) : String :=
  String.ofList (text.toList.flatMap fun c => if c = '\n' then c :: indent.toList else [c])

/-- One cause in the list of causes; it has a number where there are
several. -/
def causeText (number : Option Nat) (cause : String) : String :=
  match number with
  | none => "\n    " ++ indented "    " cause
  | some n =>
    let digits := toString n
    "\n" ++ String.ofList (List.replicate (5 - digits.length) ' ') ++ digits ++ ": "
      ++ indented "       " cause

/-- **The error with all its causes**, as it is shown to the user. -/
def report (e : RunError) : String :=
  "Error: " ++ e.message ++
    match e.causes with
    | [] => ""
    | [cause] => "\n\nCaused by:" ++ causeText none cause
    | causes =>
      causes.zipIdx.foldl (fun text (cause, n) => text ++ causeText (some n) cause)
        "\n\nCaused by:"

end RunError

/-- **The outcome of a command.** -/
structure Outcome where
  /-- What it writes. -/
  output : String
  /-- Its exit code. -/
  exitCode : Nat
  /-- Why it failed, if it did. -/
  error : Option RunError
deriving DecidableEq

/-- What is shown where no scenario is given. -/
def help : String := Catalog.textOfLines
  ["Build a custom font set and report on the fonts in it",
   "",
   "Usage: fontsets [OPTIONS]",
   "",
   "Options:",
   "      --scenario <SCENARIO>  Which kind of custom font set to build [possible values: "
     ++ String.intercalate ", " (Scenario.all.map Scenario.spelling) ++ "]",
   "      --font <PATH>          Extra font file to load into memory with the bundled resources",
   "      --font-dir <DIR>       Directory whose font files are loaded into memory as well",
   "      --locale <LOCALE>      Preferred language for font names [default: en-US]",
   "      --timeout <TIMEOUT>    Seconds to wait for remote font data [default: 15]",
   "  -h, --help                 Print help (see more with '--help')"]

/-- What is written for a scenario that does nothing yet. -/
def notImplemented : String := "\nThe selected scenario is not implemented.\n"

/-- What is written first for fonts in memory. -/
def scenarioLine : String := "Scenario: custom font set using in-memory font data.\n"

/-- How the font of a file is called: by the name its path ends in. -/
def fontNameOf (path : String) : String := (Path.fileName? path).getD path

/-- **The paths of the font files that a command line names**: first those
given one by one, then those of the directory. -/
def fontPaths (tree : FileTree) (o : Options) : Except RunError (List String) :=
  match o.fontDirectory with
  | none => .ok o.fonts
  | some directory =>
    if !tree.isDirectory directory then .error (.directoryNotFound directory)
    else match Glob.fontFiles tree directory with
      | .ok files => .ok (o.fonts ++ files)
      | .error error => .error (.search error)

/-- **The font files at some paths**, each with its name; the first that
cannot be read is the error. -/
def readFonts (tree : FileTree) (paths : List String) :
    Except RunError (List (String × Bytes)) :=
  paths.mapM fun path =>
    match tree.read path with
    | .ok data => .ok (fontNameOf path, data)
    | .error cause => .error (.unreadableFile path cause)

/-- **The sources of the scenario for fonts in memory**: the bundled font
and the font files, owned by their package, and then the font of the
document. -/
def memorySources (tree : FileTree) (o : Options) : Except RunError (List FontSource) := do
  let paths ← fontPaths tree o
  let bundled ← ApplicationFonts.bundled.mapError fun _ => RunError.bundledFont
  let package := bundled.pushAll (← readFonts tree paths)
  let document ← Document.sample.mapError fun _ => RunError.documentFont
  let own ← (ApplicationFonts.fontSources package).mapError RunError.sources
  let embedded ← document.fontSources.mapError RunError.sources
  return own ++ embedded

/-- **Builds the set of fonts in memory and reports on it.** -/
def memoryReports (sources : List FontSource) (o : Options) : Except RunError String :=
  let catalog := (Catalog.new (Registry.empty true)).withLocale o.locale
  match catalog.buildFromMemory LoaderWorld.vacant sources () with
  | (.error error, _, _) => .error (.unbuildable error)
  | (.ok _, catalog, world) =>
    let (details, _) := catalog.interactiveDetailsReport LoaderWorld.vacant
      (Duration.ofSeconds o.timeout) 0 ⟨world, 0⟩
    .ok (catalog.propertiesReport ++ details)

/-- **Runs a command on a file tree.** -/
def run (tree : FileTree) (o : Options) : Outcome :=
  match o.scenario with
  | none => ⟨help, 1, none⟩
  | some .inMemory =>
    match (memorySources tree o).bind fun sources => memoryReports sources o with
    | .ok reports => ⟨scenarioLine ++ reports, 0, none⟩
    | .error error => ⟨scenarioLine, 1, some error⟩
  | some _ => ⟨notImplemented, 1, none⟩

end FontCatalog.CommandLine
