import FontCatalog.Language

/-!
# The options of the command line

Arguments are read from left to right into `Options`. An option is `--name
value` or `--name=value`; only the option for font files may be given more
than once. Anything that is not an option of the command is a usage error.

A value that stands in an argument of its own is not looked at when it is
read but when it is settled: when the next option begins, or at the end.
So an argument that is not known at all is reported before a value behind
it that is wrong.
-/

namespace FontCatalog.CommandLine

/-- **The kinds of font sets that can be asked for.** -/
inductive Scenario where
  /-- Fonts installed on the system. -/
  | system
  /-- Font files that come with the application. -/
  | appFonts
  /-- Fonts of the application with properties known beforehand. -/
  | knownAppFonts
  /-- Fonts from packed containers. -/
  | packed
  /-- Fonts from the network. -/
  | remote
  /-- Fonts in memory. -/
  | inMemory
deriving DecidableEq

/-- **What a command line asks for.** -/
structure Options where
  /-- The kind of font set. -/
  scenario : Option Scenario
  /-- Further font files. -/
  fonts : List String
  /-- A directory of further font files. -/
  fontDirectory : Option String
  /-- The language that names are wanted in. -/
  locale : String
  /-- How long to wait for remote font data, in seconds. -/
  timeout : Nat
deriving DecidableEq

/-- **Why a command line is not run.** -/
inductive UsageError where
  /-- A value is missing, or is not one of those that are possible. -/
  | invalidValue
  /-- An argument is not known. -/
  | unknownArgument
  /-- An option is given twice. -/
  | argumentConflict
  /-- A value cannot be read. -/
  | valueValidation
  /-- An option that takes no value is given one. -/
  | tooManyValues
  /-- Help was asked for. -/
  | displayHelp
deriving DecidableEq

namespace Scenario

/-- The scenarios, in the order in which they are listed. -/
def all : List Scenario := [system, appFonts, knownAppFonts, packed, remote, inMemory]

/-- How a scenario is spelled as a value. -/
def spelling : Scenario → String
  | system => "system"
  | appFonts => "app-fonts"
  | knownAppFonts => "known-app-fonts"
  | packed => "packed"
  | remote => "remote"
  | inMemory => "in-memory"

/-- The scenario that a value spells. -/
def ofSpelling? (s : String) : Option Scenario := all.find? (·.spelling == s)

/-- Every scenario is read back from its spelling. -/
theorem ofSpelling?_spelling (s : Scenario) : ofSpelling? s.spelling = some s := by
  cases s <;> decide

end Scenario

namespace UsageError

/-- What is said of the error. -/
def message : UsageError → String
  | invalidValue => "error: a value is missing or is not possible"
  | unknownArgument => "error: unexpected argument found"
  | argumentConflict => "error: an option cannot be used multiple times"
  | valueValidation => "error: a value cannot be read"
  | tooManyValues => "error: an option takes no value"
  | displayHelp => "help was asked for"

/-- The exit code: asking for help is no failure. -/
def exitCode : UsageError → Nat
  | displayHelp => 0
  | _ => 2

end UsageError

/-- **The options that take a value.** -/
inductive OptionName where
  /-- Which kind of font set. -/
  | scenario
  /-- A further font file. -/
  | font
  /-- A directory of font files. -/
  | fontDirectory
  /-- The language of names. -/
  | locale
  /-- How long to wait. -/
  | timeout
deriving DecidableEq

namespace OptionName

/-- The option with a given name on the command line. -/
def ofName? : String → Option OptionName
  | "scenario" => some scenario
  | "font" => some font
  | "font-dir" => some fontDirectory
  | "locale" => some locale
  | "timeout" => some timeout
  | _ => none

end OptionName

namespace Options

/-- How long to wait where nothing is said, in seconds. -/
def defaultTimeout : Nat := 15

/-- The options of a command line without arguments. -/
def default : Options := ⟨none, [], none, Language.fallback, defaultTimeout⟩

/-- The number that decimal digits form, with a plus sign in front of them
or without, if it is below `2^64`. -/
def readSeconds? (s : String) : Option Nat :=
  let digits := match s.toList with
    | '+' :: rest => rest
    | cs => cs
  if digits.isEmpty || !digits.all (fun c => '0' ≤ c && c ≤ '9') then none
  else
    let n := digits.foldl (fun n c => n * 10 + (c.toNat - 48)) 0
    if n < 0x10000000000000000 then some n else none

/-- **Settles a value**: the options with it. `given` are the options that
have been settled before. -/
def settle (o : Options) (given : List OptionName) (name : OptionName) (value : String) :
    Except UsageError Options :=
  if name ≠ .font ∧ name ∈ given then .error .argumentConflict
  else match name with
    | .scenario =>
      match Scenario.ofSpelling? value with
      | some scenario => .ok { o with scenario := some scenario }
      | none => .error .invalidValue
    | .font =>
      if value.isEmpty then .error .invalidValue else .ok { o with fonts := o.fonts ++ [value] }
    | .fontDirectory =>
      if value.isEmpty then .error .invalidValue else .ok { o with fontDirectory := some value }
    | .locale => .ok { o with locale := value }
    | .timeout =>
      match readSeconds? value with
      | some seconds => .ok { o with timeout := seconds }
      | none => .error .valueValidation

end Options

/-! ## Reading arguments -/

/-- **What an argument looks like** before its place is considered. -/
inductive ArgumentShape where
  /-- Two hyphens and nothing else. -/
  | separator
  /-- Two hyphens and a name, with a value behind an equals sign or not. -/
  | long (name : String) (value : Option String)
  /-- One hyphen and letters, of which this is the first. -/
  | short (letter : Char)
  /-- Anything else. -/
  | plain (text : String)
deriving DecidableEq

namespace ArgumentShape

/-- The shape of an argument. -/
def of (argument : String) : ArgumentShape :=
  match argument.toList with
  | ['-', '-'] => separator
  | '-' :: '-' :: rest =>
    long (String.ofList (rest.takeWhile (· ≠ '=')))
      (match rest.dropWhile (· ≠ '=') with
        | [] => none
        | _ :: value => some (String.ofList value))
  | '-' :: letter :: _ => short letter
  | _ => plain argument

end ArgumentShape

/-- **How far reading has come.** -/
structure Reading where
  /-- The options settled so far. -/
  options : Options
  /-- The names of those. -/
  given : List OptionName
  /-- An option that is not settled, and its value if that has come. -/
  pending : Option (OptionName × Option String)
deriving DecidableEq

namespace Reading

/-- Before the first argument. -/
def start : Reading := ⟨.default, [], none⟩

/-- A value settled at once. -/
def settle (r : Reading) (name : OptionName) (value : String) : Except UsageError Reading := do
  let options ← r.options.settle r.given name value
  return { r with options := options, given := name :: r.given }

/-- **The pending option settled.** Without a value it is an error. -/
def settlePending (r : Reading) : Except UsageError Reading :=
  match r.pending with
  | none => .ok r
  | some (_, none) => .error .invalidValue
  | some (name, some value) => { r with pending := none }.settle name value

/-- An option begins. -/
def beginOption (r : Reading) (name : String) (value : Option String) :
    Except UsageError Reading :=
  match OptionName.ofName? name, value with
  | some option, none => do
    let r ← r.settlePending
    return { r with pending := some (option, none) }
  | some option, some value => do
    let r ← r.settlePending
    r.settle option value
  | none, value =>
    if name = "help" then
      if value.isSome then .error .tooManyValues
      else r.settlePending.bind fun _ => .error .displayHelp
    else .error .unknownArgument

/-- **Reads the arguments that are left.** Behind a separator nothing may
follow, since the command takes no plain arguments. -/
def readAll (r : Reading) : List String → Except UsageError Reading
  | [] => r.settlePending
  | argument :: rest =>
    match ArgumentShape.of argument with
    | .separator => if rest.isEmpty then r.settlePending else .error .unknownArgument
    | .long name value => do readAll (← r.beginOption name value) rest
    | .short letter =>
      if letter = 'h' then r.settlePending.bind fun _ => .error .displayHelp
      else .error .unknownArgument
    | .plain text =>
      match r.pending with
      | some (option, none) => readAll { r with pending := some (option, some text) } rest
      | _ => .error .unknownArgument

end Reading

/-- **The options that a command line gives.** -/
def Options.read (arguments : List String) : Except UsageError Options :=
  (Reading.start.readAll arguments).map (·.options)

end FontCatalog.CommandLine
