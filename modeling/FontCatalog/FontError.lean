import FontCatalog.Sfnt.Font

/-!
# What can go wrong with sets of fonts

Every operation that can fail says why as a `FontError`. Its wording is
`FontError.message` and nowhere else; an error of reading font data keeps
its own cause, which `FontError.cause?` gives.
-/

namespace FontCatalog

/-- **Why an operation on fonts failed.** -/
inductive FontError where
  /-- Fonts cannot be loaded from memory here. -/
  | unsupported
  /-- The data of a file is not font data. -/
  | unreadable (name : String) (error : ReadError)
  /-- A loader was registered already. -/
  | alreadyRegistered
  /-- The loader of a file is not registered. -/
  | notRegistered (name : String)
  /-- A set of fonts is built once only. -/
  | alreadyBuilt
  /-- The range of a source is not a range of its owner's bytes. -/
  | outOfBounds (name : String) (start stop length : Nat)
  /-- The data of a file is needed and is not there. -/
  | notLocal (name : String)
  /-- The data of a file was asked for in vain. -/
  | fetchFailed (name reason : String)
deriving DecidableEq

namespace FontError

/-- What is said of the error. -/
def message : FontError → String
  | unsupported => "in-memory font loading is not supported by this backend"
  | unreadable name error =>
    "failed to parse font data from '" ++ name ++ "': " ++ error.message
  | alreadyRegistered => "font file loader is already registered"
  | notRegistered name => "font file loader for '" ++ name ++ "' is not registered"
  | alreadyBuilt => "font set has already been built"
  | outOfBounds name start stop length =>
    "source '" ++ name ++ "' range " ++ toString start ++ ".." ++ toString stop
      ++ " is outside its " ++ toString length ++ "-byte owner"
  | notLocal name => "font data for '" ++ name ++ "' is not local"
  | fetchFailed name reason => "failed to fetch font data for '" ++ name ++ "': " ++ reason

/-- The cause behind the error, if it has one. -/
def cause? : FontError → Option String
  | unreadable _ error => some error.message
  | _ => none

end FontError

end FontCatalog
